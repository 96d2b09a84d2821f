import StepTrace.Host.Path

/-!
# Disks

A disk holds files and directories under absolute paths. A file is data, or one of the tools that
every machine has. A path is looked up from a working directory; every name in it but the last has
to be that of a directory.
-/

set_option autoImplicit false

namespace StepTrace.Host

/-- What a file holds. Data is a list of characters that stand for bytes. -/
inductive Content where
  | data (bytes : List Char)
  | tool (name : String)
  deriving DecidableEq, Repr, Inhabited

/-- What stands under a path. -/
inductive Entry where
  | file (content : Content) (executable : Bool)
  | directory
  deriving DecidableEq, Repr, Inhabited

/-- Files and directories by the names on the way to them; the root is always there. -/
structure Disk where
  entries : List (List String × Entry)
  deriving DecidableEq, Repr, Inhabited

namespace Disk

/-- What stands at a place. -/
def at? (d : Disk) (place : List String) : Option Entry :=
  if place.isEmpty then some .directory
  else (d.entries.find? fun e => e.1 == place).map Prod.snd

/-- Whether a directory stands at a place. -/
def isDirectoryAt (d : Disk) (place : List String) : Bool := d.at? place == some .directory

/-- The place that names lead to from another place. -/
def follow (d : Disk) (place : List String) : List String → Option (List String)
  | [] => some place
  | name :: rest =>
    if d.isDirectoryAt place then
      d.follow (if name = ".." then place.dropLast else place ++ [name]) rest
    else none

/-- The place that a path means, whether anything stands there or not. No path holds the character
zero. -/
def locate (d : Disk) (directory : List String) (path : String) : Option (List String) :=
  if path.isEmpty || path.contains '\x00' then none
  else d.follow (if Path.isAbsolute path then [] else directory) (Path.names path)

/-- What stands under a path. -/
def find? (d : Disk) (directory : List String) (path : String) : Option Entry := do
  let entry ← d.at? (← d.locate directory path)
  if Path.endsInSlash path && entry != .directory then none
  return entry

/-- Whether a file stands under a path. -/
def isFile (d : Disk) (directory : List String) (path : String) : Bool :=
  match d.find? directory path with
  | some (.file _ _) => true
  | _ => false

/-- Whether a directory stands under a path. -/
def isDirectory (d : Disk) (directory : List String) (path : String) : Bool :=
  d.find? directory path == some .directory

/-- Whether a file that may be executed stands under a path. -/
def isExecutable (d : Disk) (directory : List String) (path : String) : Bool :=
  match d.find? directory path with
  | some (.file _ executable) => executable
  | _ => false

/-- The bytes of the file under a path. -/
def read? (d : Disk) (directory : List String) (path : String) : Option (List Char) :=
  match d.find? directory path with
  | some (.file (.data bytes) _) => some bytes
  | some (.file (.tool name) _) => some name.toList
  | _ => none

/-- The disk with something else at a place. -/
def put (d : Disk) (place : List String) (entry : Entry) : Disk :=
  if (d.at? place).isSome then
    ⟨d.entries.map fun e => if e.1 == place then (place, entry) else e⟩
  else ⟨d.entries ++ [(place, entry)]⟩

/-- The disk without a place. -/
def remove (d : Disk) (place : List String) : Disk :=
  ⟨d.entries.filter fun e => e.1 != place⟩

/-- The disk after a file is written. A file that was there stays executable if it was. -/
def write? (d : Disk) (directory : List String) (path : String) (bytes : List Char) :
    Option Disk := do
  let place ← d.locate directory path
  if Path.endsInSlash path || !d.isDirectoryAt place.dropLast then none
  match d.at? place with
  | some .directory => none
  | some (.file _ executable) => return d.put place (.file (.data bytes) executable)
  | none => return d.put place (.file (.data bytes) false)

/-- The disk after the missing directories on the way along some names are made. -/
def makeWay (d : Disk) (place : List String) : List String → Option Disk
  | [] => if d.isDirectoryAt place then some d else none
  | name :: rest =>
    if !d.isDirectoryAt place then none
    else
      let next := if name = ".." then place.dropLast else place ++ [name]
      match d.at? next with
      | none => (d.put next .directory).makeWay next rest
      | some _ => d.makeWay next rest

/-- The disk after a directory and those that it stands in are made. -/
def makeDirectories (d : Disk) (directory : List String) (path : String) : Option Disk :=
  if path.contains '\x00' then none
  else d.makeWay (if Path.isAbsolute path then [] else directory) (Path.names path)

/-- The disk with a file or directory and the directories that it stands in. -/
def install (d : Disk) (place : List String) (entry : Entry) : Disk :=
  ((d.makeWay [] place.dropLast).getD d).put place entry

/-- The names in a directory. -/
def namesIn (d : Disk) (place : List String) : List String :=
  (d.entries.filter fun e => e.1.length = place.length + 1 && e.1.dropLast == place).filterMap
    fun e => e.1.getLast?

end Disk

end StepTrace.Host
