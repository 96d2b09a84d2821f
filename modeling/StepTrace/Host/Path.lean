import StepTrace.Text.Pieces

/-!
# Paths

The parts of a path and what can be told from its text alone: the name it ends in, the extension of
that name, the directory before it.
-/

set_option autoImplicit false

namespace StepTrace.Host.Path

/-- The pieces of a path between its slashes, the empty ones included. -/
def pieces (path : String) : List (List Char) := Text.pieces (· == '/') path.toList

/-- The names in a path; empty ones and those that mean the place itself are left out. -/
def names (path : String) : List String :=
  ((pieces path).filter fun p => !p.isEmpty && p != ['.']).map String.ofList

/-- Whether a path starts at the root. -/
def isAbsolute (path : String) : Bool := path.toList.head? == some '/'

/-- Whether a path can only mean a directory, by its text. -/
def endsInSlash (path : String) : Bool :=
  match (pieces path).getLast? with
  | some p => (p.isEmpty || p == ['.']) && !path.isEmpty
  | none => false

/-- The name that a path ends in, if it ends in one. -/
def fileName? (path : String) : Option String :=
  match (names path).getLast? with
  | some ".." => none
  | other => other

/-- What stands after the last point of a name that has more before it. -/
def extensionOf (name : List Char) : Option (List Char) :=
  let after := (name.reverse.takeWhile (· != '.')).reverse
  if after.length = name.length ∨ after.length + 1 = name.length then none else some after

/-- The extension of the name that a path ends in. -/
def extension? (path : String) : Option String :=
  ((fileName? path).bind fun name => extensionOf name.toList).map String.ofList

/-- A path below a directory; an absolute one stands for itself. -/
def join (directory path : String) : String :=
  if isAbsolute path || directory.isEmpty then path
  else if directory.toList.getLast? = some '/' then directory ++ path
  else directory ++ "/" ++ path

/-- An absolute path by its names. -/
def ofNames (names : List String) : String := "/" ++ String.intercalate "/" names

end StepTrace.Host.Path
