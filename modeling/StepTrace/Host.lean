import StepTrace.Environment
import StepTrace.Host.Disk
import StepTrace.Platform

/-!
# Hosts

The machine as the program sees it: files, a working directory and an environment. A command is
found by its path, or by its name in the directories of the search path. `adapterFor` picks the
interpreter of a language.
-/

set_option autoImplicit false

namespace StepTrace

/-- A machine. -/
structure Host where
  disk : Host.Disk
  /-- The names on the way from the root to the working directory. -/
  directory : List String
  environment : Environment
  deriving Inhabited

namespace Host

/-- The working directory as a path. -/
def directoryPath (h : Host) : String := Path.ofNames h.directory

/-- The directory of the user, that of the superuser if no other is known. -/
def home (h : Host) : String :=
  match h.environment.get? "HOME" with
  | some path => if path.isEmpty then "/root" else path
  | none => "/root"

/-- The directories of the search path; an empty one is the working directory. -/
def searchDirectories (h : Host) : List String :=
  match h.environment.get? "PATH" with
  | none => []
  | some path => (Text.pieces (· == ':') path.toList).map String.ofList

/-- A directory in which a tilde that is its whole first part stands for that of the user. -/
def expandTilde (h : Host) (directory : String) : String :=
  if (Path.pieces directory).head? = some ['~'] then
    (Path.names directory).tail.foldl Path.join h.home
  else directory

/-- The file that a command's path means, or its name in the first of some directories that has
it. -/
def findIn? (h : Host) (directories : List String) (command : String) : Option String :=
  if command.contains '/' then
    if h.disk.isExecutable h.directory command then some command else none
  else if command.isEmpty then none
  else (directories.map fun d => Path.join d command).find? (h.disk.isExecutable h.directory)

/-- The file that a command's name or path means. -/
def findCommand? (h : Host) (command : String) : Option String :=
  h.findIn? (h.searchDirectories.map h.expandTilde) command

/-- The machine as programs are looked for on it. -/
def platform (h : Host) : Platform := ⟨.unix, h.findCommand?⟩

/-- The program of an interpreter: the chosen one and no other, or else the first candidate that is
there. -/
def resolve (h : Host) (language : Language) (launch : LaunchSettings) (candidates : List String) :
    Except Failure String :=
  h.platform.resolve language launch candidates

/-- The adapter of a language. -/
def adapterFor (h : Host) (language : Language) (settings : Settings) : Except Failure Adapter :=
  h.platform.adapterFor language settings

end Host

end StepTrace
