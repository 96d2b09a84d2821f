import StepTrace.Host.Program
import StepTrace.Text.Line

/-!
# Diagnostics

What a machine offers to run code with: the interpreter of each language, where it is, and which
version it says it is.
-/

set_option autoImplicit false

namespace StepTrace

/-- What was found out about the interpreter of a language. -/
structure RuntimeInfo where
  language : Language
  /-- The name of its adapter. -/
  adapter : Option String
  path : Option String
  version : Option String
  /-- What could not be found out. -/
  error : Option String
  deriving DecidableEq, Repr, Inhabited

/-- What was found out about a machine. -/
structure SystemInfo where
  os : String
  family : String
  arch : String
  /-- The version of this program. -/
  version : String
  runtimes : List RuntimeInfo
  deriving DecidableEq, Repr, Inhabited

namespace Diagnostics

/-- The version of this program. -/
def version : String := "0.3.0"

/-- The first line of two outputs that is not blank, without the blanks around it. -/
def firstLine? (stdout stderr : List Char) : Option (List Char) :=
  ((Text.lines stdout ++ Text.lines stderr).map Text.trim).find? fun l => !l.isEmpty

/-- The version that a program says it is. -/
def versionOf (h : Host) (path : String) : Except String String :=
  match h.launch? path ["--version"] 1 0 with
  | none => .error "the program cannot be started"
  | some program =>
    let outcome := program.runToEnd []
    match firstLine? (Host.Bytes.text outcome.stdout) (Host.Bytes.text outcome.stderr) with
    | some line => .ok (String.ofList line)
    | none => .error "no version output"

/-- What can be found out about the interpreter of a language. -/
def runtimeOf (h : Host) (settings : Settings) (l : Language) : RuntimeInfo :=
  match h.adapterFor l settings with
  | .error f => ⟨l, none, none, none, some f.message⟩
  | .ok adapter =>
    let path := adapter.launch.program
    match versionOf h path with
    | .ok v => ⟨l, some adapter.name, some path, some v, none⟩
    | .error e => ⟨l, some adapter.name, some path, none, some e⟩

/-- What can be found out about the interpreters of all languages. -/
def runtimes (h : Host) (settings : Settings) : List RuntimeInfo :=
  Language.all.map (runtimeOf h settings)

end Diagnostics

/-- What was found out about an interpreter, on one line. -/
def RuntimeInfo.text (r : RuntimeInfo) : String :=
  let found := match r.path, r.version with
    | some path, some version => path ++ " (" ++ version ++ ")"
    | some path, none => path
    | none, _ => "not available"
  let via := match r.adapter with
    | some adapter => " via " ++ adapter
    | none => ""
  let trouble := match r.error with
    | some error => " [" ++ error ++ "]"
    | none => ""
  r.language.id ++ ": " ++ found ++ via ++ trouble

/-- What was found out about a machine, line by line. -/
def SystemInfo.text (i : SystemInfo) : String :=
  let head := ["linecast " ++ i.version,
    "OS: " ++ i.os ++ " (" ++ i.family ++ ", " ++ i.arch ++ ")"]
  String.join ((head ++ i.runtimes.map RuntimeInfo.text).map fun l => l ++ "\n")

end StepTrace
