import StepTrace.Adapter
import StepTrace.Settings

/-!
# Platforms

What interpreters are called differs between families of operating systems, and so does what becomes
of a PowerShell that is not there. `Platform.adapterFor` picks the interpreter of a language among
the programs that are found on a machine.
-/

set_option autoImplicit false

namespace StepTrace

/-- A family of operating systems. -/
inductive Family where
  | unix
  | windows
  deriving DecidableEq, Repr, Inhabited

namespace Family

/-- The commands that are tried for a language. -/
def candidates : Family → Language → List String
  | .unix, .python => ["python3", "python", "py"]
  | .unix, .powershell => ["pwsh"]
  | .windows, .python => ["python", "py", "python3"]
  | .windows, .powershell => ["powershell.exe", "pwsh"]
  | _, .shell => ["bash", "sh"]

/-- Whether a shell takes the place of a PowerShell that is not there. -/
def replacesPowerShell : Family → Bool
  | .unix => true
  | .windows => false

end Family

/-- The arguments that an interpreter usually gets. -/
def Dialect.usualArgs : Dialect → List String
  | .python => ["-i", "-q", "-u"]
  | .powershell => ["-NoLogo", "-NoProfile", "-Command", "-"]
  | .posix => []

/-- The commands that are tried for an interpreter: the chosen one and no other, or else its
candidates. -/
def LaunchSettings.commands (launch : LaunchSettings) (candidates : List String) : List String :=
  match launch.executable with
  | some executable => [executable]
  | none => candidates

/-- A machine as programs are looked for on it. -/
structure Platform where
  family : Family
  /-- The program that a command means, which is a name or a path. -/
  find? : String → Option String

namespace Platform

/-- The program of an interpreter, which is that of the first command that means one. -/
def resolve (p : Platform) (language : Language) (launch : LaunchSettings)
    (candidates : List String) : Except Failure String :=
  let tried := launch.commands candidates
  match tried.findSome? p.find? with
  | some program => .ok program
  | none => .error (.interpreterNotFound language.id tried)

/-- The adapter of a shell for a language. -/
def shellFor (p : Platform) (language : Language) (settings : Settings) : Except Failure Adapter :=
  (p.resolve language settings.shell (p.family.candidates .shell)).map fun program =>
    .posix language ⟨program, settings.shell.argsOr Dialect.posix.usualArgs⟩

/-- The adapter of a language. -/
def adapterFor (p : Platform) (language : Language) (settings : Settings) :
    Except Failure Adapter :=
  match language with
  | .python =>
    (p.resolve language settings.python (p.family.candidates .python)).map fun program =>
      .python ⟨program, settings.python.argsOr Dialect.python.usualArgs⟩
  | .powershell =>
    match p.resolve language settings.powershell (p.family.candidates .powershell) with
    | .ok program =>
      .ok (.powershell ⟨program, settings.powershell.argsOr Dialect.powershell.usualArgs⟩)
    | .error f =>
      if p.family.replacesPowerShell then p.shellFor language settings else .error f
  | .shell => p.shellFor language settings

end Platform

end StepTrace
