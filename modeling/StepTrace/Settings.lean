import StepTrace.Environment
import StepTrace.Language
import StepTrace.Text.Blank

/-!
# Settings

How interpreters are launched, how their sessions behave and how much is logged. `Settings.merge`
lays the settings of a user over others.
-/

set_option autoImplicit false

namespace StepTrace

/-- How one interpreter is launched. -/
structure LaunchSettings where
  /-- The program; searched for if there is none. -/
  executable : Option String
  /-- The arguments; the interpreter's usual ones if there are none. -/
  args : List String
  deriving DecidableEq, Inhabited

namespace LaunchSettings

/-- Nothing is chosen. -/
def unset : LaunchSettings := ⟨none, []⟩

/-- The arguments, or others if there are none. -/
def argsOr (s : LaunchSettings) (usual : List String) : List String :=
  if s.args.isEmpty then usual else s.args

/-- Launch settings laid over others. -/
def merge (base overlay : LaunchSettings) : LaunchSettings :=
  ⟨overlay.executable <|> base.executable,
    if overlay.args.isEmpty then base.args else overlay.args⟩

end LaunchSettings

/-- How sessions behave. -/
structure SessionSettings where
  /-- How long, in milliseconds, late lines are waited for after the end of a submission. -/
  drainGrace : Nat
  /-- How many bytes of the output are kept. -/
  transcriptLimit : Nat
  /-- The languages whose sessions start at once. -/
  eagerLanguages : List String
  workingDirectory : Option String
  environment : Environment
  /-- Whether interpreters see the environment of this program. -/
  inheritEnv : Bool
  deriving DecidableEq, Inhabited

namespace SessionSettings

/-- The settings of a session for which nothing is chosen. -/
def default : SessionSettings := ⟨150, 1048576, [], none, .empty, true⟩

/-- Session settings laid over others. Numbers and truth values always come from the overlay. -/
def merge (base overlay : SessionSettings) : SessionSettings where
  drainGrace := overlay.drainGrace
  transcriptLimit := overlay.transcriptLimit
  eagerLanguages :=
    if overlay.eagerLanguages.isEmpty then base.eagerLanguages else overlay.eagerLanguages
  workingDirectory := overlay.workingDirectory <|> base.workingDirectory
  environment := base.environment.merge overlay.environment
  inheritEnv := overlay.inheritEnv

end SessionSettings

/-- Everything that can be chosen. -/
structure Settings where
  python : LaunchSettings
  powershell : LaunchSettings
  shell : LaunchSettings
  session : SessionSettings
  /-- Which messages are logged. -/
  logLevel : String
  deriving DecidableEq, Inhabited

namespace Settings

/-- The level of logging that is used if none is chosen. -/
def usualLogLevel : String := "warn"

/-- The settings if nothing is chosen. -/
def default : Settings := ⟨.unset, .unset, .unset, .default, usualLogLevel⟩

/-- How the interpreter of a language is launched. -/
def launch (s : Settings) : Language → LaunchSettings
  | .python => s.python
  | .powershell => s.powershell
  | .shell => s.shell

/-- The languages whose sessions start at once; unknown names are passed over. -/
def eagerLanguages (s : Settings) : List Language :=
  s.session.eagerLanguages.filterMap Language.ofName?

/-- Settings laid over others. A blank level of logging chooses nothing. -/
def merge (base overlay : Settings) : Settings where
  python := base.python.merge overlay.python
  powershell := base.powershell.merge overlay.powershell
  shell := base.shell.merge overlay.shell
  session := base.session.merge overlay.session
  logLevel :=
    if Text.allBlank overlay.logLevel.toList then base.logLevel else overlay.logLevel

end Settings

end StepTrace
