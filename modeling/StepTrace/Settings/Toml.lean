import StepTrace.Settings.Json
import StepTrace.Toml.Writer

/-!
# Settings in TOML

The sections of settings one after the other, with a blank line between each two. A field without a
value is left out.
-/

set_option autoImplicit false

namespace StepTrace

/-- A line for a text, or none of it. -/
def Toml.optionalLine (name : String) : Option String → List (List Char)
  | none => []
  | some s => [assignment name (quote s.toList)]

/-- The lines of launch settings. -/
def LaunchSettings.tomlLines (s : LaunchSettings) : List (List Char) :=
  Toml.optionalLine "executable" s.executable ++ [Toml.assignment "args" (Toml.strings s.args)]

/-- The lines of session settings other than the environment. -/
def SessionSettings.tomlLines (s : SessionSettings) : List (List Char) :=
  [Toml.assignment "drain_grace_ms" (Text.digits s.drainGrace),
    Toml.assignment "transcript_limit" (Text.digits s.transcriptLimit),
    Toml.assignment "eager_languages" (Toml.strings s.eagerLanguages)] ++
    Toml.optionalLine "working_directory" s.workingDirectory ++
    [Toml.assignment "inherit_env" (Toml.truth s.inheritEnv)]

/-- The lines of an environment. -/
def Environment.tomlLines (env : Environment) : List (List Char) :=
  env.entries.map fun e => Toml.assignment e.1 (Toml.quote e.2.toList)

/-- Settings as a document. -/
def Settings.toToml (s : Settings) : List Char :=
  List.intercalate ['\n'] [Toml.titled "python" s.python.tomlLines,
    Toml.titled "powershell" s.powershell.tomlLines, Toml.titled "shell" s.shell.tomlLines,
    Toml.titled "session" s.session.tomlLines,
    Toml.titled "session.environment" s.session.environment.tomlLines,
    Toml.titled "logging" [Toml.assignment "level" (Toml.quote s.logLevel.toList)]]

end StepTrace
