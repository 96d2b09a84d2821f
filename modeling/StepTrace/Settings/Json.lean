import StepTrace.Json.Record
import StepTrace.Settings

/-!
# Settings as data

Settings as a tree of sections, which is what the readers of all formats give. A section or a field
that is left out has its usual value. An array stands for a section by the order of its fields; the
formats differ in whether it may be longer than that (`exact`).
-/

set_option autoImplicit false

namespace StepTrace

/-- The values of the fields of a section. -/
def Json.section? (exact : Bool) (names : List String) (j : Json) : Option (List (Option Json)) :=
  match j with
  | .array items =>
    (Json.array (if exact then items else items.take names.length)).openFields? names
  | j => j.openFields? names

namespace LaunchSettings

/-- Launch settings as data. -/
def toJson (s : LaunchSettings) : Json :=
  .object [("executable", .ofOption .string s.executable), ("args", .ofStrings s.args)]

/-- The launch settings that data describes. -/
def ofJson? (exact : Bool) (j : Json) : Option LaunchSettings :=
  match j.section? exact ["executable", "args"] with
  | some [executable, args] => do
    let executable ← Json.defaulted? none (Json.optional? Json.string?) executable
    let args ← Json.defaulted? [] (Json.list? Json.string?) args
    return ⟨executable, args⟩
  | _ => none

end LaunchSettings

/-- The entry that a member of an object stands for. -/
def Environment.entryOfMember? (m : String × Json) : Option (String × String) :=
  m.2.string?.map fun value => (m.1, value)

/-- An environment as data. -/
def Environment.toJson (env : Environment) : Json :=
  .object (env.entries.map fun e => (e.1, .string e.2))

/-- The environment that data describes; of two members with one name the later counts. -/
def Environment.ofJson? : Json → Option Environment
  | .object members => (members.mapM entryOfMember?).map ofList
  | _ => none

namespace SessionSettings

/-- The names of the fields of session settings. -/
def fieldNames : List String :=
  ["drain_grace_ms", "transcript_limit", "eager_languages", "working_directory", "environment",
    "inherit_env"]

/-- Session settings as data. -/
def toJson (s : SessionSettings) : Json :=
  .object [("drain_grace_ms", .ofNat s.drainGrace), ("transcript_limit", .ofNat s.transcriptLimit),
    ("eager_languages", .ofStrings s.eagerLanguages),
    ("working_directory", .ofOption .string s.workingDirectory),
    ("environment", s.environment.toJson), ("inherit_env", .bool s.inheritEnv)]

/-- The session settings that data describes. -/
def ofJson? (exact : Bool) (j : Json) : Option SessionSettings :=
  match j.section? exact fieldNames with
  | some [grace, limit, eager, directory, environment, inherit] => do
    let grace ← Json.defaulted? default.drainGrace Json.word? grace
    let limit ← Json.defaulted? default.transcriptLimit Json.word? limit
    let eager ← Json.defaulted? [] (Json.list? Json.string?) eager
    let directory ← Json.defaulted? none (Json.optional? Json.string?) directory
    let environment ← Json.defaulted? .empty Environment.ofJson? environment
    let inherit ← Json.defaulted? true Json.bool? inherit
    return ⟨grace, limit, eager, directory, environment, inherit⟩
  | _ => none

end SessionSettings

namespace Settings

/-- The level of logging as data. -/
def logLevelToJson (level : String) : Json := .object [("level", .string level)]

/-- The level of logging that data describes. -/
def logLevelOfJson? (exact : Bool) (j : Json) : Option String :=
  match j.section? exact ["level"] with
  | some [level] => Json.defaulted? usualLogLevel Json.string? level
  | _ => none

/-- Settings as data. -/
def toJson (s : Settings) : Json :=
  .object [("python", s.python.toJson), ("powershell", s.powershell.toJson),
    ("shell", s.shell.toJson), ("session", s.session.toJson),
    ("logging", logLevelToJson s.logLevel)]

/-- The settings that data describes. -/
def ofJson? (exact : Bool) (j : Json) : Option Settings :=
  match j.section? exact ["python", "powershell", "shell", "session", "logging"] with
  | some [python, powershell, shell, session, logging] => do
    let python ← Json.defaulted? .unset (LaunchSettings.ofJson? exact) python
    let powershell ← Json.defaulted? .unset (LaunchSettings.ofJson? exact) powershell
    let shell ← Json.defaulted? .unset (LaunchSettings.ofJson? exact) shell
    let session ← Json.defaulted? .default (SessionSettings.ofJson? exact) session
    let logLevel ← Json.defaulted? usualLogLevel (logLevelOfJson? exact) logging
    return ⟨python, powershell, shell, session, logLevel⟩
  | _ => none

end Settings

end StepTrace
