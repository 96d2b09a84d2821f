import Mathlib.Data.List.Basic
import StepTrace.Proofs.Json.Spelling
import StepTrace.Settings.File

/-!
# Settings survive their data

Settings are written as data in two ways: with null for what is not chosen (`Settings.toJson`), or
without a field for it (`Settings.sparse`), as a format without null has to. Both describe the
settings again. Laid over the usual settings they stay what they are, but for a blank level of
logging (`Settings.merge_default`).
-/

set_option autoImplicit false

namespace StepTrace

/-! ## Fields -/

namespace Json

theorem mapM_string? (items : List String) :
    (items.map Json.string).mapM string? = some items := by
  induction items with
  | nil => rfl
  | cons s items ih => simp [ih, string?]

/-- A list of strings describes them. -/
theorem list?_ofStrings (items : List String) : list? string? (ofStrings items) = some items :=
  mapM_string? items

theorem optional?_ofOption (s : Option String) :
    optional? string? (ofOption .string s) = some s := by
  cases s <;> rfl

/-- A field that is left out for want of a value has none. -/
theorem defaulted?_map_string (s : Option String) :
    defaulted? none (optional? string?) (s.map .string) = some s := by
  cases s <;> rfl

theorem word?_ofNat {n : Nat} (h : n < Text.wordBound) : (ofNat n).word? = some n := by
  simp [word?, natural?, ofNat, h]

theorem arePlain_map_string (items : List String) : arePlain (items.map .string) = true := by
  induction items with
  | nil => rfl
  | cons s items ih => exact ih

end Json

/-- The entries of an environment are the members of its data. -/
theorem Environment.ofJson?_toJson (env : Environment) : ofJson? env.toJson = some env := by
  have hentries : ∀ entries : List (String × String),
      (entries.map fun e => (e.1, Json.string e.2)).mapM entryOfMember? = some entries := by
    intro entries
    induction entries with
    | nil => rfl
    | cons e entries ih => simp [ih, entryOfMember?, Json.string?]
  simp [toJson, ofJson?, hentries, ofList_entries]

theorem Environment.isPlain_toJson (env : Environment) : env.toJson.isPlain = true := by
  have hentries : ∀ entries : List (String × String),
      Json.havePlain (entries.map fun e => (e.1, Json.string e.2)) = true := by
    intro entries
    induction entries with
    | nil => rfl
    | cons e entries ih => exact ih
  exact hentries env.entries

/-! ## Sections -/

namespace LaunchSettings

/-- Launch settings as data, without a field for an executable that is not chosen. -/
def sparse (s : LaunchSettings) : Json :=
  .object (Chunk.member? "executable" (s.executable.map .string) ++ [("args", .ofStrings s.args)])

theorem ofJson?_toJson (exact : Bool) (s : LaunchSettings) : ofJson? exact s.toJson = some s := by
  have hsection : s.toJson.section? exact ["executable", "args"] =
      some [some (.ofOption .string s.executable), some (.ofStrings s.args)] := rfl
  rw [ofJson?, hsection]
  simp [Json.defaulted?, Json.optional?_ofOption, Json.list?_ofStrings]

theorem ofJson?_sparse (exact : Bool) (s : LaunchSettings) : ofJson? exact s.sparse = some s := by
  have hsection : s.sparse.section? exact ["executable", "args"] =
      some [s.executable.map .string, some (.ofStrings s.args)] := by
    rcases s with ⟨_ | executable, args⟩ <;> rfl
  rw [ofJson?, hsection]
  simp only [Json.defaulted?_map_string]
  simp [Json.defaulted?, Json.list?_ofStrings]

theorem isPlain_toJson (s : LaunchSettings) : s.toJson.isPlain = true := by
  obtain ⟨executable, args⟩ := s
  have hargs : (Json.ofStrings args).isPlain = true := Json.arePlain_map_string args
  cases executable <;> simp [toJson, Json.isPlain, Json.havePlain, Json.ofOption, hargs]

end LaunchSettings

namespace SessionSettings

/-- Whether the numbers of session settings are machine words. -/
def Fits (s : SessionSettings) : Prop :=
  s.drainGrace < Text.wordBound ∧ s.transcriptLimit < Text.wordBound

/-- Session settings as data, without a field for a working directory that is not chosen. -/
def sparse (s : SessionSettings) : Json :=
  .object ([("drain_grace_ms", .ofNat s.drainGrace), ("transcript_limit", .ofNat s.transcriptLimit),
    ("eager_languages", .ofStrings s.eagerLanguages)] ++
    Chunk.member? "working_directory" (s.workingDirectory.map .string) ++
    [("inherit_env", .bool s.inheritEnv), ("environment", s.environment.toJson)])

theorem ofJson?_toJson (exact : Bool) (s : SessionSettings) (h : s.Fits) :
    ofJson? exact s.toJson = some s := by
  have hsection : s.toJson.section? exact fieldNames =
      some [some (.ofNat s.drainGrace), some (.ofNat s.transcriptLimit),
        some (.ofStrings s.eagerLanguages), some (.ofOption .string s.workingDirectory),
        some s.environment.toJson, some (.bool s.inheritEnv)] := rfl
  rw [ofJson?, hsection]
  simp [Json.defaulted?, Json.word?_ofNat h.1, Json.word?_ofNat h.2, Json.optional?_ofOption,
    Json.list?_ofStrings, Environment.ofJson?_toJson, Json.bool?]

theorem ofJson?_sparse (exact : Bool) (s : SessionSettings) (h : s.Fits) :
    ofJson? exact s.sparse = some s := by
  have hsection : s.sparse.section? exact fieldNames =
      some [some (.ofNat s.drainGrace), some (.ofNat s.transcriptLimit),
        some (.ofStrings s.eagerLanguages), s.workingDirectory.map .string,
        some s.environment.toJson, some (.bool s.inheritEnv)] := by
    rcases s with ⟨grace, limit, eager, _ | directory, environment, inherit⟩ <;> rfl
  rw [ofJson?, hsection]
  simp only [Json.defaulted?_map_string]
  simp [Json.defaulted?, Json.word?_ofNat h.1, Json.word?_ofNat h.2, Json.list?_ofStrings,
    Environment.ofJson?_toJson, Json.bool?]

theorem isPlain_toJson (s : SessionSettings) : s.toJson.isPlain = true := by
  obtain ⟨grace, limit, eager, directory, environment, inherit⟩ := s
  have heager : (Json.ofStrings eager).isPlain = true := Json.arePlain_map_string eager
  cases directory <;>
    simp [toJson, Json.isPlain, Json.havePlain, Json.ofOption, Json.ofNat, heager,
      Environment.isPlain_toJson]

end SessionSettings

namespace Settings

/-- Settings as data, without fields for what is not chosen. -/
def sparse (s : Settings) : Json :=
  .object [("python", s.python.sparse), ("powershell", s.powershell.sparse),
    ("shell", s.shell.sparse), ("session", s.session.sparse),
    ("logging", logLevelToJson s.logLevel)]

theorem logLevelOfJson?_toJson (exact : Bool) (level : String) :
    logLevelOfJson? exact (logLevelToJson level) = some level := rfl

/-- The data of settings describes them. -/
theorem ofJson?_toJson (exact : Bool) (s : Settings) (h : s.session.Fits) :
    ofJson? exact s.toJson = some s := by
  have hsection : s.toJson.section? exact ["python", "powershell", "shell", "session", "logging"] =
      some [some s.python.toJson, some s.powershell.toJson, some s.shell.toJson,
        some s.session.toJson, some (logLevelToJson s.logLevel)] := rfl
  rw [ofJson?, hsection]
  simp [Json.defaulted?, LaunchSettings.ofJson?_toJson, SessionSettings.ofJson?_toJson exact _ h,
    logLevelOfJson?_toJson]

/-- So does their data without fields for what is not chosen. -/
theorem ofJson?_sparse (exact : Bool) (s : Settings) (h : s.session.Fits) :
    ofJson? exact s.sparse = some s := by
  have hsection : s.sparse.section? exact ["python", "powershell", "shell", "session", "logging"] =
      some [some s.python.sparse, some s.powershell.sparse, some s.shell.sparse,
        some s.session.sparse, some (logLevelToJson s.logLevel)] := rfl
  rw [ofJson?, hsection]
  simp [Json.defaulted?, LaunchSettings.ofJson?_sparse, SessionSettings.ofJson?_sparse exact _ h,
    logLevelOfJson?_toJson]

theorem isPlain_toJson (s : Settings) : s.toJson.isPlain = true := by
  simp [toJson, Json.isPlain, Json.havePlain, LaunchSettings.isPlain_toJson,
    SessionSettings.isPlain_toJson, logLevelToJson]

end Settings

/-! ## Over the usual settings -/

theorem LaunchSettings.merge_unset (s : LaunchSettings) : unset.merge s = s := by
  rcases s with ⟨_ | executable, _ | ⟨arg, args⟩⟩ <;> rfl

theorem SessionSettings.merge_default (s : SessionSettings) : default.merge s = s := by
  rcases s with ⟨grace, limit, _ | ⟨name, names⟩, _ | directory, environment, inherit⟩ <;>
    simp [default, merge, Environment.merge_empty]

namespace Settings

/-- Settings with the usual level of logging in place of a blank one. -/
def leveled (s : Settings) : Settings :=
  { s with
    logLevel := if Text.allBlank s.logLevel.toList then usualLogLevel else s.logLevel }

/-- Laid over the usual settings, settings change in nothing but a blank level of logging. -/
theorem merge_default (s : Settings) : default.merge s = s.leveled := by
  simp [default, merge, leveled, LaunchSettings.merge_unset, SessionSettings.merge_default]

theorem leveled_eq_self {s : Settings} (h : Text.allBlank s.logLevel.toList = false) :
    s.leveled = s := by
  rw [leveled, h]
  rfl

/-- The level of logging is nothing that settings could be refused for. -/
theorem validate_leveled (host : Host) (s : Settings) :
    s.leveled.validate host = s.validate host := rfl

end Settings

end StepTrace
