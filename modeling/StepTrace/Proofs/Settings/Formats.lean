import StepTrace.Proofs.Settings.Data
import StepTrace.Proofs.Toml.Document

/-!
# Settings survive their formats

A text that settings are written as describes them in both formats (`Settings.parse?_write`). In
TOML the tables follow one another with blank lines between them, and the environment stands within
the table of the session (`Toml.parse?_toToml`).
-/

set_option autoImplicit false

namespace StepTrace

/-! ## Lines -/

namespace Toml

namespace Field

/-- A line for a text. -/
def ofString (name s : String) : Field := ⟨name, quote s.toList, .string s, writes_quote s⟩

/-- A line for several texts. -/
def ofStrings (name : String) (items : List String) : Field :=
  ⟨name, strings items, .ofStrings items, writes_strings items⟩

/-- A line for a truth value. -/
def ofBool (name : String) (b : Bool) : Field := ⟨name, truth b, .bool b, writes_truth b⟩

/-- A line for a machine word. -/
def ofWord (name : String) (n : Nat) (h : n < Text.wordBound) : Field :=
  ⟨name, Text.digits n, .ofNat n,
    writes_digits (Nat.lt_trans h (Nat.pow_lt_pow_right (by decide) (by decide)))⟩

end Field

end Toml

open Toml (Field table)

/-! ## Tables -/

namespace LaunchSettings

/-- The lines of launch settings. -/
def fields (s : LaunchSettings) : List Field :=
  (s.executable.map (Field.ofString "executable")).toList ++ [.ofStrings "args" s.args]

theorem tomlLines_eq (s : LaunchSettings) : s.tomlLines = s.fields.map Field.line := by
  rcases s with ⟨_ | executable, args⟩ <;> rfl

theorem nodup_fields (s : LaunchSettings) : (s.fields.map Field.name).Nodup := by
  rcases s with ⟨_ | executable, args⟩ <;>
    simp [fields, Field.ofString, Field.ofStrings]

theorem toJson_table (s : LaunchSettings) : (table s.fields).toJson = s.sparse := by
  rw [Toml.toJson_table]
  rcases s with ⟨_ | executable, args⟩ <;> rfl

end LaunchSettings

namespace Environment

/-- The lines of an environment. -/
def fields (env : Environment) : List Field := env.entries.map fun e => .ofString e.1 e.2

theorem tomlLines_eq (env : Environment) : env.tomlLines = env.fields.map Field.line := by
  simp [tomlLines, fields, Field.line, Field.ofString]

theorem nodup_fields (env : Environment) : (env.fields.map Field.name).Nodup := by
  have hnames : env.fields.map Field.name = env.entries.map Prod.fst := by
    simp [fields, Field.ofString]
  rw [hnames, List.Nodup, List.pairwise_map]
  refine List.Pairwise.imp (fun {a b} hlt heq => ?_) env.ordered
  rw [heq] at hlt
  exact String.lt_irrefl b.1 hlt

theorem toJson_table (env : Environment) : (table env.fields).toJson = env.toJson := by
  simp [Toml.toJson_table, fields, Field.ofString, toJson]

end Environment

namespace SessionSettings

/-- The lines of session settings other than the environment. -/
def fields (s : SessionSettings) (h : s.Fits) : List Field :=
  [.ofWord "drain_grace_ms" s.drainGrace h.1, .ofWord "transcript_limit" s.transcriptLimit h.2,
    .ofStrings "eager_languages" s.eagerLanguages] ++
    (s.workingDirectory.map (Field.ofString "working_directory")).toList ++
    [.ofBool "inherit_env" s.inheritEnv]

theorem tomlLines_eq (s : SessionSettings) (h : s.Fits) :
    s.tomlLines = (s.fields h).map Field.line := by
  rcases s with ⟨grace, limit, eager, _ | directory, environment, inherit⟩ <;> rfl

/-- The names of the lines, and that of the table among them. -/
theorem nodup_fields (s : SessionSettings) (h : s.Fits) :
    ((s.fields h).map Field.name ++ ["environment"]).Nodup := by
  rcases s with ⟨grace, limit, eager, _ | directory, environment, inherit⟩ <;>
    simp [fields, Field.ofString, Field.ofStrings, Field.ofWord, Field.ofBool]

/-- The members of the table of session settings, that of the environment included. -/
def members (s : SessionSettings) (h : s.Fits) : Toml.Members :=
  (s.fields h).map Field.member ++ [("environment", table s.environment.fields)]

theorem toJson_members (s : SessionSettings) (h : s.Fits) :
    (Toml.Node.table false false (s.members h)).toJson = s.sparse := by
  rw [Toml.Node.toJson, members, Toml.membersToJson_eq_map, List.map_append, List.map_map,
    List.map_singleton, Environment.toJson_table]
  rcases s with ⟨grace, limit, eager, _ | directory, environment, inherit⟩ <;> rfl

end SessionSettings

/-! ## Documents -/

namespace Settings

/-- The line of the level of logging. -/
def levelField (s : Settings) : Field := .ofString "level" s.logLevel

/-- What a document of settings holds. -/
def members (s : Settings) (h : s.session.Fits) : Toml.Members :=
  [("python", table s.python.fields), ("powershell", table s.powershell.fields),
    ("shell", table s.shell.fields), ("session", .table false false (s.session.members h)),
    ("logging", table [s.levelField])]

theorem toJson_members (s : Settings) (h : s.session.Fits) :
    Json.object (Toml.membersToJson (s.members h)) = s.sparse := by
  have hlevel : (table [s.levelField]).toJson = logLevelToJson s.logLevel := Toml.toJson_table _
  simp [members, Toml.membersToJson, LaunchSettings.toJson_table, SessionSettings.toJson_members,
    hlevel, sparse]

theorem toToml_eq (s : Settings) (h : s.session.Fits) : s.toToml =
    Toml.titled "python" (s.python.fields.map Field.line) ++ '\n' ::
    (Toml.titled "powershell" (s.powershell.fields.map Field.line) ++ '\n' ::
    (Toml.titled "shell" (s.shell.fields.map Field.line) ++ '\n' ::
    (Toml.titled "session" ((s.session.fields h).map Field.line) ++ '\n' ::
    (Toml.titled "session.environment" (s.session.environment.fields.map Field.line) ++ '\n' ::
    (Toml.titled "logging" ([s.levelField].map Field.line) ++ []))))) := by
  rw [← LaunchSettings.tomlLines_eq, ← LaunchSettings.tomlLines_eq, ← LaunchSettings.tomlLines_eq,
    ← SessionSettings.tomlLines_eq, ← Environment.tomlLines_eq]
  rfl

/-- The tables of a document of settings are read one after the other. -/
theorem leads_toToml (s : Settings) (h : s.session.Fits) :
    Toml.Leads ⟨[], [], s.toToml⟩ ⟨["logging"], s.members h, []⟩ := by
  obtain ⟨hsession, -, hdisjoint⟩ := List.nodup_append.mp (s.session.nodup_fields h)
  have henvironment : "environment" ∉ Toml.names ((s.session.fields h).map Field.member) := by
    intro hmem
    rw [Toml.names, List.map_map] at hmem
    exact hdisjoint _ hmem _ List.mem_cons_self rfl
  -- a blank line follows every table but the last
  rw [toToml_eq s h]
  refine (Toml.leads_titled (by decide) (by simp [Toml.names]) _ s.python.nodup_fields _ _).trans ?_
  refine (Toml.leads_blank _ _ _).trans ?_
  refine (Toml.leads_titled (by decide) (by simp [Toml.names]) _
    s.powershell.nodup_fields _ _).trans ?_
  refine (Toml.leads_blank _ _ _).trans ?_
  refine (Toml.leads_titled (by decide) (by simp [Toml.names]) _ s.shell.nodup_fields _ _).trans ?_
  refine (Toml.leads_blank _ _ _).trans ?_
  refine (Toml.leads_titled (by decide) (by simp [Toml.names]) _ hsession _ _).trans ?_
  refine (Toml.leads_blank _ _ _).trans ?_
  refine (Toml.leads_titled_within "session.environment" "session" "environment" (by decide)
    (by decide) (by decide) (by simp [Toml.names]) henvironment _
    s.session.environment.nodup_fields _ _).trans ?_
  refine (Toml.leads_blank _ _ _).trans ?_
  refine (Toml.leads_titled (by decide) (by simp [Toml.names]) _ (by simp) _ _).trans ?_
  exact Toml.Leads.refl _

/-- The document of settings describes them. -/
theorem parse?_toToml (s : Settings) (h : s.session.Fits) :
    Toml.parse? s.toToml = some s.sparse := by
  have hmark : Toml.dropMark s.toToml = s.toToml := by
    rw [toToml_eq s h]
    rfl
  have hfuel : s.toToml.length < 2 * s.toToml.length + 2 := by omega
  have hread := (s.leads_toToml h).readLines hfuel
  rw [Toml.parse?, hmark]
  rw [hread, Option.map_some, toJson_members]

/-- Settings are what the text that they are written as describes, in both formats. -/
theorem parse?_write (format : SettingsFormat) (s : Settings) (h : s.session.Fits) :
    parse? format (s.write format) = some s := by
  cases format with
  | toml => rw [write, parse?, parse?_toToml s h, Option.bind_some, ofJson?_sparse false s h]
  | json =>
    rw [write, parse?, Json.pretty, String.toList_ofList, Json.parse?_spread s.isPlain_toJson,
      Option.bind_some, ofJson?_toJson true s h]

end Settings

end StepTrace
