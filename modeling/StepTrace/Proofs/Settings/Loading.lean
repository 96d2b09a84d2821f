import StepTrace.Proofs.Settings.Saving

/-!
# Where settings are loaded from

A search takes the first of its files that settings can be read from, whatever stands in the files
behind it and however the files before it fail (`IsFirst`). `Outcome` lists what loading then comes
to, with the file that is the current one afterwards.

The current file is the one that a later save goes to. `Tracks` says what it should be: the file of
the settings that were loaded, none if these are the usual ones, and the same as before if loading
fails. A load goes by this unless it slips, which it does in two ways (`Outcome.tracks_iff`): a
file counts as the current one before its settings are refused, and the usual settings leave the
file of an earlier load in its place. So after any loads the current file is the last one that
settings were read from (`current_loadAll`).
-/

set_option autoImplicit false

namespace StepTrace

namespace Settings

/-! ## What validation refuses -/

/-- Whether a check fails in no other way than by refusing a field. -/
def Refuses (x : Except Failure Unit) : Prop :=
  ∀ e, x = .error e → ∃ field reason, e = .configValidationFailed field reason

theorem refuses_ok : Refuses (.ok ()) := by
  rintro _ ⟨⟩

theorem refuses_invalid (field reason : String) : Refuses (invalid field reason) := by
  rintro _ ⟨⟩
  exact ⟨field, reason, rfl⟩

theorem Refuses.bind {x : Except Failure Unit} {f : Unit → Except Failure Unit} (hx : Refuses x)
    (hf : Refuses (f ())) : Refuses (x >>= f) := by
  cases x with
  | error e => exact hx
  | ok u => exact hf

theorem Refuses.ite {p : Prop} [Decidable p] {x y : Except Failure Unit} (hx : Refuses x)
    (hy : Refuses y) : Refuses (if p then x else y) := by
  split
  · exact hx
  · exact hy

theorem refuses_checkExecutable (field : String) (launch : LaunchSettings) :
    Refuses (checkExecutable field launch) := (refuses_invalid _ _).ite refuses_ok

theorem refuses_checkLanguages (languages : List String) :
    Refuses (languages.forM checkLanguage) := by
  induction languages with
  | nil => exact refuses_ok
  | cons name languages ih => exact ((refuses_invalid _ _).ite refuses_ok).bind ih

theorem refuses_checkDirectory (h : Host) (directory : Option String) :
    Refuses (checkDirectory h directory) := by
  cases directory with
  | none => exact refuses_ok
  | some path => exact refuses_ok.ite (refuses_invalid _ _)

/-- Every failure of validation names a field and a reason. -/
theorem refuses_validate (h : Host) (s : Settings) : Refuses (s.validate h) := by
  have hrest : Refuses (s.session.eagerLanguages.forM checkLanguage >>= fun _ => do
      checkExecutable "python.executable" s.python
      checkExecutable "powershell.executable" s.powershell
      checkExecutable "shell.executable" s.shell
      checkDirectory h s.session.workingDirectory) :=
    (refuses_checkLanguages _).bind <| (refuses_checkExecutable _ _).bind <|
      (refuses_checkExecutable _ _).bind <| (refuses_checkExecutable _ _).bind <|
        refuses_checkDirectory h _
  rw [validate]
  -- whatever comes of the two checks of numbers, the others follow
  refine .ite ((refuses_invalid _ _).bind ?_) ?_ <;>
    exact .ite ((refuses_invalid _ _).bind hrest) hrest

end Settings

namespace SettingsFile

/-! ## The search -/

/-- A file that settings can be read from: its bytes are a text, and describe settings in the format
of its extension, or in TOML if that is not known. -/
structure Holds (h : Host) (path : String) (s : Settings) : Prop where
  file : h.disk.isFile h.directory path = true
  read : ∃ bytes text, h.disk.read? h.directory path = some bytes ∧
    Host.Bytes.text? bytes = some text ∧
    Settings.parse? ((SettingsFormat.ofPath? path).getD .toml) text = some s

/-- The first file in a list that settings can be read from, with them. -/
def IsFirst (h : Host) (paths : List String) (path : String) (s : Settings) : Prop :=
  ∃ before after, paths = before ++ path :: after ∧ Holds h path s ∧
    ∀ p ∈ before, ∀ s, ¬Holds h p s

/-- Whether settings can be read from none of the files in a list. -/
def Barren (h : Host) (paths : List String) : Prop := ∀ p ∈ paths, ∀ s, ¬Holds h p s

variable {h : Host} {path : String} {s : Settings}

theorem holds_iff : Holds h path s ↔
    h.disk.isFile h.directory path = true ∧ read? h path = some s := by
  have hread : read? h path = some s ↔ ∃ bytes text,
      h.disk.read? h.directory path = some bytes ∧ Host.Bytes.text? bytes = some text ∧
        Settings.parse? ((SettingsFormat.ofPath? path).getD .toml) text = some s := by
    simp only [read?, Option.bind_eq_bind, Option.bind_eq_some_iff, exists_and_left]
    rfl
  rw [hread]
  constructor
  · rintro ⟨hfile, hholds⟩
    exact ⟨hfile, hholds⟩
  · rintro ⟨hfile, hholds⟩
    exact ⟨hfile, hholds⟩

/-- What a file gives to a search. -/
def given? (h : Host) (path : String) : Option (String × Settings) :=
  if h.disk.isFile h.directory path then (read? h path).map fun s => (path, s) else none

theorem given?_eq_some_iff {p : String} :
    given? h p = some (path, s) ↔ p = path ∧ Holds h path s := by
  rw [given?, holds_iff]
  split
  · next hfile =>
    rw [Option.map_eq_some_iff]
    constructor
    · rintro ⟨read, hread, hsame⟩
      cases hsame
      exact ⟨rfl, hfile, hread⟩
    · rintro ⟨rfl, -, hread⟩
      exact ⟨s, hread, rfl⟩
  · next hno =>
    constructor
    · rintro ⟨⟩
    · rintro ⟨rfl, hfile, -⟩
      exact absurd hfile hno

theorem given?_eq_none_iff {p : String} : given? h p = none ↔ ∀ s, ¬Holds h p s := by
  constructor
  · intro hnone s hholds
    have hsome := given?_eq_some_iff.mpr ⟨rfl, hholds⟩
    rw [hnone] at hsome
    cases hsome
  · intro hnone
    cases hgiven : given? h p with
    | none => rfl
    | some found =>
      obtain ⟨rfl, hholds⟩ := given?_eq_some_iff.mp hgiven
      exact absurd hholds (hnone _)

theorem find?_eq_some_iff {paths : List String} :
    find? h paths = some (path, s) ↔ IsFirst h paths path s := by
  have hfind : find? h paths = paths.findSome? (given? h) := rfl
  rw [hfind, List.findSome?_eq_some_iff]
  constructor
  · rintro ⟨before, p, after, hpaths, hgiven, hbefore⟩
    obtain ⟨rfl, hholds⟩ := given?_eq_some_iff.mp hgiven
    exact ⟨before, after, hpaths, hholds, fun p hp => given?_eq_none_iff.mp (hbefore p hp)⟩
  · rintro ⟨before, after, hpaths, hholds, hbefore⟩
    exact ⟨before, path, after, hpaths, given?_eq_some_iff.mpr ⟨rfl, hholds⟩,
      fun p hp => given?_eq_none_iff.mpr (hbefore p hp)⟩

theorem find?_eq_none_iff {paths : List String} : find? h paths = none ↔ Barren h paths := by
  have hfind : find? h paths = paths.findSome? (given? h) := rfl
  rw [hfind, List.findSome?_eq_none_iff]
  exact forall₂_congr fun p _ => given?_eq_none_iff

/-! ## One load -/

/-- The settings that are loaded for those in a file. -/
def laid (options : LoadOptions) (s : Settings) : Settings :=
  if options.merge then Settings.default.merge s else s

/-- What loading comes to, and the current file then. -/
inductive Outcome (h : Host) (options : LoadOptions) (f : SettingsFile) :
    Except Failure Settings → Option String → Prop
  | loaded (path : String) (s : Settings) : IsFirst h f.search path s →
      (options.validate = true → (laid options s).Valid h) →
      Outcome h options f (.ok (laid options s)) (some path)
  | refused (path : String) (s : Settings) (field reason : String) : IsFirst h f.search path s →
      options.validate = true →
      (laid options s).validate h = .error (.configValidationFailed field reason) →
      Outcome h options f (.error (.configValidationFailed field reason)) (some path)
  | usual : Barren h f.search → options.orDefault = true →
      Outcome h options f (.ok .default) f.current
  | missing : Barren h f.search → options.orDefault = false →
      Outcome h options f (.error .configNotFound) f.current

variable {options : LoadOptions} {f : SettingsFile}

/-- A check lets settings pass or refuses a field of them. -/
theorem checked_cases (h : Host) (options : LoadOptions) (s : Settings) :
    (checked h options s = .ok s ∧ (options.validate = true → s.Valid h)) ∨
      ∃ field reason, options.validate = true ∧
        s.validate h = .error (.configValidationFailed field reason) ∧
        checked h options s = .error (.configValidationFailed field reason) := by
  -- settings that are not checked always pass
  cases hvalidate : options.validate with
  | false => exact .inl ⟨by simp [checked, hvalidate], by rintro ⟨⟩⟩
  | true =>
    have hchecked : checked h options s = (s.validate h).map fun _ => s := by
      simp [checked, hvalidate]
    rw [hchecked]
    cases hvalid : s.validate h with
    | ok u => exact .inl ⟨rfl, fun _ => Settings.validate_eq_ok_iff.mp hvalid⟩
    | error e =>
      obtain ⟨field, reason, rfl⟩ := Settings.refuses_validate h s e hvalid
      exact .inr ⟨field, reason, rfl, rfl, rfl⟩

/-- The usual settings are valid on every machine. -/
theorem checked_default (h : Host) (options : LoadOptions) :
    checked h options .default = .ok .default := by
  rw [checked]
  split <;> rfl

theorem outcome_load (h : Host) (options : LoadOptions) (f : SettingsFile) :
    Outcome h options f (load h options f).1 (load h options f).2.current := by
  rw [load]
  cases hfind : find? h f.search with
  | some found =>
    obtain ⟨path, s⟩ := found
    have hfirst := find?_eq_some_iff.mp hfind
    have hlaid : (if options.merge then Settings.default.merge s else s) = laid options s := rfl
    dsimp only
    rw [hlaid]
    rcases checked_cases h options (laid options s) with
      ⟨hok, hvalid⟩ | ⟨field, reason, hvalidate, herror, hrefused⟩
    · rw [hok]
      exact .loaded path s hfirst hvalid
    · rw [hrefused]
      exact .refused path s field reason hfirst hvalidate herror
  | none =>
    have hbarren := find?_eq_none_iff.mp hfind
    dsimp only
    split
    · next hdefault =>
      rw [checked_default]
      exact .usual hbarren hdefault
    · next hdefault => exact .missing hbarren (Bool.eq_false_iff.mpr hdefault)

/-- Loading changes nothing but the current file. -/
theorem search_load (h : Host) (options : LoadOptions) (f : SettingsFile) :
    (load h options f).2.search = f.search := by
  rw [load]
  split
  · rfl
  · split <;> rfl

/-- Of a search there is one result. -/
theorem IsFirst.unique {paths : List String} {path' : String} {s' : Settings}
    (hfirst : IsFirst h paths path s) (hother : IsFirst h paths path' s') :
    path = path' ∧ s = s' := by
  have hsome := find?_eq_some_iff.mpr hfirst
  rw [find?_eq_some_iff.mpr hother] at hsome
  cases hsome
  exact ⟨rfl, rfl⟩

theorem IsFirst.not_barren {paths : List String} (hfirst : IsFirst h paths path s) :
    ¬Barren h paths := by
  intro hbarren
  have hsome := find?_eq_some_iff.mpr hfirst
  rw [find?_eq_none_iff.mpr hbarren] at hsome
  cases hsome

/-- Whether the current file is the one that the settings came from if they are loaded, and the one
from before if loading fails. -/
structure Tracks (h : Host) (f : SettingsFile) (result : Except Failure Settings)
    (current : Option String) : Prop where
  loaded : ∀ s, result = .ok s →
    (∃ path s, IsFirst h f.search path s ∧ current = some path) ∨
      (Barren h f.search ∧ current = none)
  failed : ∀ e, result = .error e → current = f.current

/-- The loads behind which the current file is another one: settings are refused that come from a
file that is not the current one yet, or the usual ones are loaded while there is a current file. -/
inductive Slips (h : Host) (options : LoadOptions) (f : SettingsFile) : Prop
  | refused (path : String) (s : Settings) : IsFirst h f.search path s →
      options.validate = true → ¬(laid options s).Valid h → f.current ≠ some path →
      Slips h options f
  | usual : Barren h f.search → options.orDefault = true → f.current ≠ none → Slips h options f

theorem Outcome.tracks_iff {result : Except Failure Settings} {current : Option String}
    (houtcome : Outcome h options f result current) :
    Tracks h f result current ↔ ¬Slips h options f := by
  -- of the two slips each outcome leaves at most one possible
  cases houtcome with
  | loaded path s hfirst hvalid =>
    refine iff_of_true ⟨fun _ _ => .inl ⟨path, s, hfirst, rfl⟩, by rintro _ ⟨⟩⟩ ?_
    rintro (⟨_, _, hother, hvalidate, hinvalid, -⟩ | ⟨hbarren, -, -⟩)
    · obtain ⟨-, rfl⟩ := hfirst.unique hother
      exact hinvalid (hvalid hvalidate)
    · exact hfirst.not_barren hbarren
  | refused path s field reason hfirst hvalidate herror =>
    constructor
    · rintro ⟨-, hfailed⟩ (⟨_, _, hother, -, -, hcurrent⟩ | ⟨hbarren, -, -⟩)
      · obtain ⟨rfl, -⟩ := hfirst.unique hother
        exact hcurrent (hfailed _ rfl).symm
      · exact hfirst.not_barren hbarren
    · intro hslips
      refine ⟨by rintro _ ⟨⟩, fun _ _ => ?_⟩
      by_contra hcurrent
      have hinvalid : ¬(laid options s).Valid h := by
        intro hvalid
        rw [Settings.validate_eq_ok_iff.mpr hvalid] at herror
        cases herror
      exact hslips (.refused path s hfirst hvalidate hinvalid (Ne.symm hcurrent))
  | usual hbarren hdefault =>
    constructor
    · rintro ⟨hloaded, -⟩ (⟨_, _, hother, -, -, -⟩ | ⟨-, -, hcurrent⟩)
      · exact hother.not_barren hbarren
      · rcases hloaded _ rfl with ⟨_, _, hother, -⟩ | ⟨-, hnone⟩
        · exact hother.not_barren hbarren
        · exact hcurrent hnone
    · intro hslips
      refine ⟨fun _ _ => .inr ⟨hbarren, ?_⟩, by rintro _ ⟨⟩⟩
      by_contra hcurrent
      exact hslips (.usual hbarren hdefault hcurrent)
  | missing hbarren hdefault =>
    refine iff_of_true ⟨by rintro _ ⟨⟩, fun _ _ => rfl⟩ ?_
    rintro (⟨_, _, hother, -, -, -⟩ | ⟨-, hstill, -⟩)
    · exact hother.not_barren hbarren
    · rw [hdefault] at hstill
      cases hstill

theorem Outcome.missing_iff {result : Except Failure Settings} {current : Option String}
    (houtcome : Outcome h options f result current) :
    result = .error .configNotFound ↔ Barren h f.search ∧ options.orDefault = false := by
  cases houtcome with
  | loaded path s hfirst => exact iff_of_false (by rintro ⟨⟩) fun h => hfirst.not_barren h.1
  | refused path s field reason hfirst =>
    exact iff_of_false (by rintro ⟨⟩) fun h => hfirst.not_barren h.1
  | usual hbarren hdefault =>
    refine iff_of_false (by rintro ⟨⟩) ?_
    rintro ⟨-, hnone⟩
    rw [hdefault] at hnone
    cases hnone
  | missing hbarren hdefault => exact iff_of_true rfl ⟨hbarren, hdefault⟩

/-! ## Any loads -/

/-- A settings file after several loads, each on the machine as it is then. -/
def loadAll (f : SettingsFile) (loads : List (Host × LoadOptions)) : SettingsFile :=
  loads.foldl (fun f l => (load l.1 l.2 f).2) f

/-- The last file that settings were read from in several loads. -/
def lastRead (paths : List String) (loads : List (Host × LoadOptions)) : Option String :=
  (loads.filterMap fun l => (find? l.1 paths).map Prod.fst).getLast?

theorem current_load (h : Host) (options : LoadOptions) (f : SettingsFile) :
    (load h options f).2.current = ((find? h f.search).map Prod.fst).or f.current := by
  rw [load]
  split
  · next hfind =>
    rw [hfind]
    rfl
  · next hfind =>
    rw [hfind]
    split <;> rfl

theorem current_loadAll (loads : List (Host × LoadOptions)) (f : SettingsFile) :
    (loadAll f loads).current = (lastRead f.search loads).or f.current := by
  -- by induction on the loads: each goes through the same files, and the next one starts from it
  induction loads generalizing f with
  | nil => rfl
  | cons l loads ih =>
    have hstep : loadAll f (l :: loads) = loadAll (load l.1 l.2 f).2 loads := rfl
    rw [hstep, ih, search_load, current_load, lastRead, lastRead]
    cases hfind : find? l.1 f.search with
    | none => simp [hfind]
    | some found =>
      rw [List.filterMap_cons_some (b := found.1) (by rw [hfind]; rfl), List.getLast?_cons]
      cases (loads.filterMap fun l => (find? l.1 f.search).map Prod.fst).getLast? <;> rfl

theorem search_loadAll (loads : List (Host × LoadOptions)) (f : SettingsFile) :
    (loadAll f loads).search = f.search := by
  induction loads generalizing f with
  | nil => rfl
  | cons l loads ih => exact (ih (load l.1 l.2 f).2).trans (search_load l.1 l.2 f)

/-- A load takes the first file that settings can be read from. The current file is then as it
should be, unless the load slips. After any loads it is the last file that settings were read from,
refused or not, and a save goes to that one. -/
theorem loading_law (f : SettingsFile) :
    (∀ h options,
      Outcome h options f (load h options f).1 (load h options f).2.current ∧
      ((load h options f).1 = .error .configNotFound ↔
        Barren h f.search ∧ options.orDefault = false) ∧
      (Tracks h f (load h options f).1 (load h options f).2.current ↔ ¬Slips h options f)) ∧
    ∀ loads,
      (loadAll f loads).search = f.search ∧
      (loadAll f loads).current = (lastRead f.search loads).or f.current ∧
      ∀ h s path h', save h (loadAll f loads) s = .ok (path, h') →
        saveTo h path s = .ok h' ∧
          path = ((lastRead f.search loads).or f.current).getD (userFile h "config.toml") := by
  constructor
  · intro h options
    have houtcome := outcome_load h options f
    exact ⟨houtcome, houtcome.missing_iff, houtcome.tracks_iff⟩
  · intro loads
    have hcurrent := current_loadAll loads f
    refine ⟨search_loadAll loads f, hcurrent, ?_⟩
    intro h s path h' hsave
    -- a save that succeeds has gone to the current file
    rw [save, hcurrent] at hsave
    cases hsaved : saveTo h
        (((lastRead f.search loads).or f.current).getD (userFile h "config.toml")) s with
    | error e =>
      rw [hsaved] at hsave
      cases hsave
    | ok saved =>
      rw [hsaved] at hsave
      cases hsave
      exact ⟨hsaved, rfl⟩

/-- Settings with which no transcript is kept. -/
def mutedSettings : Settings :=
  { Settings.default with session := { SessionSettings.default with transcriptLimit := 0 } }

/-- The settings of a file are refused, and it is the current one. Once it has gone the usual
settings are loaded, and it still is. -/
theorem not_tracks_mutedSettings : ∃ h,
    saveTo bareHost "settings.toml" mutedSettings = .ok h ∧
      load h usualOptions ⟨["settings.toml"], none⟩ =
        (.error (.configValidationFailed "session.transcript_limit"
          "Transcript limit must be greater than 0"), ⟨["settings.toml"], some "settings.toml"⟩) ∧
      ¬Tracks h ⟨["settings.toml"], none⟩
        (load h usualOptions ⟨["settings.toml"], none⟩).1
        (load h usualOptions ⟨["settings.toml"], none⟩).2.current ∧
      load bareHost usualOptions ⟨["settings.toml"], some "settings.toml"⟩ =
        (.ok .default, ⟨["settings.toml"], some "settings.toml"⟩) ∧
      ¬Tracks bareHost ⟨["settings.toml"], some "settings.toml"⟩
        (load bareHost usualOptions ⟨["settings.toml"], some "settings.toml"⟩).1
        (load bareHost usualOptions ⟨["settings.toml"], some "settings.toml"⟩).2.current := by
  obtain ⟨h, hsave⟩ := saveTo_bareHost mutedSettings
  obtain ⟨-, -, hfile, hread⟩ := saveTo_eq_ok ⟨by decide, by decide⟩ hsave
  have hfind : find? h ["settings.toml"] = some ("settings.toml", mutedSettings) := by
    simp [find?, hfile, hread]
  have hload : load h usualOptions ⟨["settings.toml"], none⟩ =
      (.error (.configValidationFailed "session.transcript_limit"
        "Transcript limit must be greater than 0"), ⟨["settings.toml"], some "settings.toml"⟩) := by
    rw [load, hfind]
    rfl
  have hgone : find? bareHost ["settings.toml"] = none := by
    have hnothing : bareHost.disk.find? [] "settings.toml" = none := by
      rw [Host.Disk.find?, locate_bareHost]
      rfl
    have hnofile : bareHost.disk.isFile [] "settings.toml" = false := by
      rw [Host.Disk.isFile, hnothing]
    rw [find?, List.findSome?_cons, show bareHost.directory = [] from rfl, hnofile]
    rfl
  have husual : load bareHost usualOptions ⟨["settings.toml"], some "settings.toml"⟩ =
      (.ok .default, ⟨["settings.toml"], some "settings.toml"⟩) := by
    rw [load, hgone]
    rfl
  refine ⟨h, hsave, hload, ?_, husual, ?_⟩
  · rw [hload]
    rintro ⟨-, hfailed⟩
    cases hfailed _ rfl
  · rw [husual]
    rintro ⟨hloaded, -⟩
    rcases hloaded _ rfl with ⟨_, _, hfirst, -⟩ | ⟨-, hnone⟩
    · exact hfirst.not_barren (find?_eq_none_iff.mp hgone)
    · cases hnone

end SettingsFile

end StepTrace
