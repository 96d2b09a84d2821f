import StepTrace.Proofs.Host.Disk
import StepTrace.Proofs.Settings.Data

/-!
# Valid settings

What validation accepts, as one fact for each check (`Settings.validate_eq_ok_iff`). Only the check
of the working directory looks at the machine, and as long as no directory is taken away it goes on
accepting what it accepted (`Settings.Valid.keeps`).
-/

set_option autoImplicit false

namespace StepTrace

namespace Settings

/-- Settings that no check refuses. -/
structure Valid (h : Host) (s : Settings) : Prop where
  grace : s.session.drainGrace ≤ maxDrainGrace
  limit : s.session.transcriptLimit ≠ 0
  languages : ∀ name ∈ s.session.eagerLanguages, (Language.ofName? name).isSome
  python : s.python.executable ≠ some ""
  powershell : s.powershell.executable ≠ some ""
  shell : s.shell.executable ≠ some ""
  directory : ∀ path, s.session.workingDirectory = some path →
    h.disk.isDirectory h.directory path = true

variable {h h' : Host} {s : Settings}

theorem bind_eq_ok_iff {x : Except Failure Unit} {f : Unit → Except Failure Unit} :
    x >>= f = .ok () ↔ x = .ok () ∧ f () = .ok () := by
  cases x with
  | error e => simp [bind, Except.bind]
  | ok u => simp [bind, Except.bind]

theorem refuse_eq_ok_iff {p : Prop} [Decidable p] {field reason : String}
    {f : Unit → Except Failure Unit} :
    (if p then invalid field reason >>= f else f ()) = .ok () ↔ ¬p ∧ f () = .ok () := by
  by_cases hp : p <;> simp [hp, invalid, bind, Except.bind]

theorem checkExecutable_eq_ok_iff {field : String} {launch : LaunchSettings} :
    checkExecutable field launch = .ok () ↔ launch.executable ≠ some "" := by
  rw [checkExecutable]
  split
  next h => simp [invalid, h]
  next h => simp [h]

theorem checkLanguages_eq_ok_iff {languages : List String} :
    languages.forM checkLanguage = .ok () ↔
      ∀ name ∈ languages, (Language.ofName? name).isSome := by
  induction languages with
  | nil => simp [pure, Except.pure]
  | cons name languages ih =>
    have hname : checkLanguage name = .ok () ↔ (Language.ofName? name).isSome := by
      rw [checkLanguage]
      cases Language.ofName? name <;> simp [invalid]
    have hcons : (name :: languages).forM checkLanguage =
        checkLanguage name >>= fun _ => languages.forM checkLanguage := rfl
    rw [hcons, bind_eq_ok_iff, hname, ih, List.forall_mem_cons]

theorem checkDirectory_eq_ok_iff {directory : Option String} :
    checkDirectory h directory = .ok () ↔
      ∀ path, directory = some path → h.disk.isDirectory h.directory path = true := by
  cases directory with
  | none => simp [checkDirectory]
  | some path => by_cases hpath : h.disk.isDirectory h.directory path = true <;>
      simp [checkDirectory, hpath, invalid]

/-- What validation accepts. -/
theorem validate_eq_ok_iff : s.validate h = .ok () ↔ s.Valid h := by
  simp only [validate, refuse_eq_ok_iff, bind_eq_ok_iff, checkExecutable_eq_ok_iff,
    checkLanguages_eq_ok_iff, checkDirectory_eq_ok_iff]
  constructor
  · rintro ⟨hgrace, hlimit, hlanguages, hpython, hpowershell, hshell, hdirectory⟩
    exact ⟨Nat.le_of_not_gt hgrace, hlimit, hlanguages, hpython, hpowershell, hshell, hdirectory⟩
  · rintro ⟨hgrace, hlimit, hlanguages, hpython, hpowershell, hshell, hdirectory⟩
    exact ⟨Nat.not_lt_of_le hgrace, hlimit, hlanguages, hpython, hpowershell, hshell, hdirectory⟩

/-- Settings stay valid as long as the directories stay. -/
theorem Valid.keeps (hvalid : s.Valid h) (hdirectory : h'.directory = h.directory)
    (hkeeps : Host.Disk.Keeps h.disk h'.disk) : s.Valid h' :=
  { hvalid with
    directory := fun path hpath => hdirectory ▸ hkeeps.isDirectory (hvalid.directory path hpath) }

theorem Valid.fits (hvalid : s.Valid h) (hlimit : s.session.transcriptLimit < Text.wordBound) :
    s.session.Fits :=
  ⟨Nat.lt_of_le_of_lt hvalid.grace (by decide), hlimit⟩

end Settings

end StepTrace
