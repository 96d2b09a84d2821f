import StepTrace.CommandLine
import StepTrace.Proofs.Language.Names
import StepTrace.Proofs.Manager.Traffic
import StepTrace.Proofs.Settings.Validity
import StepTrace.Proofs.Workshop.Execution

/-!
# Sessions that start at once

The names of languages in settings and those on a command line are read in two ways.
`Workshop.names_agree` says that both ways lead to the same language, so that for every name that
validation accepts the session which starts at once is the one that a request with this name goes
to. That a session which came up stays the one for its language is kept by every further start
(`Workshop.usable?_sessionFor_of_usable?`).
-/

set_option autoImplicit false

namespace StepTrace

variable {l : Language}

/-! ## Names -/

/-- A name on a command line stands for a language: code that comes with it is in that language. -/
def CommandLine.Selects (name : String) (l : Language) : Prop :=
  ∀ (h : Host) (input : List Char) (source : CodeSource), source.language = name →
    readSource h input source = (readCode h input source).map fun code => (l, code)

theorem CommandLine.selects_of_lookup? {name : String} (h : Language.lookup? name = some l) :
    Selects name l := by
  rintro host input source rfl
  rw [readSource, h]
  cases readCode host input source <;> rfl

/-- Names that stand for languages in settings stand for them on a command line. -/
theorem CommandLine.forall₂_selects {names : List String}
    (h : ∀ name ∈ names, (Language.ofName? name).isSome = true) :
    List.Forall₂ Selects names (names.filterMap Language.ofName?) := by
  induction names with
  | nil => exact .nil
  | cons name names ih =>
    obtain ⟨hname, hrest⟩ := List.forall_mem_cons.mp h
    obtain ⟨l, hl⟩ := Option.isSome_iff_exists.mp hname
    have hlookup : Language.lookup? name = some l := (Language.lookup?_eq_ofName? name).trans hl
    rw [List.filterMap_cons_some hl]
    exact .cons (selects_of_lookup? hlookup) (ih hrest)

/-! ## Sessions -/

/-- Whether a program can be started depends neither on its number nor on the time. -/
theorem Host.launch?_eq_none_iff {h : Host} {command : String} {args : List String}
    {pid start : Nat} (pid' start' : Nat) :
    h.launch? command args pid start = none ↔ h.launch? command args pid' start' = none := by
  simp only [launch?, Option.bind_eq_bind, Option.bind_eq_none_iff]
  refine forall₂_congr fun path _ => ?_
  split <;> simp

/-- What keeps an interpreter from being started keeps it from that at any time. -/
theorem Interpreter.start_eq_error {h : Host} {a : Adapter} {s : SessionSettings} {now pid : Nat}
    {f : Failure} (hstart : start h a s now pid = .error f) (now' pid' : Nat) :
    start h a s now' pid' = .error f := by
  rw [start] at hstart ⊢
  cases hhost : hostFor h s with
  | none => rw [hhost] at hstart; exact hstart
  | some h' =>
    rw [hhost] at hstart
    rw [Option.bind_some] at hstart ⊢
    cases hlaunch : h'.launch? a.launch.program a.launch.args pid now with
    | none =>
      rw [hlaunch] at hstart
      rw [(Host.launch?_eq_none_iff pid' now').mp hlaunch]
      exact hstart
    | some program =>
      rw [hlaunch] at hstart
      cases hstart

namespace Manager

variable {l' : Language} {m : Manager} {n : Nat} {s : Session}

/-- A session that was started for a slot without a usable one is the last of all. -/
theorem fill_of_usable?_eq_none (h : m.usable? l = none) (s : Session) :
    m.fill l (.ok s) = (.ok m.sessions.length,
      { m with sessions := m.sessions ++ [s] }.setSlot l (some m.sessions.length)) := by
  simp only [fill, h]

/-- If it is alive it can be used. -/
theorem usable?_fill (h : m.usable? l = none) (halive : s.alive = true) :
    (m.fill l (.ok s)).2.usable? l = some m.sessions.length := by
  rw [fill_of_usable?_eq_none h, usable?, slot?_setSlot, if_pos rfl]
  refine Option.filter_eq_some_iff.mpr ⟨rfl, ?_⟩
  rw [seemsAlive, show (setSlot _ _ _).sessions = m.sessions ++ [s] from rfl,
    List.getElem?_concat_length]
  exact halive

/-- The sessions of other languages can be used as before. -/
theorem usable?_fill_of_usable? (h : m.usable? l = none) (h' : m.usable? l' = some n)
    (s : Session) : (m.fill l (.ok s)).2.usable? l' = some n := by
  have hne : l' ≠ l := by
    rintro rfl
    rw [h] at h'
    cases h'
  have hn : n < m.sessions.length := lt_of_usable? h'
  obtain ⟨hslot, halive⟩ := Option.filter_eq_some_iff.mp h'
  rw [fill_of_usable?_eq_none h, usable?, slot?_setSlot, if_neg hne]
  refine Option.filter_eq_some_iff.mpr ⟨hslot, ?_⟩
  rw [seemsAlive] at halive ⊢
  rw [show (setSlot _ _ _).sessions = m.sessions ++ [s] from rfl, List.getElem?_append_left hn]
  exact halive

end Manager

namespace Workshop

variable {w : Workshop} {n : Nat}

/-- A session that is found or started is usable, and one that is not could not be started. -/
theorem sessionFor_spec (w : Workshop) (l : Language) :
    (∃ n, (w.sessionFor l).1 = .ok n ∧ (w.sessionFor l).2.manager.usable? l = some n) ∨
      ∃ f, (w.sessionFor l).1 = .error f ∧ w.startFor l = .error f := by
  rw [sessionFor]
  cases husable : w.manager.usable? l with
  | some n => exact .inl ⟨n, rfl, husable⟩
  | none =>
    cases hstart : w.startFor l with
    | error f => exact .inr ⟨f, rfl, rfl⟩
    | ok i =>
      obtain ⟨adapter, hsession⟩ := session_of_startFor hstart
      have halive : i.session.alive = true := by rw [hsession]; rfl
      have hfill := Manager.fill_of_usable?_eq_none husable i.session
      exact .inl ⟨_, congrArg Prod.fst hfill, Manager.usable?_fill husable halive⟩

/-- Looking for a session changes neither the machine nor the settings, and leaves usable sessions
usable. -/
theorem sessionFor_keeps (w : Workshop) (l : Language) :
    (w.sessionFor l).2.host = w.host ∧
      (w.sessionFor l).2.manager.settings = w.manager.settings ∧
      ∀ l' n, w.manager.usable? l' = some n →
        (w.sessionFor l).2.manager.usable? l' = some n := by
  rw [sessionFor]
  cases husable : w.manager.usable? l with
  | some n => exact ⟨rfl, rfl, fun _ _ h => h⟩
  | none =>
    cases hstart : w.startFor l with
    | error f => exact ⟨rfl, rfl, fun _ _ h => h⟩
    | ok i =>
      have hfill := Manager.fill_of_usable?_eq_none husable i.session
      exact ⟨rfl, congrArg (fun p => p.2.settings) hfill,
        fun _ _ h => Manager.usable?_fill_of_usable? husable h i.session⟩

/-- A submission in a language goes to a session that is there already. -/
def Serves (w : Workshop) (l : Language) : Prop := ∃ n, w.sessionFor l = (.ok n, w)

theorem serves_of_usable? (h : w.manager.usable? l = some n) : w.Serves l :=
  ⟨n, by rw [sessionFor, h]⟩

/-- A session for a language can never be started on a machine with some settings. -/
def Unstartable (h : Host) (s : Settings) (l : Language) : Prop :=
  ∃ f : Failure, ∀ w : Workshop, w.host = h → w.manager.settings = s → w.startFor l = .error f

theorem unstartable_of_startFor {f : Failure} (h : w.startFor l = .error f) :
    Unstartable w.host w.manager.settings l := by
  refine ⟨f, fun w' hhost hsettings => ?_⟩
  rw [startFor] at h ⊢
  rw [hhost, hsettings]
  cases hadapter : w.host.adapterFor l w.manager.settings with
  | error f' => rw [hadapter] at h; exact h
  | ok a =>
    rw [hadapter] at h
    exact Interpreter.start_eq_error h w'.clock w'.nextPid

theorem startEach_cons (w : Workshop) (l : Language) (ls : List Language) :
    (w.startEach (l :: ls)).2 = ((w.sessionFor l).2.startEach ls).2 := by
  rw [startEach]
  rcases w.sessionFor l with ⟨_ | _, w'⟩ <;> rfl

theorem usable?_startEach (ls : List Language) (h : w.manager.usable? l = some n) :
    (w.startEach ls).2.manager.usable? l = some n := by
  induction ls generalizing w with
  | nil => exact h
  | cons l' ls ih =>
    rw [startEach_cons]
    exact ih ((sessionFor_keeps w l').2.2 l n h)

/-- After the start of some languages each of them has its session, unless it cannot have one. -/
theorem startEach_serves (w : Workshop) (ls : List Language) :
    ∀ l ∈ ls, (w.startEach ls).2.Serves l ∨ Unstartable w.host w.manager.settings l := by
  induction ls generalizing w with
  | nil =>
    rintro l ⟨⟩
  | cons l' ls ih =>
    obtain ⟨hhost, hsettings, -⟩ := sessionFor_keeps w l'
    intro l hl
    rw [startEach_cons]
    rcases List.mem_cons.mp hl with rfl | hl
    · rcases sessionFor_spec w l with ⟨n, -, husable⟩ | ⟨f, -, hstart⟩
      · exact .inl (serves_of_usable? (usable?_startEach ls husable))
      · exact .inr (unstartable_of_startFor hstart)
    · rw [← hhost, ← hsettings]
      exact ih (w.sessionFor l').2 l hl

/-- The two ways from a name to a language agree. So every name that validation accepts among those
of the languages that start at once stands for the same language on a command line, and a request
with that name goes to the session that has started, unless none can ever be started. -/
theorem names_agree :
    (∀ name l, Language.ofName? name = some l ↔ Language.lookup? name = some l) ∧
      ∀ (h : Host) (s : Settings), s.validate h = .ok () →
        List.Forall₂ CommandLine.Selects s.session.eagerLanguages s.eagerLanguages ∧
          ∀ w : Workshop, w.manager.settings = s → ∀ l ∈ s.eagerLanguages,
            w.startEager.2.Serves l ∨ Unstartable w.host s l := by
  constructor
  · intro name l
    rw [Language.lookup?_eq_ofName?]
  · intro h s hvalidate
    have hvalid := Settings.validate_eq_ok_iff.mp hvalidate
    refine ⟨CommandLine.forall₂_selects hvalid.languages, ?_⟩
    rintro w rfl
    exact startEach_serves w w.manager.settings.eagerLanguages

/-- Settings whose names of languages are written in several ways. -/
def mixedSettings : Settings :=
  { Settings.default with
    session := { SessionSettings.default with eagerLanguages := ["PyThon", "\u3000PWSH", "zsh\t"] } }

theorem names_agree_mixedSettings : mixedSettings.validate default = .ok () ∧
    List.Forall₂ CommandLine.Selects ["PyThon", "\u3000PWSH", "zsh\t"]
      [.python, .powershell, .shell] ∧
    ∀ l, (fresh default mixedSettings).startEager.2.Serves l ∨
      Unstartable default mixedSettings l := by
  have hvalid : mixedSettings.Valid default :=
    { grace := by decide
      limit := by decide
      languages := by decide +kernel
      python := by decide
      powershell := by decide
      shell := by decide
      directory := by rintro _ ⟨⟩ }
  have hvalidate := Settings.validate_eq_ok_iff.mpr hvalid
  obtain ⟨hselects, hserves⟩ := names_agree.2 default mixedSettings hvalidate
  have hlanguages : mixedSettings.eagerLanguages = [.python, .powershell, .shell] := by
    decide +kernel
  rw [hlanguages] at hselects hserves
  refine ⟨hvalidate, hselects, fun l => hserves _ rfl l ?_⟩
  cases l <;> decide

end Workshop

end StepTrace
