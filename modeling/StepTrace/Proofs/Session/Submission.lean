import StepTrace.Session
import Mathlib.Data.List.Basic

/-!
# Submitting code to a session

A submission is admitted and then fed, and either half may refuse it. `Welcomes` and `Feeds` list
the ways in which each half goes, with all that it leaves of the session. Only a submission that
goes well hands anything to the writer, and it hands over one piece of input; a refused one leaves
the input and the progress of the turn as they were.
-/

set_option autoImplicit false

namespace StepTrace

namespace Streams

theorem input_note (s : Streams) (m : Message) : (s.note m).input = s.input := by
  rcases m with _ | ⟨_ | _⟩ | _ <;> rfl

theorem writerGone_note (s : Streams) (m : Message) : (s.note m).writerGone = s.writerGone := by
  rcases m with _ | ⟨_ | _⟩ | _ <;> rfl

/-- What taking note of one message leaves alone, taking note of many does. -/
theorem foldl_note_eq {α : Type} {f : Streams → α} (h : ∀ s m, f (note s m) = f s)
    (ms : List Message) (s : Streams) : f (ms.foldl note s) = f s := by
  induction ms generalizing s with
  | nil => rfl
  | cons m ms ih => rw [List.foldl_cons, ih, h]

/-- Draining is about the output only. -/
theorem input_drain (s : Streams) : s.drain.2.input = s.input := by
  unfold drain
  split <;> exact foldl_note_eq (f := input) input_note s.queue _

theorem writerGone_drain (s : Streams) : s.drain.2.writerGone = s.writerGone := by
  unfold drain
  split <;> exact foldl_note_eq (f := writerGone) writerGone_note s.queue _

end Streams

/-- Code that cannot be prepared is said to be so. -/
theorem Adapter.preprocess_eq_error {a : Adapter} {verdict : Verdict} {code : List Char}
    {f : Failure} (h : a.preprocess verdict code = .error f) :
    ∃ language line reason, f = .instrumentationFailed language line reason := by
  have hread : ∀ {α : Type} (r : Except Python.SyntaxError α),
      r.mapError Adapter.syntaxFailure = .error f →
      ∃ language line reason, f = .instrumentationFailed language line reason := by
    rintro α (e | x) hr
    · cases hr
      exact ⟨_, _, _, rfl⟩
    · cases hr
  rw [Adapter.preprocess] at h
  cases verdict with
  | refused report =>
    cases h
    exact ⟨_, _, _, rfl⟩
  | accepted =>
    obtain ⟨dialect, language, launch⟩ := a
    cases dialect with
    | powershell => cases h
    | posix => cases h
    | python =>
      -- both the instrumenting and the wrapping read the code
      cases hi : (Python.instrument code).mapError Adapter.syntaxFailure with
      | error g =>
        simp only [judge, instrument, hi, bind, Except.bind] at h
        cases h
        exact hread _ hi
      | ok x =>
        cases hw : (Python.wrap x).mapError Adapter.syntaxFailure with
        | error g =>
          simp only [judge, instrument, wrapErrors, hi, hw, bind, Except.bind] at h
          cases h
          exact hread _ hw
        | ok y =>
          simp only [judge, instrument, wrapErrors, hi, hw, bind, Except.bind] at h
          cases h

namespace Session

/-! ## Admission -/

/-- The ways in which a submission is admitted or refused, and what each leaves of the session. -/
inductive Welcomes (s : Session) (o : Observation) : Except Failure Unit → Session → Prop
  | busy : s.progress ≠ .idle → Welcomes s o (.error (.executionInProgress s.language.id)) s
  | gone : s.progress = .idle → (s.refresh o).needsRestart = true →
      Welcomes s o (.error (.sessionTerminated s.language.id)) (s.refresh o)
  | admitted : s.progress = .idle → (s.refresh o).needsRestart = false →
      Welcomes s o (.ok ()) (s.refresh o)

theorem isBusy_iff (s : Session) : s.isBusy = true ↔ s.progress ≠ .idle := by
  rw [isBusy, bne_iff_ne]

theorem welcome_cases {s t : Session} {o : Observation} {r : Except Failure Unit}
    (h : s.welcome o = (r, t)) : Welcomes s o r t := by
  have hadapter : (s.refresh o).language = s.language := by
    rw [refresh]
    split
    · rfl
    · dsimp only
      split <;> rfl
  rw [welcome] at h
  by_cases hidle : s.progress = .idle
  · rw [if_neg ((isBusy_iff s).not.mpr (not_not.mpr hidle))] at h
    dsimp only at h
    rw [hadapter] at h
    cases hrestart : (s.refresh o).needsRestart with
    | false =>
      rw [hrestart] at h
      cases h
      exact .admitted hidle hrestart
    | true =>
      rw [hrestart] at h
      cases h
      exact .gone hidle hrestart
  · rw [if_pos ((isBusy_iff s).mpr hidle)] at h
    cases h
    exact .busy hidle

/-- A look at the process hands nothing to it and leaves the turn alone. -/
theorem refresh_spec (s : Session) (o : Observation) :
    (s.refresh o).streams.input = s.streams.input ∧ (s.refresh o).progress = s.progress ∧
      (s.refresh o).adapter = s.adapter := by
  have hinput := Streams.input_drain s.streams
  rw [refresh]
  split
  · exact ⟨rfl, rfl, rfl⟩
  · dsimp only
    split
    · exact ⟨hinput, rfl, rfl⟩
    · exact ⟨hinput, rfl, rfl⟩

/-- Whatever comes of admission, nothing is handed over and the turn is as it was. -/
theorem Welcomes.spec {s t : Session} {o : Observation} {r : Except Failure Unit}
    (h : Welcomes s o r t) :
    t.streams.input = s.streams.input ∧ t.progress = s.progress ∧ t.adapter = s.adapter := by
  cases h with
  | busy => exact ⟨rfl, rfl, rfl⟩
  | gone => exact refresh_spec s o
  | admitted => exact refresh_spec s o

/-- A session at rest whose process runs and whose output is open admits a submission. -/
theorem welcome_of_alive {s : Session} {o : Observation} (hidle : s.progress = .idle)
    (hrestart : s.needsRestart = false) (hopen : s.streams.drain.2.allClosed = false)
    (hexit : o.exit = none) : ∃ t, s.welcome o = (.ok (), t) ∧ t.adapter = s.adapter ∧
      t.streams.writerGone = s.streams.writerGone := by
  have hrefresh : s.refresh o = { s with streams := s.streams.drain.2 } := by
    rw [refresh, hrestart]
    simp [hopen, hexit]
  refine ⟨s.refresh o, ?_, (refresh_spec s o).2.2, ?_⟩
  · rw [welcome, if_neg ((isBusy_iff s).not.mpr (not_not.mpr hidle))]
    dsimp only
    rw [hrefresh]
    dsimp only
    rw [hrestart]
    rfl
  · rw [hrefresh]
    exact Streams.writerGone_drain s.streams

/-! ## Feeding -/

/-- The session after input was handed to the writer. -/
def handing (s : Session) (input : List Char) : Session :=
  { s with
    streams := { s.streams.drain.2 with input := s.streams.input ++ [input] }
    progress := .running }

/-- The ways in which feeding goes, and what each leaves of the session. -/
inductive Feeds (s : Session) (verdict : Verdict) (code : List Char) :
    Except Failure Unit → Session → Prop
  /-- The code cannot be prepared. -/
  | unprepared (f : Failure) : s.adapter.preprocess verdict code = .error f →
      Feeds s verdict code (.error f) s
  /-- The writer has stopped. -/
  | unsent (program : List Char) : s.adapter.preprocess verdict code = .ok program →
      s.streams.writerGone = true →
      Feeds s verdict code (.error (.inputSendFailed "sending on a closed channel"))
        { s with streams := s.streams.drain.2 }.markDead
  | handed (program : List Char) : s.adapter.preprocess verdict code = .ok program →
      s.streams.writerGone = false →
      Feeds s verdict code (.ok ()) (s.handing (program ++ ['\n']))

theorem feed_cases {s t : Session} {verdict : Verdict} {code : List Char}
    {r : Except Failure Unit} (h : s.feed verdict code = (r, t)) : Feeds s verdict code r t := by
  rw [feed] at h
  cases hprepared : s.adapter.preprocess verdict code with
  | error f =>
    rw [hprepared] at h
    cases h
    exact .unprepared f hprepared
  | ok program =>
    rw [hprepared] at h
    dsimp only at h
    have hgone := Streams.writerGone_drain s.streams
    cases hwriter : s.streams.writerGone with
    | true =>
      rw [Streams.write, if_pos (hgone.trans hwriter)] at h
      cases h
      exact .unsent program hprepared hwriter
    | false =>
      rw [Streams.write, if_neg (by rw [hgone, hwriter]; decide), Streams.input_drain] at h
      cases h
      exact .handed program hprepared hwriter

/-- Code that is not fed hands nothing over and leaves the turn as it was. -/
theorem Feeds.spec_error {s t : Session} {verdict : Verdict} {code : List Char} {f : Failure}
    (h : Feeds s verdict code (.error f) t) :
    t.streams.input = s.streams.input ∧ t.progress = s.progress := by
  cases h with
  | unprepared => exact ⟨rfl, rfl⟩
  | unsent => exact ⟨Streams.input_drain s.streams, rfl⟩

/-! ## Both in a row -/

/-- What may become of a session while none of its own operations runs: the threads of its streams
pass messages on, take input and stop, and keep the transcript. -/
def Meanwhile (s t : Session) : Prop :=
  ∃ streams transcript, t = { s with streams := streams, transcript := transcript }

/-- Whether a session takes the next submission that can be prepared, whatever arrives before it, if
its process then runs, with an output open and the writer there. -/
def Ready (s : Session) : Prop :=
  ∀ (t : Session) (o : Observation) (verdict : Verdict) (code program : List Char),
    s.Meanwhile t → o.exit = none → t.streams.drain.2.allClosed = false →
    t.streams.writerGone = false → t.adapter.preprocess verdict code = .ok program →
    (t.submit o verdict code).1 = .ok ()

theorem ready_of_idle {s : Session} (hidle : s.progress = .idle)
    (hrestart : s.needsRestart = false) : s.Ready := by
  rintro t o verdict code program ⟨streams, transcript, rfl⟩ hexit hopen hwriter hprepared
  obtain ⟨u, hwelcome, hadapter, hgone⟩ := welcome_of_alive
    (s := { s with streams := streams, transcript := transcript }) hidle hrestart hopen hexit
  rw [submit, hwelcome]
  dsimp only
  obtain ⟨⟨r, v⟩, hfeed⟩ : ∃ p, u.feed verdict code = p := ⟨_, rfl⟩
  rw [hfeed]
  -- the code can be prepared and the writer is there, so neither refusal applies
  cases feed_cases hfeed with
  | unprepared f h =>
    rw [hadapter, hprepared] at h
    cases h
  | unsent _ _ h =>
    rw [hgone, hwriter] at h
    cases h
  | handed => rfl

/-- What a refused submission leaves of a session. -/
structure Unharmed (s : Session) (f : Failure) (t : Session) : Prop where
  input : t.streams.input = s.streams.input
  progress : t.progress = s.progress
  /-- While another submission is in flight nothing is touched at all. -/
  busy : ∀ language, f = .executionInProgress language → t = s
  /-- Code that cannot be prepared costs the session nothing. -/
  unprepared : ∀ language line reason, f = .instrumentationFailed language line reason →
    t.needsRestart = false ∧ t.Ready
  /-- A session whose writer has stopped has to be replaced. -/
  unsent : ∀ reason, f = .inputSendFailed reason → t.needsRestart = true

/-- A submission that is refused hands nothing to the writer. -/
theorem unharmed_of_submit {s t : Session} {o : Observation} {verdict : Verdict}
    {code : List Char} {f : Failure} (h : s.submit o verdict code = (.error f, t)) :
    Unharmed s f t := by
  obtain ⟨⟨r, u⟩, hwelcome⟩ : ∃ p, s.welcome o = p := ⟨_, rfl⟩
  rw [submit, hwelcome] at h
  cases welcome_cases hwelcome with
  | busy =>
    cases h
    exact ⟨rfl, rfl, fun _ _ => rfl, by rintro _ _ _ ⟨⟩, by rintro _ ⟨⟩⟩
  | gone =>
    cases h
    obtain ⟨hinput, hprogress, -⟩ := refresh_spec s o
    exact ⟨hinput, hprogress, by rintro _ ⟨⟩, by rintro _ _ _ ⟨⟩, by rintro _ ⟨⟩⟩
  | admitted hidle hrestart =>
    obtain ⟨hinput, hprogress, -⟩ := refresh_spec s o
    have hfeed := feed_cases h
    obtain ⟨hinput', hprogress'⟩ := hfeed.spec_error
    refine ⟨hinput'.trans hinput, hprogress'.trans hprogress, ?_, ?_, ?_⟩
    -- each failure has its own cause: only the admission finds a turn, only the preparation the code
    · rintro language rfl
      cases hfeed with
      | unprepared _ hprepared =>
        obtain ⟨_, _, _, hf⟩ := Adapter.preprocess_eq_error hprepared
        cases hf
    · rintro language line reason rfl
      cases hfeed with
      | unprepared => exact ⟨hrestart, ready_of_idle (hprogress.trans hidle) hrestart⟩
    · rintro reason rfl
      cases hfeed with
      | unprepared _ hprepared =>
        obtain ⟨_, _, _, hf⟩ := Adapter.preprocess_eq_error hprepared
        cases hf
      | unsent => rfl

end Session

end StepTrace
