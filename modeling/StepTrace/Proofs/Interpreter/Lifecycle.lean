import Mathlib
import StepTrace.Proofs.Session.Lifecycle
import StepTrace.Proofs.Workshop.Execution

/-!
# The life of an interpreter's session

An interpreter that works in time, with a process that it follows, does to its session only what
`Session.Operation` lists (`passes_work`). So what holds of every run of a session holds between any
two operations of an interpreter. The main statement is `lifecycle`.
-/

set_option autoImplicit false

namespace StepTrace

namespace Session

/-- Whether a session comes from one state to another by operations. -/
def Passes (s t : Session) : Prop := ∃ ops, s.run ops = t

theorem Passes.refl (s : Session) : s.Passes s := ⟨[], rfl⟩

theorem Passes.trans {s t u : Session} (h : s.Passes t) (h' : t.Passes u) : s.Passes u := by
  obtain ⟨ops, rfl⟩ := h
  obtain ⟨more, rfl⟩ := h'
  exact ⟨ops ++ more, run_append s ops more⟩

theorem passes_perform (s : Session) (op : Operation) : s.Passes (s.perform op) := ⟨[op], rfl⟩

theorem Arrives.passes {s t : Session} (h : s.Arrives t) : s.Passes t := by
  obtain ⟨streams, transcript, -, rfl⟩ := h
  exact passes_perform s (.threads streams transcript)

/-- A call for the next event is made of operations. -/
theorem Awaits.passes {s t : Session} {out : Option LineEvent} (h : s.Awaits out t) :
    s.Passes t := by
  have hleave : ∀ {s t : Session} {p : Poll}, s.poll = (p, t) → s.Passes t := by
    intro s t p hpoll
    refine ⟨[.leave], ?_⟩
    show s.poll.2 = t
    rw [hpoll]
  induction h with
  | arrives h _ ih => exact h.passes.trans ih
  | event hpoll => exact hleave hpoll
  | idle hpoll => exact hleave hpoll
  | @gone s t o hpoll =>
    refine ⟨[.next fun _ => o], ?_⟩
    show (s.next _).2 = _
    rw [next, hpoll]
  | waits hpoll _ ih => exact (hleave hpoll).trans ih
  | @quiet s hdraining =>
    refine ⟨[.quiet], ?_⟩
    show (if s.progress = .draining then s.quiet.2 else s) = _
    rw [if_pos hdraining]
  | silent s => exact .refl s

end Session

namespace Interpreter

/-- What may be done with an interpreter. -/
inductive Deed where
  | submit (code : List Char)
  | next
  | isAlive
  | abandon
  | terminate
  /-- A signal is sent through a handle. -/
  | signal (number : Nat)

/-- The interpreter after something was done with it at some time. -/
def perform (h : Host) (i : Interpreter) : Nat × Deed → Interpreter
  | (now, .submit code) => (i.submit h now code).2
  | (now, .next) => (i.next now).2.1
  | (now, .isAlive) => (i.isAlive now).2
  | (now, .abandon) => i.abandon now
  | (now, .terminate) => (i.terminate now).1
  | (now, .signal number) => i.signal now number

/-- The interpreter after several things were done with it. -/
def work (h : Host) (i : Interpreter) (deeds : List (Nat × Deed)) : Interpreter :=
  deeds.foldl (perform h) i

variable {h : Host} {i : Interpreter}

theorem passes_advance (i : Interpreter) (now : Nat) :
    i.session.Passes (i.advance now).session := (arrives_advance i now).passes

/-- A submission is one operation; before and after it the threads of the streams go on. -/
theorem passes_submit (h : Host) (i : Interpreter) (now : Nat) (code : List Char) :
    i.session.Passes (i.submit h now code).2.session := by
  obtain ⟨j, hj⟩ : ∃ j, i.advance now = j := ⟨_, rfl⟩
  have hcomes : i.session.Arrives j.session := hj ▸ arrives_advance i now
  refine hcomes.passes.trans ?_
  obtain ⟨o, ho⟩ : ∃ o, j.process.observe now = o := ⟨_, rfl⟩
  obtain ⟨⟨r, s⟩, hwelcome⟩ : ∃ p, j.session.welcome o = p := ⟨_, rfl⟩
  rw [submit, welcome, hj]
  dsimp only
  rw [ho, hwelcome]
  cases r with
  | error f =>
    -- nothing is fed, so what would be met meanwhile does not matter
    refine ⟨[.submit o default default .accepted code], ?_⟩
    change (j.session.submitMeeting o default default .accepted code).2 = s
    rw [Session.submitMeeting, hwelcome]
  | ok _ =>
    dsimp only
    generalize now + checkMillis h s.adapter code = time
    obtain ⟨k, hk⟩ : ∃ k, advance ⟨s, j.process⟩ time = k := ⟨_, rfl⟩
    -- while the code is checked the threads go on, and the submission meets what they leave
    have hmeets : s.Meanwhile k.session := hk ▸ (arrives_advance ⟨s, j.process⟩ time).meanwhile
    rw [feed, hk]
    refine Session.Passes.trans ⟨[.submit o k.session.streams k.session.transcript
      (verdict h k.session.adapter code) code], ?_⟩ (arrives_writeInput _ time).passes
    change (j.session.submitMeeting o k.session.streams k.session.transcript _ code).2 = _
    rw [Session.submitMeeting, hwelcome]
    dsimp only
    rw [hmeets.eq]

theorem passes_perform (h : Host) (i : Interpreter) (deed : Nat × Deed) :
    i.session.Passes (i.perform h deed).session := by
  obtain ⟨now, deed⟩ := deed
  obtain ⟨j, hj⟩ : ∃ j, i.advance now = j := ⟨_, rfl⟩
  have hadvance : i.session.Passes j.session := hj ▸ passes_advance i now
  cases deed with
  | submit code => exact passes_submit h i now code
  | next => exact (awaits_next i now).passes
  | isAlive =>
    rw [perform, isAlive, hj]
    exact hadvance.trans (Session.passes_perform j.session (.isAlive (j.process.observe now)))
  | abandon =>
    obtain ⟨o, ho⟩ := session_abandon i now
    rw [perform, ho, hj]
    exact hadvance.trans (Session.passes_perform j.session (.abandon o))
  | terminate =>
    obtain ⟨o, ho⟩ := session_terminate i now
    rw [perform, ho, hj]
    exact hadvance.trans (Session.passes_perform j.session (.terminate o))
  | signal number =>
    rw [perform, session_signal]
    exact .refl _

/-- Whatever is done with an interpreter, its session goes through operations of a session. -/
theorem passes_work (h : Host) (i : Interpreter) (deeds : List (Nat × Deed)) :
    i.session.Passes (i.work h deeds).session := by
  induction deeds generalizing i with
  | nil => exact .refl _
  | cons deed deeds ih => exact (passes_perform h i deed).trans (ih (i.perform h deed))

theorem session_start {adapter : Adapter} {settings : SessionSettings} {now pid : Nat}
    (hstart : start h adapter settings now pid = .ok i) :
    i.session = .start adapter settings (.ofMillis now) pid := by
  rw [start] at hstart
  split at hstart
  · cases hstart
    rfl
  · cases hstart

/-- An interpreter whose session has to be replaced takes no submission: time goes on, and the
process is given nothing. -/
theorem submit_of_needsRestart (hrestart : i.session.needsRestart = true) (h : Host) (now : Nat)
    (code : List Char) : ∃ f, i.submit h now code = (.error f, i.advance now) := by
  obtain ⟨j, hj⟩ : ∃ j, i.advance now = j := ⟨_, rfl⟩
  have hgone : j.session.needsRestart = true := by
    have hcomes : i.session.Meanwhile j.session := hj ▸ (arrives_advance i now).meanwhile
    rw [← hcomes.eq]
    exact hrestart
  obtain ⟨⟨r, t⟩, hwelcome⟩ :
    ∃ p, j.session.welcome (j.process.observe now) = p := ⟨_, rfl⟩
  have hrefresh : j.session.refresh (j.process.observe now) = j.session := by
    rw [Session.refresh, if_pos hgone]
  rw [submit, welcome, hj]
  dsimp only
  rw [hwelcome]
  cases Session.welcome_cases hwelcome with
  | busy => exact ⟨_, rfl⟩
  | gone => exact ⟨_, by rw [hrefresh]⟩
  | admitted _ hnot =>
    rw [hrefresh, hgone] at hnot
    cases hnot

/-- In every state that a session comes to by operations, the handles see whether it has to be
replaced; that it has to be is never taken back, nor is the exit code once the record tells of the
end; a session whose record does so has to be replaced and has no turn; and one that has to be
replaced refuses every submission and stays as it is. The sessions of interpreters at work are among
these, and an interpreter whose session has to be replaced is given nothing. -/
theorem lifecycle :
    (∀ (adapter : Adapter) (settings : SessionSettings) (now : Moment) (pid : Nat)
      (ops : List Session.Operation) (s : Session),
      (Session.start adapter settings now pid).run ops = s →
      s.alive = !s.needsRestart ∧
      (s.record.isTerminated = true → s.needsRestart = true ∧ s.progress = .idle) ∧
      (∀ more, (s.needsRestart = true → (s.run more).needsRestart = true) ∧
        (s.record.isTerminated = true → (s.run more).record.isTerminated = true ∧
          (s.run more).record.exitCode = s.record.exitCode)) ∧
      (s.needsRestart = true → ∀ o streams transcript verdict code,
        ∃ f, s.submitMeeting o streams transcript verdict code = (.error f, s))) ∧
    (∀ (h : Host) (adapter : Adapter) (settings : SessionSettings) (now pid : Nat)
      (i : Interpreter) (deeds : List (Nat × Deed)),
      start h adapter settings now pid = .ok i →
      ∃ ops, (Session.start adapter settings (.ofMillis now) pid).run ops =
        (i.work h deeds).session) ∧
    ∀ (h : Host) (i : Interpreter) (now : Nat) (code : List Char),
      i.session.needsRestart = true → ∃ f, i.submit h now code = (.error f, i.advance now) := by
  refine ⟨?_, ?_, fun h i now code hrestart => submit_of_needsRestart hrestart h now code⟩
  · rintro adapter settings now pid ops _ rfl
    have hsound := Session.sound_run (Session.sound_start adapter settings now pid) ops
    refine ⟨hsound.alive, hsound.ended, fun more => ?_, ?_⟩
    · have hlater := Session.later_run hsound more
      refine ⟨hlater.restart, fun hended => ?_⟩
      rw [hlater.record hended]
      exact ⟨hended, rfl⟩
    · intro hrestart o streams transcript verdict code
      exact Session.submitMeeting_of_needsRestart hrestart o streams transcript verdict code
  · intro h adapter settings now pid i deeds hstart
    rw [← session_start hstart]
    exact passes_work h i deeds

/-- A machine with nothing but a shell. -/
def shellHost : Host := ⟨⟨[(["sh"], .file (.tool "sh") true)]⟩, [], .empty⟩

/-- The adapter of that shell. -/
def shellAdapter : Adapter := .posix .shell ⟨"/sh", []⟩

theorem exists_start_shellHost : ∃ i, start shellHost shellAdapter .default 0 1 = .ok i := by
  have hlaunch : ((hostFor shellHost .default).bind fun h =>
      h.launch? shellAdapter.launch.program shellAdapter.launch.args 1 0).isSome = true := by cbv
  obtain ⟨program, hprogram⟩ := Option.isSome_iff_exists.mp hlaunch
  exact ⟨_, by rw [start, hprogram]⟩

/-- A submission after which the process ends with status 3. -/
def lastTurn : List Session.Operation :=
  [.submit default .fresh (.empty 100) .accepted ['x'],
    .threads { Streams.fresh with queue := [.closed .stdout, .closed .stderr] } (.empty 100),
    .next fun _ => ⟨default, some (some 3)⟩]

theorem lifecycle_lastTurn :
    (∃ s, (Session.start shellAdapter .default default 1).run lastTurn = s ∧
      s.record.isTerminated = true ∧ s.needsRestart = true ∧ s.alive = !s.needsRestart ∧
      s.progress = .idle ∧ s.record.exitCode = some 3 ∧
      (∀ more, (s.run more).needsRestart = true ∧ (s.run more).record.exitCode = some 3) ∧
      ∀ o streams transcript verdict code,
        ∃ f, s.submitMeeting o streams transcript verdict code = (.error f, s)) ∧
    (∃ i, start shellHost shellAdapter .default 0 1 = .ok i ∧ ∀ deeds,
      ∃ ops, (Session.start shellAdapter .default (.ofMillis 0) 1).run ops =
        (i.work shellHost deeds).session) := by
  obtain ⟨hruns, hworks, -⟩ := lifecycle
  constructor
  · have hended : ((Session.start shellAdapter .default default 1).run lastTurn).record.isTerminated
        = true := by decide
    have hcode : ((Session.start shellAdapter .default default 1).run lastTurn).record.exitCode =
        some 3 := by decide
    obtain ⟨halive, hsound, hlater, hrefused⟩ := hruns _ _ _ _ lastTurn _ rfl
    obtain ⟨hrestart, hidle⟩ := hsound hended
    refine ⟨_, rfl, hended, hrestart, halive, hidle, hcode, fun more => ?_, hrefused hrestart⟩
    exact ⟨(hlater more).1 hrestart, ((hlater more).2 hended).2.trans hcode⟩
  · obtain ⟨i, hi⟩ := exists_start_shellHost
    exact ⟨i, hi, fun deeds => hworks _ _ _ _ _ i deeds hi⟩

end Interpreter

end StepTrace
