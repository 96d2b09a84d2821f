import StepTrace.Interpreter
import StepTrace.Proofs.Session.Threads

/-!
# What time brings to a session

An interpreter follows its process in time. Its session has of this only what the threads of its
streams do (`arrives_advance`), and a call for the next event only reads the queue in between
(`awaits_next`). A signal to the process does not show in the session; giving up and stopping do by
what the host answers then.
-/

set_option autoImplicit false

namespace StepTrace

/-- A call for the next event, step by step: it waits while something arrives, reads the queue again,
and comes back with an event, or without one if none comes. -/
inductive Session.Awaits : Session → Option LineEvent → Session → Prop
  | arrives {s t u : Session} {out : Option LineEvent} : s.Arrives t → Awaits t out u →
      Awaits s out u
  | event {s t : Session} {e : LineEvent} : s.poll = (.event e, t) → Awaits s (some e) t
  | idle {s t : Session} : s.poll = (.idle, t) → Awaits s none t
  | gone {s t : Session} (o : Observation) : s.poll = (.gone, t) →
      Awaits s (some (t.exited o).1) (t.exited o).2
  | waits {s t u : Session} {out : Option LineEvent} : s.poll = (.waiting, t) → Awaits t out u →
      Awaits s out u
  | quiet {s : Session} : s.progress = .draining → Awaits s (some s.quiet.1) s.quiet.2
  | silent (s : Session) : Awaits s none s

namespace Interpreter

theorem arrives_printLines (s : Session) (source : Source) (lines : List (List Char)) :
    s.Arrives (printLines s source lines) := by
  induction lines generalizing s with
  | nil => exact .refl s
  | cons line lines ih => exact (s.arrives_print source line).trans (ih (s.print source line))

theorem session_setReader (i : Interpreter) (source : Source) (r : LineReader) :
    (i.setReader source r).session = i.session := by
  cases source <;> rfl

theorem arrives_passOn (i : Interpreter) (h : Host.Shell.Happening) :
    i.session.Arrives (i.passOn h).session := by
  cases h with
  | printed source bytes =>
    simp only [passOn, session_setReader]
    exact arrives_printLines _ _ _
  | closed source =>
    exact (arrives_printLines _ _ _).trans ⟨_, _, Streams.grows_send _ (.closed source), rfl⟩
  | inputClosed unread =>
    rw [passOn]
    split
    · exact ⟨_, _, Streams.grows_failed _ _, rfl⟩
    · exact .refl _
  | ended status => exact .refl _

theorem arrives_due (due : List Host.Shell.Happening) (i : Interpreter) :
    i.session.Arrives (due.foldl passOn i).session := by
  induction due generalizing i with
  | nil => exact .refl _
  | cons h due ih => exact (arrives_passOn i h).trans (ih (i.passOn h))

/-- Time that passes shows in a session only in what arrives. -/
theorem arrives_advance (i : Interpreter) (now : Nat) :
    i.session.Arrives (i.advance now).session := by
  rw [advance]
  obtain ⟨p, hp⟩ : ∃ p, i.process.lookAhead now = p := ⟨_, rfl⟩
  rw [hp]
  exact arrives_due (p.due now) ⟨i.session, p⟩

/-- So does what becomes of the input that waits. -/
theorem arrives_writeInput (i : Interpreter) (now : Nat) :
    i.session.Arrives (i.writeInput now).session := by
  rw [writeInput]
  split
  · exact .refl _
  · next data streams htaken =>
    have htake : streams = { i.session.streams with input := i.session.streams.input.tail } := by
      rw [← Streams.takeInput_eq, htaken]
    subst htake
    have htail := i.session.streams.grows_taken
    split
    · exact ⟨_, _, htail.trans (Streams.grows_failed _ _), rfl⟩
    · exact ⟨_, _, htail, rfl⟩

/-- A call for the next event reads the queue again and again while time passes. The drain window
passes only while the session drains. -/
theorem awaits_nextBy (fuel : Nat) (i : Interpreter) (deadline : Option Nat) (now : Nat)
    (hdeadline : ∀ d, deadline = some d → i.session.progress = .draining) :
    i.session.Awaits (i.nextBy deadline now fuel).1 (i.nextBy deadline now fuel).2.1.session := by
  induction fuel generalizing i deadline now with
  | zero => exact .silent _
  | succ fuel ih =>
    obtain ⟨j, hj⟩ : ∃ j, i.advance now = j := ⟨_, rfl⟩
    have hcomes : i.session.Arrives j.session := hj ▸ arrives_advance i now
    have hprogress : j.session.progress = i.session.progress := by
      obtain ⟨_, _, -, hsame⟩ := hcomes
      rw [hsame]
    refine .arrives hcomes ?_
    rw [nextBy, hj]
    dsimp only
    obtain ⟨⟨p, s⟩, hpoll⟩ : ∃ p, j.session.poll = p := ⟨_, rfl⟩
    rw [hpoll]
    cases p with
    | event e => exact .event hpoll
    | idle => exact .idle hpoll
    | gone => exact .gone _ hpoll
    | waiting =>
      dsimp only
      -- the deadline that still stands is one of a session that drains
      have hstill : ∀ d, ((if j.session.streams.queue.isEmpty then deadline else none).orElse
          fun _ => if s.progress = .draining then some (now + s.drainGrace) else none) = some d →
          s.progress = .draining := by
        intro d hd
        by_cases hdrains : s.progress = .draining
        · exact hdrains
        · rw [if_neg hdrains] at hd
          cases hempty : j.session.streams.queue.isEmpty with
          | false => simp [hempty] at hd
          | true =>
            rw [hempty, if_pos rfl] at hd
            have hsome : deadline = some d := by simpa using hd
            have hdraining := hprogress.trans (hdeadline d hsome)
            have hsame : s = j.session := by
              rw [Session.poll, if_neg (by rw [hdraining]; decide),
                List.isEmpty_iff.mp hempty] at hpoll
              exact (congrArg Prod.snd hpoll).symm
            rw [hsame, hdraining]
      refine .waits hpoll ?_
      split
      · next t hcoming => exact ih { j with session := s } _ t hstill
      · next d hnone hd => exact .quiet (hstill d hd)
      · exact .silent s

theorem awaits_next (i : Interpreter) (now : Nat) :
    i.session.Awaits (i.next now).1 (i.next now).2.1.session :=
  awaits_nextBy _ i none now (by rintro _ ⟨⟩)

/-! ## What is done to the process -/

theorem session_signal (i : Interpreter) (now number : Nat) :
    (i.signal now number).session = i.session := by
  rw [signal]
  split <;> rfl

theorem session_abandon (i : Interpreter) (now : Nat) :
    ∃ o, (i.abandon now).session = (i.advance now).session.abandon o := by
  obtain ⟨j, hj⟩ : ∃ j, i.advance now = j := ⟨_, rfl⟩
  rw [abandon, hj]
  dsimp only
  split
  · exact ⟨(j.kill now).process.observe now, rfl⟩
  · next hidle => exact ⟨default, by rw [Session.abandon, if_neg hidle]⟩

theorem session_terminate (i : Interpreter) (now : Nat) :
    ∃ o, (i.terminate now).1.session = (i.advance now).session.terminate o := by
  obtain ⟨j, hj⟩ : ∃ j, i.advance now = j := ⟨_, rfl⟩
  rw [terminate, hj]
  dsimp only
  split
  · next hended => exact ⟨default, by rw [Session.terminate, if_pos hended]⟩
  · -- whether it is killed does not show
    split <;> exact ⟨_, rfl⟩

end Interpreter

end StepTrace
