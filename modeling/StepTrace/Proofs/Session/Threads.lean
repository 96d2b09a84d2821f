import StepTrace.Proofs.Session.TurnEvents
import StepTrace.Proofs.Session.Submission

/-!
# The threads of a session

Three threads work between a session and its process: one reader for each output stream, and a
writer. A reader passes lines on until it says that its stream has closed; the writer takes input
until it fails, says so and stops. `News` lists what they do, `Session.hear` what a session has of
it. A thread that has stopped does nothing any more.

`Grows` says what the threads may make of the streams in some time. What is heard comes behind what
already waits, and says nothing yet of closed streams: a session knows of those what it has taken
from the queue (`Grows.allClosed`).
-/

set_option autoImplicit false

namespace StepTrace

/-- What a thread does. -/
inductive News where
  /-- A reader passes on a line. -/
  | printed (source : Source) (line : List Char)
  /-- A reader says that its stream has closed, and stops. -/
  | closed (source : Source)
  /-- The writer takes the oldest input. -/
  | taken
  /-- The writer fails at the oldest input and stops. -/
  | failed (reason : String)
  /-- The last of the threads has stopped. -/
  | left
  deriving DecidableEq, Repr

/-- Whether a message tells that input could not be written. -/
def Message.isFailure : Message → Bool
  | .writeFailed _ => true
  | _ => false

namespace Streams

/-- Whether an output stream is not known to have closed. -/
def isOpen (s : Streams) : Source → Bool
  | .stdout => s.stdoutOpen
  | .stderr => s.stderrOpen

/-- Whether the reader of a stream is at work: it has not said that the stream has closed. -/
def reads (s : Streams) (source : Source) : Bool :=
  s.isOpen source && !s.queue.contains (.closed source)

/-- The streams after a thread did something; nothing, if the thread has stopped. -/
def hear (s : Streams) : News → Streams
  | .printed source line =>
    if s.reads source then s.send (.line source (String.ofList line)) else s
  | .closed source => if s.reads source then s.send (.closed source) else s
  | .taken => if s.writerGone then s else s.takeInput.2
  | .failed reason =>
    if s.writerGone || s.input.isEmpty then s
    else (s.takeInput.2.send (.writeFailed reason)).dropWriter
  | .left =>
    if s.reads .stdout || s.reads .stderr || !s.writerGone then s else s.dropSender

end Streams

namespace Session

/-- The session after a thread did something. A line is in the transcript before it is passed on. -/
def hear (s : Session) (news : News) : Session :=
  let transcript := match news with
    | .printed source line =>
      if s.streams.reads source then s.transcript.push line else s.transcript
    | _ => s.transcript
  { s with streams := s.streams.hear news, transcript := transcript }

/-- The session after the threads did several things. -/
def hearAll (s : Session) (news : List News) : Session := news.foldl hear s

end Session

namespace Streams

variable {s : Streams}

theorem allClosed_eq (s : Streams) : s.allClosed = (!s.isOpen .stdout && !s.isOpen .stderr) := rfl

/-! ## What the session takes from the queue -/

theorem senderGone_note (s : Streams) (m : Message) : (s.note m).senderGone = s.senderGone := by
  rcases m with _ | ⟨_ | _⟩ | _ <;> rfl

theorem senderGone_drain (s : Streams) : s.drain.2.senderGone = s.senderGone := by
  unfold drain
  split <;> exact foldl_note_eq (f := senderGone) senderGone_note s.queue _

/-! ## What is heard -/

theorem takeInput_eq (s : Streams) : s.takeInput.2 = { s with input := s.input.tail } := by
  rw [takeInput]
  split
  · next h => rw [h, List.tail_cons]
  · next h =>
    rw [h, List.tail_nil, ← h]

/-- What a thread leaves of the streams. -/
inductive Hears (s : Streams) : Streams → Prop
  /-- The thread has stopped. -/
  | still : Hears s s
  /-- A reader at work sends a message. -/
  | sent (source : Source) (m : Message) : s.reads source = true →
      m = .closed source ∨ (∃ text, m = .line source text) → Hears s (s.send m)
  | taken : s.writerGone = false → Hears s { s with input := s.input.tail }
  /-- The writer fails and stops. -/
  | failed (reason : String) : s.writerGone = false →
      Hears s ({ s with input := s.input.tail }.send (.writeFailed reason)).dropWriter
  | left : s.writerGone = true → Hears s s.dropSender

theorem hear_cases (s : Streams) (news : News) : s.Hears (s.hear news) := by
  cases news with
  | printed source line =>
    rw [hear]
    split
    · next h => exact .sent source _ h (.inr ⟨_, rfl⟩)
    · exact .still
  | closed source =>
    rw [hear]
    split
    · next h => exact .sent source _ h (.inl rfl)
    · exact .still
  | taken =>
    rw [hear, takeInput_eq]
    split
    · exact .still
    · next h => exact .taken (Bool.eq_false_iff.mpr h)
  | failed reason =>
    rw [hear, takeInput_eq]
    split
    · exact .still
    · next h =>
      rw [Bool.or_eq_true, not_or] at h
      exact .failed reason (Bool.eq_false_iff.mpr h.1)
  | left =>
    rw [hear]
    split
    · exact .still
    · next h =>
      refine .left ?_
      rw [Bool.or_eq_true, not_or, Bool.not_eq_true', Bool.not_eq_false] at h
      exact h.2

theorem send_cases (s : Streams) (m : Message) :
    s.send m = s ∨ s.senderGone = false ∧ s.send m = { s with queue := s.queue ++ [m] } := by
  rw [send]
  split
  · exact .inl rfl
  · next h => exact .inr ⟨Bool.eq_false_iff.mpr h, rfl⟩

/-- The channel of messages ends only after the writer has stopped. -/
def WriterLast (s : Streams) : Prop := s.senderGone = true → s.writerGone = true

theorem WriterLast.drain (h : s.WriterLast) : s.drain.2.WriterLast := by
  rw [WriterLast, senderGone_drain, writerGone_drain]
  exact h

/-- What the threads may make of the streams, several of them and for some time: messages come
behind those that wait, and input is taken from the front. The writer says so when it stops, if
somebody may still hear it, and the channel of messages ends only after it has stopped. -/
structure Grows (s t : Streams) : Prop where
  queue : s.queue <+: t.queue
  input : t.input <:+ s.input
  known : t.stdoutOpen = s.stdoutOpen ∧ t.stderrOpen = s.stderrOpen
  stopped : s.writerGone = true → t.writerGone = true
  told : t.writerGone = true →
    s.writerGone = true ∨ s.senderGone = true ∨ t.queue.any Message.isFailure = true
  sender : t.senderGone = true → s.senderGone = true ∨ t.writerGone = true

instance (s t : Streams) : Decidable (s.Grows t) :=
  decidable_of_iff (s.queue <+: t.queue ∧ t.input <:+ s.input ∧
      (t.stdoutOpen = s.stdoutOpen ∧ t.stderrOpen = s.stderrOpen) ∧
      (s.writerGone = true → t.writerGone = true) ∧
      (t.writerGone = true →
        s.writerGone = true ∨ s.senderGone = true ∨ t.queue.any Message.isFailure = true) ∧
      (t.senderGone = true → s.senderGone = true ∨ t.writerGone = true))
    ⟨fun ⟨queue, input, known, stopped, told, sender⟩ =>
        ⟨queue, input, known, stopped, told, sender⟩,
      fun ⟨queue, input, known, stopped, told, sender⟩ =>
        ⟨queue, input, known, stopped, told, sender⟩⟩

theorem Grows.refl (s : Streams) : s.Grows s :=
  ⟨List.prefix_refl _, List.suffix_refl _, ⟨rfl, rfl⟩, id, .inl, .inl⟩

theorem Grows.trans {t u : Streams} (h : s.Grows t) (h' : t.Grows u) : s.Grows u where
  queue := h.queue.trans h'.queue
  input := h'.input.trans h.input
  known := ⟨h'.known.1.trans h.known.1, h'.known.2.trans h.known.2⟩
  stopped := h'.stopped ∘ h.stopped
  told hgone := by
    have hwriter : t.writerGone = true → s.writerGone = true ∨ s.senderGone = true ∨
        u.queue.any Message.isFailure = true := by
      intro ht
      refine (h.told ht).imp_right (Or.imp_right fun hfailed => ?_)
      obtain ⟨m, hm, hfailure⟩ := List.any_eq_true.mp hfailed
      exact List.any_eq_true.mpr ⟨m, h'.queue.subset hm, hfailure⟩
    rcases h'.told hgone with ht | ht | hfailed
    · exact hwriter ht
    · rcases h.sender ht with hs | ht
      · exact .inr (.inl hs)
      · exact hwriter ht
    · exact .inr (.inr hfailed)
  sender hgone := by
    rcases h'.sender hgone with ht | hu
    · exact (h.sender ht).imp_right h'.stopped
    · exact .inr hu

theorem grows_send (s : Streams) (m : Message) : s.Grows (s.send m) := by
  rcases send_cases s m with h | ⟨-, h⟩
  · rw [h]
    exact .refl s
  · rw [h]
    exact ⟨List.prefix_append _ _, List.suffix_refl _, ⟨rfl, rfl⟩, id, .inl, .inl⟩

theorem grows_taken (s : Streams) : s.Grows { s with input := s.input.tail } :=
  ⟨List.prefix_refl _, List.tail_suffix _, ⟨rfl, rfl⟩, id, .inl, .inl⟩

/-- The writer says that it has failed, and stops. -/
theorem grows_failed (s : Streams) (reason : String) :
    s.Grows (s.send (.writeFailed reason)).dropWriter := by
  have hsend := s.grows_send (.writeFailed reason)
  refine ⟨hsend.queue, List.nil_suffix, hsend.known, fun _ => rfl, fun _ => .inr ?_,
    fun _ => .inr rfl⟩
  rcases send_cases s (.writeFailed reason) with h | ⟨-, h⟩
  · left
    by_contra hopen
    rw [send, if_neg hopen] at h
    have hlength := congrArg (fun s => s.queue.length) h
    simp at hlength
  · right
    rw [h]
    simp [dropWriter, Message.isFailure]

/-- What one thread does is something that threads may do. -/
theorem Hears.grows {t : Streams} (h : s.Hears t) : s.Grows t := by
  cases h with
  | still => exact .refl s
  | sent source m => exact s.grows_send m
  | taken => exact s.grows_taken
  | failed reason => exact s.grows_taken.trans (grows_failed _ reason)
  | left hwriter =>
    exact ⟨List.prefix_refl _, List.suffix_refl _, ⟨rfl, rfl⟩, id, .inl, fun _ => .inr hwriter⟩

/-- What is known of the outputs comes from the queue only. -/
theorem Grows.allClosed {t : Streams} (h : s.Grows t) : t.allClosed = s.allClosed := by
  rw [Streams.allClosed, h.known.1, h.known.2]
  rfl

theorem WriterLast.of_grows {t : Streams} (hs : s.WriterLast) (h : s.Grows t) : t.WriterLast := by
  intro hsender
  rcases h.sender hsender with hbefore | hgone
  · exact h.stopped (hs hbefore)
  · exact hgone

end Streams

namespace Session

/-- What may become of a session while only its threads go on. -/
def Arrives (s t : Session) : Prop :=
  ∃ streams transcript, s.streams.Grows streams ∧
    t = { s with streams := streams, transcript := transcript }

variable {s t u : Session}

theorem Arrives.refl (s : Session) : s.Arrives s := ⟨s.streams, s.transcript, .refl _, rfl⟩

theorem Arrives.trans (h : s.Arrives t) (h' : t.Arrives u) : s.Arrives u := by
  obtain ⟨streams, transcript, hgrows, rfl⟩ := h
  obtain ⟨streams', transcript', hgrows', rfl⟩ := h'
  exact ⟨streams', transcript', hgrows.trans hgrows', rfl⟩

theorem Arrives.meanwhile (h : s.Arrives t) : s.Meanwhile t := by
  obtain ⟨streams, transcript, -, rfl⟩ := h
  exact ⟨streams, transcript, rfl⟩

/-- What one thread does is something that may arrive. -/
theorem arrives_hear (s : Session) (news : News) : s.Arrives (s.hear news) :=
  ⟨_, _, (s.streams.hear_cases news).grows, rfl⟩

theorem arrives_print (s : Session) (source : Source) (line : List Char) :
    s.Arrives (s.print source line) := ⟨_, _, s.streams.grows_send _, rfl⟩

theorem writerLast_refresh (h : s.streams.WriterLast) (o : Observation) :
    (s.refresh o).streams.WriterLast := by
  rw [refresh]
  split
  · exact h
  · dsimp only
    split <;> exact h.drain

theorem writerLast_poll (h : s.streams.WriterLast) : s.poll.2.streams.WriterLast := by
  have hpollFrom : ∀ (queue : List Message) (s : Session), s.streams.WriterLast →
      (s.pollFrom queue).2.streams.WriterLast := by
    intro queue
    induction queue with
    | nil => exact fun s hs => hs
    | cons m rest ih =>
      intro s hs
      have hstep : ((s.takeMessage m rest).heed m).2.streams.WriterLast := by
        rw [streams_heed, takeMessage, Streams.WriterLast, Streams.senderGone_note,
          Streams.writerGone_note]
        exact hs
      rw [pollFrom]
      generalize (s.takeMessage m rest).heed m = out at hstep
      rcases out with ⟨_ | p, t⟩
      · exact ih t hstep
      · exact hstep
  rw [poll]
  split
  · exact h
  · exact hpollFrom _ s h

end Session

end StepTrace
