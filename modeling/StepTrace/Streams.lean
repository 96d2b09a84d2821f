import StepTrace.Adapter

/-!
# Streams of a session

The channels between a session and its interpreter. Messages about the output wait in a queue until
they are received; input waits in another one for the writer. The streams know which of the two
output streams have closed from the messages that left the queue.
-/

set_option autoImplicit false

namespace StepTrace

/-- What the readers and the writer of an interpreter's streams report. -/
inductive Message where
  /-- A line was printed. -/
  | line (source : Source) (text : String)
  /-- An output stream has ended. -/
  | closed (source : Source)
  /-- Input could not be written. -/
  | writeFailed (reason : String)
  deriving DecidableEq, Repr, Inhabited

/-- Whether a message is a line. -/
def Message.isLine : Message → Bool
  | .line _ _ => true
  | _ => false

/-- The session's side of the channels. -/
structure Streams where
  /-- Messages that have not been received, the oldest first. -/
  queue : List Message
  /-- Whether nobody is left who could send a message. -/
  senderGone : Bool
  /-- Input that the writer has not taken, the oldest first. -/
  input : List (List Char)
  /-- Whether the writer has stopped. -/
  writerGone : Bool
  stdoutOpen : Bool
  stderrOpen : Bool
  deriving DecidableEq, Repr, Inhabited

/-- What an attempt to receive a message gives. -/
inductive Received where
  | message (m : Message)
  /-- No message will ever come. -/
  | ended
  /-- There is no message yet. -/
  | pending
  deriving DecidableEq, Repr, Inhabited

namespace Streams

/-- Channels through which nothing has passed. -/
def fresh : Streams := ⟨[], false, [], false, true, true⟩

/-- The streams with a message in the queue. -/
def send (s : Streams) (m : Message) : Streams :=
  if s.senderGone then s else { s with queue := s.queue ++ [m] }

/-- Takes note of a message that left the queue. -/
def note (s : Streams) : Message → Streams
  | .closed .stdout => { s with stdoutOpen := false }
  | .closed .stderr => { s with stderrOpen := false }
  | _ => s

/-- Receives the oldest message. -/
def receive (s : Streams) : Received × Streams :=
  match s.queue with
  | m :: rest => (.message m, { s with queue := rest }.note m)
  | [] => (if s.senderGone then .ended else .pending, s)

/-- Whether both output streams are known to have closed. -/
def allClosed (s : Streams) : Bool := !s.stdoutOpen && !s.stderrOpen

/-- The streams after both outputs are taken to have closed. -/
def closeAll (s : Streams) : Streams := { s with stdoutOpen := false, stderrOpen := false }

/-- Throws away the messages in the queue; what they say of closed streams is kept. The number is
that of lines among them. -/
def drain (s : Streams) : Nat × Streams :=
  let noted := s.queue.foldl note { s with queue := [] }
  (s.queue.countP Message.isLine, if s.senderGone then noted.closeAll else noted)

/-- Hands input to the writer. -/
def write (s : Streams) (data : List Char) : Except Failure Streams :=
  if s.writerGone then .error (.inputSendFailed "sending on a closed channel")
  else .ok { s with input := s.input ++ [data] }

/-- Takes the oldest input. -/
def takeInput (s : Streams) : Option (List Char) × Streams :=
  match s.input with
  | data :: rest => (some data, { s with input := rest })
  | [] => (none, s)

/-- The streams after every sender is gone. -/
def dropSender (s : Streams) : Streams := { s with senderGone := true }

/-- The streams after the writer is gone, and the input that waited for it. -/
def dropWriter (s : Streams) : Streams := { s with writerGone := true, input := [] }

theorem queue_note (s : Streams) (m : Message) : (s.note m).queue = s.queue := by
  cases m with
  | line => rfl
  | writeFailed => rfl
  | closed source => cases source <;> rfl

theorem queue_foldl_note (ms : List Message) (s : Streams) :
    (ms.foldl note s).queue = s.queue := by
  induction ms generalizing s with
  | nil => rfl
  | cons m ms ih => rw [List.foldl_cons, ih, queue_note]

/-- Nothing waits after the queue is drained. -/
theorem queue_drain (s : Streams) : s.drain.2.queue = [] := by
  have h := queue_foldl_note s.queue { s with queue := [] }
  unfold drain
  split <;> simpa [closeAll] using h

end Streams

end StepTrace
