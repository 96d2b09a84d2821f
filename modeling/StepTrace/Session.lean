import StepTrace.ProcessRecord
import StepTrace.Settings
import StepTrace.Streams
import StepTrace.Transcript

/-!
# Sessions

A session is one interpreter that takes one submission at a time. What the host knows of the process
reaches it as observations, what the interpreter prints as messages in the queue of its streams.

A submission is admitted first and fed then; messages may arrive in between. `Session.poll` reads
the queue up to the next event of the turn in flight. Once the end marker was read the session
drains: it passes on what is still printed until the streams are quiet or closed.
-/

set_option autoImplicit false

namespace StepTrace

/-- How far the submission in flight has come. -/
inductive Progress where
  /-- There is none. -/
  | idle
  | running
  /-- The end marker was read. -/
  | draining
  deriving DecidableEq, Repr, Inhabited

/-- What the host answers when it is asked about a process. -/
structure Observation where
  now : Moment
  /-- The exit code, if the process has ended; a process that a signal ended has none. -/
  exit : Option (Option Int)
  deriving DecidableEq, Repr, Inhabited

/-- An interpreter, and what is known of it. -/
structure Session where
  adapter : Adapter
  record : ProcessRecord
  streams : Streams
  transcript : Transcript
  /-- How long late lines are waited for, in milliseconds. -/
  drainGrace : Nat
  progress : Progress
  /-- Whether another interpreter has to take its place. -/
  needsRestart : Bool
  /-- What the handles that can kill the process see. -/
  alive : Bool
  deriving DecidableEq, Repr, Inhabited

/-- What reading the queue of a session comes to. -/
inductive Poll where
  | event (e : LineEvent)
  /-- No submission is in flight. -/
  | idle
  /-- Nothing more is in the queue. -/
  | waiting
  /-- Both output streams have closed. -/
  | gone
  deriving DecidableEq, Repr, Inhabited

namespace Session

/-- How long, in milliseconds, the end of a process is waited for after its streams have closed. -/
def reapGrace : Nat := 200

/-- How long, in milliseconds, a process may take to end after it was told to. -/
def terminateGrace : Nat := 500

/-- The session of an interpreter that has just started. -/
def start (adapter : Adapter) (settings : SessionSettings) (now : Moment) (pid : Nat) :
    Session where
  adapter := adapter
  record := (ProcessRecord.create adapter.launch.program adapter.launch.args).markStarted now pid
  streams := .fresh
  transcript := .empty settings.transcriptLimit
  drainGrace := settings.drainGrace
  progress := .idle
  needsRestart := false
  alive := true

/-- The language of the session. -/
def language (s : Session) : Language := s.adapter.language

/-- Whether a submission is in flight. -/
def isBusy (s : Session) : Bool := s.progress != .idle

/-- The session after its process is known to be of no more use. -/
def markDead (s : Session) : Session := { s with needsRestart := true, alive := false }

/-- The session after the process's end is entered in the record, if it has ended. -/
def reap (s : Session) (o : Observation) : Session :=
  match o.exit with
  | some code => { s with record := s.record.markTerminated o.now code }
  | none => s

/-- The session after a look at whether its process still runs. What was printed so far is thrown
away. -/
def refresh (s : Session) (o : Observation) : Session :=
  if s.needsRestart then s
  else
    let s := { s with streams := s.streams.drain.2 }
    if s.streams.allClosed || o.exit.isSome then s.markDead else s

/-- Admits a submission: refused while another is in flight or if the process is gone. -/
def welcome (s : Session) (o : Observation) : Except Failure Unit × Session :=
  if s.isBusy then (.error (.executionInProgress s.language.id), s)
  else
    let s := s.refresh o
    (if s.needsRestart then .error (.sessionTerminated s.language.id) else .ok (), s)

/-- Feeds code that was admitted to the interpreter. -/
def feed (s : Session) (verdict : Verdict) (code : List Char) : Except Failure Unit × Session :=
  match s.adapter.preprocess verdict code with
  | .error f => (.error f, s)
  | .ok program =>
    -- what came in while the code was prepared is stale
    let s := { s with streams := s.streams.drain.2 }
    match s.streams.write (program ++ ['\n']) with
    | .error f => (.error f, s.markDead)
    | .ok streams => (.ok (), { s with streams := streams, progress := .running })

/-- Submits code when nothing arrives in between. -/
def submit (s : Session) (o : Observation) (verdict : Verdict) (code : List Char) :
    Except Failure Unit × Session :=
  match s.welcome o with
  | (.error f, s) => (.error f, s)
  | (.ok _, s) => s.feed verdict code

/-- The turn ends well. -/
def finishTurn (s : Session) : LineEvent × Session :=
  (.endOfExecution, { s with progress := .idle })

/-- The turn ends with a fault, and the session with it. -/
def fault (s : Session) (reason : String) : LineEvent × Session :=
  (.fault reason, { s with progress := .idle }.markDead)

/-- What is told of a process that has ended. -/
def exitReason : Option Int → String
  | some code => "interpreter exited with status " ++ toString code
  | none => "interpreter exited"

/-- The turn ends because the process is gone. After the end marker that is no fault. -/
def exited (s : Session) (o : Observation) : LineEvent × Session :=
  if s.progress = .draining then (s.markDead.reap o).finishTurn
  else
    let s := s.reap o
    s.fault (exitReason s.record.exitCode)

/-- How long the end of the process is waited for once the streams have closed. -/
def patience (s : Session) : Nat := if s.progress = .draining then 0 else reapGrace

/-- An event that ends a poll. -/
def yielded (p : LineEvent × Session) : Option Poll × Session := (some (.event p.1), p.2)

/-- What a message comes to that has been taken from the queue; nothing if the next one is to be
read. -/
def heed (s : Session) : Message → Option Poll × Session
  | .line source text =>
    match s.adapter.classifyOutput text.toList source with
    | .discard => (none, s)
    | .endOfExecution =>
      if s.progress = .draining then (none, s)
      -- without a grace the end marker is the end of the turn
      else if s.drainGrace = 0 then yielded s.finishTurn
      else (none, { s with progress := .draining })
    | .activeLine n =>
      -- a marker that comes after the end marker belongs to nothing
      if s.progress = .draining then (none, s) else (some (.event (.activeLine n)), s)
    | e => (some (.event e), s)
  | .closed _ => (if s.streams.allClosed then some .gone else none, s)
  | .writeFailed reason => yielded (s.fault ("failed to write to interpreter: " ++ reason))

/-- The session after a message was taken from the queue, of which the rest is left. -/
def takeMessage (s : Session) (m : Message) (rest : List Message) : Session :=
  { s with streams := { s.streams with queue := rest }.note m }

/-- Reads a queue up to the next event. -/
def pollFrom (s : Session) : List Message → Poll × Session
  | [] => (if s.streams.senderGone then .gone else .waiting, s)
  | m :: rest =>
    match (s.takeMessage m rest).heed m with
    | (some p, s) => (p, s)
    | (none, s) => s.pollFrom rest

/-- Reads the queue up to the next event of the turn in flight. -/
def poll (s : Session) : Poll × Session :=
  if s.progress = .idle then (.idle, s) else s.pollFrom s.streams.queue

/-- The next event, where the host answers about the process after any time that it may be waited
for. -/
def next (s : Session) (host : Nat → Observation) : Poll × Session :=
  match s.poll with
  | (.gone, s) =>
    let (e, s) := s.exited (host s.patience)
    (.event e, s)
  | other => other

/-- Nothing came for as long as late lines are waited for. -/
def quiet (s : Session) : LineEvent × Session := s.finishTurn

/-- The session after its process was killed. -/
def killed (s : Session) (o : Observation) : Session :=
  let s := s.markDead
  { s with record := s.record.markTerminated o.now o.exit.join }

/-- The session after the submission in flight was given up, and the process with it. -/
def abandon (s : Session) (o : Observation) : Session :=
  if s.isBusy then { s with progress := .idle }.killed o else s

/-- The session after its process was stopped. -/
def terminate (s : Session) (o : Observation) : Session :=
  if s.record.isTerminated then s
  else
    let s := { s with record := s.record.markTerminated o.now o.exit.join, progress := .idle }
    s.markDead

/-- The session after a line was printed. -/
def print (s : Session) (source : Source) (line : List Char) : Session :=
  { s with
    transcript := s.transcript.push line
    streams := s.streams.send (.line source (String.ofList line)) }

end Session

end StepTrace
