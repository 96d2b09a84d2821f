import StepTrace.Interpreter.Process

/-!
# Interpreters at work

A session together with the process that it drives, in time. The process runs on while the session
waits: `Interpreter.next` lets time pass until the session has an event.
-/

set_option autoImplicit false

namespace StepTrace

/-- A session and its process. -/
structure Interpreter where
  session : Session
  process : Process
  deriving Inhabited

namespace Interpreter

/-- The machine as an interpreter sees it, if it can see it at all. -/
def hostFor (h : Host) (settings : SessionSettings) : Option Host := do
  let base := if settings.inheritEnv then h.environment else .empty
  let h := { h with environment := base.merge settings.environment }
  match settings.workingDirectory with
  | none => return h
  | some path =>
    if !h.disk.isDirectory h.directory path then none
    return { h with directory := ← h.disk.locate h.directory path }

/-- Starts the interpreter of an adapter. -/
def start (h : Host) (adapter : Adapter) (settings : SessionSettings) (now pid : Nat) :
    Except Failure Interpreter :=
  let launched := (hostFor h settings).bind fun h =>
    h.launch? adapter.launch.program adapter.launch.args pid now
  match launched with
  | some program =>
    .ok ⟨.start adapter settings (.ofMillis now) pid, .start program⟩
  | none => .error (.spawnFailed adapter.launch.text "the program cannot be started")

/-- The run of a shell that only checks a script, if there is one for some code. -/
def check? (h : Host) (adapter : Adapter) (code : List Char) : Option Host.Program.Outcome :=
  if !adapter.checksSyntax then none
  else
    (h.launch? adapter.launch.program ["-n"] 1 0).map fun program =>
      program.runToEnd (Host.Bytes.ofText code ++ ['\n'])

/-- What a shell that only checks a script says of some code. -/
def verdict (h : Host) (adapter : Adapter) (code : List Char) : Verdict :=
  match check? h adapter code with
  | none => .accepted
  | some outcome =>
    if outcome.status = some 0 then .accepted else .refused (Host.Bytes.string outcome.stderr)

/-- How long, in milliseconds, it takes until that is known. -/
def checkMillis (h : Host) (adapter : Adapter) (code : List Char) : Nat :=
  ((check? h adapter code).map Host.Program.Outcome.finish).getD 0

/-- Prints the lines that a stream completes. -/
def printLines (s : Session) (source : Source) (lines : List (List Char)) : Session :=
  lines.foldl (fun s line => s.print source line) s

/-- The line reader of a stream. -/
def reader (i : Interpreter) : Source → LineReader
  | .stdout => i.process.stdout
  | .stderr => i.process.stderr

/-- The interpreter with another line reader of a stream. -/
def setReader (i : Interpreter) (source : Source) (r : LineReader) : Interpreter :=
  match source with
  | .stdout => { i with process := { i.process with stdout := r } }
  | .stderr => { i with process := { i.process with stderr := r } }

/-- Why input cannot be written that nobody will read. -/
def brokenPipe : String := "Broken pipe (os error 32)"

/-- The interpreter after its writer has failed and stopped. -/
def failWriter (i : Interpreter) : Interpreter :=
  let streams := (i.session.streams.send (.writeFailed brokenPipe)).dropWriter
  { i with session := { i.session with streams := streams } }

/-- Passes on what happens. -/
def passOn (i : Interpreter) : Host.Shell.Happening → Interpreter
  | .printed source bytes =>
    let (r, lines) := (i.reader source).feed (Host.Bytes.words bytes)
    let i := i.setReader source r
    { i with session := printLines i.session source lines }
  | .closed source =>
    let i := { i with session := printLines i.session source (i.reader source).finish.toList }
    { i with session :=
      { i.session with streams := i.session.streams.send (.closed source) } }
  -- a writer that still waits for room when the input is given up has failed
  | .inputClosed unread => if Process.inputRoom < unread then i.failWriter else i
  | .ended _ => i

/-- Passes on all that happens up to a time. -/
def advance (i : Interpreter) (now : Nat) : Interpreter :=
  let i := { i with process := i.process.lookAhead now }
  let due := i.process.due now
  let i := due.foldl passOn i
  { i with process := { i.process with passed := i.process.passed + due.length } }

/-- Writes the input that waits to the process. -/
def writeInput (i : Interpreter) (now : Nat) : Interpreter :=
  match i.session.streams.takeInput with
  | (none, _) => i
  | (some data, streams) =>
    if i.process.refusesInput now then
      let streams := (streams.send (.writeFailed brokenPipe)).dropWriter
      { i with session := { i.session with streams := streams } }
    else
      ⟨{ i.session with streams := streams }, i.process.give now (Host.Bytes.ofText data)⟩

/-- Has a submission admitted. -/
def welcome (i : Interpreter) (now : Nat) : Except Failure Unit × Interpreter :=
  let i := i.advance now
  let (result, s) := i.session.welcome (i.process.observe now)
  (result, { i with session := s })

/-- Feeds code that was admitted, at the time when its check is done. -/
def feed (h : Host) (i : Interpreter) (now : Nat) (code : List Char) :
    Except Failure Unit × Interpreter :=
  let i := i.advance now
  let (result, s) := i.session.feed (verdict h i.session.adapter code) code
  (result, { i with session := s }.writeInput now)

/-- Submits code. The process goes on while the code is checked. -/
def submit (h : Host) (i : Interpreter) (now : Nat) (code : List Char) :
    Except Failure Unit × Interpreter :=
  match i.welcome now with
  | (.error f, i) => (.error f, i)
  | (.ok _, i) => feed h i (now + checkMillis h i.session.adapter code) code

/-- When a submission is done. -/
def submitEnd (h : Host) (i : Interpreter) (now : Nat) (code : List Char) : Nat :=
  match i.welcome now with
  | (.error _, _) => now
  | (.ok _, i) => now + checkMillis h i.session.adapter code

/-- The next event of the turn in flight, and the time at which it comes. If the session has begun
to wait for late lines, the deadline says until when. -/
def nextBy (i : Interpreter) (deadline : Option Nat) (now : Nat) :
    Nat → Option LineEvent × Interpreter × Nat
  | 0 => (none, i, now)
  | fuel + 1 =>
    let i := i.advance now
    -- every message that is read begins the wait for late lines anew
    let deadline := if i.session.streams.queue.isEmpty then deadline else none
    match i.session.poll with
    | (.event e, s) => (some e, { i with session := s }, now)
    | (.idle, s) => (none, { i with session := s }, now)
    | (.gone, s) =>
      let (o, now) := i.process.observeWithin now s.patience
      let (e, s) := s.exited o
      (some e, { i with session := s }, now)
    | (.waiting, s) =>
      let i := { i with session := s }
      let deadline := deadline.orElse fun _ =>
        if s.progress = .draining then some (now + s.drainGrace) else none
      -- a message that comes just at the deadline is still read
      let coming := i.process.nextTime?.filter fun t => deadline.all fun d => t ≤ d
      match coming, deadline with
      | some t, _ => i.nextBy deadline t fuel
      | none, some d =>
        let (e, s) := s.quiet
        (some e, { i with session := s }, d)
      | none, none => (none, i, now)

/-- The next event of the turn in flight, and the time at which it comes. -/
def next (i : Interpreter) (now : Nat) : Option LineEvent × Interpreter × Nat :=
  i.nextBy none now (i.process.timeline.length + 1000)

/-- Whether the process still runs. -/
def isAlive (i : Interpreter) (now : Nat) : Bool × Interpreter :=
  let i := i.advance now
  let s := i.session.refresh (i.process.observe now)
  (!s.needsRestart, { i with session := s })

/-- Sends a signal by a handle, which does nothing once the process is known to be gone. -/
def signal (i : Interpreter) (now number : Nat) : Interpreter :=
  if i.session.alive then { i with process := i.process.signal now number } else i

/-- The interpreter after its process was killed. -/
def kill (i : Interpreter) (now : Nat) : Interpreter :=
  { i with process := i.process.signal now 9 }

/-- Gives up the submission in flight. -/
def abandon (i : Interpreter) (now : Nat) : Interpreter :=
  let i := i.advance now
  if i.session.isBusy then
    let i := i.kill now
    { i with session := i.session.abandon (i.process.observe now) }
  else i

/-- Stops the process, and gives the time at which that is done. -/
def terminate (i : Interpreter) (now : Nat) : Interpreter × Nat :=
  let i := i.advance now
  if i.session.record.isTerminated then (i, now)
  else
    let i := { i with process := i.process.signal now 15 }
    let (o, time) := i.process.observeWithin now Session.terminateGrace
    -- a process that passes over the signal is killed
    let i := if o.exit.isSome then i else i.kill time
    ({ i with session := i.session.terminate (i.process.observe time) }, time)

end Interpreter

end StepTrace
