import StepTrace.Environment
import StepTrace.Host.Bytes
import StepTrace.Host.Disk
import StepTrace.Host.Shell.Command
import StepTrace.LineEvent
import StepTrace.Adapter

/-!
# The state of a running program

A program runs on a machine with a clock that only waiting moves. What it prints, which of its
streams it closes and how it ends is recorded with the time. An action is a step of the program; it
gives a value or is left early (`Flow`).

What the program reads may not have been written yet, and it is only followed up to some time. Where
its future is not known, the action is left with `Flow.waiting`.
-/

set_option autoImplicit false

namespace StepTrace.Host.Shell

/-- What is seen of a program from outside. -/
inductive Happening where
  | printed (source : Source) (bytes : List Char)
  /-- Nothing will be printed on the stream any more. -/
  | closed (source : Source)
  /-- Input will not be read any more; some bytes of it may be left. -/
  | inputClosed (unread : Nat)
  /-- The program has ended, with a status or by a signal. -/
  | ended (status : Option Nat)
  deriving DecidableEq, Repr, Inhabited

/-- Whether the program gives up its input. -/
def Happening.endsInput : Happening → Bool
  | .inputClosed _ => true
  | _ => false

/-- Why an action is left early. -/
inductive Flow where
  /-- Out of some loops. -/
  | leave (loops : Nat)
  /-- To the next round of the outermost of some loops. -/
  | again (loops : Nat)
  /-- Out of a function or a sourced script. -/
  | back (status : Nat)
  /-- Out of the shell. -/
  | exit (status : Nat)
  /-- Out of the command of the shell that failed, or out of the shell. -/
  | failed
  /-- By a signal that ends the program. -/
  | killed (signal : Nat)
  /-- What comes next is not known. -/
  | waiting
  deriving DecidableEq, Repr, Inhabited

/-- What a descriptor leads to. -/
inductive Channel where
  /-- Bytes that are written at one end and read at the other. -/
  | queue (id : Nat)
  /-- One of the two streams that are seen from outside. -/
  | stream (source : Source)
  /-- The end of a file. -/
  | file (place : List String)
  | nothing
  deriving DecidableEq, Repr, Inhabited

/-- Bytes on their way, with the times at which they were written, and the time at which the writing
ended. -/
structure Queue where
  items : List (Nat × List Char)
  ended : Option Nat
  deriving DecidableEq, Repr, Inhabited

/-- A variable of a shell. -/
structure Variable where
  name : List Char
  /-- None if it has only been marked. -/
  value : Option (List Char)
  exported : Bool
  readOnly : Bool
  deriving DecidableEq, Repr, Inhabited

/-- Descriptors and what they lead to. -/
abbrev Descriptors := List (Nat × Channel)

/-- The part of the state that a subshell has its own copy of. -/
structure State where
  /-- The name that the shell goes by in its messages. -/
  name : List Char
  args : List (List Char)
  vars : List Variable
  functions : List (List Char × Command)
  directory : List String
  descriptors : Descriptors
  /-- What descriptors lead to again after the commands that are redirected. -/
  saved : Descriptors
  /-- The status of the last command. -/
  status : Nat
  lastChild : Option Nat
  /-- The status of the last commands whose output was taken for a word. -/
  lastOutput : Nat
  /-- How many loops there are to leave. -/
  loops : Nat
  /-- The letters of the options that are on. -/
  options : List Char
  /-- Commands that signals start; the one of signal zero is started at the end. -/
  traps : List (Nat × List Char)
  /-- What local variables were before, for each function that is being called. -/
  locals : List (List (List Char × Option Variable))
  line : Nat
  /-- The command of the shell that is at work, as messages name it. -/
  within : List Char
  /-- The number of the argument in which `getopts` looks for the next option, and how much of it
  has been read. -/
  optionPlace : Nat × Option Nat
  deriving Inhabited

/-- A program in the background. -/
structure Child where
  pid : Nat
  /-- When it ends, if that is known. -/
  finish : Option Nat
  status : Nat
  deriving DecidableEq, Repr, Inhabited

/-- A machine on which a program runs. -/
structure Machine where
  disk : Disk
  /-- The time in milliseconds. -/
  clock : Nat
  /-- The time up to which the program is followed. -/
  horizon : Nat
  /-- All queues; the first one is the input of the program. -/
  queues : List Queue
  /-- What has been seen, the latest first. -/
  seen : List (Nat × Happening)
  /-- Signals that will come, with their times. -/
  signals : List (Nat × Nat)
  pid : Nat
  /-- Programs in the background. -/
  children : List Child
  shell : State
  /-- The descriptors of the programs that started this one. -/
  held : List Descriptors
  /-- Commands of traps that are due. -/
  due : List (List Char)
  deriving Inhabited

/-- A step of a program. -/
abbrev Action (α : Type) := EStateM Flow Machine α

/-- The names of signals by their numbers. -/
def signalNames : List String :=
  ["EXIT", "HUP", "INT", "QUIT", "ILL", "TRAP", "ABRT", "BUS", "FPE", "KILL", "USR1", "SEGV",
    "USR2", "PIPE", "ALRM", "TERM", "16", "CHLD", "CONT", "STOP", "TSTP", "TTIN", "TTOU", "URG",
    "XCPU", "XFSZ", "VTALRM", "PROF", "WINCH", "IO", "PWR", "SYS"]

/-- The signals that have no effect on a program which does not wait for them. -/
def harmlessSignals : List Nat := [0, 17, 18, 23, 28]

/-- Whether a signal is of no effect on a program that does not wait for it. -/
def isHarmless (signal : Nat) : Bool := harmlessSignals.contains signal

namespace Machine

/-- The time by which every program in the background has ended, if it is known. -/
def lastEnd (m : Machine) : Option Nat :=
  m.children.foldl (fun last c => do return max (← last) (← c.finish)) (some m.clock)

/-- Whether a channel is held by any descriptor. -/
def holds (m : Machine) (c : Channel) : Bool :=
  (m.shell.descriptors :: m.shell.saved :: m.held).any fun table => table.any fun d => d.2 == c

/-- The machine after something was seen. -/
def see (m : Machine) (h : Happening) : Machine := { m with seen := (m.clock, h) :: m.seen }

/-- Whether something has been seen. -/
def hasSeen (m : Machine) (h : Happening) : Bool := m.seen.any fun s => s.2 == h

/-- What is seen when the input is given up: how many bytes of it were there and have not been
read. Nothing, if it was given up before. -/
def inputClosing? (m : Machine) : Option Happening :=
  if m.seen.any fun s => s.2.endsInput then none
  else
    let left := (m.queues.getD 0 default).items.filter fun item => item.1 ≤ m.clock
    some (.inputClosed (left.foldl (fun n item => n + item.2.length) 0))

/-- The machine after it was seen which of the program's streams nobody holds any more. -/
def seeClosed (m : Machine) : Machine :=
  let check := fun (m : Machine) (c : Channel) (h : Happening) =>
    if m.holds c || m.hasSeen h then m else m.see h
  let m := check (check m (.stream .stdout) (.closed .stdout)) (.stream .stderr) (.closed .stderr)
  if m.holds (.queue 0) then m else (m.inputClosing?.map m.see).getD m

/-- The variable with a name. -/
def lookup? (m : Machine) (name : List Char) : Option Variable :=
  m.shell.vars.find? fun v => v.name == name

/-- The value of a variable. -/
def valueOf? (m : Machine) (name : List Char) : Option (List Char) :=
  (m.lookup? name).bind Variable.value

/-- Whether a variable cannot be changed. -/
def isReadOnly (m : Machine) (name : List Char) : Bool := (m.lookup? name).any Variable.readOnly

/-- The machine after a variable has changed; one that is not there yet starts without a value. -/
def changeVariable (m : Machine) (name : List Char) (f : Variable → Variable) : Machine :=
  let vs := m.shell.vars
  let vs := if (m.lookup? name).isSome then vs else vs ++ [⟨name, none, false, false⟩]
  { m with shell := { m.shell with vars := vs.map fun v => if v.name == name then f v else v } }

/-- The machine after a variable is given a value. With the option for it every variable is handed
on. -/
def assign (m : Machine) (name value : List Char) : Machine :=
  let all := m.shell.options.contains 'a'
  let m := m.changeVariable name fun v =>
    { v with value := some value, exported := v.exported || all }
  if name = "OPTIND".toList then
    { m with shell := { m.shell with optionPlace := (Text.digitValue value, none) } }
  else m

/-- The machine after a variable is handed on to the programs that are started. -/
def handOn (m : Machine) (name : List Char) : Machine :=
  m.changeVariable name fun v => { v with exported := true }

/-- The machine after a variable cannot be changed any more. -/
def protect (m : Machine) (name : List Char) : Machine :=
  m.changeVariable name fun v => { v with readOnly := true }

/-- The machine without a variable. -/
def forget (m : Machine) (name : List Char) : Machine :=
  { m with shell := { m.shell with
      vars := m.shell.vars.filter fun v => v.name != name } }

/-- What a descriptor leads to. -/
def channel? (m : Machine) (descriptor : Nat) : Option Channel :=
  (m.shell.descriptors.find? fun d => d.1 == descriptor).map Prod.snd

/-- The machine after a descriptor leads somewhere else, or nowhere. -/
def redirect (m : Machine) (descriptor : Nat) (target : Option Channel) : Machine :=
  let others := m.shell.descriptors.filter fun d => d.1 != descriptor
  let table := match target with
    | some c => (descriptor, c) :: others
    | none => others
  { m with shell := { m.shell with descriptors := table } }

/-- A new queue. -/
def addQueue (m : Machine) (q : Queue) : Nat × Machine :=
  (m.queues.length, { m with queues := m.queues ++ [q] })

/-- The machine after a queue has changed. -/
def setQueue (m : Machine) (id : Nat) (q : Queue) : Machine :=
  { m with queues := m.queues.set id q }

/-- The machine after bytes are written to a channel. -/
def writeTo (m : Machine) (c : Channel) (bytes : List Char) : Machine :=
  if bytes.isEmpty then m
  else
    match c with
    | .queue id =>
      let q := m.queues.getD id default
      m.setQueue id { q with items := q.items ++ [(m.clock, bytes)] }
    | .stream source => m.see (.printed source bytes)
    | .file place =>
      match m.disk.at? place with
      | some (.file (.data old) executable) =>
        { m with disk := m.disk.put place (.file (.data (old ++ bytes)) executable) }
      | _ => m
    | .nothing => m

end Machine

/-- Changes the machine. -/
def change (f : Machine → Machine) : Action Unit := modify f

/-- A value of the shell's own state. -/
def ofShell {α : Type} (f : State → α) : Action α := do return f (← get).shell

/-- Changes the shell's own state. -/
def changeShell (f : State → State) : Action Unit := modify fun m => { m with shell := f m.shell }

/-- Moves the clock to a time, if the program is followed so far. -/
def passUntil (time : Nat) : Action Bool := do
  let m ← get
  -- the program is not followed so far
  if m.horizon < time then
    set { m with clock := max m.clock m.horizon }
    throw .waiting
  set { m with clock := max m.clock time }
  return true

/-- Takes a signal: it ends the program, is passed over, or makes its trap due; the result tells
whether it did the last. -/
def takeSignal (signal : Nat) : Action Bool := do
  match (← ofShell State.traps).find? fun t => t.1 == signal with
  | some (_, action) =>
    if signal = 9 then throw (.killed signal)
    if !action.isEmpty then change fun m => { m with due := m.due ++ [action] }
    return !action.isEmpty
  | none => if isHarmless signal then return false else throw (.killed signal)

/-- Waits for a time. A signal may come before it; if the signal makes a trap due, the waiting is
cut short, and the result is false. -/
def waitUntil (time : Nat) : Nat → Action Bool
  | 0 => throw .waiting
  | fuel + 1 => do
    let m ← get
    match m.signals with
    | [] => passUntil time
    | (due, signal) :: rest =>
      if time ≤ due then passUntil time
      else
        -- the signal comes first
        set { m with signals := rest, clock := max m.clock due }
        if ← takeSignal signal then return false else waitUntil time fuel

/-- Waits for a time, with enough fuel for all signals. -/
def waitFor (time : Nat) : Action Bool := do waitUntil time ((← get).signals.length + 1)

/-- Writes to a descriptor; tells whether it leads anywhere. -/
def write (descriptor : Nat) (bytes : List Char) : Action Bool := do
  match (← get).channel? descriptor with
  | some c =>
    change fun m => m.writeTo c bytes
    return true
  | none => return false

/-- Prints on the error stream. -/
def complain (bytes : List Char) : Action Unit := do
  let _ ← write 2 (bytes ++ ['\n'])

/-- A message of the shell. It names the line and the command of the shell that is at work. -/
def report (message : String) : Action Unit := do
  let s ← ofShell id
  let within := if s.within.isEmpty then [] else s.within ++ [':', ' ']
  complain (s.name ++ Bytes.ofString (": " ++ toString s.line ++ ": ") ++ within ++
    Bytes.ofString message)

/-- A mistake that ends the command of the shell that is at work, or the shell. -/
def fail {α : Type} (message : String) : Action α := do
  report message
  throw .failed

/-- What an attempt to read gives. -/
inductive Reading where
  | bytes (data : List Char)
  | finished
  /-- A trap became due while nothing could be read. -/
  | interrupted
  deriving DecidableEq, Repr, Inhabited

/-- Reads the next bytes of a queue. -/
def readQueue (id : Nat) : Action Reading := do
  let m ← get
  let q := m.queues.getD id default
  match q.items with
  | (time, bytes) :: rest =>
    if ← waitFor (max m.clock time) then
      change fun m => m.setQueue id { q with items := rest }
      return .bytes bytes
    return .interrupted
  | [] =>
    match q.ended with
    | some time => return if ← waitFor (max m.clock time) then .finished else .interrupted
    -- more may be written, so what is read next is not known before the horizon
    | none => return if ← waitFor (m.horizon + 1) then .finished else .interrupted

/-- Reads the next bytes from a descriptor. -/
def readBytes (descriptor : Nat) : Action Reading := do
  match (← get).channel? descriptor with
  | some (.queue id) => readQueue id
  | _ => return .finished

/-- Puts bytes back that were read too much. -/
def unread (descriptor : Nat) (bytes : List Char) : Action Unit := do
  match (← get).channel? descriptor with
  | some (.queue id) =>
    if !bytes.isEmpty then
      change fun m =>
        let q := m.queues.getD id default
        m.setQueue id { q with items := (0, bytes) :: q.items }
  | _ => return

/-- Reads from a descriptor up to its end. -/
def readAll (descriptor : Nat) : Nat → Action (List Char)
  | 0 => throw .waiting
  | fuel + 1 => do
    match ← readBytes descriptor with
    | .bytes data => return data ++ (← readAll descriptor fuel)
    | _ => return []

/-- How often bytes can be read from the queues of a machine. -/
def readings : Action Nat := do
  return (← get).queues.foldl (fun n q => n + q.items.length + 1) 2

/-- All that a descriptor gives. -/
def slurp (descriptor : Nat) : Action (List Char) := do readAll descriptor (← readings)

/-- The next line from a descriptor, and whether a line feed ended it. -/
def readLineFrom (descriptor : Nat) : Nat → Action (List Char × Bool)
  | 0 => throw .waiting
  | fuel + 1 => do
    match ← readBytes descriptor with
    | .bytes data =>
      match data.span (· != '\n') with
      | (line, _ :: rest) =>
        unread descriptor rest
        return (line, true)
      | (line, []) =>
        let (more, ended) ← readLineFrom descriptor fuel
        return (line ++ more, ended)
    | _ => return ([], false)

/-- The entry under a path. -/
def entry? (path : List Char) : Action (Option Entry) := do
  let m ← get
  return m.disk.find? m.shell.directory (Bytes.string path)

/-- The bytes in the file under a path. -/
def fileBytes? (path : List Char) : Action (Option (List Char)) := do
  let m ← get
  if path = "/dev/null".toList then return some []
  return m.disk.read? m.shell.directory (Bytes.string path)

end StepTrace.Host.Shell
