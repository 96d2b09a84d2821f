import StepTrace.Host
import StepTrace.Host.Shell.Run

/-!
# Programs on a host

A program is started with arguments on a host and followed over some time. What it does depends only
on what it is given (`Feed`): following it again with more input or over a longer time repeats what
has been seen and goes on from there.
-/

set_option autoImplicit false

namespace StepTrace.Host

/-- What a program is given while it runs, with the times. -/
structure Feed where
  input : List (Nat × List Char)
  /-- When the input ends, if it does. -/
  inputEnd : Option Nat
  signals : List (Nat × Nat)
  deriving DecidableEq, Repr, Inhabited

/-- What is seen of a program, with the times. -/
abbrev Timeline := List (Nat × Shell.Happening)

/-- A program that has been started. -/
structure Program where
  host : Host
  /-- The path of its file. -/
  path : String
  args : List String
  pid : Nat
  /-- When it was started. -/
  start : Nat
  deriving Inhabited

/-- Whether a file can be started as a program; a script has to name an interpreter that can. -/
def isLaunchable (h : Host) (path : String) : Bool :=
  match h.disk.find? h.directory path with
  | some (.file (.tool _) executable) => executable
  | some (.file (.data bytes) true) =>
    match Shell.interpreterLine? bytes with
    | some (interpreter, _) => h.disk.isExecutable h.directory (Bytes.string interpreter)
    | none => false
  | _ => false

/-- The directories in which a program to start is searched; a tilde means nothing there. -/
def launchDirectories (h : Host) : List String :=
  if (h.environment.get? "PATH").isSome then h.searchDirectories else ["/bin", "/usr/bin"]

/-- The program that a command means, if it can be started. -/
def launch? (h : Host) (command : String) (args : List String) (pid start : Nat) :
    Option Program := do
  let path ← h.findIn? h.launchDirectories command
  if h.isLaunchable path then some ⟨h, path, args, pid, start⟩ else none

namespace Program

/-- How much of a program is followed at most. -/
def patience : Nat := 30000

/-- The shell that a program's file is run by or as. -/
def firstShell (p : Program) : Shell.State where
  name := Bytes.ofString p.path
  args := []
  vars := p.host.environment.entries.map fun e =>
    ⟨Bytes.ofString e.1, some (Bytes.ofString e.2), true, false⟩
  functions := []
  directory := p.host.directory
  descriptors := [(0, .queue 0), (1, .stream .stdout), (2, .stream .stderr)]
  saved := []
  status := 0
  lastChild := none
  lastOutput := 0
  loops := 0
  options := []
  traps := []
  locals := []
  line := 1
  within := []
  optionPlace := (1, none)

/-- The machine on which a program starts. -/
def machine (p : Program) (feed : Feed) (horizon : Nat) : Shell.Machine where
  disk := p.host.disk
  clock := p.start
  horizon := horizon
  queues := [⟨feed.input, feed.inputEnd⟩]
  seen := []
  signals := feed.signals
  pid := p.pid
  children := []
  shell := p.firstShell
  held := []
  due := []

/-- What is seen of the end of a program at some time. -/
def ending (m : Shell.Machine) (status : Option Nat) : Timeline :=
  let close := fun (t : Nat) (s : Source) =>
    if m.hasSeen (.closed s) then [] else [(t, Shell.Happening.closed s)]
  let closing := match m.lastEnd with
    | some t => close t .stdout ++ close t .stderr
    | none => []
  let input := m.inputClosing?.toList.map fun h => (m.clock, h)
  (m.clock, .ended status) :: input ++ closing

/-- What is seen of a machine's program in the order of time. -/
def timeline (m : Shell.Machine) (last : Timeline) : Timeline :=
  (m.seen.reverse ++ last).mergeSort fun a b => a.1 ≤ b.1

/-- The first signal that is left for a program which never came to wait, if it ends the program. -/
def leftSignal? (m : Shell.Machine) : Option Nat :=
  (m.signals.find? fun s =>
    s.1 ≤ m.horizon &&
      (s.2 == 9 || !Shell.isHarmless s.2 && !m.shell.traps.any fun t => t.1 == s.2)).map Prod.fst

/-- What is seen of a program up to some time, and the disk after it. -/
def follow (p : Program) (feed : Feed) (horizon : Nat) : Timeline × Disk :=
  let path := Bytes.ofString p.path
  let run := Shell.runFile patience path path (p.args.map Bytes.ofString)
  match run (p.machine feed horizon) with
  | .ok status m => (timeline m (ending m (some (status % 256))), m.disk)
  | .error (.exit status) m => (timeline m (ending m (some (status % 256))), m.disk)
  | .error .failed m => (timeline m (ending m (some 2)), m.disk)
  | .error (.killed _) m => (timeline m (ending m none), m.disk)
  | .error _ m =>
    -- a program that is busy for ever is ended by a signal all the same
    match leftSignal? m with
    | some t => (timeline m (ending { m with clock := max m.clock t } none), m.disk)
    | none => (timeline m [], m.disk)

/-- What a program that has run to its end leaves behind. -/
structure Outcome where
  stdout : List Char
  stderr : List Char
  /-- None if a signal ended it, or if its end is not known. -/
  status : Option Nat
  /-- When it has ended and its messages are complete. -/
  finish : Nat
  disk : Disk
  deriving Inhabited

/-- The bytes that were printed on a stream. -/
def printedOn (t : Timeline) (source : Source) : List Char :=
  t.flatMap fun e => match e.2 with
    | .printed s bytes => if s = source then bytes else []
    | _ => []

/-- The status at the end. -/
def statusOf (t : Timeline) : Option Nat :=
  t.findSome? fun e => match e.2 with
    | .ended status => status
    | _ => none

/-- The last time at which a program ends or closes the stream of its messages. -/
def finishOf (t : Timeline) : Nat :=
  t.foldl (fun last e => match e.2 with
    | .ended _ => max last e.1
    | .closed .stderr => max last e.1
    | _ => last) 0

/-- Runs a program to its end with an input that is there from the start. -/
def runToEnd (p : Program) (input : List Char) : Outcome :=
  let items := if input.isEmpty then [] else [(p.start, input)]
  let (t, disk) := p.follow ⟨items, some p.start, []⟩ (p.start + 3600000)
  ⟨printedOn t .stdout, printedOn t .stderr, statusOf t, finishOf t, disk⟩

end Program

end StepTrace.Host
