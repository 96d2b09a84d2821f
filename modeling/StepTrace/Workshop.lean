import StepTrace.Interpreter
import StepTrace.Manager
import StepTrace.Turn

/-!
# Workshops

A workshop is a manager at work on a host: its sessions have processes, and time passes while they
are waited for.
-/

set_option autoImplicit false

namespace StepTrace

/-- A manager, its host, the processes of its sessions, and the time in milliseconds. -/
structure Workshop where
  host : Host
  manager : Manager
  /-- The processes, each under the number of its session. -/
  processes : List Process
  clock : Nat
  deriving Inhabited

/-- A turn that somebody has. -/
structure Turn where
  language : Language
  /-- The number of its session. -/
  session : Nat
  finished : Bool
  deriving DecidableEq, Repr, Inhabited

namespace Workshop

/-- A workshop in which nothing has been started. -/
def fresh (host : Host) (settings : Settings) : Workshop := ⟨host, .fresh settings, [], 0⟩

/-- The interpreter with a number. -/
def interpreter (w : Workshop) (n : Nat) : Interpreter :=
  ⟨w.manager.sessions.getD n default, w.processes.getD n default⟩

/-- The workshop after an interpreter has changed, at some time. -/
def update (w : Workshop) (n : Nat) (i : Interpreter) (clock : Nat) : Workshop :=
  { w with
    manager := w.manager.setSession n i.session
    processes := w.processes.set n i.process
    clock := clock }

/-- Lets time pass. -/
def sleep (w : Workshop) (millis : Nat) : Workshop := { w with clock := w.clock + millis }

/-- The number that the host gives to the next process. -/
def nextPid (w : Workshop) : Nat := 100 + 10 * w.processes.length

/-- Starts an interpreter for a language. -/
def startFor (w : Workshop) (l : Language) : Except Failure Interpreter := do
  let settings := w.manager.settings
  let adapter ← w.host.adapterFor l settings
  Interpreter.start w.host adapter settings.session w.clock w.nextPid

/-- The number of a usable session for a language, which is started if need be. -/
def sessionFor (w : Workshop) (l : Language) : Except Failure Nat × Workshop :=
  match w.manager.usable? l with
  | some n => (.ok n, w)
  | none =>
    match w.startFor l with
    | .error f => (.error f, w)
    | .ok i =>
      let (result, manager) := w.manager.fill l (.ok i.session)
      (result, { w with manager := manager, processes := w.processes ++ [i.process] })

/-- Begins a turn on a session that is held. -/
def beginTurn (w : Workshop) (l : Language) (n : Nat) (code : List Char) :
    Except Failure Turn × Workshop :=
  let (result, i) := (w.interpreter n).submit w.host w.clock code
  let w := w.update n i ((w.interpreter n).submitEnd w.host w.clock code)
  match result with
  | .ok _ => (.ok ⟨l, n, false⟩, w)
  | .error f => (.error f, { w with manager := w.manager.release n })

/-- Submits code to the session of its language. A session that turns out to be dead is replaced, as
often as there are tries. -/
def executeTrying (w : Workshop) (l : Language) (code : List Char) :
    Nat → Except Failure Turn × Workshop
  | 0 => (.error (.sessionTerminated l.id), w)
  | tries + 1 =>
    match w.sessionFor l with
    | (.error f, w) => (.error f, w)
    | (.ok n, w) =>
      match w.manager.hold? n with
      | none => (.error (.executionInProgress l.id), w)
      | some manager =>
        let w := { w with manager := manager }
        let (alive, i) := (w.interpreter n).isAlive w.clock
        let w := w.update n i w.clock
        if alive then w.beginTurn l n code
        else
          -- the session died between its last turn and this one
          let manager := (w.manager.release n).discard l n
          executeTrying { w with manager := manager } l code tries

/-- Submits code to the session of its language. -/
def execute (w : Workshop) (l : Language) (code : List Char) : Except Failure Turn × Workshop :=
  w.executeTrying l code 2

/-- The next event of a turn. -/
def next (w : Workshop) (t : Turn) : Option LineEvent × Turn × Workshop :=
  if t.finished then (none, t, w)
  else
    let (event, i, clock) := (w.interpreter t.session).next w.clock
    let w := w.update t.session i clock
    let ended := event.all LineEvent.isTerminal
    (event, { t with finished := ended }, w)

/-- A turn that is being read. -/
structure Reading where
  workshop : Workshop
  turn : Turn
  /-- The events that have been read, the last one first. -/
  before : List LineEvent

/-- One reading is another with the next event read. -/
def Reading.After (r' r : Reading) : Prop :=
  ∃ e, r.workshop.next r.turn = (some e, r'.turn, r'.workshop) ∧ r'.before = e :: r.before

/-- What cannot be read to its end still has a result. -/
instance : Nonempty (List LineEvent × Turn × Workshop) := ⟨([], default, default)⟩

/-- Reads one event and goes on, or gives all that has been read. -/
def Reading.goOn (r : Reading)
    (go : (r' : Reading) → r'.After r → List LineEvent × Turn × Workshop) :
    List LineEvent × Turn × Workshop :=
  match h : r.workshop.next r.turn with
  | (some e, t, w) => go ⟨w, t, e :: r.before⟩ ⟨e, h, rfl⟩
  | (none, t, w) => (r.before.reverse, t, w)

/-- Everything that has been read in the end. A turn that never ends is read for ever. -/
def Reading.finish (r : Reading) : List LineEvent × Turn × Workshop :=
  WellFounded.partialExtrinsicFix Reading.After Reading.goOn r

/-- The events that are left of a turn. -/
def allEvents (w : Workshop) (t : Turn) : List LineEvent × Turn × Workshop :=
  Reading.finish ⟨w, t, []⟩

/-- How many events are read at most for one chunk. -/
def manyEvents : Nat := 100000

/-- The next chunk of a turn. -/
def nextChunk (w : Workshop) (t : Turn) : Nat → Option Chunk × Turn × Workshop
  | 0 => (none, t, w)
  | fuel + 1 =>
    match w.next t with
    | (none, t, w) => (none, t, w)
    | (some e, t, w) =>
      match e.chunk? with
      | some c => (some c, t, w)
      | none => nextChunk w t fuel

/-- Lets a turn go. One that has not finished is given up with its interpreter. -/
def drop (w : Workshop) (t : Turn) : Workshop :=
  let w :=
    if t.finished then w
    else w.update t.session ((w.interpreter t.session).abandon w.clock) w.clock
  { w with manager := w.manager.release t.session }

/-- Kills the process of a session by its handle. -/
def kill (w : Workshop) (n : Nat) : Workshop :=
  w.update n ((w.interpreter n).signal w.clock 9) w.clock

/-- Stops a session: by its handle, if a turn holds it. -/
def stop (w : Workshop) (n : Nat) : Workshop :=
  if w.manager.isHeld n then w.kill n
  else
    let (i, clock) := (w.interpreter n).terminate w.clock
    w.update n i clock

/-- Stops the session of a language. -/
def reset (w : Workshop) (l : Language) : Workshop :=
  match w.manager.slot? l with
  | some n => { w with manager := w.manager.setSlot l none }.stop n
  | none => w

/-- Stops every session. -/
def shutdown (w : Workshop) : Workshop :=
  let stopped := w.manager.slots.map Prod.snd
  stopped.foldl stop { w with manager := { w.manager with slots := [] } }

/-- Starts the sessions of some languages, and gives those that could be started. -/
def startEach (w : Workshop) : List Language → List Language × Workshop
  | [] => ([], w)
  | l :: rest =>
    match w.sessionFor l with
    | (.ok _, w) =>
      let (started, w) := startEach w rest
      (l :: started, w)
    | (.error _, w) => startEach w rest

/-- Starts the sessions that are to start at once. -/
def startEager (w : Workshop) : List Language × Workshop :=
  w.startEach w.manager.settings.eagerLanguages

/-- The transcript of a language's session by now. -/
def transcript? (w : Workshop) (l : Language) : Option (List Char) :=
  (w.manager.slot? l).map fun n =>
    ((w.interpreter n).advance w.clock).session.transcript.text

/-- Whether the handle of a language's session shows it as alive. -/
def seemsAlive? (w : Workshop) (l : Language) : Option Bool :=
  (w.manager.slot? l).map w.manager.seemsAlive

end Workshop

end StepTrace
