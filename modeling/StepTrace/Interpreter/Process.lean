import StepTrace.Host.Program
import StepTrace.Session
import StepTrace.Streams.LineReader

/-!
# Processes

The process of an interpreter as it is followed over time: what it was given, what it will do, and
how much of that has been passed on to the session.
-/

set_option autoImplicit false

namespace StepTrace

/-- A process that is being followed. -/
structure Process where
  program : Host.Program
  given : Host.Feed
  /-- What the process does up to the horizon. -/
  timeline : Host.Timeline
  horizon : Nat
  /-- How much of the timeline has been passed on. -/
  passed : Nat
  stdout : LineReader
  stderr : LineReader
  deriving Inhabited

/-- The moment of a time in milliseconds. -/
def Moment.ofMillis (t : Nat) : Moment :=
  ⟨t / 86400000, t / 1000 % 86400, t % 1000 * 1000000⟩

namespace Process

/-- How far, in milliseconds, the future of a process is looked into. -/
def foresight : Nat := 60000

/-- Follows the process again with what it has been given by now. -/
def refollow (p : Process) (horizon : Nat) : Process :=
  { p with timeline := (p.program.follow p.given horizon).1, horizon := horizon }

/-- A process that starts. -/
def start (program : Host.Program) : Process :=
  refollow ⟨program, ⟨[], none, []⟩, [], 0, 0, .fresh, .fresh⟩ (program.start + foresight)

/-- Looks into the future from a time on. -/
def lookAhead (p : Process) (now : Nat) : Process :=
  if p.horizon < now + foresight then p.refollow (now + 2 * foresight) else p

/-- What happens up to a time and has not been passed on. -/
def due (p : Process) (now : Nat) : List Host.Shell.Happening :=
  ((p.timeline.drop p.passed).takeWhile fun e => e.1 ≤ now).map Prod.snd

/-- When the next thing happens that has not been passed on. -/
def nextTime? (p : Process) : Option Nat := (p.timeline.drop p.passed).head?.map Prod.fst

/-- When and how the process ends. -/
def end? (p : Process) : Option (Nat × Option Int) :=
  p.timeline.findSome? fun e => match e.2 with
    | .ended status => some (e.1, status.map Int.ofNat)
    | _ => none

/-- How many bytes of input wait for a process at most; a writer with more of them waits too. -/
def inputRoom : Nat := 65536

/-- Whether the process has stopped reading its input by a time. -/
def refusesInput (p : Process) (now : Nat) : Bool :=
  p.timeline.any fun e => e.2.endsInput && e.1 ≤ now

/-- Gives the process input. -/
def give (p : Process) (now : Nat) (bytes : List Char) : Process :=
  { p with given := { p.given with input := p.given.input ++ [(now, bytes)] } }.refollow
    (max p.horizon (now + foresight))

/-- Sends the process a signal. -/
def signal (p : Process) (now : Nat) (number : Nat) : Process :=
  { p with given := { p.given with signals := p.given.signals ++ [(now, number)] } }.refollow
    (max p.horizon (now + foresight))

/-- What the host answers about the process at a time. -/
def observe (p : Process) (now : Nat) : Observation :=
  ⟨.ofMillis now, match p.end? with
    | some (time, code) => if time ≤ now then some code else none
    | none => none⟩

/-- What the host answers after the end of the process was waited for, and the time then. -/
def observeWithin (p : Process) (now grace : Nat) : Observation × Nat :=
  let time := match p.end? with
    | some (time, _) => max now (min time (now + grace))
    | none => now + grace
  (p.observe time, time)

end Process

end StepTrace
