import StepTrace.Json.Record
import StepTrace.Moment.Reader

/-!
# Process records

What is known of an interpreter's process over its life. A record says what happened to a process;
it is no handle on it. The second report of a process's end changes nothing
(`markTerminated_twice`).
-/

set_option autoImplicit false

namespace StepTrace

/-- How far a process has come. -/
inductive ProcessState where
  | created
  | running
  | terminated
  deriving DecidableEq, Repr, Inhabited

/-- The name of a state. -/
def ProcessState.name : ProcessState → String
  | .created => "Created"
  | .running => "Running"
  | .terminated => "Terminated"

/-- The state with a name. -/
def ProcessState.ofName? (name : String) : Option ProcessState :=
  [ProcessState.created, .running, .terminated].find? fun s => s.name == name

/-- A state in JSON is the symbol of its name. -/
def ProcessState.ofJson? (j : Json) : Option ProcessState := j.symbol?.bind ofName?

/-- The life of a process. -/
structure ProcessRecord where
  pid : Option Nat
  state : ProcessState
  started : Option Moment
  ended : Option Moment
  exitCode : Option Int
  command : String
  args : List String
  deriving DecidableEq, Repr, Inhabited

namespace ProcessRecord

/-- The record of a process that has not started. -/
def create (command : String) (args : List String) : ProcessRecord :=
  ⟨none, .created, none, none, none, command, args⟩

/-- The record after the process started. -/
def markStarted (r : ProcessRecord) (now : Moment) (pid : Nat) : ProcessRecord :=
  { r with pid := some pid, state := .running, started := some now }

/-- Whether the process is running. -/
def isRunning (r : ProcessRecord) : Bool := r.state == .running

/-- Whether the process has ended. -/
def isTerminated (r : ProcessRecord) : Bool := r.state == .terminated

/-- The record after the process ended, with its exit code if it has one. Only the first end
counts. -/
def markTerminated (r : ProcessRecord) (now : Moment) (exitCode : Option Int) : ProcessRecord :=
  if r.isTerminated then r
  else { r with state := .terminated, ended := some now, exitCode := exitCode }

theorem isTerminated_markTerminated (r : ProcessRecord) (t : Moment) (c : Option Int) :
    (r.markTerminated t c).isTerminated = true := by
  unfold markTerminated
  split
  · assumption
  · rfl

theorem markTerminated_twice (r : ProcessRecord) (t u : Moment) (c d : Option Int) :
    (r.markTerminated t c).markTerminated u d = r.markTerminated t c :=
  if_pos (isTerminated_markTerminated r t c)

/-- How long the process lived, in nanoseconds. -/
def lifetime (r : ProcessRecord) : Option Nat := do
  return Moment.elapsed (← r.started) (← r.ended)

/-- The program with its arguments. -/
def commandLine (r : ProcessRecord) : String := String.intercalate " " (r.command :: r.args)

/-- The record on one line. -/
def text (r : ProcessRecord) : String :=
  let pid := match r.pid with
    | some pid => toString pid
    | none => "N/A"
  let code := match r.exitCode with
    | some code => " (exit: " ++ toString code ++ ")"
    | none => ""
  r.commandLine ++ " [" ++ pid ++ "] - " ++ r.state.name ++ code

/-- A moment in JSON is its text. -/
def momentOfJson? (j : Json) : Option Moment := j.string?.bind fun s => Moment.parse? s.toList

/-- A moment as JSON. -/
def momentToJson (m : Moment) : Json := .string (String.ofList m.text)

/-- A record as JSON. -/
def toJson (r : ProcessRecord) : Json :=
  .object [("pid", .ofOption .ofNat r.pid), ("state", .string r.state.name),
    ("start_time", .ofOption momentToJson r.started),
    ("end_time", .ofOption momentToJson r.ended), ("exit_code", .ofOption .integer r.exitCode),
    ("command", .string r.command), ("args", .ofStrings r.args)]

/-- The record that JSON describes. -/
def ofJson? (j : Json) : Option ProcessRecord :=
  match j.fields? ["pid", "state", "start_time", "end_time", "exit_code", "command", "args"] with
  | some [pid, state, started, ended, exitCode, command, args] => do
    let pid ← Json.absentOr? (Json.natural? (Nat.pow 2 32)) pid
    let state ← Json.required? ProcessState.ofJson? state
    let started ← Json.absentOr? momentOfJson? started
    let ended ← Json.absentOr? momentOfJson? ended
    let exitCode ← Json.absentOr? (Json.integer? (-Nat.pow 2 31) (Nat.pow 2 31)) exitCode
    let command ← Json.required? Json.string? command
    let args ← Json.required? (Json.list? Json.string?) args
    return ⟨pid, state, started, ended, exitCode, command, args⟩
  | _ => none

end ProcessRecord

end StepTrace
