import StepTrace.Json.Record

/-!
# Line events

What one line of an interpreter's output tells about a submission. A terminal event closes a turn.
For readers of JSON an event other than `discard` is projected to a chunk (`LineEvent.chunk?`).
-/

set_option autoImplicit false

namespace StepTrace

/-- The meaning of one line of output. -/
inductive LineEvent where
  /-- The statement on a source line is about to run. -/
  | activeLine (line : Nat)
  /-- The submission has run to its end. -/
  | endOfExecution
  /-- A line that the submission printed. -/
  | outputText (text : String)
  /-- A line that means nothing. -/
  | discard
  /-- The interpreter failed. -/
  | fault (reason : String)
  deriving DecidableEq, Repr, Inhabited

/-- What one event adds to the record of a turn. -/
structure Chunk where
  activeLine : Option Nat
  output : Option String
  error : Option String
  done : Bool
  deriving DecidableEq, Repr, Inhabited

namespace LineEvent

/-- Whether the event closes its turn. -/
def isTerminal : LineEvent → Bool
  | .endOfExecution => true
  | .fault _ => true
  | _ => false

/-- The line that becomes active. -/
def activeLine? : LineEvent → Option Nat
  | .activeLine line => some line
  | _ => none

/-- The text that was printed. -/
def outputText? : LineEvent → Option String
  | .outputText text => some text
  | _ => none

/-- The chunk of an event; printed text ends in a line feed there. -/
def chunk? : LineEvent → Option Chunk
  | .activeLine line => some ⟨some line, none, none, false⟩
  | .outputText text => some ⟨none, some (text ++ "\n"), none, false⟩
  | .endOfExecution => some ⟨none, none, none, true⟩
  | .fault reason => some ⟨none, none, some reason, true⟩
  | .discard => none

/-- An event as JSON: its kind, and its value if it has one. -/
def toJson : LineEvent → Json
  | .activeLine line => .object [("kind", .string "active_line"), ("value", .ofNat line)]
  | .endOfExecution => .object [("kind", .string "end_of_execution")]
  | .outputText text => .object [("kind", .string "output_text"), ("value", .string text)]
  | .discard => .object [("kind", .string "discard")]
  | .fault reason => .object [("kind", .string "fault"), ("value", .string reason)]

/-- Whether a value is absent or null. -/
def isVoid : Option Json → Bool
  | none => true
  | some .null => true
  | _ => false

/-- The event of a kind with a value. -/
def ofKind? (kind : String) (value : Option Json) : Option LineEvent :=
  if kind = "active_line" then (value.bind Json.word?).map .activeLine
  else if kind = "output_text" then (value.bind Json.string?).map .outputText
  else if kind = "fault" then (value.bind Json.string?).map .fault
  else if kind = "end_of_execution" then if isVoid value then some .endOfExecution else none
  else if kind = "discard" then if isVoid value then some .discard else none
  else none

/-- The event that JSON describes. The kind is a symbol in an object, but only a string in an
array. -/
def ofJson? : Json → Option LineEvent
  | .array [.string kind, value] => ofKind? kind (some value)
  | .object members =>
    match Json.fieldsOfObject? ["kind", "value"] members with
    | some [some kind, value] => kind.symbol?.bind fun kind => ofKind? kind value
    | _ => none
  | _ => none

end LineEvent

namespace Chunk

/-- A member of an object, or none of it if there is no value. -/
def member? (name : String) : Option Json → List (String × Json)
  | none => []
  | some j => [(name, j)]

/-- A chunk as JSON, without the fields it has no value for. -/
def toJson (c : Chunk) : Json :=
  .object (member? "active_line" (c.activeLine.map .ofNat) ++
    member? "output" (c.output.map .string) ++
    member? "error" (c.error.map .string) ++ [("done", .bool c.done)])

/-- The chunk that JSON describes. -/
def ofJson? (j : Json) : Option Chunk :=
  match j.fields? ["active_line", "output", "error", "done"] with
  | some [line, output, error, done] => do
    let line ← Json.absentOr? Json.word? line
    let output ← Json.absentOr? Json.string? output
    let error ← Json.absentOr? Json.string? error
    let done ← Json.required? Json.bool? done
    return ⟨line, output, error, done⟩
  | _ => none

end Chunk

end StepTrace
