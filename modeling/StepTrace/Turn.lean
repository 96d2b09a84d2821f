import StepTrace.LineEvent

/-!
# Turns

A turn is all that comes of one submission. Its events can be gathered in several ways: as chunks,
or all at once as what was printed, which lines ran, and what went wrong.
-/

set_option autoImplicit false

namespace StepTrace

/-- What a turn produced. -/
structure TurnOutput where
  /-- The lines that were printed, each with a line feed. -/
  output : String
  /-- The lines that became active, in this order. -/
  activeLines : List Nat
  /-- Why the interpreter failed, if it did. -/
  fault : Option String
  deriving DecidableEq, Repr, Inhabited

namespace TurnOutput

/-- Nothing. -/
def empty : TurnOutput := ⟨"", [], none⟩

/-- The output with one more event. -/
def add (t : TurnOutput) : LineEvent → TurnOutput
  | .activeLine n => { t with activeLines := t.activeLines ++ [n] }
  | .outputText text => { t with output := t.output ++ text ++ "\n" }
  | .fault reason => { t with fault := some reason }
  | .endOfExecution => t
  | .discard => t

/-- All that some events tell. -/
def ofEvents (events : List LineEvent) : TurnOutput := events.foldl add empty

end TurnOutput

/-- The chunks of some events. -/
def Chunk.ofEvents (events : List LineEvent) : List Chunk := events.filterMap LineEvent.chunk?

end StepTrace
