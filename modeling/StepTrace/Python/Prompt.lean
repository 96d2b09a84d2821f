import StepTrace.Marker

/-!
# Prompt echoes

An interactive Python interpreter prints its prompts on the error stream. `stripPrompts` removes
those that a line begins with, each with one space after it.
-/

set_option autoImplicit false

namespace StepTrace.Python

/-- A text after a prompt, if it begins with one: three greater-than signs or three points, at the
end of the text or before a blank. -/
def dropPrompt? (s : List Char) : Option (List Char) :=
  match Text.dropLeading? ">>>".toList s <|> Text.dropLeading? "...".toList s with
  | none => none
  | some rest =>
    match rest with
    | [] => some []
    | c :: r => if Text.isBlank c then some (if c = ' ' then r else c :: r) else none

/-- Removes at most `fuel` prompts. -/
def stripPromptsUpTo : Nat → List Char → List Char × Bool
  | 0, s => (s, false)
  | fuel + 1, s =>
    match dropPrompt? (Text.trimStart s) with
    | none => (s, false)
    | some rest => ((stripPromptsUpTo fuel rest).1, true)

/-- A line without the prompts that it begins with, and whether there were any. -/
def stripPrompts (s : List Char) : List Char × Bool := stripPromptsUpTo s.length s

/-- What a line that may begin with prompts means. -/
def classifyPrompted (s : List Char) : LineEvent :=
  let (rest, prompted) := stripPrompts s
  if prompted && Text.allBlank rest then .discard else Marker.classify rest

end StepTrace.Python
