import StepTrace.LineEvent
import StepTrace.Text.Blank
import StepTrace.Text.Line
import StepTrace.Text.Numeral
import StepTrace.Text.Span

/-!
# Markers

Instrumented code prints a marker before each statement and one after the last. A marker carries a
line number between an opening and a delimiter; it counts wherever it stands in a line of output.
`classify` reads a line of output, `strip` drops the lines that hold a marker.
-/

set_option autoImplicit false

namespace StepTrace.Marker

/-- How a marker of an active line begins. -/
def opening : List Char := "##active_line".toList

/-- How a marker of an active line ends. -/
def delimiter : List Char := "##".toList

/-- The marker that a submission prints at its end. -/
def ending : List Char := "##end_of_execution##".toList

/-- The marker of a line. -/
def ofLine (line : Nat) : List Char := opening ++ Text.digits line ++ delimiter

theorem mem_ofLine {n : Nat} {c : Char} (h : c ∈ ofLine n) :
    c ∈ "#activ_eln".toList ∨ c.isDigit = true := by
  have hsigns : opening ++ delimiter ⊆ "#activ_eln".toList := by decide
  rw [ofLine, List.mem_append, List.mem_append] at h
  rcases h with (h | h) | h
  · exact .inl (hsigns (List.mem_append_left _ h))
  · exact .inr (Text.isDigit_of_mem_digits h)
  · exact .inl (hsigns (List.mem_append_right _ h))

/-- The number in the first marker of a line of output; none if what stands there is no numeral of
a machine word. -/
def line? (s : List Char) : Option Nat := do
  let (_, rest) ← Text.cutAt opening s
  let (number, _) ← Text.cutAt delimiter rest
  Text.readWord (Text.trim number)

/-- Whether a line of output holds the end marker. -/
def isEnd (s : List Char) : Bool := Text.contains ending s

theorem isEnd_iff (s : List Char) : isEnd s = true ↔ ending <:+: s := Text.contains_iff_infix _ _

/-- What a line of output means. -/
def classify (s : List Char) : LineEvent :=
  match line? s with
  | some n => .activeLine n
  | none => if isEnd s then .endOfExecution else .outputText (String.ofList s)

/-- A line without the opening of a marker has no number. -/
theorem line?_eq_none {l : List Char} (h : ¬opening <:+: l) : line? l = none := by
  have hcut : Text.cutAt opening l = none := by
    rw [← Text.contains_iff_infix, Text.contains, Bool.not_eq_true, Option.isSome_eq_false_iff,
      Option.isNone_iff_eq_none] at h
    exact h
  rw [line?, hcut]
  rfl

/-- A line without the opening of a marker ends the submission or was printed. -/
theorem classify_of_no_opening {l : List Char} (h : ¬opening <:+: l) :
    classify l = if isEnd l then .endOfExecution else .outputText (String.ofList l) := by
  rw [classify, line?_eq_none h]

/-- Whether a line holds the opening of a marker or the end marker. -/
def isMarked (s : List Char) : Bool := Text.contains opening s || isEnd s

/-- The lines of a text that hold no marker. -/
def strip (s : List Char) : List Char :=
  Text.joinLines ((Text.lines s).filter fun l => !isMarked l)

end StepTrace.Marker
