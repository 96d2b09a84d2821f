import StepTrace.Text.Blank
import StepTrace.Text.Span
import StepTrace.Text.WordChar

/-!
# Logical lines

A logical line of Python source: the physical lines that open brackets, a backslash or a string
over several lines join. It knows where its top-level colons and semicolons stand, which is all that
reading statements needs.
-/

set_option autoImplicit false

namespace StepTrace.Python

/-- A logical line. -/
structure LogicalLine where
  /-- The physical line it starts on, counted from one. -/
  line : Nat
  /-- The width of its indentation in columns. -/
  indent : Nat
  /-- Its text without indentation and comments; further physical lines follow a line feed. -/
  text : List Char
  /-- The byte offsets of the top-level colons that no equals sign follows. -/
  colons : List Nat
  /-- The byte offsets of the top-level semicolons. -/
  semicolons : List Nat
  deriving DecidableEq, Repr, Inhabited

namespace LogicalLine

/-- The colon that ends the header of a compound statement. -/
def headerColon? (l : LogicalLine) : Option Nat := l.colons.head?

/-- The name that the line begins with. -/
def firstWord (l : LogicalLine) : List Char := Text.leadingWord l.text

/-- The text up to and including the character at an offset. -/
def through (l : LogicalLine) (offset : Nat) : List Char := Text.takeBytes (offset + 1) l.text

/-- The stretches of the text between the semicolons from an offset on. -/
def stretches (l : LogicalLine) (start : Nat) : List (List Char) :=
  let ends := (l.semicolons.filter fun o => start ≤ o) ++ [Text.byteSize l.text]
  let starts := start :: ends.map (· + 1)
  (starts.zip ends).map fun p => Text.sliceBytes p.1 p.2 l.text

/-- The simple statements written on the line from an offset on. -/
def pieces (l : LogicalLine) (start : Nat) : List (List Char) :=
  ((l.stretches start).map Text.trim).filter fun s => !s.isEmpty

end LogicalLine

end StepTrace.Python
