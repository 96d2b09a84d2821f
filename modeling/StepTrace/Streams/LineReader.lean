import StepTrace.Text.Utf8

/-!
# Lines of a byte stream

A line reader takes the bytes of an output stream as they come, in pieces of any size, and gives the
lines that they complete. What is left when the stream ends is a line too, unless it is empty.
-/

set_option autoImplicit false

namespace StepTrace

/-- The bytes of a line that has not ended, the last one first. -/
structure LineReader where
  pending : List UInt8
  deriving DecidableEq, Repr, Inhabited

namespace LineReader

/-- A reader at the start of a stream. -/
def fresh : LineReader := ⟨[]⟩

/-- The text of a line by its bytes, the last one first: a line feed at the end, and then one
carriage return, are no part of it. -/
def lineText (reversed : List UInt8) : List Char :=
  let body := if reversed.head? = some 10 then reversed.tail else reversed
  let body := if body.head? = some 13 then body.tail else body
  Text.decode body.reverse

/-- The reader after one byte, and the line that the byte ends. -/
def step (r : LineReader) (b : UInt8) : LineReader × Option (List Char) :=
  if b = 10 then (fresh, some (lineText (b :: r.pending))) else (⟨b :: r.pending⟩, none)

/-- The reader after some bytes, and the lines that they complete. -/
def feed (r : LineReader) : List UInt8 → LineReader × List (List Char)
  | [] => (r, [])
  | b :: rest =>
    let (r, line) := r.step b
    let (r, lines) := r.feed rest
    (r, line.toList ++ lines)

/-- The line that is left at the end of the stream. -/
def finish (r : LineReader) : Option (List Char) :=
  if r.pending.isEmpty then none else some (lineText r.pending)

theorem feed_append (r : LineReader) (s t : List UInt8) :
    r.feed (s ++ t) = (((r.feed s).1.feed t).1, (r.feed s).2 ++ ((r.feed s).1.feed t).2) := by
  induction s generalizing r with
  | nil => simp [feed]
  | cons b s ih => simp [feed, ih]

end LineReader

end StepTrace
