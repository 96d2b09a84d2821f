import StepTrace.Text.Utf8

/-!
# Bytes as characters

Files, pipes and arguments hold bytes. They are kept as lists of characters below 256, so that text
functions apply to them; `ofText` and `text` lead from text to its bytes and back.
-/

set_option autoImplicit false

namespace StepTrace.Host.Bytes

/-- The bytes of a text. -/
def ofText (s : List Char) : List Char := (Text.encode s).map fun b => Char.ofNat b.toNat

/-- The bytes of a string. -/
def ofString (s : String) : List Char := ofText s.toList

/-- Bytes as words. -/
def words (s : List Char) : List UInt8 := s.map fun c => UInt8.ofNat c.toNat

/-- The text that bytes stand for. -/
def text (s : List Char) : List Char := Text.decode (words s)

/-- The text that bytes stand for, if they are the form of one. -/
def text? (s : List Char) : Option (List Char) := Text.decode? (words s)

/-- The text that bytes stand for, as a string. -/
def string (s : List Char) : String := String.ofList (text s)

end StepTrace.Host.Bytes
