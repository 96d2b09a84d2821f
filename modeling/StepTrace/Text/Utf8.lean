/-!
# Text in bytes

`encode` gives the UTF-8 form of a text. `decode` reads bytes that need not be such a form: each
longest part of a character's form that no further byte completes is read as one replacement
character.
-/

set_option autoImplicit false

namespace StepTrace.Text

/-- The UTF-8 form of a text. -/
def encode (s : List Char) : List UInt8 := s.flatMap String.utf8EncodeChar

/-- The character that stands for bytes that make none. -/
def replacement : Char := '\ufffd'

/-- The start of a character's form: its value so far, how many bytes are missing, and the bounds of
the next one. -/
structure PartialChar where
  value : Nat
  missing : Nat
  low : Nat
  high : Nat
  deriving DecidableEq, Repr

/-- What a byte at the start of a form means. -/
inductive LeadByte where
  | whole (c : Char)
  | start (p : PartialChar)
  | invalid
  deriving DecidableEq, Repr

/-- Reads the first byte of a form. The bounds of the second byte leave out longer forms than
needed, surrogates and what is beyond the last character. -/
def LeadByte.ofByte (b : Nat) : LeadByte :=
  if b < 0x80 then .whole (Char.ofNat b)
  else if b < 0xC2 then .invalid
  else if b < 0xE0 then .start ⟨b - 0xC0, 1, 0x80, 0xBF⟩
  else if b = 0xE0 then .start ⟨0, 2, 0xA0, 0xBF⟩
  else if b = 0xED then .start ⟨0xD, 2, 0x80, 0x9F⟩
  else if b < 0xF0 then .start ⟨b - 0xE0, 2, 0x80, 0xBF⟩
  else if b = 0xF0 then .start ⟨0, 3, 0x90, 0xBF⟩
  else if b < 0xF4 then .start ⟨b - 0xF0, 3, 0x80, 0xBF⟩
  else if b = 0xF4 then .start ⟨4, 3, 0x80, 0x8F⟩
  else .invalid

/-- The characters and the new state that the first byte of a form gives. -/
def decodeLead (b : Nat) : List Char × Option PartialChar :=
  match LeadByte.ofByte b with
  | .whole c => ([c], none)
  | .start p => ([], some p)
  | .invalid => ([replacement], none)

/-- The characters and the new state that a byte gives. -/
def decodeByte (state : Option PartialChar) (b : Nat) : List Char × Option PartialChar :=
  match state with
  | none => decodeLead b
  | some p =>
    if p.low ≤ b ∧ b ≤ p.high then
      let value := p.value * 64 + (b - 0x80)
      if p.missing ≤ 1 then ([Char.ofNat value], none)
      else ([], some ⟨value, p.missing - 1, 0x80, 0xBF⟩)
    else
      -- the byte ends the broken form and begins another
      let (cs, state) := decodeLead b
      (replacement :: cs, state)

/-- Reads bytes after others that left some state. -/
def decodeFrom (state : Option PartialChar) : List UInt8 → List Char
  | [] => if state.isSome then [replacement] else []
  | b :: r =>
    let (cs, state) := decodeByte state b.toNat
    cs ++ decodeFrom state r

/-- The text that bytes stand for. -/
def decode (bytes : List UInt8) : List Char := decodeFrom none bytes

/-- The text that bytes stand for, if they are the UTF-8 form of one. -/
def decode? (bytes : List UInt8) : Option (List Char) :=
  let text := decode bytes
  if encode text = bytes then some text else none

end StepTrace.Text
