import Mathlib.Data.List.Basic
import StepTrace.Host.Bytes

/-!
# Text survives its bytes

The reader of bytes takes the UTF-8 form of a character back to the character, one byte after the
other, so a text is decoded from its encoding (`decode_encode`). Bytes that are kept as characters,
as files hold them, are the same bytes (`text?_ofText`).
-/

set_option autoImplicit false

namespace StepTrace.Text

/-- A byte that continues a form and completes it. -/
theorem decodeFrom_last {p : PartialChar} {b : UInt8} (hlow : p.low ≤ b.toNat)
    (hhigh : b.toNat ≤ p.high) (hmissing : p.missing = 1) (r : List UInt8) :
    decodeFrom (some p) (b :: r) =
      Char.ofNat (p.value * 64 + (b.toNat - 0x80)) :: decodeFrom none r := by
  rw [decodeFrom, decodeByte, if_pos ⟨hlow, hhigh⟩, if_pos (Nat.le_of_eq hmissing)]
  rfl

/-- A byte that continues a form and does not complete it. -/
theorem decodeFrom_next {p : PartialChar} {b : UInt8} {k : Nat} (hlow : p.low ≤ b.toNat)
    (hhigh : b.toNat ≤ p.high) (hmissing : p.missing = k + 2) (r : List UInt8) :
    decodeFrom (some p) (b :: r) =
      decodeFrom (some ⟨p.value * 64 + (b.toNat - 0x80), k + 1, 0x80, 0xBF⟩) r := by
  rw [decodeFrom, decodeByte, if_pos ⟨hlow, hhigh⟩, if_neg (by omega), hmissing]
  rfl

/-- A byte that starts a form. -/
theorem decodeFrom_start {p : PartialChar} {b : UInt8} (h : LeadByte.ofByte b.toNat = .start p)
    (r : List UInt8) : decodeFrom none (b :: r) = decodeFrom (some p) r := by
  rw [decodeFrom, decodeByte, decodeLead, h]
  rfl

/-- The first of two bytes. -/
theorem ofByte_two {v : Nat} (hlow : 0x80 ≤ v) (hhigh : v ≤ 0x7FF) :
    LeadByte.ofByte (v / 64 + 192) = .start ⟨v / 64, 1, 0x80, 0xBF⟩ := by
  rw [LeadByte.ofByte, if_neg (by omega), if_neg (by omega), if_pos (by omega)]
  rw [Nat.add_sub_cancel]

/-- The first of three bytes, and the bounds that it puts on the second one. -/
theorem ofByte_three {v : Nat} (hlow : 0x800 ≤ v) (hhigh : v ≤ 0xFFFF)
    (hvalid : v < 0xD800 ∨ 0xDFFF < v) :
    ∃ low high, LeadByte.ofByte (v / 4096 + 224) = .start ⟨v / 4096, 2, low, high⟩ ∧
      low ≤ v / 64 % 64 + 128 ∧ v / 64 % 64 + 128 ≤ high := by
  rw [LeadByte.ofByte, if_neg (by omega), if_neg (by omega), if_neg (by omega)]
  by_cases hfirst : v / 4096 + 224 = 0xE0
  · have hvalue : v / 4096 = 0 := by omega
    exact ⟨0xA0, 0xBF, by rw [if_pos hfirst, hvalue], by omega, by omega⟩
  by_cases hsurrogate : v / 4096 + 224 = 0xED
  · have hvalue : v / 4096 = 0xD := by omega
    exact ⟨0x80, 0x9F, by rw [if_neg hfirst, if_pos hsurrogate, hvalue], by omega, by omega⟩
  · refine ⟨0x80, 0xBF, ?_, by omega, by omega⟩
    rw [if_neg hfirst, if_neg hsurrogate, if_pos (by omega), Nat.add_sub_cancel]

/-- The first of four bytes, and the bounds that it puts on the second one. -/
theorem ofByte_four {v : Nat} (hlow : 0x10000 ≤ v) (hhigh : v < 0x110000) :
    ∃ low high, LeadByte.ofByte (v / 262144 + 240) = .start ⟨v / 262144, 3, low, high⟩ ∧
      low ≤ v / 4096 % 64 + 128 ∧ v / 4096 % 64 + 128 ≤ high := by
  rw [LeadByte.ofByte, if_neg (by omega), if_neg (by omega), if_neg (by omega),
    if_neg (by omega), if_neg (by omega), if_neg (by omega)]
  by_cases hfirst : v / 262144 + 240 = 0xF0
  · have hvalue : v / 262144 = 0 := by omega
    exact ⟨0x90, 0xBF, by rw [if_pos hfirst, hvalue], by omega, by omega⟩
  by_cases hlast : v / 262144 + 240 = 0xF4
  · have hvalue : v / 262144 = 4 := by omega
    refine ⟨0x80, 0x8F, ?_, by omega, by omega⟩
    rw [if_neg hfirst, if_neg (by omega), if_pos hlast, hvalue]
  · refine ⟨0x80, 0xBF, ?_, by omega, by omega⟩
    rw [if_neg hfirst, if_pos (by omega), Nat.add_sub_cancel]

theorem toNat_ofNat_byte {n : Nat} (h : n < 256) : (UInt8.ofNat n).toNat = n :=
  UInt8.toNat_ofNat_of_lt h

/-- A last byte completes the number of a character. -/
theorem decodeFrom_tail {p : PartialChar} {n v : Nat} (hlow : p.low ≤ 128)
    (hhigh : 0xBF ≤ p.high) (hmissing : p.missing = 1) (hv : p.value * 64 + n % 64 = v)
    (r : List UInt8) :
    decodeFrom (some p) (UInt8.ofNat (n % 64 + 128) :: r) = Char.ofNat v :: decodeFrom none r := by
  have hbyte : (UInt8.ofNat (n % 64 + 128)).toNat = n % 64 + 128 := toNat_ofNat_byte (by omega)
  rw [decodeFrom_last (by omega) (by omega) hmissing, hbyte, Nat.add_sub_cancel, hv]

/-- A byte in the middle adds to the number of a character. -/
theorem decodeFrom_middle {p : PartialChar} {n v k : Nat} (hlow : p.low ≤ n % 64 + 128)
    (hhigh : n % 64 + 128 ≤ p.high) (hmissing : p.missing = k + 2)
    (hv : p.value * 64 + n % 64 = v) (r : List UInt8) :
    decodeFrom (some p) (UInt8.ofNat (n % 64 + 128) :: r) =
      decodeFrom (some ⟨v, k + 1, 0x80, 0xBF⟩) r := by
  have hbyte : (UInt8.ofNat (n % 64 + 128)).toNat = n % 64 + 128 := toNat_ofNat_byte (by omega)
  rw [decodeFrom_next (by omega) (by omega) hmissing, hbyte, Nat.add_sub_cancel, hv]

/-- The form of a character is read as the character. -/
theorem decodeFrom_utf8EncodeChar (c : Char) (r : List UInt8) :
    decodeFrom none (String.utf8EncodeChar c ++ r) = c :: decodeFrom none r := by
  have hvalid : c.toNat < 0xD800 ∨ 0xDFFF < c.toNat ∧ c.toNat < 0x110000 := c.valid
  have hchar : Char.ofNat c.toNat = c := Char.ofNat_toNat c
  obtain ⟨form, hform⟩ : ∃ form, form = String.utf8EncodeChar c := ⟨_, rfl⟩
  rw [← hform]
  rw [String.utf8EncodeChar, show c.val.toNat = c.toNat from rfl] at hform
  generalize c.toNat = v at hvalid hchar hform
  -- One to four bytes. What is read is in turn the number without its last six bits, and so on; the
  -- first byte bounds the second where a surrogate or an overlong form could begin.
  split at hform
  · next hone =>
    rw [hform, List.singleton_append, decodeFrom, decodeByte, decodeLead,
      toNat_ofNat_byte (by omega), LeadByte.ofByte, if_pos (by omega), hchar]
    rfl
  split at hform
  · next htwo =>
    have hlead : v / 64 % 32 + 192 = v / 64 + 192 := by omega
    rw [hform, hlead]
    have hstart := ofByte_two (v := v) (by omega) htwo
    rw [List.cons_append, decodeFrom_start (by rw [toNat_ofNat_byte (by omega), hstart]),
      List.singleton_append,
      decodeFrom_tail (v := v) (Nat.le_refl _) (Nat.le_refl _) rfl (by dsimp only; omega), hchar]
  split at hform
  · next hthree =>
    have hlead : v / 4096 % 16 + 224 = v / 4096 + 224 := by omega
    rw [hform, hlead]
    obtain ⟨low, high, hstart, hlow, hhigh⟩ := ofByte_three (v := v) (by omega) hthree (by omega)
    rw [List.cons_append, decodeFrom_start (by rw [toNat_ofNat_byte (by omega), hstart]),
      List.cons_append,
      decodeFrom_middle (v := v / 64) hlow hhigh rfl (by dsimp only; omega), List.singleton_append,
      decodeFrom_tail (v := v) (Nat.le_refl _) (Nat.le_refl _) rfl (by dsimp only; omega), hchar]
  · have hlead : v / 262144 % 8 + 240 = v / 262144 + 240 := by omega
    rw [hform, hlead]
    obtain ⟨low, high, hstart, hlow, hhigh⟩ := ofByte_four (v := v) (by omega) (by omega)
    rw [List.cons_append, decodeFrom_start (by rw [toNat_ofNat_byte (by omega), hstart]),
      List.cons_append,
      decodeFrom_middle (v := v / 4096) hlow hhigh rfl (by dsimp only; omega), List.cons_append,
      decodeFrom_middle (v := v / 64) (by dsimp only; omega) (by dsimp only; omega) rfl
        (by dsimp only; omega), List.singleton_append,
      decodeFrom_tail (v := v) (Nat.le_refl _) (Nat.le_refl _) rfl (by dsimp only; omega), hchar]

/-- A text is decoded from its encoding. -/
theorem decode_encode (s : List Char) : decode (encode s) = s := by
  rw [decode]
  induction s with
  | nil => rfl
  | cons c s ih => rw [encode, List.flatMap_cons, decodeFrom_utf8EncodeChar, ← encode, ih]

theorem decode?_encode (s : List Char) : decode? (encode s) = some s := by
  rw [decode?, decode_encode, if_pos rfl]

end StepTrace.Text

namespace StepTrace.Host.Bytes

/-- Bytes that are kept as characters are the same bytes. -/
theorem words_map_ofNat (bytes : List UInt8) :
    words (bytes.map fun b => Char.ofNat b.toNat) = bytes := by
  rw [words, List.map_map]
  refine (List.map_congr_left fun b _ => ?_).trans (List.map_id bytes)
  have hlt : b.toNat < 256 := b.toNat_lt
  have hchar : (Char.ofNat b.toNat).toNat = b.toNat := by
    rw [Char.ofNat, dif_pos (.inl (by omega))]
    rfl
  rw [Function.comp_apply, hchar, UInt8.ofNat_toNat, id]

/-- The bytes of a text are the form of the text. -/
theorem text?_ofText (s : List Char) : text? (ofText s) = some s := by
  rw [text?, ofText, words_map_ofNat, Text.decode?_encode]

end StepTrace.Host.Bytes
