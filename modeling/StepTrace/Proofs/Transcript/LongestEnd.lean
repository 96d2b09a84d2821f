import Mathlib.Data.List.Basic
import StepTrace.Text.Utf8
import StepTrace.Transcript

/-!
# What a transcript holds

A transcript forgets a little at every line, each time from a text that lines before have already
shortened, and never in the middle of a character. `LongestEnd` says what it should hold: the
longest end of all that was printed which fits its limit. The forgetting adds up to just that
(`text_ofEdits`), because the longest end of a text that grows is found in the longest end of the
text before (`LongestEnd.append`).

Where a text may be cut is decided on its bytes: before a byte that begins the form of a character
(`IsByteBoundary`). From any position in the text the next boundary is in the text as well
(`cutsFrom_dropAtLeast`).
-/

set_option autoImplicit false

namespace StepTrace

namespace Text

/-! ## Boundaries in the bytes of a text -/

/-- Whether a position among bytes is at their end or before a byte that begins a form. -/
def IsByteBoundary (bytes : List UInt8) (k : Nat) : Prop :=
  k = bytes.length ∨ ∃ b, bytes[k]? = some b ∧ b.IsUTF8FirstByte

/-- Whether a text is what is left of another one if a search for a boundary that starts at some
position finds one in the text, and all before it is dropped. -/
def CutsFrom (start : Nat) (text left : List Char) : Prop :=
  ∃ cut, start ≤ cut ∧ cut ≤ byteSize text ∧ IsByteBoundary (encode text) cut ∧
    (∀ k, start ≤ k → k < cut → ¬IsByteBoundary (encode text) k) ∧
    encode left = (encode text).drop cut

theorem encode_cons (c : Char) (s : List Char) :
    encode (c :: s) = String.utf8EncodeChar c ++ encode s := rfl

theorem encode_append (s t : List Char) : encode (s ++ t) = encode s ++ encode t :=
  List.flatMap_append

theorem length_encode (s : List Char) : (encode s).length = byteSize s := by
  induction s with
  | nil => rfl
  | cons c s ih => rw [encode_cons, List.length_append, String.length_utf8EncodeChar, ih, byteSize]

/-- Among the bytes of one character only the first begins a form. -/
theorem isUTF8FirstByte_iff {c : Char} {k : Nat} {b : UInt8}
    (hb : (String.utf8EncodeChar c)[k]? = some b) : b.IsUTF8FirstByte ↔ k = 0 := by
  obtain ⟨hk, rfl⟩ := List.getElem?_eq_some_iff.mp hb
  exact UInt8.isUTF8FirstByte_getElem_utf8EncodeChar

theorem byteSize_le_of_suffix {s t : List Char} (h : t <:+ s) : byteSize t ≤ byteSize s := by
  obtain ⟨before, rfl⟩ := h
  rw [byteSize_append]
  omega

/-- Behind the bytes of a character the boundaries are those of the rest. -/
theorem isByteBoundary_cons_iff {c : Char} {s : List Char} {k : Nat} (hk : c.utf8Size ≤ k) :
    IsByteBoundary (encode (c :: s)) k ↔ IsByteBoundary (encode s) (k - c.utf8Size) := by
  have hsize : (String.utf8EncodeChar c).length = c.utf8Size := String.length_utf8EncodeChar c
  rw [IsByteBoundary, IsByteBoundary, encode_cons, List.getElem?_append_right (by omega), hsize,
    List.length_append, hsize]
  exact or_congr (by omega) Iff.rfl

/-- Within the bytes of a character there is no boundary but before the first. -/
theorem isByteBoundary_cons_iff_of_lt {c : Char} {s : List Char} {k : Nat} (hk : k < c.utf8Size) :
    IsByteBoundary (encode (c :: s)) k ↔ k = 0 := by
  have hsize : (String.utf8EncodeChar c).length = c.utf8Size := String.length_utf8EncodeChar c
  rw [IsByteBoundary, encode_cons, List.getElem?_append_left (by omega), List.length_append, hsize]
  constructor
  · rintro (h | ⟨b, hb, hfirst⟩)
    · omega
    · exact (isUTF8FirstByte_iff hb).mp hfirst
  · intro hzero
    obtain ⟨b, hb⟩ : ∃ b, (String.utf8EncodeChar c)[k]? = some b :=
      ⟨_, List.getElem?_eq_getElem (by omega)⟩
    exact .inr ⟨b, hb, (isUTF8FirstByte_iff hb).mpr hzero⟩

/-- A text can be cut exactly where one of its ends begins. -/
theorem isByteBoundary_encode_iff (s : List Char) (k : Nat) :
    IsByteBoundary (encode s) k ↔ ∃ t, t <:+ s ∧ k + byteSize t = byteSize s := by
  induction s generalizing k with
  | nil =>
    constructor
    · rintro (h | ⟨b, h, -⟩)
      · exact ⟨[], List.suffix_refl _, by rw [h]; rfl⟩
      · cases h
    · rintro ⟨t, ht, hk⟩
      rw [List.suffix_nil.mp ht] at hk
      exact .inl hk
  | cons c s ih =>
    have hpos := c.utf8Size_pos
    by_cases hk : k < c.utf8Size
    · -- a proper end is shorter than the whole text by all of the first character
      rw [isByteBoundary_cons_iff_of_lt hk]
      constructor
      · rintro rfl
        exact ⟨c :: s, List.suffix_refl _, Nat.zero_add _⟩
      · rintro ⟨t, ht, hcut⟩
        rw [byteSize] at hcut
        rcases List.suffix_cons_iff.mp ht with rfl | ht
        · rw [byteSize] at hcut
          omega
        · have hle := byteSize_le_of_suffix ht
          omega
    · rw [isByteBoundary_cons_iff (by omega), ih]
      apply exists_congr
      intro t
      rw [byteSize, List.suffix_cons_iff]
      constructor
      · rintro ⟨ht, hcut⟩
        exact ⟨.inr ht, by omega⟩
      · rintro ⟨rfl | ht, hcut⟩
        · rw [byteSize] at hcut
          omega
        · exact ⟨ht, by omega⟩

/-! ## Dropping the start of a text -/

/-- No end of a text that leaves out enough is longer than what is kept. -/
theorem suffix_dropAtLeast {n : Nat} {s t : List Char} (ht : t <:+ s)
    (hn : n + byteSize t ≤ byteSize s) : t <:+ dropAtLeast n s := by
  induction s generalizing n with
  | nil =>
    cases n with
    | zero => exact ht
    | succ n => exact ht
  | cons c s ih =>
    cases n with
    | zero => exact ht
    | succ n =>
      rw [byteSize] at hn
      rw [dropAtLeast]
      rcases List.suffix_cons_iff.mp ht with rfl | ht
      · rw [byteSize] at hn
        omega
      · have hle := byteSize_le_of_suffix ht
        exact ih ht (by omega)

/-- What is kept begins at the first boundary from the position on that the start reaches to. -/
theorem cutsFrom_dropAtLeast {n : Nat} {s : List Char} (hn : n ≤ byteSize s) :
    CutsFrom n s (dropAtLeast n s) := by
  obtain ⟨before, hbefore⟩ := dropAtLeast_suffix n s
  have hleft := byteSize_dropAtLeast n s
  have hsize : byteSize before + byteSize (dropAtLeast n s) = byteSize s := by
    rw [← byteSize_append, hbefore]
  refine ⟨byteSize before, by omega, by omega, ?_, ?_, ?_⟩
  · exact (isByteBoundary_encode_iff s _).mpr ⟨_, dropAtLeast_suffix n s, hsize⟩
  · intro k hfrom hto hboundary
    -- an end that begins before would have been kept
    obtain ⟨t, ht, hcut⟩ := (isByteBoundary_encode_iff s k).mp hboundary
    have hkept : t <:+ dropAtLeast n s := suffix_dropAtLeast ht (by omega)
    have hle := byteSize_le_of_suffix hkept
    omega
  · have hdrop : (encode s).drop (encode before).length = encode (dropAtLeast n s) := by
      rw [← hbefore, encode_append, List.drop_left, hbefore]
    rw [← length_encode, hdrop]

/-! ## Longest ends -/

/-- What is kept of a text with a limit on its bytes: an end of it that fits, and no longer one
does. -/
structure LongestEnd (limit : Nat) (text kept : List Char) : Prop where
  suffix : kept <:+ text
  fits : byteSize kept ≤ limit
  longest : ∀ t, t <:+ text → byteSize t ≤ limit → t <:+ kept

theorem longestEnd_nil (limit : Nat) : LongestEnd limit [] [] :=
  ⟨List.suffix_refl _, Nat.zero_le _, fun _ ht _ => ht⟩

theorem longestEnd_dropAtLeast (limit : Nat) (s : List Char) :
    LongestEnd limit s (dropAtLeast (byteSize s - limit) s) where
  suffix := dropAtLeast_suffix _ s
  fits := by
    have hle := byteSize_dropAtLeast (byteSize s - limit) s
    omega
  longest t ht hfits := by
    have hle := byteSize_le_of_suffix ht
    exact suffix_dropAtLeast ht (by omega)

/-- Text that was dropped before is not missed: the longest end of a text that goes on is the one of
what was kept of it, going on. -/
theorem LongestEnd.append {limit : Nat} {text kept more left : List Char}
    (h : LongestEnd limit text kept) (hmore : LongestEnd limit (kept ++ more) left) :
    LongestEnd limit (text ++ more) left where
  suffix := hmore.suffix.trans (List.suffix_append_self_iff.mpr h.suffix)
  fits := hmore.fits
  longest t ht hfits := by
    apply hmore.longest t ?_ hfits
    obtain ⟨front, hfront⟩ := ht
    rcases List.append_eq_append_iff.mp hfront with ⟨before, htext, rfl⟩ | ⟨rest, -, hrest⟩
    · -- what reaches into the text before fits by itself, so it has been kept
      rw [byteSize_append] at hfits
      have hbefore : before <:+ kept := h.longest before ⟨front, htext.symm⟩ (by omega)
      exact List.suffix_append_self_iff.mpr hbefore
    · have hin : t <:+ more := ⟨rest, hrest.symm⟩
      exact hin.trans (List.suffix_append kept more)

end Text

namespace Transcript

/-! ## Every transcript -/

/-- What is done to a transcript. -/
inductive Edit where
  | push (line : List Char)
  | clear
  deriving DecidableEq, Repr

/-- The transcript after something was done to it. -/
def edit (t : Transcript) : Edit → Transcript
  | .push line => t.push line
  | .clear => t.clear

/-- The transcript after several things were done to it. -/
def editAll (t : Transcript) (edits : List Edit) : Transcript := edits.foldl edit t

/-- The lines that were pushed since the text was last thrown away, with one more thing done. -/
def linesAfter (lines : List (List Char)) : Edit → List (List Char)
  | .push line => lines ++ [line]
  | .clear => []

/-- The lines that were pushed since the text was last thrown away. -/
def linesOf (edits : List Edit) : List (List Char) := edits.foldl linesAfter []

/-- Lines as a text, each with a line feed. -/
def textOf (lines : List (List Char)) : List Char := lines.flatMap fun line => line ++ ['\n']

/-- A line that is pushed leaves the longest end of the text with it. -/
theorem longestEnd_push {limit : Nat} {text : List Char} {t : Transcript}
    (h : Text.LongestEnd limit text t.text) (hlimit : t.limit = limit) (line : List Char) :
    Text.LongestEnd limit (text ++ (line ++ ['\n'])) (t.push line).text := by
  apply h.append
  rw [push, hlimit, ← List.append_assoc]
  exact Text.longestEnd_dropAtLeast limit _

/-- A step keeps the law. -/
theorem longestEnd_edit {limit : Nat} {lines : List (List Char)} {t : Transcript}
    (h : Text.LongestEnd limit (textOf lines) t.text) (hlimit : t.limit = limit) (e : Edit) :
    Text.LongestEnd limit (textOf (linesAfter lines e)) (t.edit e).text ∧
      (t.edit e).limit = limit := by
  cases e with
  | push line =>
    refine ⟨?_, hlimit⟩
    have htext : textOf (lines ++ [line]) = textOf lines ++ (line ++ ['\n']) := by
      simp [textOf]
    rw [linesAfter, htext]
    exact longestEnd_push h hlimit line
  | clear => exact ⟨Text.longestEnd_nil limit, hlimit⟩

theorem longestEnd_foldl {limit : Nat} (edits : List Edit) {lines : List (List Char)}
    {t : Transcript} (h : Text.LongestEnd limit (textOf lines) t.text) (hlimit : t.limit = limit) :
    Text.LongestEnd limit (textOf (edits.foldl linesAfter lines)) (t.editAll edits).text ∧
      (t.editAll edits).limit = limit := by
  induction edits generalizing lines t with
  | nil => exact ⟨h, hlimit⟩
  | cons e edits ih =>
    obtain ⟨hkept, hstill⟩ := longestEnd_edit h hlimit e
    exact ih hkept hstill

/-- A fresh transcript with a limit, after several things were done to it. -/
def ofEdits (limit : Nat) (edits : List Edit) : Transcript := (empty limit).editAll edits

/-- Whatever is done to a transcript, it holds the longest end that fits its limit of the lines
pushed since it was last thrown away, each with its line feed. With a further line the text is cut
at the first boundary from where the limit begins, and there is one in the text. -/
theorem text_ofEdits (limit : Nat) (edits : List Edit) :
    Text.LongestEnd limit (textOf (linesOf edits)) (ofEdits limit edits).text ∧
    (ofEdits limit edits).size ≤ limit ∧
    (Text.encode (ofEdits limit edits).text).length = (ofEdits limit edits).size ∧
    ∀ line, Text.CutsFrom
      (Text.byteSize ((ofEdits limit edits).text ++ line ++ ['\n']) - limit)
      ((ofEdits limit edits).text ++ line ++ ['\n']) ((ofEdits limit edits).push line).text := by
  have hempty : Text.LongestEnd limit (textOf []) (empty limit).text := Text.longestEnd_nil limit
  obtain ⟨hkept, hlimit⟩ := longestEnd_foldl edits hempty rfl
  refine ⟨hkept, hkept.fits, Text.length_encode _, ?_⟩
  intro line
  rw [push, show (ofEdits limit edits).limit = limit from hlimit]
  exact Text.cutsFrom_dropAtLeast (Nat.sub_le _ _)

/-- A cut of one byte would lie within the first character. -/
example : (ofEdits 2 [.push ['é']]).text = ['\n'] := by decide

end Transcript

end StepTrace
