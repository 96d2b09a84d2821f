/-!
# White space and trimming

A character is blank when it has the property `White_Space`. Trimming removes blank characters
from the ends of a text; `trim_eq_nil_iff` says that it leaves nothing of a text exactly when the
text is blank throughout.
-/

set_option autoImplicit false

namespace StepTrace.Text

/-- The characters with the property `White_Space`. -/
def isBlank (c : Char) : Bool :=
  let n := c.toNat
  (0x09 ≤ n && n ≤ 0x0D) || n == 0x20 || n == 0x85 || n == 0xA0 || n == 0x1680 ||
    (0x2000 ≤ n && n ≤ 0x200A) || n == 0x2028 || n == 0x2029 || n == 0x202F || n == 0x205F ||
    n == 0x3000

/-- Letters and digits are no blanks. -/
theorem isBlank_of_isAlphanum {c : Char} (h : c.isAlphanum = true) : isBlank c = false := by
  have hrange : 48 ≤ c.toNat ∧ c.toNat ≤ 122 := by
    obtain (h | h) | h : (c.isUpper = true ∨ c.isLower = true) ∨ c.isDigit = true := by
      rwa [← Bool.or_eq_true, ← Bool.or_eq_true]
    · obtain ⟨hlow, hhigh⟩ : 65 ≤ c.toNat ∧ c.toNat ≤ 90 := of_decide_eq_true h
      omega
    · obtain ⟨hlow, hhigh⟩ := Bool.and_eq_true_iff.mp h
      have hlow : 97 ≤ c.toNat := of_decide_eq_true hlow
      have hhigh : c.toNat ≤ 122 := of_decide_eq_true hhigh
      omega
    · obtain ⟨hlow, hhigh⟩ := Bool.and_eq_true_iff.mp h
      have hlow : 48 ≤ c.toNat := of_decide_eq_true hlow
      have hhigh : c.toNat ≤ 57 := of_decide_eq_true hhigh
      omega
  refine Bool.eq_false_iff.mpr fun hblank => ?_
  simp only [isBlank, Bool.or_eq_true, Bool.and_eq_true, decide_eq_true_iff, beq_iff_eq] at hblank
  omega
/-- A text without its leading blanks. -/
def trimStart (s : List Char) : List Char := s.dropWhile isBlank

/-- A text without its trailing blanks. -/
def trimEnd (s : List Char) : List Char := (s.reverse.dropWhile isBlank).reverse

/-- A text without its leading and trailing blanks. -/
def trim (s : List Char) : List Char := trimEnd (trimStart s)

/-- A text of blanks only. -/
def allBlank (s : List Char) : Bool := s.all isBlank

theorem allBlank_cons (c : Char) (s : List Char) : allBlank (c :: s) = (isBlank c && allBlank s) :=
  List.all_cons

theorem allBlank_append (s t : List Char) : allBlank (s ++ t) = (allBlank s && allBlank t) :=
  List.all_append

theorem allBlank_reverse (s : List Char) : allBlank s.reverse = allBlank s := List.all_reverse

theorem trimStart_eq_nil_iff (s : List Char) : trimStart s = [] ↔ allBlank s = true := by
  induction s with
  | nil => simp [trimStart, allBlank]
  | cons c r ih =>
    by_cases h : isBlank c = true
    · have hs : trimStart (c :: r) = trimStart r := by simp [trimStart, h]
      have ha : allBlank (c :: r) = allBlank r := by simp [allBlank, h]
      rw [hs, ha, ih]
    · simp [trimStart, allBlank, h]

theorem trimEnd_eq_nil_iff (s : List Char) : trimEnd s = [] ↔ allBlank s = true := by
  have h := trimStart_eq_nil_iff s.reverse
  rw [trimStart, allBlank, List.all_reverse] at h
  rw [trimEnd, List.reverse_eq_nil_iff, h, allBlank]

theorem trimStart_suffix (s : List Char) : trimStart s <:+ s := List.dropWhile_suffix _

theorem trimEnd_isPrefix (s : List Char) : trimEnd s <+: s := by
  rw [← List.reverse_suffix, trimEnd, List.reverse_reverse]
  exact List.dropWhile_suffix _

/-- What is trimmed off the start of a text is blank. -/
theorem exists_append_trimStart (s : List Char) :
    ∃ b, allBlank b = true ∧ b ++ trimStart s = s :=
  ⟨s.takeWhile isBlank, List.all_takeWhile, List.takeWhile_append_dropWhile⟩

/-- What is trimmed off the end of a text is blank. -/
theorem exists_trimEnd_append (s : List Char) :
    ∃ b, allBlank b = true ∧ trimEnd s ++ b = s := by
  obtain ⟨b, hb, heq⟩ := exists_append_trimStart s.reverse
  refine ⟨b.reverse, ?_, ?_⟩
  · rwa [allBlank_reverse]
  · rw [← List.reverse_inj, List.reverse_append, List.reverse_reverse, trimEnd,
      List.reverse_reverse]
    exact heq

/-- Text trimmed at its start does not begin with a blank. -/
theorem not_isBlank_of_head?_trimStart {s : List Char} {c : Char}
    (h : (trimStart s).head? = some c) : isBlank c = false := by
  have hnot := List.head?_dropWhile_not isBlank s
  rw [show s.dropWhile isBlank = trimStart s from rfl, h] at hnot
  simpa using hnot

/-- Trimmed text does not end in a blank. -/
theorem not_isBlank_of_getLast?_trimEnd {s : List Char} {c : Char}
    (h : (trimEnd s).getLast? = some c) : isBlank c = false := by
  rw [trimEnd, List.getLast?_reverse] at h
  exact not_isBlank_of_head?_trimStart h

/-- Nothing is trimmed off a text that does not end in a blank. -/
theorem trimEnd_eq_self {s : List Char} (h : ∀ c ∈ s.getLast?, isBlank c = false) :
    trimEnd s = s := by
  rw [trimEnd]
  cases hr : s.reverse with
  | nil => rw [List.reverse_eq_nil_iff.mp hr]; rfl
  | cons c r =>
    have hc : isBlank c = false := h c (by rw [← List.head?_reverse, hr]; rfl)
    rw [List.dropWhile_cons, hc, if_neg (by simp), ← hr, List.reverse_reverse]

/-- Blanks at the end are trimmed off. -/
theorem trimEnd_append_of_allBlank {b : List Char} (h : allBlank b = true) (s : List Char) :
    trimEnd (s ++ b) = trimEnd s := by
  rw [← allBlank_reverse] at h
  rw [trimEnd, List.reverse_append,
    List.dropWhile_append_of_pos fun c hc => List.all_eq_true.mp h c hc, trimEnd]

/-- Only what stands behind the last character that is no blank is trimmed off the end. -/
theorem trimEnd_append_cons {c : Char} (h : isBlank c = false) (u s : List Char) :
    trimEnd (u ++ c :: s) = u ++ c :: trimEnd s := by
  have hreverse : (u ++ c :: s).reverse = s.reverse ++ c :: u.reverse := by simp
  rw [trimEnd, hreverse, List.dropWhile_append, trimEnd]
  split
  · next hall =>
    rw [List.isEmpty_iff.mp hall, List.dropWhile_cons_of_neg (by simp [h])]
    simp
  · simp

/-- Nothing is trimmed off a text without blanks. -/
theorem trim_eq_self {s : List Char} (h : ∀ c ∈ s, isBlank c = false) : trim s = s := by
  have hstart : trimStart s = s := by
    cases s with
    | nil => rfl
    | cons c r => rw [trimStart, List.dropWhile_cons_of_neg (by simp [h c])]
  rw [trim, hstart, trimEnd_eq_self fun c hc => h c (List.mem_of_getLast? hc)]

theorem trim_infix (s : List Char) : trim s <:+: s :=
  (trimEnd_isPrefix _).isInfix.trans (trimStart_suffix s).isInfix

/-- Trimmed text does not begin with a blank. -/
theorem not_isBlank_of_head?_trim {s : List Char} {c : Char} (h : (trim s).head? = some c) :
    isBlank c = false := by
  obtain ⟨b, -, hb⟩ := exists_trimEnd_append (trimStart s)
  obtain ⟨r, hr⟩ := List.head?_eq_some_iff.mp h
  apply not_isBlank_of_head?_trimStart
  rw [← hb, show trimEnd (trimStart s) = c :: r from hr]
  rfl

theorem allBlank_of_trimStart (s : List Char) (h : allBlank (trimStart s) = true) :
    allBlank s = true := by
  induction s with
  | nil => rfl
  | cons c r ih =>
    by_cases hc : isBlank c = true
    · have h' : allBlank (trimStart r) = true := by
        simpa [trimStart, List.dropWhile_cons, hc] using h
      simpa [allBlank, hc] using ih h'
    · simpa [trimStart, List.dropWhile_cons, hc] using h

/-- Nothing is left by trimming exactly when all was blank. -/
theorem trim_eq_nil_iff (s : List Char) : trim s = [] ↔ allBlank s = true := by
  rw [trim, trimEnd_eq_nil_iff]
  refine ⟨allBlank_of_trimStart s, fun h => ?_⟩
  have hs := (trimStart_eq_nil_iff s).2 h
  simp [hs, allBlank]

end StepTrace.Text
