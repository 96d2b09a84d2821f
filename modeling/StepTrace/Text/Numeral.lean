/-!
# Numerals

Decimal numerals of machine words: at least one ASCII digit, after at most one plus sign, for a
number below two to the sixty-fourth. `readWord_digits` says that the numeral of such a number reads
back.
-/

set_option autoImplicit false

namespace StepTrace.Text

/-- The first number that a machine word cannot hold. -/
def wordBound : Nat := Nat.pow 2 64

/-- The decimal digits of a number. -/
def digits (n : Nat) : List Char := Nat.toDigits 10 n

/-- The number that a list of ASCII digits stands for. -/
def digitValue (ds : List Char) : Nat := Nat.ofDigitChars 10 ds 0

/-- A nonempty list of ASCII digits. -/
def isDigits (ds : List Char) : Bool := !ds.isEmpty && ds.all Char.isDigit

/-- A numeral without the plus sign that may stand before its digits. -/
def dropPlus : List Char → List Char
  | [] => []
  | c :: r => if c = '+' then r else c :: r

/-- The number below `bound` that a numeral stands for. -/
def readBelow (bound : Nat) (s : List Char) : Option Nat :=
  let ds := dropPlus s
  if isDigits ds && digitValue ds < bound then some (digitValue ds) else none

/-- The machine word that a numeral stands for. -/
def readWord (s : List Char) : Option Nat := readBelow wordBound s

theorem isDigit_of_mem_digits {n : Nat} {c : Char} (h : c ∈ digits n) : c.isDigit = true :=
  Nat.isDigit_of_mem_toDigits (by decide) (by decide) h

theorem isDigits_digits (n : Nat) : isDigits (digits n) = true := by
  have h : digits n ≠ [] := Nat.toDigits_ne_nil
  simp [isDigits, h]
  exact fun c hc => isDigit_of_mem_digits hc

theorem dropPlus_of_forall_isDigit {ds : List Char} (h : ∀ c ∈ ds, c.isDigit = true) :
    dropPlus ds = ds := by
  cases ds with
  | nil => rfl
  | cons c r =>
    have hc : c ≠ '+' := by
      rintro rfl
      exact absurd (h '+' List.mem_cons_self) (by decide)
    exact if_neg hc

theorem digits_ne_nil (n : Nat) : digits n ≠ [] := Nat.toDigits_ne_nil

theorem digitValue_digits (n : Nat) : digitValue (digits n) = n := Nat.ofDigitChars_ten_toDigits

/-- The digits of a number do not begin with a superfluous zero. -/
theorem head?_digits_ne_zero {n : Nat} (h : 0 < n) : (digits n).head? ≠ some '0' := by
  induction n using Nat.strongRecOn with
  | ind n ih =>
    by_cases hlt : n < 10
    · have hdigit : ∀ m, m < 10 → 0 < m → m.digitChar ≠ '0' := by decide
      rw [digits, Nat.toDigits_of_lt_base hlt, List.head?_cons, Ne, Option.some.injEq]
      exact hdigit n hlt h
    · have hle : 10 ≤ n := Nat.le_of_not_lt hlt
      have hd : digits n = digits (n / 10) ++ [(n % 10).digitChar] :=
        Nat.toDigits_of_base_le (by decide) hle
      rw [hd, List.head?_append,
        Option.or_of_isSome (List.isSome_head?.mpr (digits_ne_nil (n / 10)))]
      exact ih (n / 10) (Nat.div_lt_self h (by decide)) (Nat.div_pos hle (by decide))

/-- The numeral of a machine word reads back. -/
theorem readWord_digits (n : Nat) (h : n < wordBound) : readWord (digits n) = some n := by
  have hdrop : dropPlus (digits n) = digits n :=
    dropPlus_of_forall_isDigit fun _ hc => isDigit_of_mem_digits hc
  simp [readWord, readBelow, hdrop, isDigits_digits, digitValue_digits, h]

end StepTrace.Text
