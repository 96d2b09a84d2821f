import StepTrace.Text.Case

/-!
# Lower case and ASCII

Of the characters beyond ASCII only two have an ASCII letter in their lower-case forms, the Kelvin
sign and the capital I with a dot (`le_of_mem_lowerChar`), and the dot stays beside the I. So a text
of ASCII characters without the letter k is the lower-case form of no other texts than those which
differ from it in the case of ASCII letters (`lower_eq_iff`).
-/

set_option autoImplicit false

namespace StepTrace.Text

/-! ## One character -/

/-- Whether the forms of a run are characters beyond ASCII. -/
def CaseRun.isForeign (r : CaseRun) : Bool :=
  0x80 ≤ r.form && (r.form + (r.last - r.first) < 0xD800 ||
    (0xE000 ≤ r.form && r.form + (r.last - r.first) < 0x110000))

/-- The Kelvin sign is the one capital letter beyond ASCII whose form is not. -/
theorem isForeign_of_mem :
    ∀ r ∈ capitalRuns, r = ⟨0x212A, 0x212A, 1, 0x6B⟩ ∨ r.isForeign = true := by
  decide +kernel

theorem CaseRun.form?_eq_some {r : CaseRun} {n m : Nat} (h : r.form? n = some m) :
    r.first ≤ n ∧ n ≤ r.last ∧ m = r.form + (n - r.first) := by
  rw [form?] at h
  split at h
  · next hn =>
    simp only [Bool.and_eq_true, decide_eq_true_iff] at hn
    exact ⟨hn.1.1, hn.1.2, (Option.some.inj h).symm⟩
  · cases h

/-- The forms of a run that are characters beyond ASCII are so as numbers and as characters. -/
theorem CaseRun.le_toNat_of_form? {r : CaseRun} (h : r.isForeign = true) {n m : Nat}
    (hm : r.form? n = some m) : 0x80 ≤ (Char.ofNat m).toNat := by
  obtain ⟨hfirst, hlast, rfl⟩ := form?_eq_some hm
  simp only [isForeign, Bool.and_eq_true, Bool.or_eq_true, decide_eq_true_iff] at h
  have hvalid : (r.form + (n - r.first)).isValidChar := by
    rw [Nat.isValidChar]
    omega
  rw [Char.ofNat, dif_pos hvalid]
  change 0x80 ≤ r.form + (n - r.first)
  omega

/-- Beyond ASCII the lower-case forms of characters are beyond ASCII too, but for the Kelvin sign
and the capital I with a dot. -/
theorem le_of_mem_lowerChar {c d : Char} (hc : 0x80 ≤ c.toNat) (hdotted : c.toNat ≠ 0x130)
    (hkelvin : c.toNat ≠ 0x212A) (hd : d ∈ lowerChar c) : 0x80 ≤ d.toNat := by
  rw [lowerChar, if_neg (by omega), if_neg hdotted, List.mem_singleton] at hd
  subst hd
  cases hform : capitalRuns.findSome? fun r => r.form? c.toNat with
  | none =>
    rw [Option.getD_none, Char.ofNat_toNat]
    exact hc
  | some m =>
    obtain ⟨r, hr, hm⟩ := List.exists_of_findSome?_eq_some hform
    rcases isForeign_of_mem r hr with rfl | hforeign
    · obtain ⟨hfirst, hlast, -⟩ := CaseRun.form?_eq_some hm
      exact absurd (Nat.le_antisymm hlast hfirst) hkelvin
    · exact CaseRun.le_toNat_of_form? hforeign hm

/-- A character that only forms of characters beyond ASCII hold, or k. -/
def IsForeign (d : Char) : Prop := d = 'k' ∨ 0x80 ≤ d.toNat

/-- What is beyond ASCII leaves something foreign in the lower-case form of a text. -/
theorem exists_foreign_of_mem {c : Char} (hc : 0x80 ≤ c.toNat) (before rest : List Char) :
    ∃ d ∈ lowerBetween before c rest, IsForeign d := by
  rw [lowerBetween]
  split
  · split
    · exact ⟨'ς', List.mem_singleton_self _, .inr (by decide)⟩
    · exact ⟨'σ', List.mem_singleton_self _, .inr (by decide)⟩
  · by_cases hdotted : c.toNat = 0x130
    · rw [lowerChar, if_neg (by omega), if_pos hdotted]
      exact ⟨Char.ofNat 0x307, by simp, .inr (by decide)⟩
    · by_cases hkelvin : c.toNat = 0x212A
      · have hsign : c = Char.ofNat 0x212A := by rw [← hkelvin, Char.ofNat_toNat]
        exact ⟨'k', by rw [hsign]; decide +kernel, .inl rfl⟩
      · obtain ⟨d, hd⟩ : ∃ d, d ∈ lowerChar c := by
          rw [lowerChar, if_neg (by omega), if_neg hdotted]
          exact ⟨_, List.mem_singleton_self _⟩
        exact ⟨d, hd, .inr (le_of_mem_lowerChar hc hdotted hkelvin hd)⟩

theorem lowerBetween_of_lt {c : Char} (hc : c.toNat < 0x80) (before rest : List Char) :
    lowerBetween before c rest = [c.toLower] := by
  have hsigma : c ≠ 'Σ' := by
    rintro rfl
    exact absurd hc (by decide)
  rw [lowerBetween, if_neg hsigma, lowerChar, if_pos hc]

theorem toLower_eq_self_of_le {c : Char} (hc : 0x80 ≤ c.toNat) : c.toLower = c := by
  refine dif_neg fun h => ?_
  have hlast : c.toNat ≤ 'Z'.toNat := h.2
  exact absurd (Nat.le_trans hc hlast) (by decide)

/-! ## Texts -/

/-- A text of ASCII characters without the letter k. -/
def IsPlain (w : List Char) : Prop := ∀ d ∈ w, d.toNat < 0x80 ∧ d ≠ 'k'

-- by way of the text: a search through all characters would not end
instance (w : List Char) : Decidable (IsPlain w) := List.decidableBAll _ w

theorem IsPlain.not_isForeign {w : List Char} (h : IsPlain w) {d : Char} (hd : d ∈ w) :
    ¬IsForeign d := by
  rintro (hk | hle)
  · exact (h d hd).2 hk
  · exact Nat.not_lt_of_le hle (h d hd).1

theorem lowerBehind_eq_iff {w : List Char} (hw : IsPlain w) (before t : List Char) :
    lowerBehind before t = w ↔ t.map Char.toLower = w := by
  induction t generalizing before w with
  | nil => exact Iff.rfl
  | cons c rest ih =>
    rw [lowerBehind, List.map_cons]
    by_cases hc : c.toNat < 0x80
    · rw [lowerBetween_of_lt hc, List.singleton_append]
      cases w with
      | nil => simp
      | cons d w =>
        have htail : IsPlain w := fun e he => hw e (List.mem_cons_of_mem d he)
        rw [List.cons.injEq, List.cons.injEq, ih htail]
    · -- neither side holds, for a plain text has no place for such a character or its form
      have hle : 0x80 ≤ c.toNat := Nat.le_of_not_lt hc
      obtain ⟨d, hd, hforeign⟩ := exists_foreign_of_mem hle before rest
      constructor
      · rintro rfl
        exact absurd hforeign (hw.not_isForeign (List.mem_append_left _ hd))
      · rintro rfl
        rw [toLower_eq_self_of_le hle] at hw
        exact absurd (.inr hle) (hw.not_isForeign List.mem_cons_self)

/-- A plain text is the lower-case form of the texts that differ from it in the case of ASCII
letters, and of no others. -/
theorem lower_eq_iff {w : List Char} (hw : IsPlain w) (t : List Char) :
    lower t = w ↔ t.map Char.toLower = w := lowerBehind_eq_iff hw [] t

end StepTrace.Text
