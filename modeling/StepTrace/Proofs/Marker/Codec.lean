import Mathlib.Data.List.Basic
import Mathlib.Data.List.Infix
import StepTrace.Proofs.Python.Prompts

/-!
# Reading markers back

A marker is read wherever it stands in a line, if no other opening stands before it: the opening has
no end that is a beginning of it, so no text before it makes part of another. The number is what the
marker was written with (`line?_eq_some_iff` says which texts are read as a number), and prompts
before it make no difference. So every adapter reads every marker back from both streams, and a
line without the opening of a marker is the end marker or text (`markers_read_back`).
-/

set_option autoImplicit false

namespace StepTrace

/-! ## Numerals -/

namespace Text

/-- A numeral of a number: its digits, with zeros before them and a plus sign before those. -/
def IsNumeral (s : List Char) (n : Nat) : Prop :=
  ∃ sign zeros, (sign = [] ∨ sign = ['+']) ∧ s = sign ++ (List.replicate zeros '0' ++ digits n)

/-- A digit is no blank. -/
theorem isBlank_of_isDigit {c : Char} (h : c.isDigit = true) : isBlank c = false :=
  isBlank_of_isAlphanum (by rw [Char.isAlphanum, h, Bool.or_true])

/-- A digit is the numeral of a number below ten. -/
theorem exists_digits_eq {c : Char} (h : c.isDigit = true) :
    ∃ d, d < 10 ∧ c.toNat - '0'.toNat = d ∧ digits d = [c] := by
  rw [Char.isDigit, Bool.and_eq_true, decide_eq_true_iff, decide_eq_true_iff] at h
  have hlow : 48 ≤ c.toNat := h.1
  have hhigh : c.toNat ≤ 57 := h.2
  have hzero : '0'.toNat = 48 := rfl
  have hlt : c.toNat - '0'.toNat < 10 := by omega
  have hchar : Nat.digitChar (c.toNat - '0'.toNat) = c := by
    apply Char.toNat_inj.mp
    rw [Nat.toNat_digitChar_of_lt_ten hlt]
    omega
  refine ⟨c.toNat - '0'.toNat, hlt, rfl, ?_⟩
  rw [digits, Nat.toDigits_of_lt_base hlt, hchar]

theorem digitValue_zeros_append (zeros n : Nat) :
    digitValue (List.replicate zeros '0' ++ digits n) = n := by
  rw [digitValue, Nat.ofDigitChars_append, Nat.ofDigitChars_replicate_zero, Nat.mul_zero]
  exact digitValue_digits n

/-- Digits are those of their value, but for zeros before them. -/
theorem exists_zeros_append {ds : List Char} (hne : ds ≠ []) (h : ∀ c ∈ ds, c.isDigit = true) :
    ∃ zeros, ds = List.replicate zeros '0' ++ digits (digitValue ds) := by
  induction ds using List.reverseRecOn with
  | nil => exact absurd rfl hne
  | append_singleton ds c ih =>
    obtain ⟨hds, hc⟩ := List.forall_mem_append.mp h
    obtain ⟨d, hd, hvalue, hdigits⟩ := exists_digits_eq (hc c List.mem_cons_self)
    have hstep : digitValue (ds ++ [c]) = 10 * digitValue ds + d := by
      rw [digitValue, Nat.ofDigitChars_append, Nat.ofDigitChars_cons, Nat.ofDigitChars_nil, hvalue]
      rfl
    by_cases hempty : ds = []
    · subst hempty
      exact ⟨0, by rw [hstep]; simpa [digitValue] using hdigits.symm⟩
    obtain ⟨zeros, hzeros⟩ := ih hempty hds
    rcases Nat.eq_zero_or_pos (digitValue ds) with hzero | hpos
    · -- all digits before the last are zeros
      refine ⟨zeros + 1, ?_⟩
      have hone : digits 0 = ['0'] := rfl
      rw [hzero, hone, ← List.replicate_succ'] at hzeros
      rw [hstep, hzero, Nat.mul_zero, Nat.zero_add, hdigits, ← hzeros]
    · refine ⟨zeros, ?_⟩
      have happend : digits (digitValue ds) ++ digits d = digits (10 * digitValue ds + d) :=
        Nat.toDigits_append_toDigits (by decide) hpos hd
      rw [hstep, ← happend, ← List.append_assoc, ← hzeros, hdigits]

/-- What may stand before the digits of a numeral is a plus sign. -/
theorem exists_sign_append (s : List Char) :
    ∃ sign, (sign = [] ∨ sign = ['+']) ∧ s = sign ++ dropPlus s := by
  cases s with
  | nil => exact ⟨[], .inl rfl, rfl⟩
  | cons c r =>
    rw [dropPlus]
    split
    · next hc => exact ⟨['+'], .inr rfl, by rw [hc]; rfl⟩
    · exact ⟨[], .inl rfl, rfl⟩

/-- A machine word is read from its numerals. -/
theorem readWord_eq_some_iff (s : List Char) (n : Nat) :
    readWord s = some n ↔ IsNumeral s n ∧ n < wordBound := by
  rw [readWord, readBelow]
  constructor
  · intro h
    obtain ⟨hvalid, hvalue⟩ := Option.ite_none_right_eq_some.mp h
    simp only [isDigits, Bool.and_eq_true, Bool.not_eq_true', List.isEmpty_eq_false_iff,
      List.all_eq_true, decide_eq_true_iff] at hvalid
    obtain ⟨⟨hne, hdigits⟩, hlt⟩ := hvalid
    obtain ⟨sign, hsign, hs⟩ := exists_sign_append s
    obtain ⟨zeros, hzeros⟩ := exists_zeros_append hne hdigits
    rw [← Option.some.inj hvalue]
    exact ⟨⟨sign, zeros, hsign, hzeros ▸ hs⟩, hlt⟩
  · -- neither the sign nor the zeros change the value
    rintro ⟨⟨sign, zeros, hsign, rfl⟩, hlt⟩
    have hdigits : ∀ c ∈ List.replicate zeros '0' ++ digits n, c.isDigit = true := by
      refine List.forall_mem_append.mpr ⟨fun c hc => ?_, fun c hc => isDigit_of_mem_digits hc⟩
      rw [List.eq_of_mem_replicate hc]
      rfl
    have hdrop : dropPlus (sign ++ (List.replicate zeros '0' ++ digits n)) =
        List.replicate zeros '0' ++ digits n := by
      rcases hsign with rfl | rfl
      · exact dropPlus_of_forall_isDigit hdigits
      · rfl
    have hvalid : isDigits (List.replicate zeros '0' ++ digits n) = true := by
      have hne : List.replicate zeros '0' ++ digits n ≠ [] :=
        List.append_ne_nil_of_right_ne_nil _ (digits_ne_nil n)
      rw [isDigits, List.isEmpty_eq_false_iff.mpr hne, List.all_eq_true.mpr hdigits]
      rfl
    simp only [hdrop, hvalid, digitValue_zeros_append, hlt]
    rfl

end Text

/-! ## Markers -/

namespace Marker

/-- Whether a line holds, behind the first opening in it and up to the next delimiter, a numeral of
a machine word, which may have blanks around it. -/
def Carries (l : List Char) (n : Nat) : Prop :=
  ∃ before number after, l = before ++ (opening ++ (number ++ (delimiter ++ after))) ∧
    ¬opening <:+: before ∧ ¬delimiter <:+: number ++ ['#'] ∧
    Text.IsNumeral (Text.trim number) n ∧ n < Text.wordBound

/-- No text before an opening makes part of another: what the opening ends with is nothing that it
begins with. -/
theorem not_infix_append_opening {before : List Char} (h : ¬opening <:+: before) :
    ¬opening <:+: before ++ opening.dropLast := by
  have hborder : ∀ t ∈ opening.tails, t <+: opening.dropLast → t = [] := by decide
  intro hin
  rcases List.infix_append_iff_ne_nil.mp hin with hin | hin | ⟨u, t, -, hne, heq, -, ht⟩
  · exact h hin
  · exact absurd hin.length_le (by decide)
  · exact hne (hborder t ((List.mem_tails t opening).mpr ⟨u, heq.symm⟩) ht)

/-- The number of a line is the one that it carries. -/
theorem line?_eq_some_iff (l : List Char) (n : Nat) : line? l = some n ↔ Carries l n := by
  have hopening : opening ≠ [] := by decide
  have hdelimiter : delimiter ≠ [] := by decide
  simp only [line?, Option.bind_eq_bind, Option.bind_eq_some_iff, Prod.exists,
    Text.cutAt_eq_some_iff hopening, Text.cutAt_eq_some_iff hdelimiter, Text.readWord_eq_some_iff]
  constructor
  · rintro ⟨before, rest, ⟨rfl, hfirst⟩, number, after, ⟨rfl, hnext⟩, hnumeral, hn⟩
    have hbefore : ¬opening <:+: before := fun hin =>
      hfirst (hin.trans (List.prefix_append _ _).isInfix)
    exact ⟨before, number, after, rfl, hbefore, hnext, hnumeral, hn⟩
  · rintro ⟨before, number, after, rfl, hfirst, hnext, hnumeral, hn⟩
    exact ⟨before, _, ⟨rfl, not_infix_append_opening hfirst⟩, number, after, ⟨rfl, hnext⟩, hnumeral,
      hn⟩

theorem classify_eq_activeLine_iff (l : List Char) (n : Nat) :
    classify l = .activeLine n ↔ Carries l n := by
  rw [← line?_eq_some_iff, classify]
  cases line? l with
  | some m => simp
  | none =>
    refine iff_of_false ?_ (by simp)
    dsimp only
    split <;> simp

/-- A marker is carried by a line with any text behind it and any text before it that holds no
opening. -/
theorem carries_ofLine {n : Nat} (hn : n < Text.wordBound) {before : List Char}
    (hbefore : ¬opening <:+: before) (after : List Char) :
    Carries (before ++ ofLine n ++ after) n := by
  have hblank : ∀ c ∈ Text.digits n, Text.isBlank c = false := fun c hc =>
    Text.isBlank_of_isDigit (Text.isDigit_of_mem_digits hc)
  have hcut : Text.cutAt delimiter (Text.digits n ++ (delimiter ++ after)) =
      some (Text.digits n, after) := by
    refine Text.cutAt_append _ (by decide) ?_
    rintro _ ⟨⟩ hmem
    exact absurd (Text.isDigit_of_mem_digits hmem) (by decide)
  obtain ⟨-, hnext⟩ := (Text.cutAt_eq_some_iff (by decide)).mp hcut
  refine ⟨before, Text.digits n, after, ?_, hbefore, hnext, ⟨[], 0, .inl rfl, ?_⟩, hn⟩
  · simp only [ofLine, List.append_assoc]
  · exact Text.trim_eq_self hblank

/-- A line without an opening is the end marker or what was printed. -/
theorem classify_iff_of_no_opening {l : List Char} (h : ¬opening <:+: l) :
    (classify l = .endOfExecution ↔ ending <:+: l) ∧
      (classify l = .outputText (String.ofList l) ↔ ¬ending <:+: l) := by
  rw [classify_of_no_opening h, ← isEnd_iff]
  cases isEnd l with
  | true => simp
  | false => simp

end Marker

/-! ## Markers of every adapter -/

namespace Adapter

/-- A marker is read back from the line of either stream, whatever stands behind it and whatever
without an opening stands before it, prompts included. -/
theorem classifyLine_ofLine (a : Adapter) {n : Nat} (hn : n < Text.wordBound)
    {before : List Char} (hbefore : ¬Marker.opening <:+: before) (after : List Char) :
    a.classifyLine (before ++ Marker.ofLine n ++ after) = .activeLine n := by
  have hcarries : ∀ kept, kept <:+ before →
      Marker.classify (kept ++ Marker.ofLine n ++ after) = .activeLine n := fun kept hkept =>
    (Marker.classify_eq_activeLine_iff _ n).mpr
      (Marker.carries_ofLine hn (fun hin => hbefore (hin.trans hkept.isInfix)) after)
  rw [classifyLine]
  split
  · -- prompts take nothing from the sign on that the marker begins with
    obtain ⟨rest, hrest⟩ : ∃ rest, Marker.ofLine n ++ after = '#' :: rest := ⟨_, rfl⟩
    obtain ⟨kept, hkept, hstripped⟩ := Python.stripPrompts_append_sign before rest
    rw [← hrest, ← List.append_assoc, ← List.append_assoc] at hstripped
    have hblank : Text.allBlank (kept ++ Marker.ofLine n ++ after) = false := by
      rw [List.append_assoc, hrest, Text.allBlank_append, Text.allBlank_cons]
      exact Bool.and_false _
    simp only [Python.classifyPrompted, hstripped, hblank, Bool.and_false, hcarries kept hkept]
    rfl
  · exact hcarries before List.suffix_rfl

end Adapter

/-- Markers are read back. Every adapter reads the marker of a machine word from a line of either
stream, whatever stands behind it and whatever without an opening stands before it. A line without
an opening is the end marker exactly if it holds one, and else what was printed. And an active line
is read exactly where the first opening of a line is followed, up to the next delimiter, by a
numeral of it. -/
theorem markers_read_back :
    (∀ (a : Adapter) (source : Source) (n : Nat) (before after : List Char), n < Text.wordBound →
      ¬Marker.opening <:+: before →
      a.classifyLine (before ++ Marker.ofLine n ++ after) = .activeLine n ∧
      a.classifyOutput (before ++ Marker.ofLine n ++ after) source = .activeLine n) ∧
    (∀ line, ¬Marker.opening <:+: line →
      (Marker.classify line = .endOfExecution ↔ Marker.ending <:+: line) ∧
      (Marker.classify line = .outputText (String.ofList line) ↔ ¬Marker.ending <:+: line)) ∧
    ∀ line n, Marker.classify line = .activeLine n ↔ Marker.Carries line n := by
  refine ⟨fun a source n before after hn hbefore => ?_,
    fun line => Marker.classify_iff_of_no_opening, Marker.classify_eq_activeLine_iff⟩
  have hline := a.classifyLine_ofLine hn hbefore after
  refine ⟨hline, ?_⟩
  cases source with
  | stdout =>
    exact (Marker.classify_eq_activeLine_iff _ n).mpr (Marker.carries_ofLine hn hbefore after)
  | stderr => exact hline

/-- The greatest machine word behind prompts and the beginning of an opening. -/
theorem markers_read_back_prompted :
    18446744073709551615 < Text.wordBound ∧ ¬Marker.opening <:+: ">>> ... ##active_".toList ∧
    (Adapter.python ⟨"python3", []⟩).classifyOutput
      (">>> ... ##active_".toList ++ Marker.ofLine 18446744073709551615 ++ " ##end".toList)
      .stderr = .activeLine 18446744073709551615 := by
  have hn : 18446744073709551615 < Text.wordBound := by decide
  have hbefore : ¬Marker.opening <:+: ">>> ... ##active_".toList := by decide +kernel
  exact ⟨hn, hbefore, (markers_read_back.1 _ _ _ _ _ hn hbefore).2⟩

end StepTrace
