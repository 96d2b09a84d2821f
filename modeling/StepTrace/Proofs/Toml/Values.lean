import StepTrace.Proofs.Toml.Strings

/-!
# Values survive TOML

Every value that is written reads back at the end of a line: a string, a number, a truth value, and
an array of strings in each of its three layouts. `Writes` is what a line needs to know of the value
that it ends in.
-/

set_option autoImplicit false

namespace StepTrace.Toml

variable {s t rest : List Char}

/-- A text writes a value: at the end of a line it reads as that value. -/
structure Writes (t : List Char) (value : Json) : Prop where
  /-- No blank of the line belongs to it. -/
  noBlank : ∀ c ∈ t.head?, c ≠ ' ' ∧ c ≠ '\t'
  reads : ∀ fuel r, t.length < fuel →
    readValue fuel maxDepth (t ++ '\n' :: r) = some (value, '\n' :: r)

/-! ## Strings -/

/-- A string begins with a quote. -/
theorem begins_of_readQuoted {p : List Char × List Char} (h : readQuoted t = some p) :
    ∃ c r, t = c :: r ∧ (c = '\x22' ∨ c = '\x27') := by
  rw [readQuoted.eq_def] at h
  split at h
  next => exact ⟨_, _, rfl, .inl rfl⟩
  next => exact ⟨_, _, rfl, .inr rfl⟩
  next => exact ⟨_, _, rfl, .inl rfl⟩
  next => exact ⟨_, _, rfl, .inr rfl⟩
  next => cases h

theorem readValue_of_readQuoted (fuel depth : Nat) (h : readQuoted t = some (s, rest)) :
    readValue (fuel + 1) depth t = some (.string (String.ofList s), rest) := by
  obtain ⟨c, r, rfl, rfl | rfl⟩ := begins_of_readQuoted h
  all_goals
    rw [readValue]
    · simp [h]
    · simp
    · simp

/-- A string reads back before anything but a quote. -/
theorem readValue_quote (fuel depth : Nat) (s : String) (hdouble : rest.head? ≠ some '\x22')
    (hsingle : rest.head? ≠ some '\x27') :
    readValue (fuel + 1) depth (quote s.toList ++ rest) = some (.string s, rest) := by
  rw [readValue_of_readQuoted fuel depth (readQuoted_quote s.toList hdouble hsingle),
    String.ofList_toList]

theorem begins_quote (s : List Char) : ∃ c r, quote s = c :: r ∧ (c = '\x22' ∨ c = '\x27') := by
  have hread : readQuoted (quote s ++ []) = some (s, []) :=
    readQuoted_quote s (by simp) (by simp)
  rw [List.append_nil] at hread
  exact begins_of_readQuoted hread

theorem writes_quote (s : String) : Writes (quote s.toList) (.string s) where
  noBlank := by
    obtain ⟨c, r, hquote, hc⟩ := begins_quote s.toList
    rw [hquote]
    rintro _ ⟨⟩
    rcases hc with rfl | rfl <;> decide
  reads fuel r hfuel := by
    cases fuel with
    | zero => exact absurd hfuel (Nat.not_lt_zero _)
    | succ fuel => exact readValue_quote fuel maxDepth s (by simp) (by simp)

/-! ## Words without quotes -/

/-- A word without quotes is read up to the end of the line. -/
theorem readValue_word {value : Json} (hword : t.all isScalarChar = true) (hne : t ≠ [])
    (hread : readScalar t = some value) (fuel depth : Nat) (r : List Char) :
    readValue (fuel + 1) depth (t ++ '\n' :: r) = some (value, '\n' :: r) := by
  -- behind a break no time of day goes on from a date
  have hspan : spanScalar (t ++ '\n' :: r) = (t, '\n' :: r) := by
    have hbreak : isScalarChar '\n' = false := by decide
    rw [spanScalar, span_append hword (by simpa using hbreak)]
    dsimp only
    split
    next heq => cases heq
    next => rfl
  obtain ⟨c, s, rfl⟩ := List.exists_cons_of_ne_nil hne
  have hc : isScalarChar c = true := List.all_eq_true.mp hword c List.mem_cons_self
  have hquote : ¬(c = '\x22' ∨ c = '\x27') := by
    rintro (rfl | rfl) <;> exact absurd hc (by decide)
  rw [List.cons_append] at hspan ⊢
  rw [readValue]
  · rw [if_neg hquote, hspan]
    simp [hread]
  all_goals
    rintro rfl
    exact absurd hc (by decide)

theorem writes_word {value : Json} (hword : t.all isScalarChar = true) (hne : t ≠ [])
    (hread : readScalar t = some value) : Writes t value where
  noBlank c hc := by
    have hscalar : isScalarChar c = true :=
      List.all_eq_true.mp hword c (List.mem_of_mem_head? hc)
    constructor <;> rintro rfl <;> exact absurd hscalar (by decide)
  reads fuel r hfuel := by
    cases fuel with
    | zero => exact absurd hfuel (Nat.not_lt_zero _)
    | succ fuel => exact readValue_word hword hne hread fuel maxDepth r

theorem writes_truth (b : Bool) : Writes (truth b) (.bool b) := by
  cases b <;> exact writes_word (by decide) (by decide) (by simp [readScalar, truth])

theorem readGroups_digits {ds : List Char} (h : ∀ c ∈ ds, c.isDigit = true) (after : Bool)
    (hne : ds ≠ [] ∨ after = true) : readGroups Char.isDigit after ds = some ds := by
  induction ds generalizing after with
  | nil => simpa [readGroups] using hne
  | cons c r ih =>
    have hc := h c List.mem_cons_self
    have hbar : c ≠ '_' := by
      rintro rfl
      exact absurd hc (by decide)
    rw [readGroups, if_neg hbar, if_pos hc,
      ih (fun d hd => h d (List.mem_cons_of_mem c hd)) true (.inr rfl)]
    rfl

theorem digitOf_of_isDigit {c : Char} (h : c.isDigit = true) : digitOf c = c.toNat - '0'.toNat := by
  have hle : c.toNat ≤ 57 := by
    simp only [Char.isDigit, Bool.and_eq_true, decide_eq_true_iff] at h
    exact h.2
  rw [digitOf]
  exact if_pos (Nat.lt_succ_of_le hle)

theorem valueOf_digits (n : Nat) : valueOf 10 (Text.digits n) = n := by
  have hfold : ∀ ds : List Char, (∀ c ∈ ds, c.isDigit = true) → ∀ m,
      ds.foldl (fun n d => n * 10 + digitOf d) m = Nat.ofDigitChars 10 ds m := by
    intro ds
    induction ds with
    | nil => exact fun _ _ => rfl
    | cons c r ih =>
      intro h m
      rw [List.foldl_cons, ih (fun d hd => h d (List.mem_cons_of_mem c hd)),
        Nat.ofDigitChars_cons, digitOf_of_isDigit (h c List.mem_cons_self), Nat.mul_comm]
  rw [valueOf, hfold _ (fun c hc => Text.isDigit_of_mem_digits hc)]
  exact Text.digitValue_digits n

theorem not_mem_digits {c : Char} (h : c.isDigit = false) (n : Nat) : c ∉ Text.digits n :=
  fun hc => absurd (Text.isDigit_of_mem_digits hc) (by simp [h])

theorem readSign_digits (n : Nat) : readSign (Text.digits n) = (false, Text.digits n) := by
  rw [readSign.eq_def]
  split
  next heq => exact absurd (heq ▸ List.mem_cons_self) (not_mem_digits (c := '-') (by decide) n)
  next heq => exact absurd (heq ▸ List.mem_cons_self) (not_mem_digits (c := '+') (by decide) n)
  next => rfl

theorem readSigned_digits (n : Nat) : readSigned (Text.digits n) = some (Text.digits n) := by
  have hzero : ¬((Text.digits n).head? = some '0' ∧ (Text.digits n).length > 1) := by
    rintro ⟨hhead, hlength⟩
    cases n with
    | zero => exact absurd hlength (by decide)
    | succ n => exact Text.head?_digits_ne_zero (Nat.succ_pos n) hhead
  rw [readSigned.eq_def]
  split
  next heq => exact absurd (heq ▸ List.mem_cons_self) (not_mem_digits (c := '-') (by decide) n)
  next heq => exact absurd (heq ▸ List.mem_cons_self) (not_mem_digits (c := '+') (by decide) n)
  next =>
    rw [readSign_digits, readPlain, readGroups_digits
      (fun c hc => Text.isDigit_of_mem_digits hc) false (.inl (Text.digits_ne_nil n))]
    simp [hzero]

theorem readNumber_digits (n : Nat) : readNumber (Text.digits n) = some (n : Int) := by
  have hsecond {c d : Char} {r : List Char} (hd : d.isDigit = false)
      (heq : Text.digits n = c :: d :: r) : False :=
    not_mem_digits hd n (by rw [heq]; simp)
  rw [readNumber.eq_def]
  split
  next heq => exact (hsecond (by decide) heq).elim
  next heq => exact (hsecond (by decide) heq).elim
  next heq => exact (hsecond (by decide) heq).elim
  next => simp [readSigned_digits, readSign_digits, valueOf_digits]

theorem isInteger_natCast {n : Nat} (h : n < Nat.pow 2 128) : isInteger n = true := by
  rw [isInteger, integerBounds, Bool.and_eq_true, decide_eq_true_iff, decide_eq_true_iff]
  -- the bounds are too large to be computed with
  generalize Nat.pow 2 127 = low
  generalize Nat.pow 2 128 = high at h ⊢
  dsimp only
  omega

/-- The numeral of a number that is not too large reads as an integer. -/
theorem readInteger_digits {n : Nat} (h : n < Nat.pow 2 128) :
    readInteger (Text.digits n) = some (n : Int) := by
  rw [readInteger, readNumber_digits, Option.filter_some_pos (isInteger_natCast h)]

theorem writes_digits {n : Nat} (h : n < Nat.pow 2 128) : Writes (Text.digits n) (.ofNat n) := by
  have hscalar {c : Char} (hc : c.isDigit = true) : isScalarChar c = true := by
    simp [isScalarChar, Char.isAlphanum, hc]
  have hread : readScalar (Text.digits n) = some (.ofNat n) := by
    rw [readScalar, if_neg, if_neg, readInteger_digits h]
    · rfl
    · exact fun heq => not_mem_digits (c := 'f') (by decide) n (by rw [heq]; decide)
    · exact fun heq => not_mem_digits (c := 't') (by decide) n (by rw [heq]; decide)
  exact writes_word (List.all_eq_true.mpr fun c hc => hscalar (Text.isDigit_of_mem_digits hc))
    (Text.digits_ne_nil n) hread

/-! ## Arrays of strings -/

theorem skipSpace_quote (s : List Char) (rest : List Char) :
    skipSpace false (quote s ++ rest) = some (quote s ++ rest) := by
  obtain ⟨c, r, hquote, rfl | rfl⟩ := begins_quote s <;> simp [hquote, skipSpace]

/-- The item that an array goes on with, and what stands behind it. -/
theorem readItems_item (fuel depth : Nat) (s : String)
    (hskip : skipSpace false t = some (quote s.toList ++ rest))
    (hdouble : rest.head? ≠ some '\x22') (hsingle : rest.head? ≠ some '\x27') :
    readItems (fuel + 2) depth t = (skipSpace false rest).bind fun next =>
      match next with
      | ']' :: r => some ([.string s], r)
      | ',' :: r => (readItems (fuel + 1) depth r).bind fun p => some (.string s :: p.1, p.2)
      | _ => none := by
  have hread := readValue_quote fuel depth s hdouble hsingle
  obtain ⟨c, r, hquote, hc⟩ := begins_quote s.toList
  have hne : c ≠ ']' := by rcases hc with rfl | rfl <;> decide
  rw [readItems, hskip]
  rw [hquote, List.cons_append] at hread ⊢
  simp only [Option.bind_eq_bind, Option.bind_some]
  split
  next heq =>
    cases heq
    exact absurd rfl hne
  next =>
    rw [hread]
    rfl

theorem readItems_comma (fuel depth : Nat) (s : String) (r : List Char)
    (hskip : skipSpace false t = some (quote s.toList ++ ',' :: r)) :
    readItems (fuel + 2) depth t =
      (readItems (fuel + 1) depth r).bind fun p => some (.string s :: p.1, p.2) := by
  have hcomma : skipSpace false (',' :: r) = some (',' :: r) := by simp [skipSpace]
  rw [readItems_item fuel depth s hskip (by simp) (by simp), hcomma]
  rfl

theorem readItems_last (fuel depth : Nat) (s : String) (r : List Char) :
    readItems (fuel + 2) depth (quote s.toList ++ ']' :: r) = some ([.string s], r) := by
  have hbracket : skipSpace false (']' :: r) = some (']' :: r) := by simp [skipSpace]
  rw [readItems_item fuel depth s (skipSpace_quote s.toList _) (by simp) (by simp), hbracket]
  rfl

theorem readItems_end (fuel depth : Nat) (r : List Char) :
    readItems (fuel + 1) depth (']' :: r) = some ([], r) := by
  rw [readItems]
  rfl

/-- The line of an item in an array of several. -/
def itemLine (s : String) : List Char := "    ".toList ++ quote s.toList ++ ",\n".toList

/-- The items of an array on lines of their own. -/
theorem readItems_lines (items : List String) (fuel depth : Nat) (r : List Char)
    (hfuel : items.length < fuel) :
    readItems (fuel + 1) depth ('\n' :: (items.flatMap itemLine ++ ']' :: r)) =
      some (items.map .string, r) := by
  induction items generalizing fuel with
  | nil =>
    rw [readItems]
    rfl
  | cons s items ih =>
    rw [List.length_cons] at hfuel
    obtain ⟨fuel, rfl⟩ : ∃ k, fuel = k + 1 := ⟨fuel - 1, by omega⟩
    have hskip : skipSpace false ('\n' :: ((s :: items).flatMap itemLine ++ ']' :: r)) =
        some (quote s.toList ++ ',' :: '\n' :: (items.flatMap itemLine ++ ']' :: r)) := by
      rw [← skipSpace_quote]
      simp [itemLine, skipSpace]
    rw [readItems_comma fuel depth s _ hskip, ih fuel (by omega)]
    rfl

theorem length_le_flatMap_itemLine (items : List String) :
    items.length ≤ (items.flatMap itemLine).length := by
  induction items with
  | nil => exact Nat.le_refl 0
  | cons s items ih =>
    rw [List.flatMap_cons, List.length_append, List.length_cons, Nat.add_comm]
    refine Nat.add_le_add ?_ ih
    simp [itemLine]

/-- What stands behind the first bracket of an array of strings reads as its items in each of the
three layouts. -/
theorem strings_eq (items : List String) : ∃ t, strings items = '[' :: t ∧
    ∀ fuel depth r, t.length < fuel →
      readItems fuel depth (t ++ r) = some (items.map .string, r) := by
  -- the layout depends on whether there is none, one or more
  match items with
  | [] =>
    refine ⟨[']'], rfl, fun fuel depth r hfuel => ?_⟩
    cases fuel with
    | zero => exact absurd hfuel (Nat.not_lt_zero _)
    | succ fuel => exact readItems_end fuel depth r
  | [s] =>
    refine ⟨quote s.toList ++ [']'], rfl, fun fuel depth r hfuel => ?_⟩
    obtain ⟨fuel, rfl⟩ : ∃ k, fuel = k + 2 := by
      obtain ⟨c, q, hquote, -⟩ := begins_quote s.toList
      rw [hquote] at hfuel
      exact ⟨fuel - 2, by simp at hfuel; omega⟩
    rw [List.append_assoc]
    exact readItems_last fuel depth s r
  | s :: s' :: items =>
    refine ⟨'\n' :: ((s :: s' :: items).flatMap itemLine ++ [']']), ?_,
      fun fuel depth r hfuel => ?_⟩
    · have hlines : strings (s :: s' :: items) =
          "[\n".toList ++ (s :: s' :: items).flatMap itemLine ++ [']'] := rfl
      rw [hlines, List.append_assoc]
      rfl
    · rw [List.length_cons, List.length_append, List.length_singleton] at hfuel
      have hitems := length_le_flatMap_itemLine (s :: s' :: items)
      obtain ⟨fuel, rfl⟩ : ∃ k, fuel = k + 1 := ⟨fuel - 1, by omega⟩
      rw [List.cons_append, List.append_assoc]
      exact readItems_lines (s :: s' :: items) fuel depth r (by omega)

theorem writes_strings (items : List String) : Writes (strings items) (.ofStrings items) where
  noBlank := by
    obtain ⟨t, htext, -⟩ := strings_eq items
    rw [htext]
    rintro _ ⟨⟩
    decide
  reads fuel r hfuel := by
    obtain ⟨t, htext, hitems⟩ := strings_eq items
    rw [htext] at hfuel ⊢
    cases fuel with
    | zero => exact absurd hfuel (Nat.not_lt_zero _)
    | succ fuel =>
      have hread := hitems fuel 79 ('\n' :: r) (Nat.lt_of_succ_lt_succ hfuel)
      rw [List.cons_append, maxDepth, readValue, if_neg (by decide), hread]
      rfl

end StepTrace.Toml
