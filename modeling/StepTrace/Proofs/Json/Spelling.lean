import Mathlib.Data.List.TakeDrop
import StepTrace.Json.Reader
import StepTrace.Json.Writer

/-!
# Spellings of JSON values

`Spells j s` says that a text is a spelling of a value. It leaves the white space between the parts
open, so that a value written compactly and a value spread over lines are two spellings of it
(`spells_compact`, `spells_spread`). The reader takes any spelling back to its value
(`readValue_of_spells`), so the two writers lose nothing: `parse?_compact`, `parse?_spread`.
-/

set_option autoImplicit false

namespace StepTrace.Json

mutual

/-- Whether a value holds no number with a fraction or an exponent and nothing unreadable. -/
def isPlain : Json → Bool
  | .null => true
  | .bool _ => true
  | .integer _ => true
  | .real _ => false
  | .string _ => true
  | .array items => arePlain items
  | .object members => havePlain members
  | .unreadable => false

/-- Whether each item of an array is plain. -/
def arePlain : List Json → Bool
  | [] => true
  | j :: js => j.isPlain && arePlain js

/-- Whether the value of each member of an object is plain. -/
def havePlain : List (String × Json) → Bool
  | [] => true
  | (_, j) :: ms => j.isPlain && havePlain ms

end

/-- White space, as it may stand between two parts of a document. -/
def IsGap (ws : List Char) : Prop := ∀ c ∈ ws, isSpace c = true

mutual

/-- The spellings of a value, with no white space around them. -/
inductive Spells : Json → List Char → Prop where
  | null : Spells .null "null".toList
  | yes : Spells (.bool true) "true".toList
  | no : Spells (.bool false) "false".toList
  | integer (i : Int) : Spells (.integer i) (writeInteger i)
  | string (text : String) : Spells (.string text) (quote text.toList)
  | noItems {ws : List Char} (gap : IsGap ws) : Spells (.array []) ('[' :: (ws ++ [']']))
  | array {items : List Json} {ws s : List Char} (gap : IsGap ws) (spelled : SpellsItems items s) :
      Spells (.array items) ('[' :: (ws ++ s))
  | noMembers {ws : List Char} (gap : IsGap ws) :
      Spells (.object []) ('\x7b' :: (ws ++ ['\x7d']))
  | object {members : List (String × Json)} {ws s : List Char} (gap : IsGap ws)
      (spelled : SpellsMembers members s) : Spells (.object members) ('\x7b' :: (ws ++ s))

/-- The spellings of the items of an array that is not empty, up to its closing bracket. -/
inductive SpellsItems : List Json → List Char → Prop where
  | last {j : Json} {s ws : List Char} (spelled : Spells j s) (gap : IsGap ws) :
      SpellsItems [j] (s ++ (ws ++ [']']))
  | more {j : Json} {js : List Json} {s ws ws' t : List Char} (spelled : Spells j s)
      (before : IsGap ws) (after : IsGap ws') (further : SpellsItems js t) :
      SpellsItems (j :: js) (s ++ (ws ++ ',' :: (ws' ++ t)))

/-- The spellings of the members of an object that is not empty, up to its closing brace. -/
inductive SpellsMembers : List (String × Json) → List Char → Prop where
  | last {name : String} {j : Json} {ws s ws' : List Char} (value : IsGap ws) (spelled : Spells j s)
      (gap : IsGap ws') :
      SpellsMembers [(name, j)] (quote name.toList ++ ':' :: (ws ++ (s ++ (ws' ++ ['\x7d']))))
  | more {name : String} {j : Json} {ms : List (String × Json)} {ws s ws' ws'' t : List Char}
      (value : IsGap ws) (spelled : Spells j s) (before : IsGap ws') (after : IsGap ws'')
      (further : SpellsMembers ms t) :
      SpellsMembers ((name, j) :: ms)
        (quote name.toList ++ ':' :: (ws ++ (s ++ (ws' ++ ',' :: (ws'' ++ t)))))

end

/-! ### Gaps -/

theorem isSpace_iff (c : Char) :
    isSpace c = true ↔ c = ' ' ∨ c = '\n' ∨ c = '\t' ∨ c = '\r' := by
  simp [isSpace, or_assoc]

theorem isGap_nil : IsGap [] := by simp [IsGap]

theorem isGap_space : IsGap [' '] := by simp [IsGap, isSpace]

theorem isGap_newLine (depth : Nat) : IsGap (newLine depth) := by
  intro c hc
  obtain rfl | ⟨-, rfl⟩ : c = '\n' ∨ 2 * depth ≠ 0 ∧ c = ' ' := by simpa [newLine] using hc
  · decide
  · decide

/-- Nothing is left of a gap before a character that is no white space. -/
theorem skipSpace_gap {ws : List Char} (h : IsGap ws) {c : Char} (hc : isSpace c = false)
    (r : List Char) : skipSpace (ws ++ c :: r) = c :: r := by
  rw [skipSpace, List.dropWhile_append_of_pos h, List.dropWhile_cons_of_neg (by simp [hc])]

theorem skipSpace_cons {c : Char} (hc : isSpace c = false) (r : List Char) :
    skipSpace (c :: r) = c :: r := skipSpace_gap isGap_nil hc r

/-! ### Strings -/

/-- The unit that a character is read as where it is written by `escape`. -/
def unitOf (c : Char) : StringUnit :=
  if c = '\n' ∨ c = '\r' ∨ c = '\t' ∨ c = '\x08' ∨ c = '\x0c' then .char c
  else if c.toNat < 0x20 then .code c.toNat
  else .char c

theorem readUnits_short {e c : Char} (he : shortEscape? e = some c) (r : List Char) :
    readUnits ('\\' :: e :: r) = (readUnits r).map fun p => (.char c :: p.1, p.2) := by
  have hu : e ≠ 'u' := by
    rintro rfl
    simp [shortEscape?] at he
  rw [readUnits.eq_def]
  simp [hu, he]

theorem hex4?_control :
    ∀ n, n < 0x20 → hex4? '0' '0' (hexChar (n / 16)) (hexChar (n % 16)) = some n := by
  decide

/-- What a character is written as reads as its unit. -/
theorem readUnits_escape (c : Char) (r : List Char) :
    readUnits (escape c ++ r) = (readUnits r).map fun p => (unitOf c :: p.1, p.2) := by
  rw [escape]
  split
  next h => subst h; exact readUnits_short (by decide) r
  next hquote =>
  split
  next h => subst h; exact readUnits_short (by decide) r
  next hslash =>
  split
  next h => subst h; exact readUnits_short (by decide) r
  next hb =>
  split
  next h => subst h; exact readUnits_short (by decide) r
  next hf =>
  split
  next h => subst h; exact readUnits_short (by decide) r
  next hn =>
  split
  next h => subst h; exact readUnits_short (by decide) r
  next hr =>
  split
  next h => subst h; exact readUnits_short (by decide) r
  next ht =>
  -- what has no short escape is written as itself, or by its number if it is a control character
  have hshort : ¬(c = '\n' ∨ c = '\r' ∨ c = '\t' ∨ c = '\x08' ∨ c = '\x0c') := by
    simp [hn, hr, ht, hb, hf]
  rw [unitOf, if_neg hshort]
  split
  next hcontrol =>
    rw [readUnits.eq_def]
    simp [hex4?_control _ hcontrol]
  next hcontrol =>
    rw [readUnits.eq_def]
    simp [hquote, hslash, hcontrol]

/-- The unit of a character stands for it. -/
theorem ofUnits?_unitOf (c : Char) (us : List StringUnit) :
    ofUnits? (unitOf c :: us) = (ofUnits? us).map (c :: ·) := by
  rw [unitOf]
  split
  · rfl
  · split
    next hcontrol =>
      have hlow : isLowSurrogate c.toNat = false := by
        simp only [isLowSurrogate, Bool.and_eq_false_iff, decide_eq_false_iff_not]
        omega
      have hhigh : isHighSurrogate c.toNat = false := by
        simp only [isHighSurrogate, Bool.and_eq_false_iff, decide_eq_false_iff_not]
        omega
      rw [ofUnits?.eq_def]
      simp [hlow, hhigh]
    next => rfl

/-- A quoted string reads as the units of its characters. -/
theorem readUnits_quoted (s rest : List Char) :
    readUnits (s.flatMap escape ++ '\x22' :: rest) = some (s.map unitOf, rest) := by
  induction s with
  | nil =>
    rw [readUnits.eq_def]
    simp
  | cons c s ih => simp [readUnits_escape, ih]

theorem ofUnits?_map_unitOf (s : List Char) : ofUnits? (s.map unitOf) = some s := by
  induction s with
  | nil => rfl
  | cons c s ih => simp [ofUnits?_unitOf, ih]

/-- A quoted string reads back. -/
theorem readText_quoted (text : String) (rest : List Char) :
    readText (text.toList.flatMap escape ++ '\x22' :: rest) = some (some text, rest) := by
  simp [readText, readUnits_quoted, ofUnits?_map_unitOf]

/-! ### Numbers -/

/-- What may follow a number without becoming a part of it. -/
def EndsNumber (rest : List Char) : Prop :=
  ∀ c ∈ rest.head?, c.isDigit = false ∧ c ≠ '.' ∧ c ≠ 'e' ∧ c ≠ 'E'

theorem endsNumber_nil : EndsNumber [] := by simp [EndsNumber]

instance : (rest : List Char) → Decidable (EndsNumber rest)
  | [] => isTrue endsNumber_nil
  | c :: _ =>
    decidable_of_iff (c.isDigit = false ∧ c ≠ '.' ∧ c ≠ 'e' ∧ c ≠ 'E') (by simp [EndsNumber])

theorem endsNumber_gap {ws : List Char} (h : IsGap ws) {c : Char} (hc : EndsNumber [c])
    (r : List Char) : EndsNumber (ws ++ c :: r) := by
  cases ws with
  | nil => simpa [EndsNumber] using hc
  | cons w ws =>
    have hw := (isSpace_iff w).mp (h w (by simp))
    intro d hd
    obtain rfl : w = d := by simpa using hd
    rcases hw with rfl | rfl | rfl | rfl <;> decide

theorem spanDigits_digits (n : Nat) {rest : List Char} (h : EndsNumber rest) :
    spanDigits (Text.digits n ++ rest) = (Text.digits n, rest) := by
  have hd : ∀ c ∈ Text.digits n, c.isDigit = true := fun c hc => Text.isDigit_of_mem_digits hc
  rw [spanDigits, List.span_eq_takeWhile_dropWhile, List.takeWhile_append_of_pos hd,
    List.dropWhile_append_of_pos hd]
  cases rest with
  | nil => simp
  | cons c r => simp [(h c (by simp)).1]

theorem readFraction_of_endsNumber {rest : List Char} (h : EndsNumber rest) :
    readFraction rest = some ([], rest) := by
  cases rest with
  | nil => rfl
  | cons c r => simp [readFraction, (h c (by simp)).2.1]

theorem readExponent_of_endsNumber {rest : List Char} (h : EndsNumber rest) :
    readExponent rest = some ([], rest) := by
  cases rest with
  | nil => rfl
  | cons c r => simp [readExponent, (h c (by simp)).2.2]

/-- The digits of a number are a whole part that a number may have. -/
theorem whole_digits (n : Nat) :
    ((Text.digits n).isEmpty || (Text.digits n).head? == some '0' && (Text.digits n).length > 1)
      = false := by
  rw [List.isEmpty_eq_false_iff.mpr (Text.digits_ne_nil n), Bool.false_or]
  obtain rfl | hn := Nat.eq_zero_or_pos n
  · decide
  · simp [Text.head?_digits_ne_zero hn]

/-- A numeral begins with a digit. -/
theorem exists_digits_eq_cons (n : Nat) : ∃ c ds, Text.digits n = c :: ds ∧ c.isDigit = true := by
  obtain ⟨c, ds, h⟩ := List.exists_cons_of_ne_nil (Text.digits_ne_nil n)
  exact ⟨c, ds, h, Text.isDigit_of_mem_digits (n := n) (by simp [h])⟩

/-- A written integer reads back. -/
theorem readNumber_writeInteger (i : Int) {rest : List Char} (h : EndsNumber rest) :
    readNumber (writeInteger i ++ rest) = some (.integer i, rest) := by
  cases i with
  | ofNat n =>
    obtain ⟨c, ds, hds, hc⟩ := exists_digits_eq_cons n
    have hminus : c ≠ '-' := by
      rintro rfl
      exact absurd hc (by decide)
    have hsign : ∀ r, Text.digits n ++ rest ≠ '-' :: r := by
      intro r hr
      rw [hds, List.cons_append] at hr
      exact hminus (List.cons.inj hr).1
    rw [writeInteger, readNumber.eq_def]
    split
    next hmatch =>
      split at hmatch
      next heq => exact absurd heq (hsign _)
      next =>
        obtain ⟨rfl, rfl⟩ := hmatch
        simp only [spanDigits_digits n h, whole_digits]
        simp [readFraction_of_endsNumber h, readExponent_of_endsNumber h, Text.digitValue_digits]
  | negSucc n =>
    rw [writeInteger, readNumber.eq_def]
    simp only [List.cons_append, spanDigits_digits (n + 1) h, whole_digits]
    simp [readFraction_of_endsNumber h, readExponent_of_endsNumber h, Text.digitValue_digits,
      Int.negSucc_eq]

/-! ### Values -/

/-- A spelling begins with a character that neither white space nor a closing bracket is. -/
theorem exists_cons_of_spells {j : Json} {s : List Char} (h : Spells j s) :
    ∃ c r, s = c :: r ∧ isSpace c = false ∧ c ≠ ']' := by
  cases h with
  | null => exact ⟨_, _, rfl, by decide, by decide⟩
  | yes => exact ⟨_, _, rfl, by decide, by decide⟩
  | no => exact ⟨_, _, rfl, by decide, by decide⟩
  | string text => exact ⟨_, _, rfl, by decide, by decide⟩
  | noItems gap => exact ⟨_, _, rfl, by decide, by decide⟩
  | array gap spelled => exact ⟨_, _, rfl, by decide, by decide⟩
  | noMembers gap => exact ⟨_, _, rfl, by decide, by decide⟩
  | object gap spelled => exact ⟨_, _, rfl, by decide, by decide⟩
  | integer i =>
    cases i with
    | negSucc n => exact ⟨_, _, rfl, by decide, by decide⟩
    | ofNat n =>
      obtain ⟨c, ds, hds, hc⟩ := exists_digits_eq_cons n
      refine ⟨c, ds, hds, ?_, ?_⟩
      · refine Bool.eq_false_iff.mpr fun hspace => ?_
        rcases (isSpace_iff c).mp hspace with rfl | rfl | rfl | rfl <;>
          exact absurd hc (by decide)
      · rintro rfl
        exact absurd hc (by decide)

/-- A character that a numeral begins with leads the reader to the number. -/
theorem readValue_numeral {c : Char} (hc : c = '-' ∨ c.isDigit = true) (fuel : Nat)
    {s r : List Char} (h : skipSpace s = c :: r) :
    readValue (fuel + 1) s = readNumber (c :: r) := by
  have hne (d : Char) (hd : d ≠ '-') (hdigit : d.isDigit = false) : c ≠ d := by
    rintro rfl
    rcases hc with rfl | hc
    · exact hd rfl
    · exact absurd hc (by simp [hdigit])
  have hn := hne 'n' (by decide) (by decide)
  have ht := hne 't' (by decide) (by decide)
  have hf := hne 'f' (by decide) (by decide)
  have hquote := hne '\x22' (by decide) (by decide)
  have hbracket := hne '[' (by decide) (by decide)
  have hbrace := hne '\x7b' (by decide) (by decide)
  rw [readValue, h]
  simp [hn, ht, hf, hquote, hbracket, hbrace]

theorem readValue_bracket {s r : List Char} (h : skipSpace s = '[' :: r) (fuel : Nat) :
    readValue (fuel + 1) s =
      match skipSpace r with
      | ']' :: r => some (.array [], r)
      | r => (readItems fuel r).map fun p => (.array p.1, p.2) := by
  rw [readValue, h]
  rfl

theorem readValue_brace {s r : List Char} (h : skipSpace s = '\x7b' :: r) (fuel : Nat) :
    readValue (fuel + 1) s =
      match skipSpace r with
      | '\x7d' :: r => some (.object [], r)
      | r => (readMembers fuel r).map fun p => (ofMembers p.1, p.2) := by
  rw [readValue, h]
  rfl

theorem exists_cons_of_spellsItems {items : List Json} {s : List Char}
    (h : SpellsItems items s) : ∃ c r, s = c :: r ∧ isSpace c = false ∧ c ≠ ']' := by
  cases h with
  | last spelled gap =>
    obtain ⟨c, r, rfl, hc⟩ := exists_cons_of_spells spelled
    exact ⟨c, _, rfl, hc⟩
  | more spelled before after further =>
    obtain ⟨c, r, rfl, hc⟩ := exists_cons_of_spells spelled
    exact ⟨c, _, rfl, hc⟩

theorem exists_cons_of_spellsMembers {members : List (String × Json)} {s : List Char}
    (h : SpellsMembers members s) : ∃ r, s = '\x22' :: r := by
  cases h with
  | last value spelled gap => exact ⟨_, rfl⟩
  | more value spelled before after further => exact ⟨_, rfl⟩

theorem ofMembers_named (members : List (String × Json)) :
    ofMembers (members.map fun m => (some m.1, m.2)) = .object members := by
  have : (members.map fun m => (some m.1, m.2)).mapM
      (fun m : Option String × Json => m.1.map fun name => (name, m.2)) = some members := by
    induction members with
    | nil => rfl
    | cons m ms ih => simp [ih]
  rw [ofMembers, this]

/-! ### Reading -/

/-- An integer that was written reads back. -/
theorem readValue_writeInteger (i : Int) (fuel : Nat) {ws rest : List Char} (hws : IsGap ws)
    (hrest : EndsNumber rest) :
    readValue (fuel + 1) (ws ++ (writeInteger i ++ rest)) = some (.integer i, rest) := by
  obtain ⟨c, r, hs, hspace, -⟩ := exists_cons_of_spells (.integer i)
  have hc : c = '-' ∨ c.isDigit = true := by
    cases i with
    | negSucc n => exact .inl (List.cons.inj hs).1.symm
    | ofNat n =>
      rw [writeInteger] at hs
      exact .inr (Text.isDigit_of_mem_digits (n := n) (by simp [hs]))
  have hlead : skipSpace (ws ++ (writeInteger i ++ rest)) = c :: (r ++ rest) := by
    rw [hs, List.cons_append, skipSpace_gap hws hspace]
  rw [readValue_numeral hc fuel hlead, ← List.cons_append, ← hs]
  exact readNumber_writeInteger i hrest

mutual

/-- Any spelling of a value reads back, after any white space and before anything that does not
continue a number. Every two calls consume a character. -/
theorem readValue_of_spells {j : Json} {s : List Char} (h : Spells j s) (fuel : Nat)
    {ws rest : List Char} (hws : IsGap ws) (hrest : EndsNumber rest) (hfuel : 2 * s.length ≤ fuel) :
    readValue fuel (ws ++ (s ++ rest)) = some (j, rest) := by
  obtain ⟨c, r, hs, hspace, -⟩ := exists_cons_of_spells h
  obtain ⟨fuel, rfl⟩ : ∃ n, fuel = n + 1 :=
    Nat.exists_eq_succ_of_ne_zero (by rw [hs, List.length_cons] at hfuel; omega)
  have hskip : skipSpace (ws ++ (s ++ rest)) = s ++ rest := by
    rw [hs, List.cons_append, skipSpace_gap hws hspace]
  cases h with
  | null =>
    rw [readValue, hskip]
    rfl
  | yes =>
    rw [readValue, hskip]
    rfl
  | no =>
    rw [readValue, hskip]
    rfl
  | string text =>
    rw [readValue, hskip]
    simp [quote, readText_quoted, ofText]
  | integer i => exact readValue_writeInteger i fuel hws hrest
  | noItems gap =>
    have hclose : isSpace ']' = false := by decide
    rw [List.cons_append, List.append_assoc, List.singleton_append] at hskip
    rw [List.cons_append, List.append_assoc, List.singleton_append, readValue_bracket hskip,
      skipSpace_gap gap hclose]
    rfl
  | @array items ws' t gap spelled =>
    -- the first item is no bracket, so the reader does not take the array for an empty one
    obtain ⟨d, t', rfl, hspace, hbracket⟩ := exists_cons_of_spellsItems spelled
    simp only [List.length_cons, List.length_append] at hfuel
    have ih := readItems_of_spells spelled fuel isGap_nil rest (by
      rw [List.length_cons]
      omega)
    rw [List.nil_append, List.cons_append] at ih
    rw [List.cons_append, List.append_assoc, List.cons_append] at hskip
    rw [List.cons_append, List.append_assoc, List.cons_append, readValue_bracket hskip,
      skipSpace_gap gap hspace]
    simp [ih, hbracket]
  | noMembers gap =>
    have hclose : isSpace '\x7d' = false := by decide
    rw [List.cons_append, List.append_assoc, List.singleton_append] at hskip
    rw [List.cons_append, List.append_assoc, List.singleton_append, readValue_brace hskip,
      skipSpace_gap gap hclose]
    rfl
  | @object members ws' t gap spelled =>
    obtain ⟨t', rfl⟩ := exists_cons_of_spellsMembers spelled
    simp only [List.length_cons, List.length_append] at hfuel
    have ih := readMembers_of_spells spelled fuel isGap_nil rest (by
      rw [List.length_cons]
      omega)
    have hquote : isSpace '\x22' = false := by decide
    rw [List.nil_append, List.cons_append] at ih
    rw [List.cons_append, List.append_assoc, List.cons_append] at hskip
    rw [List.cons_append, List.append_assoc, List.cons_append, readValue_brace hskip,
      skipSpace_gap gap hquote]
    simp [ih, ofMembers_named]

theorem readItems_of_spells {items : List Json} {s : List Char} (h : SpellsItems items s)
    (fuel : Nat) {ws : List Char} (hws : IsGap ws) (rest : List Char)
    (hfuel : 2 * s.length < fuel) :
    readItems fuel (ws ++ (s ++ rest)) = some (items, rest) := by
  obtain ⟨fuel, rfl⟩ : ∃ n, fuel = n + 1 := Nat.exists_eq_succ_of_ne_zero (by omega)
  have hcomma : isSpace ',' = false := by decide
  have hclose : isSpace ']' = false := by decide
  cases h with
  | @last j s ws₁ spelled gap =>
    have ends : EndsNumber (ws₁ ++ ']' :: rest) := endsNumber_gap gap (by decide) rest
    have ih := readValue_of_spells spelled fuel hws ends (by
      simp only [List.length_append] at hfuel
      omega)
    rw [readItems]
    simp [ih, skipSpace_gap gap hclose]
  | @more j js s ws₁ ws₂ t spelled before after further =>
    have ends : EndsNumber (ws₁ ++ ',' :: (ws₂ ++ (t ++ rest))) :=
      endsNumber_gap before (by decide) _
    simp only [List.length_append, List.length_cons] at hfuel
    have ih := readValue_of_spells spelled fuel hws ends (by omega)
    have ih' := readItems_of_spells further fuel after rest (by omega)
    rw [readItems]
    simp [ih, ih', skipSpace_gap before hcomma]

theorem readMembers_of_spells {members : List (String × Json)} {s : List Char}
    (h : SpellsMembers members s) (fuel : Nat) {ws : List Char} (hws : IsGap ws)
    (rest : List Char) (hfuel : 2 * s.length < fuel) :
    readMembers fuel (ws ++ (s ++ rest)) = some (members.map fun m => (some m.1, m.2), rest) := by
  obtain ⟨fuel, rfl⟩ : ∃ n, fuel = n + 1 := Nat.exists_eq_succ_of_ne_zero (by omega)
  have hquote : isSpace '\x22' = false := by decide
  have hcolon : isSpace ':' = false := by decide
  have hcomma : isSpace ',' = false := by decide
  have hclose : isSpace '\x7d' = false := by decide
  cases h with
  | @last name j ws₁ s ws₂ value spelled gap =>
    have ends : EndsNumber (ws₂ ++ '\x7d' :: rest) := endsNumber_gap gap (by decide) rest
    simp only [List.length_append, List.length_cons] at hfuel
    have ih := readValue_of_spells spelled fuel value ends (by omega)
    rw [readMembers]
    simp [quote, skipSpace_gap hws hquote, readText_quoted, skipSpace_cons hcolon, ih,
      skipSpace_gap gap hclose]
  | @more name j ms ws₁ s ws₂ ws₃ t value spelled before after further =>
    have ends : EndsNumber (ws₂ ++ ',' :: (ws₃ ++ (t ++ rest))) :=
      endsNumber_gap before (by decide) _
    simp only [List.length_append, List.length_cons] at hfuel
    have ih := readValue_of_spells spelled fuel value ends (by omega)
    have ih' := readMembers_of_spells further fuel after rest (by omega)
    rw [readMembers]
    simp [quote, skipSpace_gap hws hquote, readText_quoted, skipSpace_cons hcolon, ih, ih',
      skipSpace_gap before hcomma]

end

/-- A spelling is a document of its value. -/
theorem parse?_of_spells {j : Json} {s : List Char} (h : Spells j s) : parse? s = some j := by
  have hread := readValue_of_spells h (2 * s.length + 2) isGap_nil endsNumber_nil (by omega)
  rw [List.nil_append, List.append_nil] at hread
  rw [parse?, hread]
  rfl

/-! ### Writing -/

theorem Spells.tightArray {items : List Json} {s : List Char} (h : SpellsItems items s) :
    Spells (.array items) ('[' :: s) := @Spells.array items [] s isGap_nil h

theorem Spells.tightObject {members : List (String × Json)} {s : List Char}
    (h : SpellsMembers members s) : Spells (.object members) ('\x7b' :: s) :=
  @Spells.object members [] s isGap_nil h

mutual

/-- A plain value written compactly is spelled. -/
theorem spells_compact : (j : Json) → j.isPlain = true → Spells j (compact j)
  | .null, _ => .null
  | .bool true, _ => .yes
  | .bool false, _ => .no
  | .integer i, _ => .integer i
  | .string text, _ => .string text
  | .array [], _ => .noItems isGap_nil
  | .array (j :: js), h => .tightArray (spells_compactItems (j :: js) h (List.cons_ne_nil j js))
  | .object [], _ => .noMembers isGap_nil
  | .object (m :: ms), h =>
    .tightObject (spells_compactMembers (m :: ms) h (List.cons_ne_nil m ms))

theorem spells_compactItems : (js : List Json) → arePlain js = true → js ≠ [] →
    SpellsItems js (compactItems js ++ [']'])
  | [], _, hne => absurd rfl hne
  | [j], h, _ => by
    obtain ⟨hj, -⟩ := Bool.and_eq_true_iff.mp h
    exact .last (spells_compact j hj) isGap_nil
  | j :: k :: js, h, _ => by
    obtain ⟨hj, hjs⟩ := Bool.and_eq_true_iff.mp h
    have hitems := SpellsItems.more (spells_compact j hj) isGap_nil isGap_nil
      (spells_compactItems (k :: js) hjs (List.cons_ne_nil k js))
    simpa [compactItems] using hitems

theorem spells_compactMembers : (ms : List (String × Json)) → havePlain ms = true → ms ≠ [] →
    SpellsMembers ms (compactMembers ms ++ ['\x7d'])
  | [], _, hne => absurd rfl hne
  | [(name, j)], h, _ => by
    obtain ⟨hj, -⟩ := Bool.and_eq_true_iff.mp h
    have hmember := @SpellsMembers.last name j _ _ _ isGap_nil (spells_compact j hj) isGap_nil
    simpa [compactMembers] using hmember
  | (name, j) :: m :: ms, h, _ => by
    obtain ⟨hj, hms⟩ := Bool.and_eq_true_iff.mp h
    have hmembers := @SpellsMembers.more name j _ _ _ _ _ _ isGap_nil (spells_compact j hj)
      isGap_nil isGap_nil (spells_compactMembers (m :: ms) hms (List.cons_ne_nil m ms))
    simpa [compactMembers] using hmembers

end

/-! ### Writing over lines -/

mutual

/-- A plain value spread over lines is spelled. -/
theorem spells_spread : (depth : Nat) → (j : Json) → j.isPlain = true → Spells j (spread depth j)
  | _, .null, _ => .null
  | _, .bool true, _ => .yes
  | _, .bool false, _ => .no
  | _, .integer i, _ => .integer i
  | _, .string text, _ => .string text
  | _, .array [], _ => .noItems isGap_nil
  | depth, .array (j :: js), h => by
    obtain ⟨hj, hjs⟩ := Bool.and_eq_true_iff.mp h
    have hitems := Spells.array (isGap_newLine (depth + 1)) (spells_spreadItems (depth + 1) depth js
      hjs (spells_spread (depth + 1) j hj))
    simpa [spread] using hitems
  | _, .object [], _ => .noMembers isGap_nil
  | depth, .object ((name, j) :: ms), h => by
    obtain ⟨hj, hms⟩ := Bool.and_eq_true_iff.mp h
    have hmembers := Spells.object (isGap_newLine (depth + 1)) (spells_spreadMembers (depth + 1)
      depth name ms hms (spells_spread (depth + 1) j hj))
    simpa [spread] using hmembers

/-- The rest of the items after a spelled one. -/
theorem spells_spreadItems : (depth outer : Nat) → {j : Json} → (js : List Json) → {s : List Char} →
    arePlain js = true → Spells j s →
    SpellsItems (j :: js) (s ++ (spreadItems depth js ++ (newLine outer ++ [']'])))
  | _, outer, _, [], _, _, hj => .last hj (isGap_newLine outer)
  | depth, outer, _, k :: js, _, h, hj => by
    obtain ⟨hk, hjs⟩ := Bool.and_eq_true_iff.mp h
    have hitems := SpellsItems.more hj isGap_nil (isGap_newLine depth)
      (spells_spreadItems depth outer js hjs (spells_spread depth k hk))
    simpa [spreadItems] using hitems

/-- The rest of the members after a spelled one. -/
theorem spells_spreadMembers : (depth outer : Nat) → (name : String) → {j : Json} →
    (ms : List (String × Json)) → {s : List Char} → havePlain ms = true → Spells j s →
    SpellsMembers ((name, j) :: ms) (quote name.toList ++ ':' :: ' ' ::
      (s ++ (spreadMembers depth ms ++ (newLine outer ++ ['\x7d']))))
  | _, outer, _, _, [], _, _, hj => 
    @SpellsMembers.last _ _ [' '] _ _ isGap_space hj (isGap_newLine outer)
  | depth, outer, name, _, (name', k) :: ms, _, h, hj => by
    obtain ⟨hk, hms⟩ := Bool.and_eq_true_iff.mp h
    have hmembers := @SpellsMembers.more name _ _ [' '] _ _ _ _ isGap_space hj isGap_nil
      (isGap_newLine depth)
      (spells_spreadMembers depth outer name' ms hms (spells_spread depth k hk))
    simpa [spreadMembers] using hmembers

end

/-- A plain value written compactly reads back. -/
theorem parse?_compact {j : Json} (h : j.isPlain = true) : parse? (compact j) = some j :=
  parse?_of_spells (spells_compact j h)

/-- A plain value spread over lines reads back. -/
theorem parse?_spread {j : Json} (h : j.isPlain = true) : parse? (spread 0 j) = some j :=
  parse?_of_spells (spells_spread 0 j h)

/-! ### One line -/

/-- Whether a text holds no control character, and so no line break. -/
def IsOneLine (s : List Char) : Prop := ∀ c ∈ s, 0x20 ≤ c.toNat

theorem isOneLine_nil : IsOneLine [] := by simp [IsOneLine]

theorem isOneLine_append {s t : List Char} : IsOneLine (s ++ t) ↔ IsOneLine s ∧ IsOneLine t :=
  List.forall_mem_append

theorem isOneLine_cons {c : Char} {s : List Char} :
    IsOneLine (c :: s) ↔ 0x20 ≤ c.toNat ∧ IsOneLine s :=
  List.forall_mem_cons

theorem isOneLine_digits (n : Nat) : IsOneLine (Text.digits n) := by
  intro c hc
  have hdigit : c.isDigit = true := Text.isDigit_of_mem_digits hc
  rw [Char.isDigit, Bool.and_eq_true, decide_eq_true_iff] at hdigit
  have hle : ('0').toNat ≤ c.toNat := hdigit.1
  exact Nat.le_trans (by decide) hle

theorem hexChar_control :
    ∀ n, n < 0x20 → 0x20 ≤ (hexChar (n / 16)).toNat ∧ 0x20 ≤ (hexChar (n % 16)).toNat := by
  decide

theorem isOneLine_escape (c : Char) : IsOneLine (escape c) := by
  rw [escape]
  split_ifs with h₁ h₂ h₃ h₄ h₅ h₆ h₇ hcontrol
  all_goals simp [IsOneLine]
  · exact hexChar_control _ hcontrol
  · omega

theorem isOneLine_quote (s : List Char) : IsOneLine (quote s) := by
  have hs : IsOneLine (s.flatMap escape) := by
    intro c hc
    obtain ⟨d, -, hd⟩ := List.mem_flatMap.mp hc
    exact isOneLine_escape d c hd
  simp [quote, isOneLine_cons, isOneLine_append, isOneLine_nil, hs]

theorem isOneLine_writeInteger (i : Int) : IsOneLine (writeInteger i) := by
  cases i with
  | ofNat n => exact isOneLine_digits n
  | negSucc n => exact isOneLine_cons.mpr ⟨by decide, isOneLine_digits (n + 1)⟩

mutual

/-- A plain value written compactly fills one line. -/
theorem isOneLine_compact : (j : Json) → j.isPlain = true → IsOneLine (compact j)
  | .null, _ => by simp [compact, IsOneLine]
  | .bool true, _ => by simp [compact, IsOneLine]
  | .bool false, _ => by simp [compact, IsOneLine]
  | .integer i, _ => isOneLine_writeInteger i
  | .string text, _ => isOneLine_quote text.toList
  | .array items, h => by
    simp [compact, isOneLine_cons, isOneLine_append, isOneLine_nil, isOneLine_compactItems items h]
  | .object members, h => by
    simp [compact, isOneLine_cons, isOneLine_append, isOneLine_nil,
      isOneLine_compactMembers members h]

theorem isOneLine_compactItems : (js : List Json) → arePlain js = true →
    IsOneLine (compactItems js)
  | [], _ => isOneLine_nil
  | [j], h => by
    obtain ⟨hj, -⟩ := Bool.and_eq_true_iff.mp h
    exact isOneLine_compact j hj
  | j :: k :: js, h => by
    obtain ⟨hj, hjs⟩ := Bool.and_eq_true_iff.mp h
    simp [compactItems, isOneLine_cons, isOneLine_append, isOneLine_compact j hj,
      isOneLine_compactItems (k :: js) hjs]

theorem isOneLine_compactMembers : (ms : List (String × Json)) → havePlain ms = true →
    IsOneLine (compactMembers ms)
  | [], _ => isOneLine_nil
  | [(name, j)], h => by
    obtain ⟨hj, -⟩ := Bool.and_eq_true_iff.mp h
    simp [compactMembers, isOneLine_cons, isOneLine_append, isOneLine_quote,
      isOneLine_compact j hj]
  | (name, j) :: m :: ms, h => by
    obtain ⟨hj, hms⟩ := Bool.and_eq_true_iff.mp h
    simp [compactMembers, isOneLine_cons, isOneLine_append, isOneLine_quote,
      isOneLine_compact j hj, isOneLine_compactMembers (m :: ms) hms]

end

end StepTrace.Json
