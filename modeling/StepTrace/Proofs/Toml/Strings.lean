import Mathlib.Data.List.TakeDrop
import StepTrace.Toml.Writer

/-!
# Strings survive TOML

Each of the four kinds in which a string is written reads back where it is used
(`readQuoted_quote`), and so does a name (`readNamePart_quoteName`). `Spelled` says how one character
is written between escaping quotes. On several lines quotes may stand unescaped, but never three of
them before the end: a text begins with fewer than three, or it is nothing but quotes
(`quotes_escaped`).
-/

set_option autoImplicit false

namespace StepTrace.Toml

variable {long : Bool} {c : Char} {s t rest : List Char}

/-! ## Characters -/

/-- The spellings of a character between escaping quotes: itself, or an escape that reads as it. -/
inductive Spelled (long : Bool) (c : Char) : List Char → Prop
  | plain : isPrintable c = true ∨ long = true ∧ c = '\n' → c ≠ '\x22' → c ≠ '\\' →
      Spelled long c [c]
  | escape (d : Char) (e : List Char) :
      (∀ r, readEscape (d :: (e ++ r)) = some (c, e.length + 1)) → d ∉ " \t\n\r".toList →
      Spelled long c ('\\' :: d :: e)

/-- A letter after a backslash spells a character. -/
theorem spelled_letter (long : Bool) {d : Char} (hread : escape? d = some c)
    (hwidth : escapeWidth d = 0) (hd : d ∉ " \t\n\r".toList) : Spelled long c ['\\', d] := by
  refine .escape d [] (fun r => ?_) hd
  rw [readEscape, hwidth]
  simp [hread]

theorem hexScalar?_control : ∀ n, n < 0x80 →
    hexScalar? ['0', '0', hexChar (n / 16), hexChar (n % 16)] = some (Char.ofNat n) := by
  decide

/-- A control character is spelled by its number. -/
theorem spelled_numbered (long : Bool) (h : c.toNat < 0x80) : Spelled long c (numbered c) := by
  refine .escape 'u' ['0', '0', hexChar (c.toNat / 16), hexChar (c.toNat % 16)] (fun r => ?_)
    (by decide)
  have hwidth : escapeWidth 'u' = 4 := by decide
  rw [readEscape, hwidth]
  simp [hexScalar?_control _ h]

theorem isPrintable_of_not_needsEscape (h : needsEscape c = false) (hbreak : c ≠ '\n') :
    isPrintable c = true := by
  simp only [needsEscape, Bool.or_eq_false_iff, Bool.and_eq_false_iff, decide_eq_false_iff_not,
    bne_eq_false_iff_eq, hbreak, or_false] at h
  obtain ⟨hlow | rfl, hdelete⟩ := h
  · simp only [isPrintable, Bool.or_eq_true, Bool.and_eq_true, decide_eq_true_iff, bne_iff_ne]
    exact .inr ⟨Nat.le_of_not_lt hlow, hdelete⟩
  · decide

/-- A character is spelled as it is escaped. -/
theorem spelled_escaped (long : Bool) (c : Char) : Spelled long c (escaped long 0 0 [c]) := by
  -- the branches of the writer, in its order
  rw [escaped]
  split
  next h => subst h; exact spelled_letter long (by decide) (by decide) (by decide)
  next hquote =>
  split
  next h => subst h; exact spelled_letter long (by decide) (by decide) (by decide)
  next hslash =>
  split
  next h => subst h; exact spelled_letter long (by decide) (by decide) (by decide)
  next hb =>
  split
  next h => subst h; exact spelled_letter long (by decide) (by decide) (by decide)
  next ht =>
  split
  next h =>
    subst h
    cases long with
    | true => exact .plain (.inr ⟨rfl, rfl⟩) hquote hslash
    | false => exact spelled_letter false (by decide) (by decide) (by decide)
  next hbreak =>
  split
  next h => subst h; exact spelled_letter long (by decide) (by decide) (by decide)
  next hf =>
  split
  next h => subst h; exact spelled_letter long (by decide) (by decide) (by decide)
  next hr =>
  split
  next h =>
    rw [escaped, List.append_nil]
    refine spelled_numbered long ?_
    simp only [needsEscape, Bool.or_eq_true, Bool.and_eq_true, decide_eq_true_iff] at h
    omega
  next h =>
    rw [Bool.not_eq_true] at h
    exact .plain (.inl (isPrintable_of_not_needsEscape h hbreak)) hquote hslash

/-- A character other than a quote is escaped whatever stands around it. -/
theorem escaped_cons (hc : c ≠ '\x22') (long : Bool) (allowed run : Nat) (s : List Char) :
    escaped long allowed run (c :: s) = escaped long 0 0 [c] ++ escaped long allowed 0 s := by
  rw [escaped, escaped, if_neg hc, if_neg hc]
  split_ifs <;> simp [escaped]

/-- Where no quote may stand unescaped each character is escaped by itself. -/
theorem escaped_cons_zero (long : Bool) (c : Char) (s : List Char) :
    escaped long 0 0 (c :: s) = escaped long 0 0 [c] ++ escaped long 0 0 s := by
  by_cases hc : c = '\x22'
  · subst hc
    simp [escaped]
  · exact escaped_cons hc long 0 0 s

/-! ## Strings on one line -/

theorem readBasic_skip (e r : List Char) : readBasic e.length (e ++ r) = readBasic 0 r := by
  induction e with
  | nil => rfl
  | cons d e ih => rw [List.length_cons, List.cons_append, readBasic, ih]

/-- A character that is spelled is read. -/
theorem readBasic_spelled (h : Spelled false c t) (r : List Char) :
    readBasic 0 (t ++ r) = (readBasic 0 r).map fun p => (c :: p.1, p.2) := by
  cases h with
  | plain hprint hquote hslash =>
    have hprint : isPrintable c = true := hprint.resolve_right fun h => absurd h.1 (by decide)
    rw [List.singleton_append, readBasic, if_neg hquote, if_neg hslash, if_pos hprint]
  | escape d e hread =>
    have hskip := readBasic_skip (d :: e) r
    rw [List.length_cons, List.cons_append] at hskip
    rw [List.cons_append, List.cons_append, readBasic, if_neg (by decide), if_pos rfl, hread]
    dsimp only
    rw [hskip]

theorem readBasic_escaped (s rest : List Char) :
    readBasic 0 (escaped false 0 0 s ++ '\x22' :: rest) = some (s, rest) := by
  induction s with
  | nil => simp [escaped, readBasic]
  | cons c s ih =>
    rw [escaped_cons_zero, List.append_assoc, readBasic_spelled (spelled_escaped false c), ih]
    rfl

theorem readLiteral_append (h : ∀ c ∈ s, isPrintable c = true ∧ c ≠ '\x27') (rest : List Char) :
    readLiteral (s ++ '\x27' :: rest) = some (s, rest) := by
  induction s with
  | nil => simp [readLiteral]
  | cons c s ih =>
    obtain ⟨hprint, hquote⟩ := h c List.mem_cons_self
    rw [List.cons_append, readLiteral, if_neg hquote, if_pos hprint,
      ih fun d hd => h d (List.mem_cons_of_mem c hd)]
    rfl

/-! ## Strings on several lines -/

theorem quotes_cons_self (quote : Char) (r : List Char) :
    quotes quote (quote :: r) = quotes quote r + 1 := by
  simp [quotes]

theorem quotes_cons_of_ne {quote : Char} (h : c ≠ quote) (r : List Char) :
    quotes quote (c :: r) = 0 := by
  simp [quotes, h]

/-- What stands between the quotes at the end and the end is at most two quotes. -/
theorem closeLong_replicate (quote : Char) {j : Nat} (hj : j ≤ 2)
    (hrest : rest.head? ≠ some quote) :
    closeLong quote (List.replicate j quote ++ (List.replicate 3 quote ++ rest)) =
      some (List.replicate j quote, rest) := by
  have hquotes : quotes quote rest = 0 := by
    cases rest with
    | nil => rfl
    | cons c r => exact quotes_cons_of_ne (fun h => hrest (congrArg some h)) r
  have hcount : ∀ k, quotes quote (List.replicate k quote ++ rest) = k := by
    intro k
    induction k with
    | zero => exact hquotes
    | succ k ih => rw [List.replicate_succ, List.cons_append, quotes_cons_self, ih]
  rw [← List.append_assoc, List.replicate_append_replicate, closeLong, hcount, if_neg (by omega)]
  have hinside : min (j + 3 - 3) 2 = j := by omega
  dsimp only
  rw [hinside, List.drop_left' (List.length_replicate)]

theorem readLongBasic_passing (e r : List Char) (d : Char) :
    readLongBasic (.passing (e.length + 1)) (d :: (e ++ r)) = readLongBasic .plain r := by
  induction e generalizing d with
  | nil => simp [readLongBasic]
  | cons d' e ih =>
    rw [readLongBasic]
    simpa using ih d'

theorem not_beginsBreak {d : Char} (h : d ∉ " \t\n\r".toList) (r : List Char) :
    beginsBreak (d :: r) = false := by
  have hne : d ≠ ' ' ∧ d ≠ '\t' ∧ d ≠ '\n' ∧ d ≠ '\r' := by
    refine ⟨?_, ?_, ?_, ?_⟩ <;> rintro rfl <;> exact h (by decide)
  have hreturn : ['\r', '\n'].isPrefixOf (d :: r) = false := by
    rw [← Bool.not_eq_true, List.isPrefixOf_iff_prefix]
    exact fun hprefix => hne.2.2.2 (List.cons_prefix_cons.mp hprefix).1.symm
  rw [beginsBreak, List.dropWhile_cons_of_neg (by simp [hne.1, hne.2.1])]
  simp [hne.2.2.1, hreturn]

/-- Where fewer than three quotes follow, a character of a string on several lines is an escape or
stands for itself. -/
theorem readLongBasic_plain {r : List Char} (h : quotes '\x22' (c :: r) < 3) :
    readLongBasic .plain (c :: r) =
      if c = '\\' then
        if beginsBreak r then readLongBasic .lineEnd r
        else
          match readEscape r with
          | none => none
          | some (e, width) => (readLongBasic (.passing width) r).map fun p => (e :: p.1, p.2)
      else if isPrintable c || (c == ' ' || c == '\t' || c == '\n' ||
          (c == '\r' && r.head? == some '\n')) then
        (readLongBasic .plain r).map fun p => (c :: p.1, p.2)
      else none := by
  rw [readLongBasic.eq_def]
  dsimp only
  exact (if_neg (by simp)).trans (if_neg (Nat.not_le_of_lt h))

/-- A character that is spelled is read. -/
theorem readLongBasic_spelled (h : Spelled true c t) (r : List Char) :
    readLongBasic .plain (t ++ r) = (readLongBasic .plain r).map fun p => (c :: p.1, p.2) := by
  cases h with
  | plain hprint hquote hslash =>
    have hquotes : quotes '\x22' (c :: r) < 3 := by
      rw [quotes_cons_of_ne hquote]
      decide
    rw [List.singleton_append, readLongBasic_plain hquotes, if_neg hslash, if_pos]
    rcases hprint with hprint | ⟨-, rfl⟩
    · rw [hprint, Bool.true_or]
    · rfl
  | escape d e hread hd =>
    have hquotes : quotes '\x22' ('\\' :: (d :: e ++ r)) < 3 := by
      rw [quotes_cons_of_ne (by decide)]
      decide
    rw [List.cons_append, readLongBasic_plain hquotes, if_pos rfl, List.cons_append,
      not_beginsBreak hd, hread]
    simp only [Bool.false_eq_true, if_false, readLongBasic_passing]

/-- A text with escapes is all quotes, or the quotes that it begins with stop before there are three
of them. -/
theorem quotes_escaped (s r : List Char) (run : Nat) (hrun : run ≤ 2) :
    (∃ j, s = List.replicate j '\x22' ∧ escaped true 2 run s = s ∧ run + j ≤ 2) ∨
      run + quotes '\x22' (escaped true 2 run s ++ r) ≤ 2 := by
  induction s generalizing run with
  | nil => exact .inl ⟨0, rfl, rfl, hrun⟩
  | cons c s ih =>
    by_cases hc : c = '\x22'
    · subst hc
      by_cases hmore : run < 2
      · rw [escaped, if_pos rfl, if_pos hmore]
        rcases ih (run + 1) hmore with ⟨j, hs, hescaped, hj⟩ | hquotes
        · exact .inl ⟨j + 1, by rw [List.replicate_succ, ← hs], by rw [hescaped], by omega⟩
        · right
          rw [List.cons_append, quotes_cons_self]
          omega
      · -- a third quote in a row is escaped, and the backslash ends the row
        right
        rw [escaped, if_pos rfl, if_neg hmore, List.cons_append, quotes_cons_of_ne (by decide)]
        exact hrun
    · right
      have hhead : ∀ t, Spelled true c t → quotes '\x22' (t ++ (escaped true 2 0 s ++ r)) = 0 := by
        intro t ht
        cases ht with
        | plain _ hquote _ => exact quotes_cons_of_ne hquote _
        | escape d e _ _ => exact quotes_cons_of_ne (by decide) _
      rw [escaped_cons hc, List.append_assoc, hhead _ (spelled_escaped true c)]
      exact hrun

/-- Where three quotes follow, a string on several lines ends. -/
theorem readLongBasic_close (h : 3 ≤ quotes '\x22' s) :
    readLongBasic .plain s = closeLong '\x22' s := by
  cases s with
  | nil => exact absurd h (by decide)
  | cons c r =>
    rw [readLongBasic.eq_def]
    simp only [reduceCtorEq, false_and, if_false, if_pos h, ge_iff_le]

theorem le_quotes_replicate (quote : Char) (k : Nat) (r : List Char) :
    k ≤ quotes quote (List.replicate k quote ++ r) := by
  induction k with
  | zero => exact Nat.zero_le _
  | succ k ih =>
    rw [List.replicate_succ, List.cons_append, quotes_cons_self]
    omega

theorem readLongBasic_escaped (s : List Char) {rest : List Char} (run : Nat) (hrun : run ≤ 2)
    (hrest : rest.head? ≠ some '\x22') :
    readLongBasic .plain (escaped true 2 run s ++ (List.replicate 3 '\x22' ++ rest)) =
      some (s, rest) := by
  -- what is written depends on how many quotes stand before it, what is read does not
  induction s generalizing run with
  | nil =>
    rw [escaped, List.nil_append, readLongBasic_close (le_quotes_replicate _ 3 rest)]
    exact closeLong_replicate '\x22' (j := 0) (by omega) hrest
  | cons c s ih =>
    rcases quotes_escaped (c :: s) (List.replicate 3 '\x22' ++ rest) run hrun with
      ⟨j, hs, hescaped, hj⟩ | hquotes
    · -- nothing but quotes is left
      rw [hescaped, hs, readLongBasic_close]
      · exact closeLong_replicate '\x22' (by omega) hrest
      · rw [← List.append_assoc, List.replicate_append_replicate]
        exact Nat.le_trans (Nat.le_add_left 3 j) (le_quotes_replicate _ _ rest)
    · by_cases hc : c = '\x22'
      · subst hc
        by_cases hmore : run < 2
        · rw [escaped, if_pos rfl, if_pos hmore, List.cons_append] at hquotes ⊢
          rw [readLongBasic_plain (by omega), if_neg (by decide), ih (run + 1) hmore]
          rfl
        · have hspelled : Spelled true '\x22' ['\\', '\x22'] :=
            spelled_letter true (by decide) (by decide) (by decide)
          rw [escaped, if_pos rfl, if_neg hmore]
          have hread := readLongBasic_spelled hspelled
            (escaped true 2 0 s ++ (List.replicate 3 '\x22' ++ rest))
          rw [ih 0 (by omega)] at hread
          exact hread
      · rw [escaped_cons hc, List.append_assoc, readLongBasic_spelled (spelled_escaped true c),
          ih 0 (by omega)]
        rfl

/-! ## Literal strings on several lines -/

/-- A text is all quotes, or the quotes that it begins with are fewer than its longest run of them
allows. -/
theorem quotes_longestRun (quote : Char) (s r : List Char) (run : Nat)
    (h : longestRun quote run s ≤ 2) :
    (∃ j, s = List.replicate j quote ∧ run + j ≤ 2) ∨ run + quotes quote (s ++ r) ≤ 2 := by
  induction s generalizing run with
  | nil => exact .inl ⟨0, rfl, h⟩
  | cons c s ih =>
    rw [longestRun] at h
    split at h
    · next hc =>
      subst hc
      rcases ih (run + 1) h with ⟨j, hs, hj⟩ | hquotes
      · exact .inl ⟨j + 1, by rw [List.replicate_succ, ← hs], by omega⟩
      · right
        rw [List.cons_append, quotes_cons_self]
        omega
    · next hc =>
      right
      rw [List.cons_append, quotes_cons_of_ne hc]
      omega

/-- Where three quotes follow, a literal string on several lines ends. -/
theorem readLongLiteral_close (h : 3 ≤ quotes '\x27' s) :
    readLongLiteral s = closeLong '\x27' s := by
  cases s with
  | nil => exact absurd h (by decide)
  | cons c r => rw [readLongLiteral, if_pos h]

theorem readLongLiteral_append (run : Nat) (h : ∀ c ∈ s, isPrintable c = true ∨ c = '\n')
    (hrun : longestRun '\x27' run s ≤ 2) (hrest : rest.head? ≠ some '\x27') :
    readLongLiteral (s ++ (List.replicate 3 '\x27' ++ rest)) = some (s, rest) := by
  induction s generalizing run with
  | nil =>
    rw [List.nil_append, readLongLiteral_close (le_quotes_replicate _ 3 rest)]
    exact closeLong_replicate '\x27' (j := 0) (by omega) hrest
  | cons c s ih =>
    -- behind the first character a row of quotes goes on or begins anew
    have hread : ∃ run, longestRun '\x27' run s ≤ 2 := by
      rw [longestRun] at hrun
      split at hrun
      · exact ⟨_, hrun⟩
      · exact ⟨0, by omega⟩
    obtain ⟨run', hrun'⟩ := hread
    rcases quotes_longestRun '\x27' (c :: s) (List.replicate 3 '\x27' ++ rest) run hrun with
      ⟨j, hs, hj⟩ | hquotes
    · -- nothing but quotes is left
      rw [hs, readLongLiteral_close]
      · exact closeLong_replicate '\x27' (by omega) hrest
      · rw [← List.append_assoc, List.replicate_append_replicate]
        exact Nat.le_trans (Nat.le_add_left 3 j) (le_quotes_replicate _ _ rest)
    · have hprint : (isPrintable c || c == '\n' ||
          (c == '\r' && (s ++ (List.replicate 3 '\x27' ++ rest)).head? == some '\n')) = true := by
        rcases h c List.mem_cons_self with hprint | rfl
        · rw [hprint, Bool.true_or, Bool.true_or]
        · rfl
      rw [List.cons_append] at hquotes ⊢
      rw [readLongLiteral, if_neg (by omega), if_pos hprint,
        ih run' (fun d hd => h d (List.mem_cons_of_mem c hd)) hrun']
      rfl

/-! ## Strings and names -/

/-- The line break before a text on several lines is dropped, and nothing of the text with it. -/
theorem dropBreak_leadingBreak (s : List Char) {t : List Char}
    (ht : '\n' ∉ s → t.head? ≠ some '\n') (hreturn : t.head? ≠ some '\r') :
    dropBreak (leadingBreak s ++ t) = t := by
  rw [leadingBreak]
  split
  · rfl
  · next hs =>
    have hne := ht (by simpa using hs)
    cases t with
    | nil => rfl
    | cons c t =>
      simp only [List.head?_cons, ne_eq, Option.some.injEq] at hne hreturn
      simp [dropBreak, hne, hreturn]

theorem isPrintable_ne (h : isPrintable c = true) : c ≠ '\n' ∧ c ≠ '\r' := by
  constructor <;> rintro rfl <;> exact absurd h (by decide)

theorem readQuoted_double (h : ¬['\x22', '\x22'] <+: t) :
    readQuoted ('\x22' :: t) = readBasic 0 t := by
  rw [readQuoted.eq_def]
  split
  next r heq =>
    cases heq
    exact absurd ⟨r, rfl⟩ h
  next heq => cases heq
  next heq =>
    cases heq
    rfl
  next heq => cases heq
  next _ hnone _ => exact absurd rfl (hnone t)

theorem readQuoted_single (h : ¬['\x27', '\x27'] <+: t) :
    readQuoted ('\x27' :: t) = readLiteral t := by
  rw [readQuoted.eq_def]
  split
  next heq => cases heq
  next r heq =>
    cases heq
    exact absurd ⟨r, rfl⟩ h
  next heq => cases heq
  next heq =>
    cases heq
    rfl
  next hnone => exact absurd rfl (hnone t)

/-- The text between two quotes does not begin with a quote, or it is empty and none follows. -/
theorem not_two_quotes {quote : Char} (hrest : rest.head? ≠ some quote)
    (hs : s = [] ∨ s.head? ≠ some quote) : ¬[quote, quote] <+: s ++ quote :: rest := by
  rintro ⟨r, hr⟩
  rcases hs with rfl | hs
  · simp only [List.nil_append, List.cons_append, List.cons.injEq, true_and] at hr
    exact hrest (by rw [← hr]; rfl)
  · cases s with
    | nil =>
      simp only [List.nil_append, List.cons_append, List.cons.injEq, true_and] at hr
      exact hrest (by rw [← hr]; rfl)
    | cons c s =>
      exact hs (congrArg some (List.cons.inj hr).1.symm)

/-- What a spelling begins with. -/
theorem Spelled.head? (h : Spelled long c t) (r : List Char) :
    (t ++ r).head? ≠ some '\x22' ∧ (t ++ r).head? ≠ some '\r' ∧
      (c ≠ '\n' → (t ++ r).head? ≠ some '\n') := by
  cases h with
  | plain hprint hquote hslash =>
    refine ⟨fun h => hquote (Option.some.inj h), fun h => ?_, fun hne h => hne (Option.some.inj h)⟩
    obtain rfl : c = '\r' := Option.some.inj h
    rcases hprint with hprint | ⟨-, hbreak⟩
    · exact (isPrintable_ne hprint).2 rfl
    · exact absurd hbreak (by decide)
  | escape d e hread hd => refine ⟨?_, ?_, fun _ => ?_⟩ <;> simp

theorem readQuoted_basic (s : List Char) (hrest : rest.head? ≠ some '\x22') :
    readQuoted (basic s ++ rest) = some (s, rest) := by
  rw [basic, List.cons_append, List.cons_append, List.append_assoc, List.singleton_append,
    readQuoted_double, readBasic_escaped]
  refine not_two_quotes hrest ?_
  cases s with
  | nil => exact .inl rfl
  | cons c s =>
    rw [escaped_cons_zero]
    exact .inr ((spelled_escaped false c).head? _).1

theorem readQuoted_literal (h : ∀ c ∈ s, isPrintable c = true ∧ c ≠ '\x27')
    (hrest : rest.head? ≠ some '\x27') : readQuoted (literal s ++ rest) = some (s, rest) := by
  rw [literal, List.cons_append, List.cons_append, List.append_assoc, List.singleton_append,
    readQuoted_single, readLiteral_append h]
  refine not_two_quotes hrest ?_
  cases s with
  | nil => exact .inl rfl
  | cons c s =>
    right
    rintro ⟨⟩
    exact (h _ List.mem_cons_self).2 rfl

theorem readQuoted_longBasic (s : List Char) (hrest : rest.head? ≠ some '\x22') :
    readQuoted (longBasic s ++ rest) = some (s, rest) := by
  have hbreak : dropBreak (leadingBreak s ++
      (escaped true 2 0 s ++ (List.replicate 3 '\x22' ++ rest))) =
        escaped true 2 0 s ++ (List.replicate 3 '\x22' ++ rest) := by
    cases s with
    | nil => rfl
    | cons c s =>
      by_cases hc : c = '\x22'
      · subst hc
        refine dropBreak_leadingBreak _ (fun _ => ?_) ?_ <;> simp [escaped]
      · rw [escaped_cons hc, List.append_assoc]
        obtain ⟨-, hreturn, hne⟩ := (spelled_escaped true c).head?
          (escaped true 2 0 s ++ (List.replicate 3 '\x22' ++ rest))
        exact dropBreak_leadingBreak _ (fun hs => hne fun heq => hs (heq ▸ List.mem_cons_self))
          hreturn
  have hquotes : readQuoted (longBasic s ++ rest) = readLongBasic .plain (dropBreak
      (leadingBreak s ++ (escaped true 2 0 s ++ (List.replicate 3 '\x22' ++ rest)))) := by
    simp only [longBasic, List.append_assoc]
    rfl
  rw [hquotes, hbreak, readLongBasic_escaped s 0 (by omega) hrest]

theorem readQuoted_longLiteral (h : ∀ c ∈ s, isPrintable c = true ∨ c = '\n')
    (hrun : longestRun '\x27' 0 s ≤ 2) (hrest : rest.head? ≠ some '\x27') :
    readQuoted (longLiteral s ++ rest) = some (s, rest) := by
  have hbreak : dropBreak (leadingBreak s ++ (s ++ (List.replicate 3 '\x27' ++ rest))) =
      s ++ (List.replicate 3 '\x27' ++ rest) := by
    cases s with
    | nil => rfl
    | cons c s =>
      have hc := h c List.mem_cons_self
      refine dropBreak_leadingBreak _ (fun hs => ?_) ?_
      · rintro ⟨⟩
        exact hs List.mem_cons_self
      · rintro ⟨⟩
        exact absurd hc (by decide)
  have hquotes : readQuoted (longLiteral s ++ rest) = readLongLiteral (dropBreak
      (leadingBreak s ++ (s ++ (List.replicate 3 '\x27' ++ rest)))) := by
    simp only [longLiteral, List.append_assoc]
    rfl
  rw [hquotes, hbreak, readLongLiteral_append 0 h hrun hrest]

/-- A run of a character that is at hand is in the longest run. -/
theorem le_longestRun (quote : Char) (run : Nat) (s : List Char) :
    run ≤ longestRun quote run s := by
  induction s generalizing run with
  | nil => exact Nat.le_refl _
  | cons c s ih =>
    rw [longestRun]
    split
    · exact Nat.le_of_succ_le (ih (run + 1))
    · exact Nat.le_max_left _ _

theorem not_mem_of_longestRun {quote : Char} (h : longestRun quote 0 s = 0) : quote ∉ s := by
  induction s with
  | nil => exact List.not_mem_nil
  | cons c s ih =>
    rw [longestRun] at h
    split at h
    · exact absurd (h ▸ le_longestRun quote 1 s) (by decide)
    · next hc => exact List.not_mem_cons_of_ne_of_not_mem (Ne.symm hc) (ih (by omega))

/-- A string reads back before anything but a quote. -/
theorem readQuoted_quote (s : List Char) (hdouble : rest.head? ≠ some '\x22')
    (hsingle : rest.head? ≠ some '\x27') : readQuoted (quote s ++ rest) = some (s, rest) := by
  have hplain (hs : (!s.any needsEscape) = true) {c : Char} (hc : c ∈ s) :
      isPrintable c = true ∨ c = '\n' := by
    simp only [Bool.not_eq_true', List.any_eq_false, Bool.not_eq_true] at hs
    by_cases hbreak : c = '\n'
    · exact .inr hbreak
    · exact .inl (isPrintable_of_not_needsEscape (hs c hc) hbreak)
  -- only the literal kinds ask anything of the text, and the writer has checked that
  rw [quote]
  split
  next => exact readQuoted_basic s hdouble
  split
  next h =>
    simp only [Bool.and_eq_true, decide_eq_true_iff, Bool.not_eq_true', List.contains_iff_mem,
      ← Bool.not_eq_true] at h
    obtain ⟨⟨hs, hsingles⟩, hbreaks⟩ := h
    refine readQuoted_literal (fun c hc => ⟨?_, ?_⟩) hsingle
    · exact (hplain (by simpa using hs) hc).resolve_right fun h => hbreaks (h ▸ hc)
    · exact fun h => not_mem_of_longestRun hsingles (h ▸ hc)
  split
  next => exact readQuoted_longBasic s hdouble
  split
  next h =>
    simp only [Bool.and_eq_true, decide_eq_true_iff] at h
    exact readQuoted_longLiteral (fun c hc => hplain h.1 hc) h.2 hsingle
  split
  next => exact readQuoted_longBasic s hdouble
  next => exact readQuoted_basic s hdouble

/-- A word of some characters ends where none of them follows. -/
theorem span_append {p : Char → Bool} (h : s.all p = true)
    (hrest : ∀ c ∈ rest.head?, p c = false) : (s ++ rest).span p = (s, rest) := by
  have hs : ∀ c ∈ s, p c = true := List.all_eq_true.mp h
  have hstop : rest.takeWhile p = [] ∧ rest.dropWhile p = rest := by
    cases rest with
    | nil => exact ⟨rfl, rfl⟩
    | cons c r =>
      have hc : ¬p c = true := by simp [hrest c rfl]
      exact ⟨List.takeWhile_cons_of_neg hc, List.dropWhile_cons_of_neg hc⟩
  rw [List.span_eq_takeWhile_dropWhile, List.takeWhile_append_of_pos hs,
    List.dropWhile_append_of_pos hs, hstop.1, hstop.2, List.append_nil]

theorem readNamePart_double (r : List Char) :
    readNamePart ('\x22' :: r) = (readBasic 0 r).map fun p => (String.ofList p.1, p.2) := rfl

theorem readNamePart_single (r : List Char) :
    readNamePart ('\x27' :: r) = (readLiteral r).map fun p => (String.ofList p.1, p.2) := rfl

/-- A name reads back before anything that no name without quotes holds. -/
theorem readNamePart_quoteName (name : String) (hrest : ∀ c ∈ rest.head?, isBare c = false) :
    readNamePart (quoteName name.toList ++ rest) = some (name, rest) := by
  have hbasic : readNamePart (basic name.toList ++ rest) = some (name, rest) := by
    rw [basic, List.cons_append, List.cons_append, List.append_assoc, List.singleton_append,
      readNamePart_double, readBasic_escaped]
    simp
  rw [quoteName]
  split
  next h =>
    rw [Bool.and_eq_true, Bool.not_eq_true', List.isEmpty_eq_false_iff] at h
    obtain ⟨hne, hbare⟩ := h
    -- a name without quotes does not begin with one
    have hspan := span_append hbare hrest
    obtain ⟨c, s, hname⟩ := List.exists_cons_of_ne_nil hne
    have hc : isBare c = true :=
      List.all_eq_true.mp hbare c (by rw [hname]; exact List.mem_cons_self)
    rw [readNamePart.eq_def]
    split
    next heq =>
      rw [hname] at heq
      cases heq
      exact absurd hc (by decide)
    next heq =>
      rw [hname] at heq
      cases heq
      exact absurd hc (by decide)
    next =>
      rw [hspan]
      dsimp only
      rw [if_neg (by simpa using hne), String.ofList_toList]
  split
  next => exact hbasic
  split
  next h =>
    simp only [Bool.and_eq_true, Bool.not_eq_true', List.any_eq_false, Bool.or_eq_true, beq_iff_eq,
      not_or, Bool.not_eq_true] at h
    obtain ⟨hs, hsingle⟩ := h
    rw [literal, List.cons_append, List.cons_append, List.append_assoc, List.singleton_append,
      readNamePart_single, readLiteral_append fun c hc => ⟨?_, ?_⟩]
    · simp
    · exact isPrintable_of_not_needsEscape (hs c hc).1 (hs c hc).2
    · rintro rfl
      simp [hc] at hsingle
  next => exact hbasic

end StepTrace.Toml
