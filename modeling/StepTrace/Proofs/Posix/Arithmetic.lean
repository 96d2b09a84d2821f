import StepTrace.Proofs.Posix.Markers

/-!
# Arithmetic on a line

A shell reads a left shift in an arithmetic expression where the scan of a line, which knows no
expressions, opens a here-document (`opensDocument`): the two signs open one if behind them a word
can be read that would end it. `LineScan.reads_expansion` follows the scan through an expression of
any shape. If no shift opens a here-document, the scan goes on behind it as before, for the
parentheses of an expression are balanced; otherwise it waits for a delimiter.
-/

set_option autoImplicit false

namespace StepTrace.Posix

/-! ## Expressions -/

/-- The signs of an arithmetic expression, parentheses left out. -/
def isArithmeticSign (c : Char) : Bool :=
  c.isAlphanum || Text.isBlank c || "_+-*/<>".toList.contains c

/-- An arithmetic expression: signs and balanced parentheses in any order. -/
inductive IsArithmetic : List Char → Prop
  | nil : IsArithmetic []
  | sign {c : Char} {r : List Char} : isArithmeticSign c = true → IsArithmetic r →
      IsArithmetic (c :: r)
  | group {inner r : List Char} : IsArithmetic inner → IsArithmetic r →
      IsArithmetic ('(' :: (inner ++ ')' :: r))

/-- An expansion on a line. -/
def expansion (e : List Char) : List Char := '$' :: '(' :: '(' :: (e ++ [')', ')'])

/-- A text without the dash that it begins with. -/
def dropDash : List Char → List Char
  | [] => []
  | c :: r => if c = '-' then r else c :: r

/-- What is read behind the two signs that open a here-document as the word that ends it. -/
def operandWord (s : List Char) : List Char :=
  (Text.trimStart (dropDash s)).takeWhile fun c => !LineScan.endsDelimiter c

/-- What is left behind that word. -/
def behindOperand (s : List Char) : List Char :=
  (Text.trimStart (dropDash s)).dropWhile fun c => !LineScan.endsDelimiter c

/-- Whether a left shift of an expression is taken for a here-document: there are two signs and not
three, and a word can be read behind them. -/
def opensDocument : List Char → Bool
  | '<' :: '<' :: '<' :: r => opensDocument r
  | '<' :: '<' :: r => !(operandWord r).isEmpty || opensDocument r
  | _ :: r => opensDocument r
  | [] => false

/-- The depth of parentheses behind a text, from a depth on. -/
def depthBehind (depth : Nat) (s : List Char) : Nat :=
  s.foldl (fun n c => if c = '(' then n + 1 else if c = ')' then n - 1 else n) depth

/-- A character that an expression can hold. -/
def IsExpressionChar (c : Char) : Prop := isArithmeticSign c = true ∨ c = '(' ∨ c = ')'

theorem IsExpressionChar.ne {c : Char} (h : IsExpressionChar c) :
    c ≠ '\\' ∧ c ≠ '\x27' ∧ c ≠ '\x22' ∧ c ≠ '#' := by
  refine ⟨?_, ?_, ?_, ?_⟩ <;> rintro rfl <;> exact absurd h (by unfold IsExpressionChar; decide)

namespace IsArithmetic

variable {e : List Char}

theorem isExpressionChar (h : IsArithmetic e) : ∀ c ∈ e, IsExpressionChar c := by
  induction h with
  | nil => simp
  | sign hc _ ih => exact List.forall_mem_cons.mpr ⟨.inl hc, ih⟩
  | group _ _ hinner hrest =>
    refine List.forall_mem_cons.mpr ⟨.inr (.inl rfl), List.forall_mem_append.mpr ⟨hinner, ?_⟩⟩
    exact List.forall_mem_cons.mpr ⟨.inr (.inr rfl), hrest⟩

theorem of_signs (h : e.all isArithmeticSign = true) : IsArithmetic e := by
  induction e with
  | nil => exact .nil
  | cons c e ih =>
    rw [List.all_cons, Bool.and_eq_true] at h
    exact .sign h.1 (ih h.2)

/-- The parentheses of an expression are balanced. -/
theorem depthBehind (h : IsArithmetic e) (depth : Nat) : depthBehind depth e = depth := by
  induction h generalizing depth with
  | nil => rfl
  | @sign c r hc _ ih =>
    have hparens : c ≠ '(' ∧ c ≠ ')' := by
      constructor <;> rintro rfl <;> exact absurd hc (by decide)
    rw [Posix.depthBehind, List.foldl_cons, if_neg hparens.1, if_neg hparens.2]
    exact ih depth
  | @group inner r _ _ hinner hrest =>
    rw [Posix.depthBehind, List.foldl_cons, List.foldl_append, List.foldl_cons]
    -- behind the group inside, the closing parenthesis undoes the opening one
    have hclosed := hinner (depth + 1)
    rw [Posix.depthBehind] at hclosed
    simp only [if_true, hclosed]
    exact hrest depth

end IsArithmetic

theorem opensDocument_of_two {r : List Char} (h : r.head? ≠ some '<') :
    opensDocument ('<' :: '<' :: r) = (!(operandWord r).isEmpty || opensDocument r) := by
  cases r with
  | nil => rfl
  | cons c r =>
    have hc : c ≠ '<' := fun hc => h (congrArg some hc)
    rw [opensDocument]
    exact fun _ heq => hc (List.cons.inj heq).1

theorem opensDocument_cons {c : Char} {r : List Char} (h : ¬(c = '<' ∧ r.head? = some '<')) :
    opensDocument (c :: r) = opensDocument r := by
  rw [opensDocument]
  · rintro s rfl rfl
    exact h ⟨rfl, rfl⟩
  · rintro s rfl rfl
    exact h ⟨rfl, rfl⟩

/-- Text without the sign opens nothing. -/
theorem opensDocument_append {s : List Char} (h : '<' ∉ s) (r : List Char) :
    opensDocument (s ++ r) = opensDocument r := by
  induction s with
  | nil => rfl
  | cons c s ih =>
    rw [List.cons_append, opensDocument_cons fun hopen => h (hopen.1 ▸ List.mem_cons_self),
      ih fun hmem => h (List.mem_cons_of_mem c hmem)]

theorem opensDocument_of_no_shift {e : List Char} (h : ¬['<', '<'] <:+: e) :
    opensDocument e = false := by
  induction e with
  | nil => rfl
  | cons c r ih =>
    have hopen : ¬(c = '<' ∧ r.head? = some '<') := by
      rintro ⟨rfl, hhead⟩
      obtain ⟨s, rfl⟩ := List.head?_eq_some_iff.mp hhead
      exact h ⟨[], s, rfl⟩
    rw [opensDocument_cons hopen, ih fun hin => h (hin.trans (List.suffix_cons c r).isInfix)]

theorem depthBehind_append {s : List Char} (hopen : '(' ∉ s) (hclose : ')' ∉ s) (depth : Nat)
    (r : List Char) : depthBehind depth (s ++ r) = depthBehind depth r := by
  induction s with
  | nil => rfl
  | cons c s ih =>
    rw [List.mem_cons, not_or] at hopen hclose
    rw [List.cons_append, depthBehind, List.foldl_cons, if_neg (Ne.symm hopen.1),
      if_neg (Ne.symm hclose.1)]
    exact ih hopen.2 hclose.2

theorem operandWord_append_behindOperand (s : List Char) :
    operandWord s ++ behindOperand s = Text.trimStart (dropDash s) :=
  List.takeWhile_append_dropWhile

/-- What is passed over before the word: a dash and blanks. -/
theorem exists_append_operand (s : List Char) :
    ∃ between, (∀ c ∈ between, c = '-' ∨ Text.isBlank c = true) ∧
      s = between ++ (operandWord s ++ behindOperand s) := by
  obtain ⟨blanks, hblanks, hs⟩ := Text.exists_append_trimStart (dropDash s)
  have hmem : ∀ c ∈ blanks, c = '-' ∨ Text.isBlank c = true := fun c hc =>
    .inr (List.all_eq_true.mp hblanks c hc)
  rw [operandWord_append_behindOperand]
  cases s with
  | nil => exact ⟨blanks, hmem, hs.symm⟩
  | cons c r =>
    by_cases hc : c = '-'
    · refine ⟨'-' :: blanks, List.forall_mem_cons.mpr ⟨.inl rfl, hmem⟩, ?_⟩
      rw [List.cons_append, hs, dropDash, if_pos hc, hc]
    · refine ⟨blanks, hmem, ?_⟩
      rw [hs, dropDash, if_neg hc]

/-- A shift without a word behind it has no effect of its own. -/
theorem behindOperand_of_no_word {s : List Char} (h : operandWord s = []) :
    opensDocument (behindOperand s) = opensDocument s ∧
      ∀ depth, depthBehind depth (behindOperand s) = depthBehind depth s := by
  obtain ⟨between, hbetween, hs⟩ := exists_append_operand s
  have hfree : ∀ c : Char, c ≠ '-' → Text.isBlank c = false → c ∉ between := by
    intro c hdash hblank hc
    rcases hbetween c hc with h | h
    · exact hdash h
    · rw [hblank] at h
      cases h
  rw [h, List.nil_append] at hs
  refine ⟨?_, fun depth => ?_⟩
  · conv_rhs => rw [hs]
    exact (opensDocument_append (hfree '<' (by decide) (by decide)) _).symm
  · conv_rhs => rw [hs]
    exact (depthBehind_append (hfree '(' (by decide) (by decide))
      (hfree ')' (by decide) (by decide)) depth _).symm

/-! ## The scan of an expression -/

namespace LineScan

/-- The scan while part of a delimiter has been read. -/
def reading (s : LineScan) (part : DelimiterPart) : LineScan := { s with delimiter := some part }

/-- The scan in code, at a depth of parentheses, with here-documents that wait, behind a character.
-/
def inCode (parens : Nat) (heredocs : List Delimiter) (p : Char) : LineScan :=
  (start .bare parens heredocs).past p

section

variable {parens : Nat} {heredocs : List Delimiter} {p : Char} {r : List Char}

theorem inCode_run_two (h : r.head? ≠ some '<') :
    (inCode parens heredocs p).run ('<' :: '<' :: r) =
      ((inCode parens heredocs p).reading .dash).run r := by
  have hopen : (inCode parens heredocs p).step '<' ('<' :: r) =
      { (inCode parens heredocs p).reading .dash with skip := 1 } := by
    simp [step, stepQuoted, stepBare, inCode, start, past, reading, h]
  rw [run, hopen, run]
  rfl

theorem reading_dash_run :
    ((inCode parens heredocs p).reading .dash).run ('-' :: r) =
      ((inCode parens heredocs p).reading (.blanks true)).run r := rfl

theorem reading_no_dash_run (h : r.head? ≠ some '-') :
    ((inCode parens heredocs p).reading .dash).run r =
      ((inCode parens heredocs p).reading (.blanks false)).run r := by
  cases r with
  | nil => rfl
  | cons c r =>
    have hc : c ≠ '-' := fun hc => h (congrArg some hc)
    have hstep : ((inCode parens heredocs p).reading .dash).step c r =
        ((inCode parens heredocs p).reading (.blanks false)).step c r := by
      simp [step, stepBlanks, stepWord, expect, reading, inCode, start, past, hc]
    rw [run, run, hstep]

/-- A dash behind the two signs is passed over. -/
theorem reading_dropDash_run {tail : List Char} (htail : tail.head? ≠ some '-') (s : List Char) :
    ∃ stripTabs, ((inCode parens heredocs p).reading .dash).run (s ++ tail) =
      ((inCode parens heredocs p).reading (.blanks stripTabs)).run (dropDash s ++ tail) := by
  cases s with
  | nil => exact ⟨false, reading_no_dash_run htail⟩
  | cons c s =>
    by_cases hc : c = '-'
    · refine ⟨true, ?_⟩
      rw [hc, dropDash, if_pos rfl, List.cons_append, reading_dash_run]
    · refine ⟨false, ?_⟩
      rw [dropDash, if_neg hc]
      exact reading_no_dash_run fun hhead => hc (Option.some.inj hhead)

theorem reading_blanks_run {blanks : List Char} (h : Text.allBlank blanks = true)
    (stripTabs : Bool) :
    ((inCode parens heredocs p).reading (.blanks stripTabs)).run (blanks ++ r) =
      ((inCode parens heredocs p).reading (.blanks stripTabs)).run r := by
  induction blanks with
  | nil => rfl
  | cons c blanks ih =>
    rw [Text.allBlank_cons, Bool.and_eq_true] at h
    have hstep : ((inCode parens heredocs p).reading (.blanks stripTabs)).step c (blanks ++ r) =
        (inCode parens heredocs p).reading (.blanks stripTabs) := by
      simp [step, stepBlanks, reading, inCode, start, past, h.1]
    rw [List.cons_append, run, hstep, ih h.2]

/-- The word begins at the first character that is no blank. -/
theorem reading_begin_run {c : Char} (h : Text.isBlank c = false) (stripTabs : Bool) :
    ((inCode parens heredocs p).reading (.blanks stripTabs)).run (c :: r) =
      ((inCode parens heredocs p).reading (.word stripTabs [])).run (c :: r) := by
  have hstep : ((inCode parens heredocs p).reading (.blanks stripTabs)).step c r =
      ((inCode parens heredocs p).reading (.word stripTabs [])).step c r := by
    simp [step, stepBlanks, stepWord, expect, reading, inCode, start, past, h]
  rw [run, run, hstep]

theorem reading_word_run {word : List Char}
    (h : ∀ c ∈ word, (c ≠ '\\' ∧ c ≠ '\x27' ∧ c ≠ '\x22') ∧ endsDelimiter c = false)
    (stripTabs : Bool) (read : List Char) :
    ((inCode parens heredocs p).reading (.word stripTabs read)).run (word ++ r) =
      ((inCode parens heredocs p).reading (.word stripTabs (word.reverse ++ read))).run r := by
  induction word generalizing read with
  | nil => rfl
  | cons c word ih =>
    obtain ⟨⟨hquotes, hends⟩, hword⟩ := List.forall_mem_cons.mp h
    have hstep : ((inCode parens heredocs p).reading (.word stripTabs read)).step c (word ++ r) =
        (inCode parens heredocs p).reading (.word stripTabs (c :: read)) := by
      simp [step, stepWord, reading, inCode, start, past, hquotes, hends]
    rw [List.cons_append, run, hstep, ih hword, List.reverse_cons, List.append_assoc,
      List.singleton_append]

/-- The character that ends the word is code again. -/
theorem reading_end_run {c : Char} (h : endsDelimiter c = true) (stripTabs : Bool)
    (read : List Char) :
    ((inCode parens heredocs p).reading (.word stripTabs read)).run (c :: r) =
      (inCode parens (heredocs ++ if read.isEmpty then [] else [⟨read.reverse, stripTabs⟩]) ' ').run
        (c :: r) := by
  have hquotes : ¬(c = '\x27' ∨ c = '\x22' ∨ c = '\\') := by
    rintro (rfl | rfl | rfl) <;> exact absurd h (by decide)
  have hstep : ((inCode parens heredocs p).reading (.word stripTabs read)).step c r =
      ((inCode parens heredocs p).expect stripTabs read).step c r := by
    simp [step, stepWord, stepQuoted, expect, reading, inCode, start, past, hquotes, h]
  rw [run, hstep, ← run]
  cases read with
  | nil => rw [List.isEmpty_nil, if_pos rfl, List.append_nil]; rfl
  | cons d read => rfl

end

/-- A shift with the word behind it, before the parenthesis that ends an expression. -/
theorem inCode_run_operand (parens : Nat) (heredocs : List Delimiter) (p : Char) {s : List Char}
    (hs : ∀ c ∈ s, IsExpressionChar c) (hsign : s.head? ≠ some '<') (rest : List Char) :
    ∃ stripTabs, (inCode parens heredocs p).run ('<' :: '<' :: (s ++ ')' :: rest)) =
      (inCode parens (heredocs ++ if (operandWord s).isEmpty then []
        else [⟨operandWord s, stripTabs⟩]) ' ').run (behindOperand s ++ ')' :: rest) := by
  obtain ⟨blanks, hblanks, htrim⟩ := Text.exists_append_trimStart (dropDash s)
  obtain ⟨stripTabs, hdash⟩ : ∃ stripTabs,
      ((inCode parens heredocs p).reading .dash).run (s ++ ')' :: rest) =
        ((inCode parens heredocs p).reading (.blanks stripTabs)).run (dropDash s ++ ')' :: rest) :=
    reading_dropDash_run (by simp) s
  have hhead : (s ++ ')' :: rest).head? ≠ some '<' := by
    cases s with
    | nil => simp
    | cons c s => exact hsign
  -- the word is not empty, or the character behind it begins and ends it
  obtain ⟨c, tail, htail, hend⟩ : ∃ c tail, behindOperand s ++ ')' :: rest = c :: tail ∧
      endsDelimiter c = true := by
    cases hbehind : behindOperand s with
    | nil => exact ⟨')', rest, rfl, by decide⟩
    | cons c tail =>
      refine ⟨c, tail ++ ')' :: rest, rfl, ?_⟩
      have hnot :=
        List.head?_dropWhile_not (fun c => !endsDelimiter c) (Text.trimStart (dropDash s))
      rw [show (Text.trimStart (dropDash s)).dropWhile (fun c => !endsDelimiter c) = c :: tail
        from hbehind] at hnot
      simpa using hnot
  have hword : ∀ d ∈ operandWord s, (d ≠ '\\' ∧ d ≠ '\x27' ∧ d ≠ '\x22') ∧
      endsDelimiter d = false := by
    obtain ⟨between, -, hcut⟩ := exists_append_operand s
    intro d hd
    obtain ⟨hescape, hsingle, hdouble, -⟩ :=
      (hs d (hcut ▸ List.mem_append_right _ (List.mem_append_left _ hd))).ne
    have hgoes := List.all_eq_true.mp List.all_takeWhile d hd
    exact ⟨⟨hescape, hsingle, hdouble⟩, by simpa using hgoes⟩
  have hparts : Text.trimStart (dropDash s) ++ ')' :: rest = operandWord s ++ c :: tail := by
    rw [← operandWord_append_behindOperand, List.append_assoc, htail]
  refine ⟨stripTabs, ?_⟩
  calc (inCode parens heredocs p).run ('<' :: '<' :: (s ++ ')' :: rest))
      = ((inCode parens heredocs p).reading (.blanks stripTabs)).run
          (dropDash s ++ ')' :: rest) := by rw [inCode_run_two hhead, hdash]
    _ = ((inCode parens heredocs p).reading (.blanks stripTabs)).run
          (Text.trimStart (dropDash s) ++ ')' :: rest) := by
        conv_lhs => rw [← htrim, List.append_assoc, reading_blanks_run hblanks]
    _ = ((inCode parens heredocs p).reading (.word stripTabs [])).run
          (Text.trimStart (dropDash s) ++ ')' :: rest) := by
        cases htrimmed : Text.trimStart (dropDash s) with
        | nil => exact reading_begin_run (by decide) stripTabs
        | cons d t =>
          have hd : Text.isBlank d = false :=
            Text.not_isBlank_of_head?_trimStart (by rw [htrimmed]; rfl)
          exact reading_begin_run hd stripTabs
    _ = (inCode parens (heredocs ++ if (operandWord s).isEmpty then []
          else [⟨operandWord s, stripTabs⟩]) ' ').run (behindOperand s ++ ')' :: rest) := by
        rw [hparts, reading_word_run hword, reading_end_run hend, htail, List.append_nil,
          List.isEmpty_reverse, List.reverse_reverse]

/-- How the scan reads a text in code in front of another one: it is in code again behind it; it
waits for more here-documents exactly if the text opens one; and if it opens none, the depth of
parentheses has been moved. -/
def Reads (text rest : List Char) (opens : Bool) (move : Nat → Nat) : Prop :=
  ∀ parens heredocs p, ∃ parens' documents q,
    (inCode parens heredocs p).run (text ++ rest) =
      (inCode parens' (heredocs ++ documents) q).run rest ∧
    (documents = [] ↔ opens = false) ∧ (opens = false → parens' = move parens)

namespace Reads

variable {text text' rest : List Char} {opens opens' : Bool} {move move' : Nat → Nat}

theorem congr (h : Reads text rest opens move) (hopens : opens = opens')
    (hmove : opens = false → ∀ n, move n = move' n) : Reads text rest opens' move' := by
  subst hopens
  intro parens heredocs p
  obtain ⟨parens', documents, q, hrun, hdocuments, hparens⟩ := h parens heredocs p
  exact ⟨parens', documents, q, hrun, hdocuments, fun hno => (hparens hno).trans (hmove hno parens)⟩

theorem append (h : Reads text (text' ++ rest) opens move) (h' : Reads text' rest opens' move') :
    Reads (text ++ text') rest (opens || opens') (move' ∘ move) := by
  intro parens heredocs p
  obtain ⟨parens₁, documents₁, p₁, hrun₁, hdocuments₁, hparens₁⟩ := h parens heredocs p
  obtain ⟨parens₂, documents₂, p₂, hrun₂, hdocuments₂, hparens₂⟩ :=
    h' parens₁ (heredocs ++ documents₁) p₁
  refine ⟨parens₂, documents₁ ++ documents₂, p₂, ?_, ?_, ?_⟩
  · rw [List.append_assoc, hrun₁, hrun₂, List.append_assoc]
  · rw [List.append_eq_nil_iff, hdocuments₁, hdocuments₂, Bool.or_eq_false_iff]
  · intro hno
    rw [Bool.or_eq_false_iff] at hno
    rw [hparens₂ hno.2, hparens₁ hno.1, Function.comp_apply]

/-- A text that only moves the depth. -/
theorem of_run (h : ∀ parens heredocs p, ∃ q, (inCode parens heredocs p).run (text ++ rest) =
    (inCode (move parens) heredocs q).run rest) : Reads text rest false move := by
  intro parens heredocs p
  obtain ⟨q, hrun⟩ := h parens heredocs p
  exact ⟨move parens, [], q, by rw [hrun, List.append_nil], iff_of_true rfl rfl, fun _ => rfl⟩

theorem nil : Reads [] rest false id := of_run fun _ _ p => ⟨p, rfl⟩

theorem of_plain (h : ∀ c ∈ text, c ∉ bareSigns) : Reads text rest false id :=
  of_run fun parens heredocs p => run_of_plain h parens heredocs rest p

theorem of_open : Reads ['('] rest false (· + 1) := of_run fun _ _ _ => ⟨'(', rfl⟩

theorem of_close : Reads [')'] rest false (· - 1) := of_run fun _ _ _ => ⟨')', rfl⟩

theorem of_three : Reads ['<', '<', '<'] rest false id := of_run fun _ _ _ => ⟨'<', rfl⟩

/-- One sign redirects. -/
theorem of_one (h : rest.head? ≠ some '<') : Reads ['<'] rest false id := by
  refine of_run fun parens heredocs p => ⟨'<', ?_⟩
  have hstep : (inCode parens heredocs p).step '<' rest = inCode parens heredocs '<' := by
    simp [step, stepQuoted, stepBare, inCode, start, past, h]
  rw [List.singleton_append, run, hstep]
  rfl

/-- A sign that does not begin a shift. -/
theorem of_sign {c : Char} {r : List Char} (hc : isArithmeticSign c = true)
    (h : ¬(c = '<' ∧ r.head? = some '<')) :
    Reads [c] (r ++ ')' :: rest) false (fun n => depthBehind n [c]) := by
  have hparens : c ≠ '(' ∧ c ≠ ')' := by
    constructor <;> rintro rfl <;> exact absurd hc (by decide)
  have hdepth : ∀ n, id n = depthBehind n [c] := fun n => by
    rw [depthBehind, List.foldl_cons, if_neg hparens.1, if_neg hparens.2, List.foldl_nil, id]
  by_cases hless : c = '<'
  · subst hless
    refine (of_one ?_).congr rfl fun _ => hdepth
    cases r with
    | nil => simp
    | cons d r => exact fun hd => h ⟨rfl, hd⟩
  · refine (of_plain fun d hd => ?_).congr rfl fun _ => hdepth
    rw [List.mem_singleton.mp hd]
    intro hmem
    obtain ⟨hescape, hsingle, hdouble, hcomment⟩ := IsExpressionChar.ne (.inl hc)
    simp_all [bareSigns]

/-- Two signs open a here-document unless the word behind them is empty. -/
theorem of_two {s : List Char} (hs : ∀ c ∈ s, IsExpressionChar c) (hsign : s.head? ≠ some '<')
    (h : Reads (behindOperand s) (')' :: rest) opens move) :
    Reads ('<' :: '<' :: s) (')' :: rest) (!(operandWord s).isEmpty || opens) move := by
  intro parens heredocs p
  obtain ⟨stripTabs, hrun⟩ := inCode_run_operand parens heredocs p hs hsign rest
  obtain ⟨parens', documents, q, hrest, hdocuments, hparens⟩ := h parens (heredocs ++
    if (operandWord s).isEmpty then [] else [⟨operandWord s, stripTabs⟩]) ' '
  refine ⟨parens', (if (operandWord s).isEmpty then [] else [⟨operandWord s, stripTabs⟩]) ++
    documents, q, ?_, ?_, ?_⟩
  · rw [← List.append_assoc, ← hrest, ← hrun]
    rfl
  · rw [List.append_eq_nil_iff, hdocuments]
    cases (operandWord s).isEmpty <;> simp
  · intro hno
    rw [Bool.or_eq_false_iff] at hno
    exact hparens hno.2

end Reads

/-- The scan follows an expression up to the parenthesis behind it. -/
theorem reads_expression {e : List Char} (h : ∀ c ∈ e, IsExpressionChar c) (rest : List Char) :
    Reads e (')' :: rest) (opensDocument e) (fun n => depthBehind n e) := by
  -- a shift is passed together with the word behind it, so the induction is on the length
  induction hn : e.length using Nat.strongRecOn generalizing e with
  | _ n ih =>
    subst hn
    cases e with
    | nil => exact .nil
    | cons c r =>
      have hr : ∀ d ∈ r, IsExpressionChar d := fun d hd => h d (List.mem_cons_of_mem c hd)
      by_cases hopen : c = '<' ∧ r.head? = some '<'
      · obtain ⟨rfl, hhead⟩ := hopen
        obtain ⟨s, rfl⟩ := List.head?_eq_some_iff.mp hhead
        have hs : ∀ d ∈ s, IsExpressionChar d := fun d hd => hr d (List.mem_cons_of_mem '<' hd)
        by_cases hthird : s.head? = some '<'
        · -- three signs are passed at once
          obtain ⟨t, rfl⟩ := List.head?_eq_some_iff.mp hthird
          have ht := ih t.length (by simp only [List.length_cons]; omega)
            (fun d hd => hs d (List.mem_cons_of_mem '<' hd)) rfl
          exact (Reads.of_three.append ht).congr rfl fun _ _ => rfl
        · -- the scan is in code again behind the word, which may hold parentheses
          have hlength : (behindOperand s).length ≤ s.length := by
            obtain ⟨between, -, hcut⟩ := exists_append_operand s
            have := congrArg List.length hcut
            simp only [List.length_append] at this
            omega
          have hmem : ∀ d ∈ behindOperand s, IsExpressionChar d := by
            obtain ⟨between, -, hcut⟩ := exists_append_operand s
            intro d hd
            exact hs d (hcut ▸ List.mem_append_right _ (List.mem_append_right _ hd))
          have hbehind := ih (behindOperand s).length
            (by simp only [List.length_cons]; omega) hmem rfl
          refine (Reads.of_two hs hthird hbehind).congr ?_ fun hno depth => ?_
          · rw [opensDocument_of_two hthird]
            cases hword : operandWord s with
            | nil => rw [(behindOperand_of_no_word hword).1]
            | cons d word => rfl
          · rw [Bool.or_eq_false_iff, Bool.not_eq_false', List.isEmpty_iff] at hno
            exact (behindOperand_of_no_word hno.1).2 depth
      · have hrest := ih r.length (by simp) hr rfl
        have hstep : Reads [c] (r ++ ')' :: rest) false (fun n => depthBehind n [c]) := by
          rcases h c List.mem_cons_self with hsign | rfl | rfl
          · exact Reads.of_sign hsign hopen
          · exact Reads.of_open
          · exact Reads.of_close
        exact (hstep.append hrest).congr (opensDocument_cons hopen).symm fun _ _ => rfl

/-- The scan is behind an expansion at the depth that it was at before it, or waits for a
here-document. -/
theorem reads_expansion {e : List Char} (h : IsArithmetic e) (rest : List Char) :
    Reads (expansion e) rest (opensDocument e) id := by
  -- two parentheses open and two close, and the expression between them is balanced
  have hsign : Reads ['$'] (('(' :: '(' :: (e ++ [')', ')'])) ++ rest) false id :=
    .of_plain fun c hc => by rw [List.mem_singleton.mp hc]; decide
  have hopen : Reads ['('] ('(' :: (e ++ [')', ')']) ++ rest) false (· + 1) := .of_open
  have hopen' : Reads ['('] (e ++ [')', ')'] ++ rest) false (· + 1) := .of_open
  have hbody : Reads e ([')', ')'] ++ rest) (opensDocument e) (fun n => depthBehind n e) :=
    reads_expression h.isExpressionChar (')' :: rest)
  have hclose : Reads ([')'] ++ [')']) rest false ((· - 1) ∘ (· - 1)) := .append .of_close .of_close
  refine (hsign.append (hopen.append (hopen'.append (hbody.append hclose)))).congr ?_ ?_
  · simp
  · intro _ n
    have hdepth := h.depthBehind (n + 1 + 1)
    simp only [Function.comp_apply, id, hdepth]
    rfl

end LineScan

end StepTrace.Posix
