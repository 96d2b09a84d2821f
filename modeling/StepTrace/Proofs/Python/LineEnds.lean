import StepTrace.Proofs.Python.Passages

/-!
# Nothing crosses the end of a line

A source that is read as logical lines up to a line end is read alike whatever stands behind it, and
what stands behind it is read as it is by itself, further down (`tokenize_append_newline`). The
reader counts lines from where it starts, and nothing else that it does depends on the count
(`lex_moved`). Rows without code move what comes after them down and do nothing else
(`tokenize_vacant_rows`).
-/

set_option autoImplicit false

namespace StepTrace.Python

variable {f : Nat → Nat} {line : Nat} {m m' : Mode} {l : OpenLine} {c : Char}
  {a s next : List Char} {lines as : List LogicalLine}

/-! ## Further down -/

/-- The line with another number. -/
def LogicalLine.moved (f : Nat → Nat) (t : LogicalLine) : LogicalLine := { t with line := f t.line }

/-- Where the reader stands, with other line numbers. -/
def Mode.moved (f : Nat → Nat) : Mode → Mode
  | .inside l => .inside (l.moved f id)
  | m => m

/-- What is read further down: every line number is greater. -/
def lowered (n : Nat) :
    Except SyntaxError (List LogicalLine) → Except SyntaxError (List LogicalLine) :=
  relined (· + n) (List.map (LogicalLine.moved (· + n)))

theorem stepInside_moved (f : Nat → Nat) (l : OpenLine) (line : Nat) (c : Char)
    (next : List Char) :
    stepInside (l.moved f id) (f line) c next =
      relined f (fun p => (p.1.map (LogicalLine.moved f), p.2.moved f))
        (stepInside l line c next) := by
  rw [stepInside_eq, stepInside_eq, grow_moved]
  simp only [ends_moved]
  split
  · rfl
  · cases l.grow line c next <;> rfl

theorem step_moved (f : Nat → Nat) (m : Mode) (line : Nat) (c : Char) (next : List Char) :
    step (m.moved f) (f line) c next =
      relined f (fun p => (p.1.map (LogicalLine.moved f), p.2.moved f)) (step m line c next) := by
  cases m with
  | inside l => exact stepInside_moved f l line c next
  | remark =>
    simp only [Mode.moved, step]
    split <;> rfl
  | margin column =>
    simp only [Mode.moved, step]
    split_ifs
    iterate 5 rfl
    exact stepInside_moved f (.start line column) line c next

theorem unclosed?_moved (f : Nat → Nat) (frame : Frame) :
    OpenLine.unclosed? (frame.moved f) =
      (OpenLine.unclosed? frame).map (SyntaxError.moved f) := by
  cases frame <;> rfl

theorem finish_moved (f : Nat → Nat) (m : Mode) :
    (m.moved f).finish = relined f (List.map (LogicalLine.moved f)) m.finish := by
  cases m with
  | margin column => rfl
  | remark => rfl
  | inside l =>
    have hopen : (l.moved f id).frames.findSome? OpenLine.unclosed? =
        (l.frames.findSome? OpenLine.unclosed?).map (SyntaxError.moved f) := by
      simp only [OpenLine.moved, List.findSome?_map, List.map_findSome?]
      exact congrArg (l.frames.findSome? ·) (funext (unclosed?_moved f))
    rw [Mode.moved, Mode.finish, Mode.finish, hopen]
    cases l.frames.findSome? OpenLine.unclosed? <;> rfl

/-- The reader counts lines from any number on alike. -/
theorem lex_moved (hf : ∀ n, f (n + 1) = f n + 1) (line : Nat) (m : Mode) (s : List Char) :
    lex (f line) (m.moved f) s = relined f (List.map (LogicalLine.moved f)) (lex line m s) := by
  -- a step does not look at the count, and the count goes on by one whatever it is
  induction s generalizing line m with
  | nil => exact finish_moved f m
  | cons c s ih =>
    have hline : (if c = '\n' then f line + 1 else f line) =
        f (if c = '\n' then line + 1 else line) := by
      split
      · exact (hf line).symm
      · rfl
    rw [lex, lex, step_moved]
    cases step m line c s with
    | error e => rfl
    | ok p =>
      obtain ⟨read, m'⟩ := p
      dsimp only [relined]
      rw [hline, ih]
      cases lex (if c = '\n' then line + 1 else line) m' s with
      | error e => rfl
      | ok lines => cases read <;> rfl

theorem lex_lowered (n : Nat) (s : List Char) :
    lex (1 + n) (.margin 0) s = lowered n (lex 1 (.margin 0) s) :=
  lex_moved (f := (· + n)) (fun k => Nat.add_right_comm k 1 n) 1 (.margin 0) s

theorem lowered_lowered (n k : Nat) (r : Except SyntaxError (List LogicalLine)) :
    lowered n (lowered k r) = lowered (n + k) r := by
  cases r with
  | error e => cases e <;> simp [lowered, relined, SyntaxError.moved, Nat.add_comm n, Nat.add_assoc]
  | ok lines =>
    simp [lowered, relined, LogicalLine.moved, Function.comp_def, Nat.add_comm n, Nat.add_assoc]

/-! ## In front of a line feed -/

/-- Outside logical lines a character that begins none is passed over whatever follows it. -/
theorem step_idle_congr (hm : m.Idle) (hm' : m'.Idle)
    (h : step m line c next = .ok (none, m')) (next' : List Char) :
    step m line c next' = .ok (none, m') := by
  have hc : ∀ column, m = .margin column → ¬Opens c := by
    rintro column rfl ⟨h1, h2, h3, h4, h5⟩
    -- inside a line the reader would not be idle
    rw [step, if_neg h1, if_neg h2, if_neg h3, if_neg h4, if_neg h5, stepInside_eq,
      if_neg fun hends => h4 hends.2.2] at h
    cases hgrow : (OpenLine.start line column).grow line c next with
    | error e =>
      rw [hgrow] at h
      cases h
    | ok l =>
      rw [hgrow] at h
      cases h
      exact hm'.elim
  obtain ⟨m₁, -, hstep⟩ := step_idle c hm hc
  cases (hstep line next).symm.trans h
  exact hstep line next'

theorem lex_idle_newline (hm : m.Idle) (line : Nat) (s : List Char) :
    lex line m ('\n' :: s) = lex (line + 1) (.margin 0) s := by
  refine lex_passes ?_
  cases m with
  | inside l => exact hm.elim
  | _ => rfl

/-- What is read up to a line feed is read alike with more behind it. -/
theorem Lexes.append_newline (h : Lexes line m a as)
    (hm : ∀ l, m = .inside l → Proper l.frames ∧ l.skip ≤ a.length)
    (hlast : a.getLast? ≠ some '\\') (b : List Char) :
    lex line m (a ++ '\n' :: b) =
      (lex (line + Text.breaks a + 1) (.margin 0) b).map (as ++ ·) := by
  have hid : ∀ r : Except SyntaxError (List LogicalLine), r.map ([] ++ ·) = r := by
    intro r
    cases r <;> rfl
  have htail : ∀ {c : Char} {next : List Char}, (c :: next).getLast? ≠ some '\\' →
      next.getLast? ≠ some '\\' := by
    intro c next hlast hnext
    cases next with
    | nil => cases hnext
    | cons d next => exact hlast (by rwa [List.getLast?_cons_cons])
  induction h with
  | stop line hidle => exact (lex_idle_newline hidle line b).trans (hid _).symm
  | @last line l hclosed =>
    -- the line that ended with the source ends at the line feed
    obtain ⟨hproper, hskip⟩ := hm l rfl
    have hframes := eq_nil_of_proper hproper (eq_field_of_closed hclosed)
    exact lex_ends line ⟨Nat.le_zero.mp hskip, hframes, rfl⟩ b
  | @idle line m m' c next lines hidle hidle' hstep _ ih =>
    have hinside : ∀ l, m' = .inside l → Proper l.frames ∧ l.skip ≤ next.length := by
      rintro l rfl
      exact hidle'.elim
    rw [List.cons_append, lex_passes (step_idle_congr hidle hidle' hstep _),
      ih hinside (htail hlast), lineAfter_add_breaks]
  | @opens line column c next lines hopens _ ih =>
    have hinside : ∀ l, Mode.inside (.start line column) = .inside l →
        Proper l.frames ∧ l.skip ≤ (c :: next).length := by
      rintro l ⟨⟩
      exact ⟨.nil, Nat.zero_le _⟩
    rw [← ih hinside hlast, List.cons_append, lex_opens line column hopens]
  | @ends line l c next lines hends _ ih =>
    have hbreaks : line + 1 + Text.breaks next = line + Text.breaks (c :: next) := by
      rw [← lineAfter_add_breaks, lineAfter, if_pos hends.2.2]
    have hmargin : ∀ l, Mode.margin 0 = .inside l → Proper l.frames ∧ l.skip ≤ next.length := by
      rintro l ⟨⟩
    rw [List.cons_append, lex_ends line hends, ih hmargin (htail hlast), hbreaks]
    cases lex (line + Text.breaks (c :: next) + 1) (.margin 0) b <;> rfl
  | @grows line l l₁ c next lines hgoes hgrow _ ih =>
    obtain ⟨hproper, hskip⟩ := hm l rfl
    have hinert : Inert ('\n' :: b) := by
      rintro d ⟨⟩
      decide
    -- the last character is no backslash, so none looks at the line feed
    have hagree : Agree c next (next ++ '\n' :: b) := by
      have hempty := Agree.of_inert (c := c) (s := next) (fun hnext hc => ?_) .nil hinert
      · rwa [List.append_nil] at hempty
      · subst hnext hc
        exact absurd rfl hlast
    have hinside : ∀ l, Mode.inside l₁ = .inside l → Proper l.frames ∧ l.skip ≤ next.length := by
      rintro l ⟨⟩
      exact ⟨hgrow.proper hproper, (gained_of_grows hgrow hskip).2⟩
    rw [List.cons_append, lex_grows hgoes (hgrow.congr hproper hagree),
      ih hinside (htail hlast), lineAfter_add_breaks]

/-! ## Rows without code -/

/-- A row that ends after the blanks of an indentation, or where a comment begins after them. -/
structure Vacant (row : List Char) : Prop where
  noBreak : '\n' ∉ row
  noCode : ∀ c ∈ ((Text.dropReturn row).dropWhile isIndentation).head?, c = '#'

theorem lex_remark_row {row : List Char} (hrow : '\n' ∉ row) (line : Nat) (s : List Char) :
    lex line .remark (row ++ '\n' :: s) = lex (line + 1) (.margin 0) s := by
  induction row with
  | nil => exact lex_idle_newline (m := .remark) trivial line s
  | cons c row ih =>
    obtain ⟨hc, hrest⟩ := List.ne_and_not_mem_of_not_mem_cons hrow
    have hstep : step .remark line c (row ++ '\n' :: s) = .ok (none, .remark) :=
      if_neg (Ne.symm hc)
    rw [List.cons_append, lex_passes hstep, lineAfter, if_neg (Ne.symm hc), ih hrest]

theorem lex_vacant_row {row : List Char} (hrow : '\n' ∉ row)
    (hcode : ∀ c ∈ (row.dropWhile isIndentation).head?, c = '#')
    (line column : Nat) (s : List Char) :
    lex line (.margin column) (row ++ '\n' :: s) = lex (line + 1) (.margin 0) s := by
  induction row generalizing column with
  | nil => exact lex_idle_newline (m := .margin _) trivial line s
  | cons c row ih =>
    obtain ⟨hc, hrest⟩ := List.ne_and_not_mem_of_not_mem_cons hrow
    have hline : lineAfter line c = line := if_neg (Ne.symm hc)
    rw [List.cons_append]
    by_cases hblank : isIndentation c = true
    · rw [List.dropWhile_cons_of_pos hblank] at hcode
      have hopens : ∀ column', Mode.margin column = .margin column' → ¬Opens c := by
        rintro _ - ⟨h1, h2, h3, -⟩
        simp [isIndentation, h1, h2, h3] at hblank
      obtain ⟨m', hidles, hstep⟩ := step_idle c (m := .margin column) trivial hopens
      rw [lex_passes (hstep line _), hline]
      cases hidles with
      | newline => exact absurd rfl hc
      | indentation _ column' => exact ih hrest hcode column'
      | comment => cases hblank
    · rw [List.dropWhile_cons_of_neg hblank] at hcode
      obtain rfl := hcode c rfl
      have hstep : step (.margin column) line '#' (row ++ '\n' :: s) = .ok (none, .remark) := rfl
      rw [lex_passes hstep, hline, lex_remark_row hrest]

/-- Rows without code move what comes after them down. -/
theorem tokenize_vacant_rows {rows : List (List Char)} (h : ∀ row ∈ rows, Vacant row)
    (b : List Char) :
    tokenize (rows.flatMap (· ++ ['\n']) ++ b) = lowered rows.length (tokenize b) := by
  rw [tokenize, tokenize, ← lex_lowered]
  generalize 1 = line
  induction rows generalizing line with
  | nil => rfl
  | cons row rows ih =>
    obtain ⟨hrow, hrows⟩ := List.forall_mem_cons.mp h
    have hdrop : '\n' ∉ Text.dropReturn row := by
      rw [Text.dropReturn]
      split
      · exact fun hmem => hrow.noBreak ((List.dropLast_subset row) hmem)
      · exact hrow.noBreak
    have hunify : Text.unifyBreaks (Text.dropReturn row) = Text.dropReturn row :=
      (Text.unifyBreaks_eq_self_iff _).mpr fun hwithin => hdrop (hwithin.subset (by simp))
    rw [List.flatMap_cons, List.append_assoc, List.append_assoc, List.singleton_append,
      Text.unifyBreaks_append_break, hunify, lex_vacant_row hdrop hrow.noCode, ih hrows,
      List.length_cons, Nat.add_right_comm, ← Nat.add_assoc]

/-- A source is read line end by line end: behind a source that is read by itself, and ends in
neither a backslash nor a carriage return, another is read as it is by itself, further down. Rows
without code between the two move the second down and change nothing else. -/
theorem tokenize_append_newline (h : tokenize a = .ok as) (hslash : a.getLast? ≠ some '\\')
    (hreturn : a.getLast? ≠ some '\r') (b : List Char) :
    tokenize (a ++ '\n' :: b) =
        (lowered (1 + Text.breaks a) (tokenize b)).map (as ++ ·) ∧
      ∀ rows : List (List Char), (∀ row ∈ rows, Vacant row) →
        tokenize (a ++ '\n' :: (rows.flatMap (· ++ ['\n']) ++ b)) =
          (lowered (1 + Text.breaks a + rows.length) (tokenize b)).map (as ++ ·) := by
  have hlast : (Text.unifyBreaks a).getLast? ≠ some '\\' := by
    rwa [Text.getLast?_unifyBreaks]
  have hmargin : ∀ l, Mode.margin 0 = .inside l →
      Proper l.frames ∧ l.skip ≤ (Text.unifyBreaks a).length := by
    rintro l ⟨⟩
  have happend : ∀ b, tokenize (a ++ '\n' :: b) =
      (lowered (1 + Text.breaks a) (tokenize b)).map (as ++ ·) := by
    intro b
    rw [tokenize, Text.unifyBreaks_append_break, Text.dropReturn, if_neg hreturn,
      (lexes_of_tokenize h).append_newline hmargin hlast, Text.breaks_unifyBreaks,
      Nat.add_right_comm, Nat.add_assoc, lex_lowered]
    rfl
  refine ⟨happend b, fun rows hrows => ?_⟩
  rw [happend, tokenize_vacant_rows hrows, lowered_lowered]

/-- Two logical lines, one of them over two rows, and a comment. -/
def firstHalf : List Char := "if a:\n  b = [0,\n 1]  # c".toList

def firstLines : List LogicalLine :=
  [⟨1, 0, "if a:".toList, [4], []⟩, ⟨2, 2, "b = [0,\n 1]".toList, [], []⟩]

/-- A block with a string in it that is not closed. -/
def secondHalf : List Char := "if d:\n  \x27e".toList

/-- A comment that ends in a backslash, and blanks before a line break of two characters. -/
def rowsBetween : List (List Char) := [" \t# f\\".toList, "  \r".toList]

theorem tokenize_append_newline_halves :
    tokenize firstHalf = .ok firstLines ∧
      firstHalf.getLast? ≠ some '\\' ∧ firstHalf.getLast? ≠ some '\r' ∧
      (∀ row ∈ rowsBetween, Vacant row) ∧
      tokenize (firstHalf ++ '\n' :: secondHalf) =
        (lowered 3 (tokenize secondHalf)).map (firstLines ++ ·) ∧
      tokenize (firstHalf ++ '\n' :: (rowsBetween.flatMap (· ++ ['\n']) ++ secondHalf)) =
        (lowered 5 (tokenize secondHalf)).map (firstLines ++ ·) ∧
      lowered 5 (tokenize secondHalf) = .error (.unterminatedString 7) := by
  have hread : tokenize firstHalf = .ok firstLines := by decide +kernel
  have hrows : ∀ row ∈ rowsBetween, Vacant row := by
    intro row hrow
    rcases List.mem_cons.mp hrow with rfl | hrow
    · refine ⟨by decide, ?_⟩
      rintro _ ⟨⟩
      rfl
    · obtain rfl := List.mem_singleton.mp hrow
      refine ⟨by decide, ?_⟩
      rintro _ ⟨⟩
  obtain ⟨happend, hinsert⟩ :=
    tokenize_append_newline hread (by decide) (by decide) secondHalf
  exact ⟨hread, by decide, by decide, hrows, happend, hinsert _ hrows, by decide +kernel⟩

end StepTrace.Python
