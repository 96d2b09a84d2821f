import StepTrace.Proofs.Python.Passages
import StepTrace.Proofs.Python.Numbering

/-!
# Where errors are found

The line of an error is a line of the source (`line_of_parse_error`). A lexical error stands where
the character that it names does: a closing bracket that the reader is refused at, or the opener of
a construct that the reader never leaves again. For that the open constructs are followed along the
passages of a source: whatever is open where the reader stops was opened by a character on the
line that the construct notes (`opened_of_frames`). Any other error is blamed on a logical line: the
readers of statements pass on a part of the lines that they are given, or blame one of them
(`Answers`).
-/

set_option autoImplicit false

namespace StepTrace.Python

/-- Whether an error is one of the text and not of the order of statements. -/
def SyntaxError.isLexical : SyntaxError → Bool
  | .unterminatedString _ => true
  | .unmatchedBracket _ _ => true
  | .mismatchedBracket _ _ _ => true
  | .unclosedBracket _ _ => true
  | _ => false

/-- The character that opens a construct, and the line it stands on. -/
def Frame.opener? : Frame → Option (Char × Nat)
  | .bracket opener line => some (opener, line)
  | .string quote _ _ line => some (quote, line)
  | .field => none

/-- The constructs that are open where the reader stands. -/
def Mode.frames : Mode → List Frame
  | .inside l => l.frames
  | _ => []

/-- Where the reader stands behind the characters that it passes. -/
def Mode.past (m : Mode) (passed : List Passage) : Mode :=
  passed.foldl (fun _ p => p.after) m

/-- The characters that are passed. -/
def textOf (passed : List Passage) : List Char := passed.map Passage.char

/-- A character stands on a line of a source, right behind those that are passed. -/
def StandsBehind (source : List Char) (passed : List Passage) (c : Char) (line : Nat) : Prop :=
  ∃ u v, source = u ++ c :: v ∧ Text.unifyBreaks u = textOf passed ∧ line = 1 + Text.breaks u

/-- A character on a line of a source opens a construct that stays open as far as the reader goes.
-/
def LeftOpen (source : List Char) (f : Frame) (c : Char) (line : Nat) : Prop :=
  ∃ before p later, passagesOf source = before ++ p :: later ∧
    StandsBehind source before c line ∧ p.char = c ∧ p.after.frames = f :: p.before.frames ∧
    ∀ q ∈ later, p.after.frames <:+ q.after.frames

/-- What a lexical error names stands on its line: the opening quote of a string that is not closed,
a closing bracket that the reader goes no further than, or an opening bracket that is open where the
source ends. -/
def Names (source : List Char) : SyntaxError → Prop
  | .unterminatedString line =>
    ∃ quote triple format, LeftOpen source (.string quote triple format line) quote line
  | .unmatchedBracket line found => StandsBehind source (passagesOf source) found line
  | .mismatchedBracket line found expected =>
    StandsBehind source (passagesOf source) found line ∧
      ∃ opened, LeftOpen source (.bracket expected opened) expected opened
  | .unclosedBracket line opener =>
    textOf (passagesOf source) = Text.unifyBreaks source ∧
      LeftOpen source (.bracket opener line) opener line
  | _ => False

variable {line : Nat} {l l' : OpenLine} {m m' : Mode} {c : Char} {s next source : List Char}
  {e : SyntaxError} {f : Frame} {outer : List Frame}

/-! ## Open constructs -/

/-- A character leaves open what was open, closes some of it, or opens a construct, which notes the
line. -/
theorem Grows.frames (h : Grows l line c next l') :
    l'.frames <:+ l.frames ∨
      ∃ f, l'.frames = f :: l.frames ∧ c ≠ '\n' ∧ ∀ o ∈ f.opener?, o = (c, line) := by
  cases h with
  | taken => exact .inl List.suffix_rfl
  | string _ _ _ _ _ _ _ _ h =>
    cases h with
    | closed => exact .inl (List.tail_suffix _)
    | closedTriple => exact .inl (List.tail_suffix _)
    | field hc => exact .inr ⟨.field, rfl, by simp [hc], by simp [Frame.opener?]⟩
    | _ => exact .inl List.suffix_rfl
  | comment => exact .inl List.suffix_rfl
  | code _ _ _ _ h =>
    cases h with
    | broken =>
      rw [frames_continueLine]
      exact .inl List.suffix_rfl
    -- what opens here is a sign and no line break, so it stands on this line
    | opened hc =>
      refine .inr ⟨.bracket c line, rfl, ?_, by simp [Frame.opener?]⟩
      rintro rfl
      exact absurd hc (by decide)
    | closed frames _ hclose =>
      rw [OpenLine.frames_push, OpenLine.frames_reframed, frames_closeBracket hclose]
      exact .inl (List.tail_suffix _)
    | quote hc =>
      refine .inr ⟨_, rfl, ?_, by simp [Frame.opener?]⟩
      rintro rfl
      exact absurd hc (by decide)
    | quoteTriple hc =>
      refine .inr ⟨_, rfl, ?_, by simp [Frame.opener?]⟩
      rintro rfl
      exact absurd hc (by decide)
    | _ => exact .inl List.suffix_rfl

theorem frames_of_stepInside {read : Option LogicalLine}
    (h : stepInside l line c next = .ok (read, m')) :
    m'.frames <:+ l.frames ∨
      ∃ f, m'.frames = f :: l.frames ∧ c ≠ '\n' ∧ ∀ o ∈ f.opener?, o = (c, line) := by
  rw [stepInside_eq] at h
  split at h
  · cases h
    exact .inl (List.nil_suffix)
  · cases hgrow : l.grow line c next with
    | error e =>
      rw [hgrow] at h
      cases h
    | ok l' =>
      rw [hgrow] at h
      cases h
      exact (grow_eq_ok_iff.mp hgrow).frames

theorem frames_of_step {read : Option LogicalLine} (h : step m line c next = .ok (read, m')) :
    m'.frames <:+ m.frames ∨
      ∃ f, m'.frames = f :: m.frames ∧ c ≠ '\n' ∧ ∀ o ∈ f.opener?, o = (c, line) := by
  cases m with
  | inside l => exact frames_of_stepInside h
  | remark =>
    rw [step] at h
    split at h <;> cases h <;> exact .inl List.suffix_rfl
  | margin column =>
    rw [step] at h
    split_ifs at h
    iterate 5 cases h; exact .inl List.suffix_rfl
    exact frames_of_stepInside h

/-- What is open where the reader stops was open from the beginning, or a character opened it on the
line that it notes; and it was open all the while. -/
theorem opened_of_frames (line : Nat) (m : Mode) (s : List Char)
    (h : f :: outer <:+ (m.past (passages line m s)).frames) :
    (f :: outer <:+ m.frames ∧ ∀ q ∈ passages line m s, f :: outer <:+ q.after.frames) ∨
      ∃ before p later, passages line m s = before ++ p :: later ∧ p.char ≠ '\n' ∧
        (∀ o ∈ f.opener?, o = (p.char, line + Text.breaks (textOf before))) ∧
        p.after.frames = f :: p.before.frames ∧
        ∀ q ∈ later, p.after.frames <:+ q.after.frames := by
  induction s generalizing line m with
  | nil => exact .inl ⟨h, by simp [passages]⟩
  | cons c s ih =>
    rw [passages] at h ⊢
    cases hstep : step m line c s with
    | error e =>
      rw [hstep] at h
      exact .inl ⟨h, by simp⟩
    | ok result =>
      obtain ⟨read, m'⟩ := result
      rw [hstep] at h
      dsimp only at h ⊢
      rcases ih (lineAfter line c) m' h with ⟨hopen, hlater⟩ |
        ⟨before, p, later, heq, hc, hline, hp⟩
      · rcases frames_of_step hstep with hframes | ⟨g, hframes, hc, hline⟩
        · exact .inl ⟨hopen.trans hframes, List.forall_mem_cons.mpr ⟨hopen, hlater⟩⟩
        · -- either the character opened it or it was open already
          rw [hframes] at hopen
          rcases List.suffix_cons_iff.mp hopen with heq | hopen'
          · obtain ⟨rfl, rfl⟩ := List.cons.inj heq
            refine .inr ⟨[], _, _, rfl, hc, hline, hframes, ?_⟩
            rw [hframes]
            exact hlater
          · refine .inl ⟨hopen', List.forall_mem_cons.mpr ⟨?_, hlater⟩⟩
            rw [hframes]
            exact hopen
      · -- it was opened later, and the break that this character may be is one before it
        refine .inr ⟨⟨m, c, m'⟩ :: before, p, later, by rw [heq, List.cons_append], hc, ?_, hp⟩
        rw [lineAfter_add_breaks] at hline
        exact hline

/-! ## Where the reader stops -/

/-- A source that is refused is refused at its end or at the first character that is not passed. -/
theorem stop_of_lex_error (h : lex line m s = .error e) :
    (s = textOf (passages line m s) ∧ (m.past (passages line m s)).finish = .error e) ∨
      ∃ c next, s = textOf (passages line m s) ++ c :: next ∧
        step (m.past (passages line m s)) (line + Text.breaks (textOf (passages line m s))) c
          next = .error e := by
  induction s generalizing line m with
  | nil => exact .inl ⟨rfl, h⟩
  | cons c s ih =>
    rw [lex] at h
    rw [passages]
    cases hstep : step m line c s with
    | error e' =>
      rw [hstep] at h
      cases h
      exact .inr ⟨c, s, rfl, hstep⟩
    | ok result =>
      obtain ⟨read, m'⟩ := result
      rw [hstep] at h
      dsimp only at h ⊢
      -- a line that ends here changes nothing: the error is that of the rest
      have hmore : lex (lineAfter line c) m' s = .error e := by
        rw [lineAfter]
        split at h
        · next hmore =>
          cases h
          exact hmore
        · cases h
      have hbreaks := lineAfter_add_breaks line c (textOf (passages (lineAfter line c) m' s))
      rcases ih hmore with ⟨htext, hfinish⟩ | ⟨d, next, htext, hrefused⟩
      · exact .inl ⟨congrArg (c :: ·) htext, hfinish⟩
      · refine .inr ⟨d, next, congrArg (c :: ·) htext, ?_⟩
        rw [hbreaks] at hrefused
        exact hrefused

/-- A character is refused that breaks a string or closes what is not open. -/
inductive Refused (frames : List Frame) (line : Nat) (c : Char) : SyntaxError → Prop
  | broken (quote : Char) (triple format : Bool) (opened : Nat) (outer : List Frame) :
      frames = .string quote triple format opened :: outer →
      Refused frames line c (.unterminatedString opened)
  | unmatched : c ≠ '\n' → Refused frames line c (.unmatchedBracket line c)
  | mismatched (opener : Char) (opened : Nat) (outer : List Frame) : c ≠ '\n' →
      frames = .bracket opener opened :: outer →
      Refused frames line c (.mismatchedBracket line c opener)

theorem refused_of_closeBracket {frames : List Frame} (hc : c ≠ '\n')
    (h : closeBracket line c frames = .error e) : Refused frames line c e := by
  unfold closeBracket at h
  split at h
  · split_ifs at h
    cases h
    exact .mismatched _ _ _ hc rfl
  · split_ifs at h
    cases h
    exact .unmatched hc
  · cases h
    exact .unmatched hc

theorem refused_of_stepCode (h : stepCode l line c next = .error e) :
    Refused l.frames line c e := by
  unfold stepCode at h
  split_ifs at h with _ _ _ _ hclose
  split at h
  · cases h
  · next hrefused =>
    cases h
    refine refused_of_closeBracket ?_ hrefused
    rintro rfl
    exact absurd hclose (by decide)

theorem refused_of_stepString {quote : Char} {triple format : Bool} {opened : Nat}
    (hframes : l.frames = .string quote triple format opened :: outer)
    (h : stepString l quote triple format opened c next = .error e) :
    Refused l.frames line c e := by
  unfold stepString at h
  split_ifs at h
  · cases next with
    | nil => cases h
    | cons d next =>
      dsimp only at h
      split_ifs at h
  · cases h
    exact .broken _ _ _ _ _ hframes

theorem refused_of_stepInside (h : stepInside l line c next = .error e) :
    Refused l.frames line c e := by
  rw [stepInside_eq] at h
  split at h
  · cases h
  have hgrow : l.grow line c next = .error e := by
    cases hgrow : l.grow line c next with
    | error e' =>
      rw [hgrow] at h
      cases h
      rfl
    | ok l' =>
      rw [hgrow] at h
      cases h
  cases l.situation with
  | taken k hk =>
    rw [grow_taken hk] at hgrow
    cases hgrow
  | string quote triple format opened outer h0 hframes =>
    rw [grow_string h0 hframes] at hgrow
    exact refused_of_stepString hframes hgrow
  | code h0 hcode =>
    rw [grow_code h0 hcode] at hgrow
    split_ifs at hgrow
    exact refused_of_stepCode (l := l.remarking false) hgrow

theorem refused_of_step (h : step m line c next = .error e) : Refused m.frames line c e := by
  cases m with
  | inside l => exact refused_of_stepInside h
  | remark =>
    rw [step] at h
    split at h <;> cases h
  | margin column =>
    rw [step] at h
    split_ifs at h
    exact refused_of_stepInside h

/-- At the end of a source a bracket or a string is open, and nothing in it but replacement fields.
-/
theorem unclosed_of_finish (h : m.finish = .error e) :
    ∃ fields f outer, m.frames = fields ++ f :: outer ∧ (∀ g ∈ fields, g = .field) ∧
      OpenLine.unclosed? f = some e := by
  cases m with
  | margin column => cases h
  | remark => cases h
  | inside l =>
    rw [Mode.finish] at h
    split at h
    · next hopen =>
      cases h
      obtain ⟨fields, f, outer, hframes, hf, hfields⟩ := List.findSome?_eq_some_iff.mp hopen
      refine ⟨fields, f, outer, hframes, fun g hg => ?_, hf⟩
      exact eq_field_of_closed (List.findSome?_eq_none_iff.mpr hfields) g hg
    · cases h

/-! ## What lexical errors name -/

theorem standsBehind_of_unifyBreaks {passed : List Passage} (hc : c ≠ '\n')
    (h : Text.unifyBreaks source = textOf passed ++ c :: next) :
    StandsBehind source passed c (1 + Text.breaks (textOf passed)) := by
  obtain ⟨u, v, hsource, hu⟩ := Text.exists_of_unifyBreaks_eq_append hc h
  exact ⟨u, v, hsource, hu, by rw [← hu, Text.breaks_unifyBreaks]⟩

theorem textOf_passages_isPrefix (line : Nat) (m : Mode) (s : List Char) :
    textOf (passages line m s) <+: s := by
  induction s generalizing line m with
  | nil => exact List.prefix_rfl
  | cons c s ih =>
    rw [passages]
    split
    · exact List.nil_prefix
    · exact List.cons_prefix_cons.mpr ⟨rfl, ih _ _⟩

/-- What is open where the reader stops was opened in the source and not left again. -/
theorem leftOpen_of_frames (outer : List Frame)
    (h : f :: outer <:+ ((Mode.margin 0).past (passagesOf source)).frames)
    (hf : f.opener? = some (c, line)) : LeftOpen source f c line := by
  rcases opened_of_frames 1 (.margin 0) _ h with ⟨hnone, -⟩ |
    ⟨before, p, later, heq, hc, hopener, hframes, hlater⟩
  · exact absurd (List.suffix_nil.mp hnone) (List.cons_ne_nil f outer)
  · have hpassed := textOf_passages_isPrefix 1 (.margin 0) (Text.unifyBreaks source)
    rw [heq] at hpassed
    obtain ⟨rest, hrest⟩ := hpassed
    rw [textOf, List.map_append, List.map_cons, List.append_assoc, List.cons_append] at hrest
    obtain ⟨rfl, rfl⟩ := Prod.mk.inj (hopener _ hf)
    exact ⟨before, p, later, heq, standsBehind_of_unifyBreaks hc hrest.symm, rfl, hframes, hlater⟩

theorem names_of_tokenize_error (h : tokenize source = .error e) :
    e.isLexical = true ∧ Names source e := by
  rcases stop_of_lex_error h with ⟨htext, hfinish⟩ | ⟨c, next, htext, hstep⟩
  · obtain ⟨fields, f, outer, hframes, -, hf⟩ := unclosed_of_finish hfinish
    have hopen : f :: outer <:+ ((Mode.margin 0).past (passagesOf source)).frames :=
      ⟨fields, hframes.symm⟩
    cases f with
    | bracket opener line =>
      cases hf
      exact ⟨rfl, htext.symm, leftOpen_of_frames outer hopen rfl⟩
    | string quote triple format line =>
      cases hf
      exact ⟨rfl, quote, triple, format, leftOpen_of_frames outer hopen rfl⟩
    | field => cases hf
  · cases refused_of_step hstep with
    | broken quote triple format opened outer hframes =>
      refine ⟨rfl, quote, triple, format, leftOpen_of_frames outer ?_ rfl⟩
      exact hframes ▸ List.suffix_rfl
    | unmatched hc => exact ⟨rfl, standsBehind_of_unifyBreaks hc htext⟩
    | mismatched opener opened outer hc hframes =>
      refine ⟨rfl, standsBehind_of_unifyBreaks hc htext, opened,
        leftOpen_of_frames outer ?_ rfl⟩
      exact hframes ▸ List.suffix_rfl

theorem StandsBehind.line_le {passed : List Passage} (h : StandsBehind source passed c line) :
    1 ≤ line ∧ line ≤ 1 + Text.breaks source := by
  obtain ⟨u, v, rfl, -, rfl⟩ := h
  rw [Text.breaks, Text.breaks, List.count_append]
  omega

theorem LeftOpen.line_le (h : LeftOpen source f c line) :
    1 ≤ line ∧ line ≤ 1 + Text.breaks source := by
  obtain ⟨before, p, later, -, hstands, -⟩ := h
  exact hstands.line_le

theorem Names.line_le (h : Names source e) : 1 ≤ e.line ∧ e.line ≤ 1 + Text.breaks source := by
  cases e with
  | unterminatedString line =>
    obtain ⟨quote, triple, format, hopen⟩ := h
    exact hopen.line_le
  | unmatchedBracket line found => exact StandsBehind.line_le h
  | mismatchedBracket line found expected => exact h.1.line_le
  | unclosedBracket line opener => exact h.2.line_le
  | _ => exact h.elim

/-! ## What other errors are blamed on -/

/-- Whether an error is blamed on one of some logical lines. -/
def BlamedOn (lines : List LogicalLine) (e : SyntaxError) : Prop :=
  e.isLexical = false ∧ ∃ t ∈ lines, t.line = e.line

/-- Whether a reader of statements leaves some of the lines that it has at hand, or blames one of
them. -/
structure Answers {α : Type} (lines : List LogicalLine)
    (r : Except SyntaxError (α × List LogicalLine)) : Prop where
  ok : ∀ a rest, r = .ok (a, rest) → rest ⊆ lines
  error : ∀ e, r = .error e → BlamedOn lines e

namespace Answers

variable {α β : Type} {lines lines' rest : List LogicalLine} {l : LogicalLine}

theorem leaves (a : α) (h : rest ⊆ lines) : Answers lines (.ok (a, rest)) where
  ok := by
    rintro _ _ ⟨⟩
    exact h
  error := fun _ h => by cases h

theorem blames {e : SyntaxError} (he : e.isLexical = false) (hl : l ∈ lines)
    (hline : l.line = e.line) :
    Answers lines (.error e : Except SyntaxError (α × List LogicalLine)) where
  ok := fun _ _ h => by cases h
  error := by
    rintro _ ⟨⟩
    exact ⟨he, l, hl, hline⟩

theorem mono {r : Except SyntaxError (α × List LogicalLine)} (h : Answers lines' r)
    (hlines : lines' ⊆ lines) : Answers lines r where
  ok := fun a rest hr => List.Subset.trans (h.ok a rest hr) hlines
  error := fun e hr =>
    have ⟨he, t, ht, hline⟩ := h.error e hr
    ⟨he, t, hlines ht, hline⟩

theorem bind {x : Except SyntaxError (α × List LogicalLine)}
    {k : α × List LogicalLine → Except SyntaxError (β × List LogicalLine)} (h : Answers lines x)
    (hk : ∀ a rest, rest ⊆ lines → Answers lines (k (a, rest))) : Answers lines (x >>= k) := by
  cases x with
  | error e =>
    refine ⟨fun _ _ hr => ?_, fun e' hr => ?_⟩
    · cases hr
    · cases hr
      exact h.error e rfl
  | ok p => exact hk p.1 p.2 (h.ok p.1 p.2 rfl)

theorem split {k : List Char × List Stmt → Except SyntaxError (β × List LogicalLine)}
    (hl : l ∈ lines) (keyword : String) (hk : ∀ header inline, Answers lines (k (header, inline))) :
    Answers lines (l.split keyword >>= k) := by
  rw [LogicalLine.split]
  cases l.headerColon? with
  | none => exact blames rfl hl rfl
  | some colon => exact hk _ _

theorem dedent {k : Unit → Except SyntaxError (β × List LogicalLine)} (indent inner : Nat)
    (hrest : rest ⊆ lines) (hk : Answers lines (k ())) :
    Answers lines (checkDedent indent inner rest >>= k) := by
  cases rest with
  | nil => exact hk
  | cons l rest =>
    rw [checkDedent]
    split
    · exact blames rfl (hrest List.mem_cons_self) rfl
    · exact hk

end Answers

variable {fuel : Nat}

/-- What holds of the readers of statements with some fuel: they answer for the lines at hand. -/
structure Answering (fuel : Nat) : Prop where
  suite : ∀ indent lines, Answers lines (readSuite fuel indent lines)
  statement : ∀ indent l lines, Answers (l :: lines) (readStatement fuel indent l lines)
  body : ∀ indent l keyword inline lines,
    Answers (l :: lines) (readBody fuel indent l keyword inline lines)
  branch : ∀ indent l header inline lines,
    Answers (l :: lines) (readBranch fuel indent l header inline lines)
  clause : ∀ indent kind keyword lines,
    Answers lines (readClause fuel indent kind keyword lines)
  handlers : ∀ indent lines, Answers lines (readHandlers fuel indent lines)
  define : ∀ indent l decorators lines,
    Answers (l :: lines) (readDefine fuel indent l decorators lines)
  cases : ∀ indent lines, Answers lines (readCases fuel indent lines)

theorem answering_zero : Answering 0 where
  suite := fun _ lines => by rw [readSuite]; exact .leaves _ (List.Subset.refl lines)
  statement := fun _ l lines => by
    rw [readStatement]
    exact .leaves _ (List.subset_cons_self l lines)
  body := fun _ l _ _ lines => by rw [readBody]; exact .leaves _ (List.subset_cons_self l lines)
  branch := fun _ l _ _ lines => by rw [readBranch]; exact .leaves _ (List.subset_cons_self l lines)
  clause := fun _ _ _ lines => by rw [readClause]; exact .leaves _ (List.Subset.refl lines)
  handlers := fun _ lines => by rw [readHandlers]; exact .leaves _ (List.Subset.refl lines)
  define := fun _ l _ lines => by rw [readDefine]; exact .leaves _ (List.subset_cons_self l lines)
  cases := fun _ lines => by rw [readCases]; exact .leaves _ (List.Subset.refl lines)

namespace Answering

variable (h : Answering fuel)

include h

theorem suite_succ (indent : Nat) (lines : List LogicalLine) :
    Answers lines (readSuite (fuel + 1) indent lines) := by
  cases lines with
  | nil =>
    rw [readSuite]
    exact .leaves _ (List.Subset.refl _)
  | cons l lines =>
    rw [readSuite]
    split
    · exact .leaves _ (List.Subset.refl _)
    split
    · exact .blames rfl List.mem_cons_self rfl
    refine (h.statement indent l lines).bind fun ss rest hrest => ?_
    refine ((h.suite indent rest).mono hrest).bind fun others rest' hrest' => ?_
    exact .leaves _ hrest'

theorem body_succ (indent : Nat) (l : LogicalLine) (keyword : String) (inline : List Stmt)
    (lines : List LogicalLine) :
    Answers (l :: lines) (readBody (fuel + 1) indent l keyword inline lines) := by
  have hlines := List.subset_cons_self l lines
  rw [readBody.eq_def]
  dsimp only
  split
  · exact .leaves _ hlines
  cases lines with
  | nil => exact .blames rfl List.mem_cons_self rfl
  | cons first lines =>
    dsimp only
    split
    · refine ((h.suite first.indent (first :: lines)).mono hlines).bind fun body rest hrest => ?_
      exact .dedent _ _ hrest (.leaves _ hrest)
    · exact .blames rfl List.mem_cons_self rfl

theorem clause_succ (indent : Nat) (kind : LineKind) (keyword : String)
    (lines : List LogicalLine) :
    Answers lines (readClause (fuel + 1) indent kind keyword lines) := by
  cases lines with
  | nil =>
    rw [readClause]
    exact .leaves _ (List.Subset.refl _)
  | cons l lines =>
    rw [readClause]
    split
    · exact .split List.mem_cons_self keyword fun _ inline => h.body indent l keyword inline lines
    · exact .leaves _ (List.Subset.refl _)

theorem handlers_succ (indent : Nat) (lines : List LogicalLine) :
    Answers lines (readHandlers (fuel + 1) indent lines) := by
  cases lines with
  | nil =>
    rw [readHandlers]
    exact .leaves _ (List.Subset.refl _)
  | cons l lines =>
    rw [readHandlers]
    split
    · refine .split List.mem_cons_self "except" fun header inline => ?_
      refine (h.body indent l "except" inline lines).bind fun body rest hrest => ?_
      refine ((h.handlers indent rest).mono hrest).bind fun others rest' hrest' => ?_
      exact .leaves _ hrest'
    · exact .leaves _ (List.Subset.refl _)

theorem cases_succ (indent : Nat) (lines : List LogicalLine) :
    Answers lines (readCases (fuel + 1) indent lines) := by
  cases lines with
  | nil =>
    rw [readCases]
    exact .leaves _ (List.Subset.refl _)
  | cons l lines =>
    rw [readCases]
    split
    · exact .leaves _ (List.Subset.refl _)
    split
    · exact .blames rfl List.mem_cons_self rfl
    split
    · exact .blames rfl List.mem_cons_self rfl
    refine .split List.mem_cons_self "case" fun header inline => ?_
    refine (h.body indent l "case" inline lines).bind fun body rest hrest => ?_
    refine ((h.cases indent rest).mono hrest).bind fun others rest' hrest' => ?_
    exact .leaves _ hrest'

theorem define_succ (indent : Nat) (l : LogicalLine) (decorators : List (List Char))
    (lines : List LogicalLine) :
    Answers (l :: lines) (readDefine (fuel + 1) indent l decorators lines) := by
  rw [readDefine]
  refine .split List.mem_cons_self _ fun header inline => ?_
  refine (h.body indent l _ inline lines).bind fun body rest hrest => ?_
  exact .leaves _ hrest

theorem branch_succ (indent : Nat) (l : LogicalLine) (header : List Char) (inline : List Stmt)
    (lines : List LogicalLine) :
    Answers (l :: lines) (readBranch (fuel + 1) indent l header inline lines) := by
  rw [readBranch]
  refine (h.body indent l "if" inline lines).bind fun body rest hrest => ?_
  cases rest with
  | nil => exact .leaves _ (List.nil_subset _)
  | cons next others =>
    dsimp only
    split
    · refine .split (hrest List.mem_cons_self) "elif" fun elifHeader elifInline => ?_
      refine ((h.branch indent next _ elifInline others).mono hrest).bind fun s rest' hrest' => ?_
      exact .leaves _ hrest'
    · have helse := h.clause indent .elseClause "else" (next :: others)
      refine (helse.mono hrest).bind fun orelse rest' hrest' => ?_
      exact .leaves _ hrest'

theorem statement_succ (indent : Nat) (l : LogicalLine) (lines : List LogicalLine) :
    Answers (l :: lines) (readStatement (fuel + 1) indent l lines) := by
  have hlines := List.subset_cons_self l lines
  have hself : l ∈ l :: lines := List.mem_cons_self
  cases hkind : l.kind with
  | simple =>
    rw [readStatement, hkind]
    exact .leaves _ hlines
  | decorator =>
    have hspan := (spanDecorators_suffix indent lines).subset
    rw [readStatement, hkind]
    dsimp only
    split
    · exact .blames rfl hself rfl
    · next d rest hrest =>
      rw [hrest] at hspan
      split
      · have hdefine := h.define indent d (l.text :: (spanDecorators indent lines).1) rest
        refine (hdefine.mono (List.Subset.trans hspan hlines)).bind fun s rest' hrest' => ?_
        exact .leaves _ hrest'
      · exact .blames rfl hself rfl
  | branch =>
    rw [readStatement, hkind]
    refine .split hself "if" fun header inline => ?_
    exact (h.branch indent l header inline lines).bind fun s rest hrest => .leaves _ hrest
  | loop =>
    rw [readStatement, hkind]
    refine .split hself _ fun header inline => ?_
    refine (h.body indent l _ inline lines).bind fun body rest hrest => ?_
    refine ((h.clause indent .elseClause "else" rest).mono hrest).bind fun orelse rest' hrest' => ?_
    exact .leaves _ hrest'
  | attempt =>
    rw [readStatement, hkind]
    refine .split hself "try" fun header inline => ?_
    refine (h.body indent l "try" inline lines).bind fun body rest hrest => ?_
    refine ((h.handlers indent rest).mono hrest).bind fun handlers rest₁ hrest₁ => ?_
    have helse := h.clause indent .elseClause "else" rest₁
    refine (helse.mono hrest₁).bind fun orelse rest₂ hrest₂ => ?_
    have hfinal := h.clause indent .finallyClause "finally" rest₂
    refine (hfinal.mono hrest₂).bind fun final rest₃ hrest₃ => ?_
    dsimp only
    split
    · exact .blames rfl hself rfl
    · exact .leaves _ hrest₃
  | scope =>
    rw [readStatement, hkind]
    refine .split hself "with" fun header inline => ?_
    exact (h.body indent l "with" inline lines).bind fun body rest hrest => .leaves _ hrest
  | define =>
    rw [readStatement, hkind]
    exact (h.define indent l [] lines).bind fun s rest hrest => .leaves _ hrest
  | choose =>
    rw [readStatement, hkind]
    refine .split hself "match" fun header inline => ?_
    cases lines with
    | nil => exact .blames rfl hself rfl
    | cons first lines =>
      dsimp only
      split
      · have hcases := h.cases first.indent (first :: lines)
        refine (hcases.mono hlines).bind fun cases rest hrest => ?_
        exact .dedent _ _ hrest (.leaves _ hrest)
      · exact .blames rfl hself rfl
  -- a clause without its statement is to blame itself
  | _ =>
    rw [readStatement, hkind]
    exact .blames rfl hself rfl

end Answering

theorem answering : (fuel : Nat) → Answering fuel
  | 0 => answering_zero
  | fuel + 1 =>
    have h := answering fuel
    { suite := h.suite_succ
      statement := h.statement_succ
      body := h.body_succ
      branch := h.branch_succ
      clause := h.clause_succ
      handlers := h.handlers_succ
      define := h.define_succ
      cases := h.cases_succ }

theorem blamedOn_of_parseLines {lines : List LogicalLine} (h : parseLines lines = .error e) :
    BlamedOn lines e := by
  rw [parseLines_eq] at h
  cases hread : readSuite (4 * lines.length + 4) 0 lines with
  | ok p =>
    rw [hread] at h
    cases h
  | error e' =>
    rw [hread] at h
    cases h
    exact ((answering _).suite 0 lines).error e hread

/-- An error stands on a line of the source: a lexical error on the line of what it names, and any
other on the line of a logical line. -/
theorem line_of_parse_error (h : parse source = .error e) :
    (1 ≤ e.line ∧ e.line ≤ 1 + Text.breaks source) ∧
      (e.isLexical = true → Names source e) ∧
      (e.isLexical = false →
        ∃ lines, tokenize source = .ok lines ∧ ∃ t ∈ lines, t.line = e.line) := by
  rw [parse] at h
  cases htokens : tokenize source with
  | error e' =>
    rw [htokens] at h
    cases h
    obtain ⟨hlexical, hnames⟩ := names_of_tokenize_error htokens
    refine ⟨hnames.line_le, fun _ => hnames, fun hother => ?_⟩
    rw [hlexical] at hother
    cases hother
  | ok lines =>
    rw [htokens] at h
    obtain ⟨hother, t, ht, hline⟩ := blamedOn_of_parseLines h
    refine ⟨hline ▸ (inOrder_of_tokenize htokens).bounds t ht, fun hlexical => ?_,
      fun _ => ⟨lines, rfl, t, ht, hline⟩⟩
    rw [hother] at hlexical
    cases hlexical

/-- A string that a backslash carries over a line break of two characters, and that is not closed.
-/
def openSource : List Char := "a\r\nb(\x27c\\\r\nd)\n".toList

/-- A line between the indentations of two others. -/
def dedentSource : List Char := "if a:  # b\r\n\n  c(\n)\n d\n".toList

theorem line_of_parse_error_sources :
    parse openSource = .error (.unterminatedString 2) ∧
      Names openSource (.unterminatedString 2) ∧
      parse dedentSource = .error (.inconsistentDedent 5) ∧
      ∃ lines, tokenize dedentSource = .ok lines ∧ ∃ t ∈ lines, t.line = 5 := by
  have herror : ∀ {source e}, (parse source).map Stmt.countAll = .error e →
      parse source = .error e := by
    intro source e h
    cases hparse : parse source with
    | error e' =>
      rw [hparse] at h
      cases h
      rfl
    | ok program =>
      rw [hparse] at h
      cases h
  have hopen : parse openSource = .error (.unterminatedString 2) := herror (by decide +kernel)
  have hdedent : parse dedentSource = .error (.inconsistentDedent 5) := herror (by decide +kernel)
  exact ⟨hopen, (line_of_parse_error hopen).2.1 rfl, hdedent,
    (line_of_parse_error hdedent).2.2 rfl⟩

end StepTrace.Python
