import StepTrace.Proofs.Python.Gathering

/-!
# Nothing is made up

Reading leaves out comments and blank lines, and it leaves them out between a character and a line
feed. So a word without line feeds that stands in the text of a logical line stands in the source
(`infix_of_mem_tokenize`), and with few exceptions one that stands in a row of a program does so as
well (`infix_of_gives`): nothing that the reader drops or joins can bring forth a marker.
-/

set_option autoImplicit false

namespace StepTrace.Python

variable {a r v w x : List Char} {c : Char}

/-! ## Words without line feeds -/

/-- A beginning without line feeds ends before any line feed. -/
theorem isPrefix_of_isPrefix_newline (hw : '\n' ∉ w) (h : w <+: a ++ '\n' :: r) : w <+: a := by
  induction a generalizing w with
  | nil =>
    cases w with
    | nil => exact List.nil_prefix
    | cons d w =>
      have hd := (List.cons_prefix_cons.mp h).1
      exact absurd (hd ▸ List.mem_cons_self) hw
  | cons d a ih =>
    cases w with
    | nil => exact List.nil_prefix
    | cons e w =>
      obtain ⟨rfl, htail⟩ := List.cons_prefix_cons.mp h
      exact List.cons_prefix_cons.mpr
        ⟨rfl, ih (fun hmem => hw (List.mem_cons_of_mem e hmem)) htail⟩

/-- A word without line feeds stands on one side of any line feed. -/
theorem infix_append_newline (hw : '\n' ∉ w) (h : w <:+: a ++ '\n' :: r) :
    w <:+: a ∨ w <:+: r := by
  induction a with
  | nil =>
    rw [List.nil_append, List.infix_cons_iff] at h
    refine h.imp_left fun hprefix => ?_
    exact (isPrefix_of_isPrefix_newline (a := []) hw hprefix).isInfix
  | cons d a ih =>
    rw [List.cons_append, List.infix_cons_iff] at h
    rcases h with hprefix | h
    · exact .inl (isPrefix_of_isPrefix_newline (a := d :: a) hw hprefix).isInfix
    · exact (ih h).imp_left fun h => h.trans (List.suffix_cons d a).isInfix

/-- A text is another without something that stood before a line feed or the end. -/
def Omits (a b : List Char) : Prop :=
  ∃ p x q, a = p ++ (x ++ q) ∧ b = p ++ q ∧ (x = [] ∨ ∀ c ∈ q.head?, c = '\n')

theorem Omits.refl (a : List Char) : Omits a a := ⟨[], [], a, rfl, rfl, .inl rfl⟩

theorem Omits.rest (a r : List Char) : Omits (a ++ r) a :=
  ⟨a, r, [], by rw [List.append_nil], (List.append_nil a).symm, .inr (by simp)⟩

theorem Omits.dropWhile (a r : List Char) : Omits (a ++ r) (a ++ r.dropWhile (· ≠ '\n')) := by
  refine ⟨a, r.takeWhile (· ≠ '\n'), _, by rw [List.takeWhile_append_dropWhile], rfl, .inr ?_⟩
  intro c hc
  have hnot := List.head?_dropWhile_not (· ≠ '\n') r
  rw [hc] at hnot
  simpa using hnot

/-- What is left out makes up no word without line feeds. -/
theorem Omits.isInfix (h : Omits a v) (hw : '\n' ∉ w) (hin : w <:+: v) : w <:+: a := by
  obtain ⟨p, x, q, rfl, rfl, hx⟩ := h
  rcases hx with rfl | hq
  · exact hin
  cases q with
  | nil =>
    rw [List.append_nil] at hin
    exact hin.trans (List.prefix_append _ _).isInfix
  | cons d q =>
    obtain rfl := hq d rfl
    rcases infix_append_newline hw hin with hin | hin
    · exact hin.trans (List.prefix_append _ _).isInfix
    · have hsuffix : q <:+ p ++ (x ++ '\n' :: q) := ⟨p ++ x ++ ['\n'], by simp⟩
      exact hin.trans hsuffix.isInfix

/-- What is left out makes up no beginning without line feeds. -/
theorem Omits.isPrefix (h : Omits a v) (hw : '\n' ∉ w) (hin : w <+: v) : w <+: a := by
  obtain ⟨p, x, q, rfl, rfl, hx⟩ := h
  rcases hx with rfl | hq
  · exact hin
  cases q with
  | nil =>
    rw [List.append_nil] at hin
    exact hin.trans (List.prefix_append _ _)
  | cons d q =>
    obtain rfl := hq d rfl
    exact (isPrefix_of_isPrefix_newline hw hin).trans (List.prefix_append _ _)

/-- A word does not begin before its first character can stand. -/
theorem infix_of_infix_append (h : w <:+: a ++ v) (ha : ∀ c ∈ w.head?, c ∉ a) : w <:+: v := by
  induction a with
  | nil => exact h
  | cons d a ih =>
    rw [List.cons_append, List.infix_cons_iff] at h
    refine ih ?_ fun c hc hmem => ha c hc (List.mem_cons_of_mem d hmem)
    rcases h with h | h
    · cases w with
      | nil => exact List.nil_infix
      | cons e w =>
        have hd := (List.cons_prefix_cons.mp h).1
        exact absurd (hd ▸ List.mem_cons_self) (ha e rfl)
    · exact h

/-! ## What the reader leaves out -/

variable {l l₁ f : OpenLine} {line : Nat} {next : List Char} {t : LogicalLine}
  {lines : List LogicalLine} {source : List Char}

namespace OpenLine

/-- The text so far with what may come of the source that is left. -/
def prospect (l : OpenLine) (r : List Char) : List Char :=
  l.behind.reverse ++
    if l.skip = 0 ∧ l.comment = true then r.dropWhile (· ≠ '\n') else r.drop l.skip

/-- Whether the finished physical lines end with a line feed. -/
def Parted (l : OpenLine) : Prop := ∀ c ∈ l.earlier.head?, c = '\n'

theorem parted_breakLine (l : OpenLine) (b : Bool) : (l.breakLine b).Parted := by
  rintro _ ⟨⟩
  rfl

end OpenLine

theorem StringStep.parted {quote : Char} {triple format : Bool}
    (h : StringStep l quote triple format c next l₁) (hl : l.Parted) : l₁.Parted := by
  cases h with
  | escapedBreak => exact OpenLine.parted_breakLine (l.push c) true
  | broken => exact l.parted_breakLine true
  | _ => exact hl

theorem CodeStep.parted (h : CodeStep l line c next l₁) (hl : l.Parted) : l₁.Parted := by
  cases h with
  | joined => exact OpenLine.parted_breakLine (l.push c) false
  | broken =>
    rw [OpenLine.continueLine]
    split
    · exact hl
    · exact l.parted_breakLine false
  | _ => exact hl

theorem Grows.parted (h : Grows l line c next l₁) (hl : l.Parted) : l₁.Parted := by
  cases h with
  | taken => exact hl
  | string _ _ _ _ _ _ _ _ h => exact h.parted hl
  | comment => exact hl
  | code _ _ _ _ h => exact h.parted hl

/-- A step leaves something out before a line feed, if it leaves out anything. -/
theorem Fate.omits (h : Fate l line c next l₁) (hl : l.Parted)
    (hend : next = [] → l₁.inCode = true) :
    Omits (l.prospect (c :: next)) (l₁.prospect next) := by
  cases h with
  | taken k hk =>
    unfold OpenLine.prospect
    rw [hk, if_neg (by simp), List.drop_succ_cons]
    split
    · next hboth =>
      have hk0 : k = 0 := hboth.1
      rw [hk0]
      exact .dropWhile _ _
    · exact .refl _
  | silent h0 hc hor hcode =>
    have hrest : (c :: next).dropWhile (· ≠ '\n') = next.dropWhile (· ≠ '\n') :=
      List.dropWhile_cons_of_pos (by simpa using hc)
    have hafter : (l.remarking true).prospect next =
        l.behind.reverse ++ (c :: next).dropWhile (· ≠ '\n') := by
      rw [OpenLine.prospect, if_pos ⟨h0, rfl⟩, hrest]
      rfl
    rw [hafter, OpenLine.prospect]
    split
    · exact .refl _
    · rw [h0]
      exact .dropWhile _ _
  | blank h0 hc hd hcode =>
    subst hc
    have hstop : ('\n' :: next).dropWhile (· ≠ '\n') = '\n' :: next :=
      List.dropWhile_cons_of_neg (by simp)
    -- the physical line that is dropped stands between two line feeds
    obtain ⟨d, e, hearlier⟩ := List.exists_cons_of_ne_nil hd.1
    have hd' : d = '\n' := hl d (by rw [hearlier]; rfl)
    subst hd'
    have hbehind : l.behind.reverse = e.reverse ++ '\n' :: l.current.reverse := by
      rw [OpenLine.behind, hearlier]
      simp
    have hafter : l.dropped.prospect next = e.reverse ++ '\n' :: next := by
      have hskip : l.dropped.skip = 0 := h0
      have hdropped : l.dropped.behind = '\n' :: e := hearlier
      rw [OpenLine.prospect, hskip, hdropped]
      simp [OpenLine.dropped]
    unfold OpenLine.prospect at hafter ⊢
    rw [hafter, h0, hstop, List.drop_zero, ite_self, hbehind]
    refine ⟨e.reverse, '\n' :: l.current.reverse, '\n' :: next, by simp, rfl, .inr ?_⟩
    rintro _ ⟨⟩
    rfl
  | lone _ hnil hcode => exact absurd ((hend hnil).symm.trans hcode) (by simp)
  | kept _ hcomment hkeeps hlooks =>
    have hafter : l₁.prospect next = l.behind.reverse ++ c :: next := by
      have htext : l₁.behind = (next.take l₁.skip).reverse ++ c :: l.behind := hkeeps.text
      rw [OpenLine.prospect, hkeeps.comment, htext]
      simp
    have h0 : l.skip = 0 := hkeeps.skip
    rw [hafter, OpenLine.prospect, h0]
    split
    · next hremark =>
      rw [hcomment hremark.2, List.dropWhile_cons_of_neg (by simp)]
      exact .refl _
    · exact .refl _

/-- What is told of the text of a line that is read to its end, and does not come about by leaving
something out, may be told of it all along. -/
theorem Completes.prospect {P : List Char → Prop} (hP : ∀ {a b}, Omits a b → P b → P a)
    (h : Completes line l r f) (hl : l.Sound) (hparted : l.Parted) (hin : P f.behind.reverse) :
    P (l.prospect r) := by
  induction h with
  | stop => exact hP (.rest _ _) hin
  | ends => exact hP (.rest _ _) hin
  | @grows line l l₁ f c next hgoes hgrow hrest ih =>
    have hfate := hgrow.fate hl hgoes
    have hend : next = [] → l₁.inCode = true := by
      rintro rfl
      cases hrest with
      | stop _ _ _ hframes =>
        rw [OpenLine.inCode, hframes]
        rfl
    have hnext := ih (hfate.sound hl (hgrow.proper hl.proper) hend) (hgrow.parted hparted) hin
    exact hP (hfate.omits hparted hend) hnext

/-- What is told of the text of a logical line, and does not come about by leaving something out, is
told of the source from the line's beginning on. -/
theorem ReadFrom.prospect {P : List Char → Prop} {above blanks rest : List Char}
    (hP : ∀ {a b}, Omits a b → P b → P a) (h : ReadFrom line source t above blanks rest)
    (hin : P t.text) : P rest := by
  obtain ⟨column, c, s, f, rfl, -, hcompletes, hfinish⟩ := h.reading
  have htext : t.text = Text.trimEnd f.behind.reverse := congrArg LogicalLine.text hfinish
  have hbehind : P f.behind.reverse := by
    obtain ⟨blanks, hblanks⟩ := Text.trimEnd_isPrefix f.behind.reverse
    rw [← hblanks, ← htext]
    exact hP (.rest t.text blanks) hin
  exact hcompletes.prospect hP (.start t.line column)
    (fun d hd => absurd hd (by simp [OpenLine.start])) hbehind

/-- A word without line feeds in the text of a logical line stands in the source. -/
theorem infix_of_mem_tokenize (h : tokenize source = .ok lines) (ht : t ∈ lines)
    (hw : '\n' ∉ w) (hin : w <:+: t.text) : w <:+: Text.unifyBreaks source := by
  obtain ⟨above, blanks, rest, hread⟩ := readFrom_of_mem_tokenize h t ht
  have hrest : w <:+: rest := hread.prospect (fun homits => homits.isInfix hw) hin
  rw [hread.whole, ← List.append_assoc]
  exact hrest.trans (List.suffix_append _ rest).isInfix

/-! ## Rows -/

theorem through_isPrefix (t : LogicalLine) (colon : Nat) : t.through colon <+: t.text :=
  ⟨_, Text.takeBytes_append_dropBytes (colon + 1) t.text⟩

theorem infix_text_of_mem_pieces {pos : Nat} (hx : x ∈ t.pieces pos) : x <:+: t.text := by
  obtain ⟨hmem, -⟩ := List.mem_filter.mp hx
  obtain ⟨s, hs, rfl⟩ := List.mem_map.mp hmem
  obtain ⟨⟨start, stop⟩, -, rfl⟩ := List.mem_map.mp hs
  have hstop : Text.takeBytes stop t.text <+: t.text :=
    ⟨_, Text.takeBytes_append_dropBytes stop t.text⟩
  have hstart : Text.sliceBytes start stop t.text <:+ Text.takeBytes stop t.text :=
    ⟨_, Text.takeBytes_append_dropBytes start (Text.takeBytes stop t.text)⟩
  exact (Text.trim_infix _).trans (hstart.isInfix.trans hstop.isInfix)

/-- A word in a row that a line gives stands in the text of the line, unless it stands in a header
that the tree brings along or begins in the keyword of one. -/
theorem infix_text_of_gives {ys : List (List Char)} (hgives : Gives t ys) (hx : x ∈ ys)
    (hin : w <:+: x)
    (hbare : ∀ kind header, LineKind.bareHeader? kind = some header → ¬w <:+: header)
    (hif : ∀ c ∈ w.head?, c ∉ "if".toList) : w <:+: t.text := by
  cases hgives with
  | simple => exact hin.trans (infix_text_of_mem_pieces hx)
  | decorator =>
    rw [List.mem_singleton.mp hx] at hin
    exact hin
  | header colon =>
    rcases List.mem_cons.mp hx with rfl | hx
    · exact hin.trans (through_isPrefix t colon).isInfix
    · exact hin.trans (infix_text_of_mem_pieces hx)
  | bare colon header hheader =>
    rcases List.mem_cons.mp hx with rfl | hx
    · exact absurd hin (hbare _ _ hheader)
    · exact hin.trans (infix_text_of_mem_pieces hx)
  | elif colon =>
    rcases List.mem_cons.mp hx with rfl | hx
    · exact absurd hin (hbare .elseClause _ rfl)
    rcases List.mem_cons.mp hx with rfl | hx
    · have hrest := infix_of_infix_append hin hif
      exact hrest.trans ((List.drop_suffix _ _).isInfix.trans (through_isPrefix t colon).isInfix)
    · exact hin.trans (infix_text_of_mem_pieces hx)

/-- Whether a text ends in a sign. -/
def EndsInSign (x : List Char) : Prop := ∃ c, x.getLast? = some c ∧ Text.isBlank c = false

theorem endsInSign_of_mem_pieces {pos : Nat} (hx : x ∈ t.pieces pos) : EndsInSign x := by
  obtain ⟨hmem, hne⟩ := List.mem_filter.mp hx
  obtain ⟨s, -, rfl⟩ := List.mem_map.mp hmem
  cases hlast : (Text.trim s).getLast? with
  | none =>
    rw [List.getLast?_eq_none_iff.mp hlast] at hne
    cases hne
  | some c => exact ⟨c, hlast, Text.not_isBlank_of_getLast?_trimEnd hlast⟩

theorem Faithful.getLast?_through (ht : Faithful t) {colon : Nat}
    (hcolon : t.headerColon? = some colon) : (t.through colon).getLast? = some ':' := by
  obtain ⟨blanks, f, hcourse⟩ := ht
  obtain ⟨u, v, l₁, l₂, hheading, rfl⟩ := hcourse.heading hcolon
  rw [hheading.through, List.getLast?_concat]

/-- Every row that a line gives ends in a sign. -/
theorem endsInSign_of_gives {ys : List (List Char)} (ht : Faithful t) (hgives : Gives t ys)
    (hx : x ∈ ys) : EndsInSign x := by
  cases hgives with
  | simple => exact endsInSign_of_mem_pieces hx
  | decorator hkind =>
    rw [List.mem_singleton.mp hx]
    obtain ⟨blanks, f, hcourse⟩ := ht
    obtain ⟨s, hs⟩ := List.head?_eq_some_iff.mp (head?_of_kind_decorator hkind)
    cases hlast : t.text.getLast? with
    | none =>
      rw [hs] at hlast
      cases List.getLast?_eq_none_iff.mp hlast
    | some c => exact ⟨c, hlast, hcourse.solid c hlast⟩
  | header colon _ hcolon =>
    rcases List.mem_cons.mp hx with rfl | hx
    · exact ⟨':', ht.getLast?_through hcolon, by decide⟩
    · exact endsInSign_of_mem_pieces hx
  | bare colon header hheader =>
    rcases List.mem_cons.mp hx with rfl | hx
    · rcases LineKind.eq_of_bareHeader? hheader with rfl | rfl | rfl <;>
        exact ⟨':', rfl, by decide⟩
    · exact endsInSign_of_mem_pieces hx
  | elif colon _ hcolon =>
    rcases List.mem_cons.mp hx with rfl | hx
    · exact ⟨':', rfl, by decide⟩
    rcases List.mem_cons.mp hx with rfl | hx
    · rw [EndsInSign, List.getLast?_append, List.getLast?_drop, ht.getLast?_through hcolon]
      split
      · exact ⟨'f', rfl, by decide⟩
      · exact ⟨':', rfl, by decide⟩
    · exact endsInSign_of_mem_pieces hx

end StepTrace.Python
