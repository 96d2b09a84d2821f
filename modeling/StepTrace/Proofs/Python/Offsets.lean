import StepTrace.Proofs.Python.Nesting
import StepTrace.Proofs.Python.Numbering
import StepTrace.Proofs.Python.Provenance
import Mathlib.Data.List.TakeWhile

/-!
# Offsets of logical lines

A logical line knows where it stands and where its signs are. Its number is that of the row that its
text begins on (`ReadFrom.beginsOn`), and its offsets point at colons and semicolons outside every
bracket and string (`Faithful.marks`), whatever was left out of the text while it was gathered: they
are those of the reader on its way through the finished text.
-/

set_option autoImplicit false

namespace StepTrace.Python

variable {l l₁ l' f : OpenLine} {line : Nat} {c d : Char} {s next after blanks : List Char}
  {t : LogicalLine} {ks : List Nat}

/-! ## Rows -/

/-- The text of a line begins on the row with its number, behind an indentation. -/
def BeginsOn (source : List Char) (t : LogicalLine) : Prop :=
  1 ≤ t.line ∧ ∃ row, (Text.splitLines source)[t.line - 1]? = some row ∧
    t.text.takeWhile (· ≠ '\n') <+: row.dropWhile isIndentation

theorem head?_splitLines (s : List Char) :
    (Text.splitLines s)[0]? = some (s.takeWhile (· ≠ '\n')) := by
  induction s with
  | nil => rfl
  | cons c s ih =>
    rw [Text.splitLines, Text.pieces]
    by_cases hc : c = '\n'
    · simp [hc]
    · rw [if_neg (by simpa using hc), List.takeWhile_cons_of_pos (by simpa using hc)]
      split
      · next hnil => exact absurd hnil (Text.pieces_ne_nil _ s)
      · next p ps hpieces =>
        rw [Text.splitLines, hpieces] at ih
        exact congrArg (Option.map (c :: ·)) ih

/-- The row behind some ended rows. -/
theorem getElem?_splitLines {above : List Char} (h : ∀ c ∈ above.getLast?, c = '\n')
    (s : List Char) :
    (Text.splitLines (above ++ s))[Text.breaks above]? = some (s.takeWhile (· ≠ '\n')) := by
  cases hlast : above.getLast? with
  | none =>
    rw [List.getLast?_eq_none_iff.mp hlast]
    exact head?_splitLines s
  | some c =>
    obtain ⟨a, rfl⟩ := List.getLast?_eq_some_iff.mp hlast
    obtain rfl := h c hlast
    have hbreaks : Text.breaks (a ++ ['\n']) = (Text.splitLines a).length := by
      rw [Text.length_splitLines, Text.breaks, Text.breaks, List.count_append]
      rfl
    rw [List.append_assoc, List.singleton_append, Text.splitLines_append_newline, hbreaks,
      List.getElem?_append_right (Nat.le_refl _), Nat.sub_self]
    exact head?_splitLines s

theorem ReadFrom.beginsOn {source above rest : List Char}
    (h : ReadFrom 1 source t above blanks rest) : BeginsOn source t := by
  have hnumber := h.number
  have hrow := getElem?_splitLines h.ended (blanks ++ rest)
  rw [← h.whole] at hrow
  refine ⟨by omega, (blanks ++ rest).takeWhile (· ≠ '\n'), ?_, ?_⟩
  · rw [hnumber, Nat.add_sub_cancel_left]
    exact hrow
  · have hnone : '\n' ∉ t.text.takeWhile (· ≠ '\n') := fun hmem => by
      simpa using List.mem_takeWhile_imp hmem
    have hbegins : t.text.takeWhile (· ≠ '\n') <+: rest :=
      h.prospect (fun homits => homits.isPrefix hnone) (List.takeWhile_prefix _)
    obtain ⟨column, c, s, g, rfl, hc, -⟩ := h.reading
    have hblank : isIndentation c = false := by
      simp [isIndentation, hc.1, hc.2.1, hc.2.2.1]
    have hline : c ≠ '\n' := hc.2.2.2.1
    have hblanks : ∀ b ∈ blanks, b ≠ '\n' := by
      rintro _ hb rfl
      exact absurd (h.indented _ hb) (by decide)
    -- the row is the indentation and what comes up to the line feed
    rw [List.takeWhile_append_of_pos (by simpa using hblanks),
      List.dropWhile_append_of_pos h.indented, List.takeWhile_cons_of_pos (by simpa using hline),
      List.dropWhile_cons_of_neg (by simpa using hblank),
      ← List.takeWhile_cons_of_pos (by simpa using hline)]
    obtain ⟨z, hz⟩ := hbegins
    have hrow : ∀ b ∈ t.text.takeWhile (· ≠ '\n'), b ≠ '\n' := fun b hb => by
      simpa using List.mem_takeWhile_imp hb
    rw [← hz, List.takeWhile_append_of_pos (by simpa using hrow)]
    exact List.prefix_append _ _

/-! ## Signs -/

/-- Some offsets into a text, in order, each of a sign outside every bracket and string. -/
structure Marks (text : List Char) (d : Char) (ks : List Nat) : Prop where
  increasing : ks.Pairwise (· < ·)
  within : ∀ k ∈ ks, k < Text.byteSize text
  stands : ∀ k ∈ ks, ∃ u v, text = u ++ d :: v ∧ k = Text.byteSize u ∧ Whole false [] u ∧
    (d = ':' → v.head? ≠ some '=')

/-- A sign that a text has was there before or stands in it, where nothing is open. -/
theorem Copies.noted {k : Nat} (h : Copies after l s l') (hd : d = ':' ∨ d = ';')
    (hk : k ∈ l'.signs d) : k ∈ l.signs d ∨ ∃ u v l₁ l₂ line, s = u ++ d :: v ∧
      Copies (d :: (v ++ after)) l u l₁ ∧ Notes d l₁ line (v ++ after) l₂ ∧ k = l₁.offset := by
  -- the first step that notes the offset stands at the sign
  induction h with
  | nil => exact .inl hk
  | taken k' hk' _ ih =>
    refine (ih hk).imp_right ?_
    rintro ⟨u, v, l₁, l₂, line, rfl, hu, hrest⟩
    exact ⟨_ :: u, v, l₁, l₂, line, rfl, .taken k' hk' hu, hrest⟩
  | @kept l l₂ l' c s line hkeeps _ ih =>
    rcases ih hk with hmem | ⟨u, v, l₁, l₃, line', rfl, hu, hrest⟩
    · rcases hkeeps.notes hd with hsame | ⟨rfl, hnotes⟩
      · exact .inl (hsame ▸ hmem)
      · rw [hnotes.signs] at hmem
        refine (List.mem_cons.mp hmem).symm.imp_right fun hoffset => ?_
        exact ⟨[], s, l, l₂, line, rfl, .nil l, hnotes, hoffset⟩
    · rw [List.append_assoc] at hkeeps
      exact .inr ⟨c :: u, v, l₁, l₃, line', rfl, .kept line hkeeps hu, hrest⟩

/-- Whether the signs of a line stand before its end, the last first. -/
def Ordered (d : Char) (l : OpenLine) : Prop :=
  (l.signs d).Pairwise (· > ·) ∧ ∀ k ∈ l.signs d, k < l.offset

theorem Keeps.ordered (h : Keeps l line c next l₁) (hd : d = ':' ∨ d = ';') (hl : Ordered d l) :
    Ordered d l₁ := by
  have hlt := h.offset_lt
  have hbelow : ∀ k ∈ l.signs d, k < l₁.offset := fun k hk => (hl.2 k hk).trans hlt
  rcases h.notes hd with hsame | ⟨-, hnotes⟩
  · rw [Ordered, hsame]
    exact ⟨hl.1, hbelow⟩
  · rw [Ordered, hnotes.signs]
    exact ⟨List.pairwise_cons.mpr ⟨hl.2, hl.1⟩, List.forall_mem_cons.mpr ⟨hlt, hbelow⟩⟩

theorem Copies.ordered (h : Copies after l s l') (hd : d = ':' ∨ d = ';') (hl : Ordered d l) :
    Ordered d l' := by
  induction h with
  | nil => exact hl
  | taken _ _ _ ih => exact ih hl
  | kept _ hkeeps _ ih => exact ih (hkeeps.ordered hd hl)

theorem Course.marks {blanks : List Char} (ht : Course t blanks f) (hd : d = ':' ∨ d = ';')
    (hks : f.signs d = ks.reverse) : Marks t.text d ks := by
  have hstart : (OpenLine.start t.line t.indent).signs d = [] := by
    rcases hd with rfl | rfl <;> rfl
  have hordered := ht.copies.ordered hd ⟨by simp [hstart], by simp [hstart]⟩
  have hstands : ∀ k ∈ ks, ∃ u v, t.text = u ++ d :: v ∧ k = Text.byteSize u ∧ Whole false [] u ∧
      (d = ':' → v.head? ≠ some '=') := by
    intro k hk
    have hmem : k ∈ f.signs d := by rwa [hks, List.mem_reverse]
    rcases ht.copies.noted hd hmem with hold | ⟨u, v, l₁, l₂, line, htext, hu, hnotes, rfl⟩
    · rw [hstart] at hold
      cases hold
    have hbehind : l₁.behind = u.reverse := by
      rw [hu.text_of_skip rfl hnotes.keeps.skip]
      exact List.append_nil _
    refine ⟨u, v, htext, offset_of_behind hbehind,
      hu.whole hnotes.keeps.skip hnotes.frames, fun hcolon hequals => ?_⟩
    obtain ⟨v, rfl⟩ := List.head?_eq_some_iff.mp hequals
    exact hnotes.equals hcolon rfl
  refine ⟨?_, fun k hk => ?_, hstands⟩
  · rw [← List.pairwise_reverse, ← hks]
    exact hordered.1
  · obtain ⟨u, v, htext, rfl, -⟩ := hstands k hk
    have hpos := d.utf8Size_pos
    rw [htext, Text.byteSize_append, Text.byteSize]
    omega

/-- The offsets of a line point at its top-level colons and semicolons. -/
theorem Faithful.marks (ht : Faithful t) :
    Marks t.text ':' t.colons ∧ Marks t.text ';' t.semicolons := by
  obtain ⟨blanks, f, hcourse⟩ := ht
  exact ⟨hcourse.marks (.inl rfl) hcourse.colons, hcourse.marks (.inr rfl) hcourse.semicolons⟩

end StepTrace.Python
