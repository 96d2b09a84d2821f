import StepTrace.Proofs.Python.Gaps
import StepTrace.Proofs.Python.Preprocess
import StepTrace.Proofs.Python.Stripping

/-!
# Blank lines in what an interpreter is fed

An interactive interpreter takes a blank line as the end of the statement it stands in. The rows of
a program begin and end in signs, so they hold a blank line only where the text of a logical line
has a gap. If no string of a source goes on over a line feed there are no gaps, neither when the
source is read nor when it is read again with its markers: of what is fed only the line before the
end statement is blank (`preprocess_one_blank`).
-/

set_option autoImplicit false

namespace StepTrace.Python

open Stmt

variable {s x y : List Char} {c : Char} {t : LogicalLine} {source : List Char}
  {program program' : List Stmt}

/-! ## Texts without blank lines -/

/-- Whether no line of a text is blank. -/
def Dense (s : List Char) : Prop := ∀ row ∈ Text.splitLines s, Text.allBlank row = false

theorem Dense.gapless (h : Dense s) : Gapless s := by
  rintro b hb ⟨before, after, rfl⟩
  obtain ⟨row, hrow⟩ := List.exists_mem_of_ne_nil _ (Text.splitLines_ne_nil b)
  have hmem : row ∈ Text.splitLines (before ++ '\n' :: (b ++ ['\n']) ++ after) := by
    have hcut : before ++ '\n' :: (b ++ ['\n']) ++ after =
        before ++ '\n' :: (b ++ '\n' :: after) := by
      simp
    rw [hcut, Text.splitLines_append_newline, Text.splitLines_append_newline]
    exact List.mem_append_right _ (List.mem_append_left _ hrow)
  have hblank : Text.allBlank row = true := List.all_eq_true.mpr fun c hc =>
    List.all_eq_true.mp hb c ((Text.infix_of_mem_splitLines hrow).subset hc)
  exact absurd (hblank.symm.trans (h row hmem)) (by simp)

/-- Whether a text begins with a sign. -/
def BeginsInSign (x : List Char) : Prop := ∃ c, x.head? = some c ∧ Text.isBlank c = false

theorem BeginsInSign.allBlank (h : BeginsInSign (x ++ y)) (hy : ∀ c ∈ y.head?, c = '\n') :
    Text.allBlank x = false := by
  obtain ⟨c, hc, hsign⟩ := h
  cases x with
  | nil =>
    rw [hy c hc] at hsign
    cases hsign
  | cons d x =>
    cases hc
    exact allBlank_cons_of_sign hsign x

theorem EndsInSign.reverse (h : EndsInSign x) : BeginsInSign x.reverse := by
  obtain ⟨c, hc, hsign⟩ := h
  exact ⟨c, by rw [List.head?_reverse, hc], hsign⟩

/-- A text without gaps that begins and ends with a sign has no blank line. -/
theorem Gapless.dense (h : Gapless x) (hbegin : BeginsInSign x) (hend : EndsInSign x) :
    Dense x := by
  intro row hrow
  obtain ⟨before, after, hrows⟩ := List.append_of_mem hrow
  have hjoin := Text.joinLines_splitLines x
  rw [hrows] at hjoin
  by_cases hbefore : before = []
  · -- the first line
    subst hbefore
    rw [← hjoin] at hbegin
    by_cases hafter : after = []
    · subst hafter
      refine BeginsInSign.allBlank (y := []) ?_ (by simp)
      rwa [List.append_nil]
    · rw [List.nil_append, Text.joinLines_cons _ _ hafter] at hbegin
      exact hbegin.allBlank fun c hc => by
        cases hc
        rfl
  · by_cases hafter : after = []
    · -- the last line
      subst hafter
      rw [Text.joinLines_append _ _ hbefore (by simp), Text.joinLines] at hjoin
      have hback := hend.reverse
      rw [← hjoin, List.reverse_append, List.reverse_cons, List.append_assoc] at hback
      have hrow := hback.allBlank fun c hc => by
        cases hc
        rfl
      rwa [Text.allBlank_reverse] at hrow
    · -- a line with others before and behind it, which would be a gap if it were blank
      refine Bool.eq_false_iff.mpr fun hblank => h row hblank ?_
      refine ⟨Text.joinLines before, Text.joinLines after, ?_⟩
      rw [← hjoin, Text.joinLines_append _ _ hbefore (by simp), Text.joinLines_cons _ _ hafter]
      simp

theorem dense_of_not_mem (h : '\n' ∉ x) (hend : EndsInSign x) : Dense x := by
  rw [Dense, Text.splitLines_of_not_mem h, List.forall_mem_singleton]
  obtain ⟨c, hc, hsign⟩ := hend
  refine Bool.eq_false_iff.mpr fun hblank => ?_
  have hlast := List.all_eq_true.mp hblank c (List.mem_of_getLast? hc)
  exact absurd (hsign.symm.trans hlast) (by simp)

theorem Dense.cons (h : Dense s) (hc : c ≠ '\n') : Dense (c :: s) := by
  obtain ⟨first, rest, hrows⟩ := List.exists_cons_of_ne_nil (Text.splitLines_ne_nil s)
  rw [Dense, hrows, List.forall_mem_cons] at h
  have hcut : Text.splitLines (c :: s) = (c :: first) :: rest := by
    rw [Text.splitLines] at hrows ⊢
    rw [Text.pieces, if_neg (by simpa using hc), hrows]
  rw [Dense, hcut, List.forall_mem_cons]
  refine ⟨?_, h.2⟩
  rw [Text.allBlank_cons, h.1, Bool.and_false]

theorem Dense.indented (h : Dense x) (depth : Nat) : Dense (indented depth x) := by
  rw [Stmt.indented]
  induction 4 * depth with
  | zero => exact h
  | succ n ih => exact ih.cons (by decide)

/-- Rows put together have the lines that each of them has. -/
theorem dense_joinLines {ys : List (List Char)} (hne : ys ≠ []) (h : ∀ y ∈ ys, Dense y) :
    Dense (Text.joinLines ys) := by
  intro row hrow
  rw [Text.splitLines_joinLines ys hne, List.mem_flatMap] at hrow
  obtain ⟨y, hy, hrow⟩ := hrow
  exact h y hy row hrow

/-! ## Rows of a program -/

theorem beginsInSign_of_mem_pieces {pos : Nat} (hx : x ∈ t.pieces pos) : BeginsInSign x := by
  obtain ⟨hmem, hne⟩ := List.mem_filter.mp hx
  obtain ⟨s, -, rfl⟩ := List.mem_map.mp hmem
  cases hhead : (Text.trim s).head? with
  | none =>
    rw [List.head?_eq_none_iff.mp hhead] at hne
    cases hne
  | some c => exact ⟨c, hhead, Text.not_isBlank_of_head?_trim hhead⟩

/-- A line whose header is kept begins with a word. -/
theorem firstWord_ne_nil (h : t.kind.keepsHeader = true ∨ t.isCase = true) : t.firstWord ≠ [] := by
  intro hnil
  rcases h with hkeeps | hcase
  · rw [LogicalLine.kind, hnil] at hkeeps
    split at hkeeps
    · cases hkeeps
    · cases hkeeps
  · rw [LogicalLine.isCase, hnil] at hcase
    cases hcase

theorem beginsInSign_of_firstWord (h : t.firstWord ≠ []) : BeginsInSign t.text := by
  rw [LogicalLine.firstWord, Text.leadingWord] at h
  cases htext : t.text with
  | nil =>
    rw [htext] at h
    exact absurd rfl h
  | cons c s =>
    rw [htext, List.takeWhile_cons] at h
    split at h
    · next hword =>
      refine ⟨c, rfl, Bool.eq_false_iff.mpr fun hblank => ?_⟩
      exact absurd ((isWordChar_of_isBlank hblank).symm.trans hword) (by simp)
    · exact absurd rfl h

/-- Every row that a line gives begins with a sign. -/
theorem beginsInSign_of_gives {ys : List (List Char)} (ht : Faithful t) (hgives : Gives t ys)
    (hx : x ∈ ys) : BeginsInSign x := by
  cases hgives with
  | simple => exact beginsInSign_of_mem_pieces hx
  | decorator hkind =>
    rw [List.mem_singleton.mp hx]
    exact ⟨'@', head?_of_kind_decorator hkind, by decide⟩
  | header colon hkeeps hcolon =>
    rcases List.mem_cons.mp hx with rfl | hx
    · obtain ⟨c, hc, hsign⟩ := beginsInSign_of_firstWord (firstWord_ne_nil hkeeps)
      refine ⟨c, ?_, hsign⟩
      obtain ⟨rest, hrest⟩ := through_isPrefix t colon
      cases hthrough : t.through colon with
      | nil =>
        have hlast := ht.getLast?_through hcolon
        rw [hthrough] at hlast
        cases hlast
      | cons d u =>
        rw [← hrest, hthrough] at hc
        exact hc
    · exact beginsInSign_of_mem_pieces hx
  | bare colon header hheader =>
    rcases List.mem_cons.mp hx with rfl | hx
    · rcases LineKind.eq_of_bareHeader? hheader with rfl | rfl | rfl
      · exact ⟨'t', rfl, by decide⟩
      · exact ⟨'e', rfl, by decide⟩
      · exact ⟨'f', rfl, by decide⟩
    · exact beginsInSign_of_mem_pieces hx
  | elif colon =>
    rcases List.mem_cons.mp hx with rfl | hx
    · exact ⟨'e', rfl, by decide⟩
    rcases List.mem_cons.mp hx with rfl | hx
    · exact ⟨'i', rfl, by decide⟩
    · exact beginsInSign_of_mem_pieces hx

/-- A row that a line gives has no gaps if the text of the line has none. -/
theorem gapless_of_gives {ys : List (List Char)} (hgives : Gives t ys) (hx : x ∈ ys)
    (ht : Gapless t.text) : Gapless x := by
  intro b hb hin
  refine ht b hb (infix_text_of_gives hgives hx hin (fun kind header hheader hheld => ?_) ?_)
  · have hnot : '\n' ∉ header := by
      rcases LineKind.eq_of_bareHeader? hheader with rfl | rfl | rfl <;> decide
    exact hnot (hheld.subset List.mem_cons_self)
  · rintro _ ⟨⟩
    decide

/-- The rows of a program hold no blank line if the texts of its lines have no gaps. -/
theorem dense_row {indent : Nat} {lines : List LogicalLine} (h : parse source = .ok program)
    (htokens : tokenize source = .ok lines) (htexts : ∀ t ∈ lines, Gapless t.text)
    (hy : y ∈ writtenAll indent program) : Dense y := by
  obtain ⟨lines', htokens', t, ht, xs, hgives, x, hx, depth, rfl⟩ := exists_gives_of_row h hy
  obtain rfl : lines = lines' := Except.ok.inj (htokens.symm.trans htokens')
  have hfaithful := faithful_of_mem_tokenize htokens t ht
  have hbegin := beginsInSign_of_gives hfaithful hgives hx
  have hend := endsInSign_of_gives hfaithful hgives hx
  exact ((gapless_of_gives hgives hx (htexts t ht)).dense hbegin hend).indented depth

theorem dense_marker (depth line : Nat) : Dense (indented depth (markerText line)) :=
  have hmarker := strippable_marker depth line
  dense_of_not_mem (hmarker.line (isMarked_indented_markerText depth line)) hmarker.sign

/-- With the markers between them the rows make up a text without gaps. -/
theorem gapless_render_markAll (h : ∀ y ∈ writtenAll 0 program, Dense y) :
    Gapless (render (markAll program)) := by
  rw [render]
  by_cases hnil : writtenAll 0 (markAll program) = []
  · rw [hnil]
    exact gapless_of_not_mem (by simp [Text.joinLines])
  · refine (dense_joinLines hnil fun z hz => ?_).gapless
    rcases (sprinkled_markAll 0 program).mem_or_marker hz with hy | ⟨depth, line, rfl⟩
    · exact h z hy
    · exact dense_marker depth line

/-- Inside the `try` statement that reports its exceptions a program has no blank line either. -/
theorem dense_render_guarded (h : ∀ y ∈ writtenAll 1 program, Dense y) :
    Dense (render [guarded program]) := by
  have hrow : ∀ depth x, '\n' ∉ x → EndsInSign x → Dense (indented depth x) :=
    fun depth x hx hend => (dense_of_not_mem hx hend).indented depth
  have hrows : writtenAll 0 [guarded program] =
      indented 0 "try:".toList :: indented 1 "import traceback".toList :: writtenAll 1 program ++
        [indented 0 "except Exception:".toList, indented 1 "traceback.print_exc()".toList] := by
    rw [guarded, writtenAll, written]
    simp [writtenAll, written, writtenClauses]
  rw [render, hrows]
  refine dense_joinLines (by simp) fun y hy => ?_
  rw [List.cons_append, List.cons_append, List.mem_cons, List.mem_cons, List.mem_append,
    List.mem_cons, List.mem_singleton] at hy
  rcases hy with rfl | rfl | hy | rfl | rfl
  · exact hrow _ _ (by decide) ⟨':', rfl, by decide⟩
  · exact hrow _ _ (by decide) ⟨'k', rfl, by decide⟩
  · exact h y hy
  · exact hrow _ _ (by decide) ⟨':', rfl, by decide⟩
  · exact hrow _ _ (by decide) ⟨')', rfl, by decide⟩

/-! ## What an interpreter is fed -/

variable {launch : LaunchCommand} {verdict : Verdict} {p : List Char}

/-- What is prepared was read twice. -/
theorem exists_of_preprocess (h : (Adapter.python launch).preprocess verdict source = .ok p) :
    ∃ program program', parse source = .ok program ∧
      parse (render (markAll program)) = .ok program' ∧
      p = render [guarded program'] ++ '\n' :: '\n' :: (Adapter.python launch).endStatement := by
  cases verdict with
  | refused report => cases h
  | accepted =>
    cases hread : parse source with
    | error e =>
      rw [Adapter.preprocess, show (Adapter.python launch).instrument source =
        ((parse source).map _).mapError _ from rfl, hread] at h
      cases h
    | ok program =>
      cases hmarked : parse (render (markAll program)) with
      | error e =>
        rw [preprocess_refused hread hmarked] at h
        cases h
      | ok program' =>
        rw [preprocess_eq hread hmarked] at h
        exact ⟨program, program', rfl, hmarked, (Except.ok.inj h).symm⟩

/-- If no string of a source goes on over a line feed, a single line of what is fed is blank: the
one before the end statement. -/
theorem preprocess_one_blank (h : (Adapter.python launch).preprocess verdict source = .ok p)
    (hquiet : quiet source = true) :
    ∃ rows, Text.splitLines p = rows ++ [[], (Adapter.python launch).endStatement] ∧
      (∀ row ∈ rows, Text.allBlank row = false) ∧
      Text.allBlank (Adapter.python launch).endStatement = false := by
  obtain ⟨program, program', hread, hmarked, rfl⟩ := exists_of_preprocess h
  obtain ⟨lines, -, htokens, -⟩ := gathers_of_parse hread
  obtain ⟨lines', -, htokens', -⟩ := gathers_of_parse hmarked
  -- the first reading is quiet, and what is written from it has no gaps for the second
  have hrows : ∀ y ∈ writtenAll 0 program, Dense y := fun y hy =>
    dense_row hread htokens (gapless_of_quiet htokens hquiet) hy
  have hrows' : ∀ y ∈ writtenAll 1 program', Dense y := fun y hy =>
    dense_row hmarked htokens' (gapless_of_gapless htokens' (gapless_render_markAll hrows)) hy
  refine ⟨Text.splitLines (render [guarded program']), ?_, dense_render_guarded hrows', rfl⟩
  have hend : '\n' ∉ (Adapter.python launch).endStatement := by
    show '\n' ∉ "print(\x22".toList ++ Marker.ending ++ "\x22)".toList
    decide
  rw [Text.splitLines_append_newline]
  show _ ++ Text.splitLines ([] ++ '\n' :: _) = _
  rw [Text.splitLines_append_newline, Text.splitLines_of_not_mem hend]
  rfl

/-- A source with blank lines and comments in brackets, in a block and in a replacement field, and
with a statement that a backslash continues. -/
def spacedSource : List Char :=
  ("a = [1,\n\n  # b\n  2]\n\nif a:  # c\n\n  # d\n  print(f\x27\x7ba[\n\n0]\x7d\x27)\n" ++
    "  e = 1 + \\\n  2\n").toList

theorem preprocess_one_blank_spacedSource : quiet spacedSource = true ∧
    ∃ p, (Adapter.python ⟨"python3", ["-i"]⟩).preprocess .accepted spacedSource = .ok p ∧
      ∃ rows, Text.splitLines p =
          rows ++ [[], (Adapter.python ⟨"python3", ["-i"]⟩).endStatement] ∧
        (∀ row ∈ rows, Text.allBlank row = false) ∧
        Text.allBlank (Adapter.python ⟨"python3", ["-i"]⟩).endStatement = false := by
  have hquiet : quiet spacedSource = true := by decide +kernel
  have hread : ((Adapter.python ⟨"python3", ["-i"]⟩).preprocess .accepted spacedSource).isOk =
      true := by
    decide +kernel
  cases h : (Adapter.python ⟨"python3", ["-i"]⟩).preprocess .accepted spacedSource with
  | error e =>
    rw [h] at hread
    cases hread
  | ok p => exact ⟨hquiet, p, rfl, preprocess_one_blank h hquiet⟩

end StepTrace.Python
