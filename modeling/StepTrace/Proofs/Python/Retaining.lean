import StepTrace.Proofs.Python.Gathering

/-!
# What rendering keeps of a source

The signs of a text are its characters but for blanks, the code of a logical line its signs without
the semicolons that part its statements. A program that is written again has the signs of its lines'
code one after another (`signs_render`), unless a header or a clause is lost: the header of a `try`,
`else` or `finally` clause is rebuilt from its keyword, whatever else stands before the colon
(`signs_render_clause_condition`), and a clause without statements is left out.
-/

set_option autoImplicit false

namespace StepTrace.Python

/-! ## Signs -/

/-- The characters of a text that are no blanks. -/
def signs (s : List Char) : List Char := s.filter fun c => !Text.isBlank c

variable {s u v x blanks : List Char} {l f : OpenLine} {t : LogicalLine} {pos colon : Nat}

theorem signs_append (s v : List Char) : signs (s ++ v) = signs s ++ signs v :=
  List.filter_append ..

theorem signs_of_allBlank (h : Text.allBlank s = true) : signs s = [] := by
  rw [signs, List.filter_eq_nil_iff]
  intro c hc
  rw [List.all_eq_true.mp h c hc]
  simp

theorem signs_signs (s : List Char) : signs (signs s) = signs s :=
  List.filter_eq_self.mpr fun _ hc => (List.mem_filter.mp hc).2

theorem signs_flatten (xs : List (List Char)) : signs xs.flatten = xs.flatMap signs := by
  induction xs with
  | nil => rfl
  | cons x xs ih => rw [List.flatten_cons, signs_append, ih, List.flatMap_cons]

theorem signs_trim (s : List Char) : signs (Text.trim s) = signs s := by
  obtain ⟨b, hb, hstart⟩ := Text.exists_append_trimStart s
  obtain ⟨b', hb', hend⟩ := Text.exists_trimEnd_append (Text.trimStart s)
  have hwhole : b ++ (Text.trim s ++ b') = s := by
    rw [Text.trim, hend, hstart]
  have hsigns := congrArg signs hwhole
  rwa [signs_append, signs_append, signs_of_allBlank hb, signs_of_allBlank hb', List.nil_append,
    List.append_nil] at hsigns

theorem signs_indented (depth : Nat) (x : List Char) :
    signs (Stmt.indented depth x) = signs x := by
  have hblank : Text.allBlank (List.replicate (4 * depth) ' ') = true := by
    rw [Text.allBlank, List.all_eq_true]
    intro c hc
    rw [List.eq_of_mem_replicate hc]
    decide
  rw [Stmt.indented, signs_append, signs_of_allBlank hblank, List.nil_append]

theorem signs_joinLines (ys : List (List Char)) :
    signs (Text.joinLines ys) = ys.flatMap signs := by
  induction ys with
  | nil => rfl
  | cons y ys ih =>
    by_cases hys : ys = []
    · rw [hys, Text.joinLines, List.flatMap_singleton]
    · have hbreak : signs ('\n' :: Text.joinLines ys) = signs (Text.joinLines ys) :=
        List.filter_cons_of_neg (by decide)
      rw [Text.joinLines_cons y ys hys, signs_append, hbreak, ih, List.flatMap_cons]

theorem flatMap_signs_of_stands {ys xs : List (List Char)} (h : List.Forall₂ Stands ys xs) :
    ys.flatMap signs = xs.flatMap signs := by
  induction h with
  | nil => rfl
  | cons hstands _ ih =>
    obtain ⟨depth, rfl⟩ := hstands
    rw [List.flatMap_cons, List.flatMap_cons, signs_indented, ih]

/-! ## Texts without their semicolons -/

/-- A text, which begins at an offset, without the characters at some offsets. -/
def without (ks : List Nat) : Nat → List Char → List Char
  | _, [] => []
  | o, c :: s =>
    if o ∈ ks then without ks (o + c.utf8Size) s else c :: without ks (o + c.utf8Size) s

theorem without_nil (o : Nat) (s : List Char) : without [] o s = s := by
  induction s generalizing o with
  | nil => rfl
  | cons c s ih => rw [without, if_neg (by simp), ih]

/-- Before the offsets all of a text is left. -/
theorem without_append {ks : List Nat} {o : Nat} (h : ∀ k ∈ ks, o + Text.byteSize u ≤ k) :
    without ks o (u ++ s) = u ++ without ks (o + Text.byteSize u) s := by
  induction u generalizing o with
  | nil => rfl
  | cons c u ih =>
    have hpos := c.utf8Size_pos
    have hnot : o ∉ ks := by
      intro ho
      have := h o ho
      rw [Text.byteSize] at this
      omega
    rw [List.cons_append, without, if_neg hnot, ih, Text.byteSize, Nat.add_assoc, List.cons_append]
    intro k hk
    have := h k hk
    rw [Text.byteSize] at this
    omega

/-- An offset before a text takes nothing off it. -/
theorem without_cons_of_lt {k o : Nat} (ks : List Nat) (h : k < o) (s : List Char) :
    without (k :: ks) o s = without ks o s := by
  induction s generalizing o with
  | nil => rfl
  | cons c s ih =>
    have hiff : o ∈ k :: ks ↔ o ∈ ks := by
      rw [List.mem_cons]
      exact ⟨fun h' => h'.resolve_left (by omega), .inr⟩
    rw [without, without, ih (by omega)]
    simp only [hiff]

/-- The stretches of a text are what is left of it without the offsets between them. -/
theorem flatten_stretchesOf {ks : List Nat} (h : Copies blanks l s f) (hl : Fresh l)
    (hbehind : l.behind = u.reverse) (hks : f.semicolons = ks.reverse ++ l.semicolons) :
    (stretchesOf (u ++ s) (Text.byteSize u) ks).flatten = without ks (Text.byteSize u) s := by
  induction ks generalizing l s u with
  | nil =>
    have hslice := Text.sliceBytes_byteSize u s []
    rw [List.append_nil] at hslice
    rw [stretchesOf_nil, hslice, List.flatten_singleton, without_nil]
  | cons k ks ih =>
    obtain ⟨w, v, l₁, l₂, hcut⟩ := h.firstCut hl hbehind hks
    have hstart := hcut.offset_succ
    -- the other semicolons stand behind the first
    have hlater : ∀ o ∈ ks, k + 1 ≤ o := by
      obtain ⟨-, ks', hks', hin⟩ := hcut.copies.signs (d := ';') (.inr rfl)
      have hsame : ks.reverse = ks' := List.append_cancel_right (hcut.rest.symm.trans hks')
      intro o ho
      have hle := (hin o (hsame ▸ List.mem_reverse.mpr ho)).1
      rwa [offset_of_behind hcut.behind, ← hstart] at hle
    have hall : ∀ o ∈ k :: ks, Text.byteSize u + Text.byteSize w ≤ o := by
      intro o ho
      rw [← Text.byteSize_append, ← hcut.offset]
      rcases List.mem_cons.mp ho with rfl | ho
      · exact Nat.le_refl _
      · have := hlater o ho
        omega
    have hsemi : k + (';' : Char).utf8Size = k + 1 := rfl
    rw [hcut.stretchesOf, List.flatten_cons, ih hcut.copies hcut.fresh hcut.behind hcut.rest,
      hcut.text, without_append hall, ← Text.byteSize_append, ← hcut.offset, without,
      if_pos List.mem_cons_self, hsemi, without_cons_of_lt ks (Nat.lt_add_one k), hstart]

/-- The signs of the simple statements of a line are those of its stretches. -/
theorem flatMap_signs_pieces (t : LogicalLine) (pos : Nat) :
    (t.pieces pos).flatMap signs = signs (t.stretches pos).flatten := by
  rw [signs_flatten, LogicalLine.pieces]
  induction t.stretches pos with
  | nil => rfl
  | cons x xs ih =>
    rw [List.map_cons, List.flatMap_cons, ← ih, ← signs_trim x]
    cases hx : Text.trim x with
    | nil => rfl
    | cons c r => rfl

/-! ## The code of a line -/

namespace LogicalLine

/-- The text of a line without its top-level semicolons. -/
def unparted (t : LogicalLine) : List Char := without t.semicolons 0 t.text

/-- The signs of a line without its top-level semicolons; an `elif` clause begins with `else:if`. -/
def code (t : LogicalLine) : List Char :=
  signs (if t.kind = .elifClause then "else:if".toList ++ t.unparted.drop "elif".toList.length
    else t.unparted)

end LogicalLine

/-- Whether a line can be written again from what a tree keeps of it: a header that is rebuilt is
its keyword and a colon, and no semicolon stands in a decorator or a header. -/
structure Retained (t : LogicalLine) : Prop where
  bare : ∀ header ∈ t.kind.bareHeader?, ∀ colon ∈ t.headerColon?, signs (t.through colon) = header
  headed : t.kind ≠ .simple ∨ t.isCase = true →
    ∀ colon ∈ t.headerColon?, ∀ k ∈ t.semicolons, colon < k
  decorator : t.kind = .decorator → t.semicolons = []

instance (t : LogicalLine) : Decidable (Retained t) :=
  decidable_of_iff ((∀ header ∈ t.kind.bareHeader?, ∀ colon ∈ t.headerColon?,
      signs (t.through colon) = header) ∧
    (t.kind ≠ .simple ∨ t.isCase = true →
      ∀ colon ∈ t.headerColon?, ∀ k ∈ t.semicolons, colon < k) ∧
    (t.kind = .decorator → t.semicolons = []))
    ⟨fun h => ⟨h.1, h.2.1, h.2.2⟩, fun h => ⟨h.bare, h.headed, h.decorator⟩⟩

theorem Faithful.flatten_stretches (ht : Faithful t) : (t.stretches 0).flatten = t.unparted := by
  obtain ⟨blanks, f, hcourse⟩ := ht
  rw [stretches_zero]
  refine flatten_stretchesOf (u := []) hcourse.copies (.start _ _) rfl ?_
  rw [hcourse.semicolons]
  exact (List.append_nil _).symm

/-- A line with no semicolon in its header is the header and its stretches. -/
theorem Faithful.through_append (ht : Faithful t) (hcolon : t.headerColon? = some colon)
    (hk : ∀ k ∈ t.semicolons, colon < k) :
    t.through colon ++ (t.stretches (colon + 1)).flatten = t.unparted := by
  obtain ⟨blanks, f, hcourse⟩ := ht
  obtain ⟨u, v, l₁, l₂, hheading, rfl⟩ := hcourse.heading hcolon
  obtain ⟨line, hnotes⟩ := hheading.notes
  have hall : t.semicolons.filter (fun o => decide (Text.byteSize u + 1 ≤ o)) = t.semicolons :=
    List.filter_eq_self.mpr fun o ho => decide_eq_true (hk o ho)
  have htext : t.text = u ++ [':'] ++ v := by
    rw [hheading.text, List.append_assoc]
    rfl
  have hparts := hheading.semicolons hcourse
  rw [hall] at hparts
  rw [hheading.through, stretches_eq, hall, htext, ← byteSize_colon,
    flatten_stretchesOf hheading.rest hnotes.fresh hheading.behind hparts, LogicalLine.unparted,
    htext, without_append, Nat.zero_add]
  intro k hmem
  rw [Nat.zero_add, byteSize_colon]
  exact hk k hmem

theorem ne_elifClause_of_isCase (h : t.isCase = true) : t.kind ≠ .elifClause := by
  intro hkind
  rw [LogicalLine.isCase, firstWord_of_kind_elif hkind, Bool.and_eq_true] at h
  exact absurd h.1 (by decide)

/-- The header of an `elif` clause begins with its keyword. -/
theorem Faithful.length_through_elif (ht : Faithful t) (hkind : t.kind = .elifClause)
    (hcolon : t.headerColon? = some colon) :
    "elif".toList.length ≤ (t.through colon).length := by
  obtain ⟨blanks, f, hcourse⟩ := ht
  obtain ⟨u, v, l₁, l₂, hheading, rfl⟩ := hcourse.heading hcolon
  have hword := firstWord_of_kind_elif hkind
  rw [LogicalLine.firstWord, hheading.text, leadingWord_append_of_stop u (by decide)] at hword
  obtain ⟨w, rfl, -⟩ := exists_eq_append_of_leadingWord hword
  rw [hheading.through, List.append_assoc, List.length_append]
  exact Nat.le_add_right _ _

/-- The rows that a retained line gives have the signs of its code. -/
theorem flatMap_signs_of_gives {xs : List (List Char)} (ht : Faithful t) (hretained : Retained t)
    (h : Gives t xs) : xs.flatMap signs = t.code := by
  cases h with
  | simple hkind =>
    rw [flatMap_signs_pieces, ht.flatten_stretches, LogicalLine.code,
      if_neg (by rw [hkind]; decide)]
  | decorator hkind =>
    rw [List.flatMap_singleton, LogicalLine.code, if_neg (by rw [hkind]; decide),
      LogicalLine.unparted, hretained.decorator hkind, without_nil]
  | header colon hkeeps hcolon =>
    have hne : t.kind ≠ .elifClause := by
      rcases hkeeps with hkeeps | hcase
      · intro hkind
        rw [hkind] at hkeeps
        cases hkeeps
      · exact ne_elifClause_of_isCase hcase
    have hheaded := hretained.headed (hkeeps.imp_left fun h hkind => by
      rw [hkind] at h
      cases h) colon hcolon
    rw [List.flatMap_cons, flatMap_signs_pieces, ← signs_append, ht.through_append hcolon hheaded,
      LogicalLine.code, if_neg hne]
  | bare colon header hheader hcolon =>
    have hne : t.kind ≠ .elifClause ∧ t.kind ≠ .simple := by
      constructor
      · intro hkind
        rw [hkind] at hheader
        cases hheader
      · intro hkind
        rw [hkind] at hheader
        cases hheader
    -- the header is rebuilt from its keyword, and nothing else stood in it
    have hsame : signs header = signs (t.through colon) := by
      rw [← hretained.bare header hheader colon hcolon, signs_signs]
    rw [List.flatMap_cons, hsame, flatMap_signs_pieces, ← signs_append,
      ht.through_append hcolon (hretained.headed (.inl hne.2) colon hcolon), LogicalLine.code,
      if_neg hne.1]
  | elif colon hkind hcolon =>
    have hheaded := hretained.headed (.inl (by rw [hkind]; decide)) colon hcolon
    rw [List.flatMap_cons, List.flatMap_cons, flatMap_signs_pieces, ← signs_append, ← signs_append,
      LogicalLine.code, if_pos hkind, ← ht.through_append hcolon hheaded,
      List.drop_append_of_le_length (ht.length_through_elif hkind hcolon)]
    rfl

/-! ## The code of a program -/

/-- Whether nothing of some logical lines is lost: each can be written again from what a tree keeps
of it, and no clause is without statements. -/
def AllRetained (lines : List LogicalLine) : Prop :=
  (∀ t ∈ lines, Retained t) ∧ AllSolid lines

instance (lines : List LogicalLine) : Decidable (AllRetained lines) :=
  inferInstanceAs (Decidable (_ ∧ _))

/-- A program that is written again has the code of its lines one after another. -/
theorem signs_render {source : List Char} {program : List Stmt} {lines : List LogicalLine}
    (hread : parse source = .ok program) (htokens : tokenize source = .ok lines)
    (hretained : AllRetained lines) :
    signs (Stmt.render program) = lines.flatMap LogicalLine.code := by
  obtain ⟨lines', xs, htokens', hgathers, hshows⟩ := gathers_of_parse hread
  obtain rfl : lines = lines' := Except.ok.inj (htokens.symm.trans htokens')
  obtain ⟨rows, hrows, rfl⟩ := hgathers.forall₂_gives hretained.2
  rw [Stmt.render, signs_joinLines, flatMap_signs_of_stands (hshows 0)]
  have hfaithful := faithful_of_mem_tokenize htokens
  have hall := hretained.1
  clear hgathers hshows hretained htokens htokens' hread
  -- line by line
  induction hrows with
  | nil => rfl
  | cons hgives _ ih =>
    rw [List.flatten_cons, List.flatMap_append, List.flatMap_cons,
      flatMap_signs_of_gives (hfaithful _ List.mem_cons_self) (hall _ List.mem_cons_self) hgives,
      ih (fun t ht => hfaithful t (List.mem_cons_of_mem _ ht))
        fun t ht => hall t (List.mem_cons_of_mem _ ht)]

/-- A source with clauses, decorators and several statements on a line. -/
def clausesSource : List Char :=
  "@d\ndef f(): x; y\nif a: b\nelif c:\n  d;\nelse :\n  e\ntry: u\nfinally: v".toList

theorem signs_render_clausesSource : ∃ program lines, parse clausesSource = .ok program ∧
    tokenize clausesSource = .ok lines ∧ AllRetained lines ∧
    signs (Stmt.render program) = lines.flatMap LogicalLine.code := by
  have hread : (parse clausesSource).isOk = true := by decide +kernel
  have hretained : ∀ lines ∈ (tokenize clausesSource).toOption, AllRetained lines := by
    decide +kernel
  cases h : parse clausesSource with
  | error e =>
    rw [h] at hread
    cases hread
  | ok program =>
    obtain ⟨lines, htokens, -⟩ := reads_of_parse h
    have hlines := hretained lines (by rw [htokens]; rfl)
    exact ⟨program, lines, rfl, htokens, hlines, signs_render h htokens hlines⟩

/-- What stands between `else` and its colon is lost. -/
theorem signs_render_clause_condition :
    ¬∀ source program lines, parse source = .ok program → tokenize source = .ok lines →
      signs (Stmt.render program) = lines.flatMap LogicalLine.code := by
  intro h
  have hrendered : (parse "if a:\n  b\nelse c:\n  d".toList).map
      (fun program => signs (Stmt.render program)) = .ok "ifa:belse:d".toList := by
    decide +kernel
  have hcode : (tokenize "if a:\n  b\nelse c:\n  d".toList).map
      (fun lines => lines.flatMap LogicalLine.code) = .ok "ifa:belsec:d".toList := by
    decide +kernel
  cases hread : parse "if a:\n  b\nelse c:\n  d".toList with
  | error e =>
    rw [hread] at hrendered
    cases hrendered
  | ok program =>
    obtain ⟨lines, htokens, -⟩ := reads_of_parse hread
    rw [hread] at hrendered
    rw [htokens] at hcode
    have hsigns : signs (Stmt.render program) = "ifa:belse:d".toList := Except.ok.inj hrendered
    have hlines : lines.flatMap LogicalLine.code = "ifa:belsec:d".toList := Except.ok.inj hcode
    have hsame := h _ program lines hread htokens
    rw [hsigns, hlines] at hsame
    revert hsame
    decide

end StepTrace.Python
