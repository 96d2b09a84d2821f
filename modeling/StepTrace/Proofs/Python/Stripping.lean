import StepTrace.Proofs.Python.Numbering
import StepTrace.Proofs.Python.Provenance
import StepTrace.Python.Program

/-!
# Stripping undoes instrumenting

Marking a program puts rows with markers between the rows that it is written as (`Sprinkled`). The
rows themselves hold no marker if the source holds none, for they come from it; so the lines without
a marker are the lines of the program as it was (`strip_instrument`), strings over several lines
included.
-/

set_option autoImplicit false

namespace StepTrace.Python

open Stmt

/-! ## Rows with markers in between -/

/-- Rows are others with the markers of some lines in between. -/
inductive Sprinkled : List (List Char) → List Nat → List (List Char) → Prop
  | nil : Sprinkled [] [] []
  | row {ys zs : List (List Char)} {ns : List Nat} (y : List Char) : Sprinkled ys ns zs →
      Sprinkled (y :: ys) ns (y :: zs)
  | mark {ys zs : List (List Char)} {ns : List Nat} (depth line : Nat) : Sprinkled ys ns zs →
      Sprinkled ys (line :: ns) (indented depth (markerText line) :: zs)

namespace Sprinkled

variable {ys ys' zs zs' : List (List Char)} {ns ns' : List Nat}

theorem refl (ys : List (List Char)) : Sprinkled ys [] ys := by
  induction ys with
  | nil => exact .nil
  | cons y ys ih => exact .row y ih

theorem append (h : Sprinkled ys ns zs) (h' : Sprinkled ys' ns' zs') :
    Sprinkled (ys ++ ys') (ns ++ ns') (zs ++ zs') := by
  induction h with
  | nil => exact h'
  | row y _ ih => exact .row y ih
  | mark depth line _ ih => exact .mark depth line ih

/-- A row is one of the others or a marker. -/
theorem mem_or_marker (h : Sprinkled ys ns zs) {z : List Char} (hz : z ∈ zs) :
    z ∈ ys ∨ ∃ depth line, z = indented depth (markerText line) := by
  induction h with
  | nil => cases hz
  | row y _ ih =>
    rcases List.mem_cons.mp hz with rfl | hz
    · exact .inl List.mem_cons_self
    · exact (ih hz).imp_left (List.mem_cons_of_mem y)
  | mark depth line _ ih =>
    rcases List.mem_cons.mp hz with rfl | hz
    · exact .inr ⟨depth, line, rfl⟩
    · exact ih hz

end Sprinkled

/-- A statement that is no marker comes before those of its bodies. -/
theorem lines_eq_cons {s : Stmt} (h : ¬s.isMarker = true) : s.lines = s.line :: s.lines.tail := by
  cases s with
  | marker line => exact absurd rfl h
  | _ => rfl

mutual

/-- Marking sprinkles the rows of a statement with the lines of the statements in its bodies. -/
theorem sprinkled_marked (depth : Nat) : (s : Stmt) →
    Sprinkled (written depth s) s.lines.tail (written depth (marked s))
  | .simple _ _ => .refl _
  | .marker _ => .refl _
  | .branch _ header body orelse =>
    .append (.row _ (sprinkled_markAll (depth + 1) body))
      (sprinkled_optional depth "else:".toList orelse)
  | .loop _ header body orelse =>
    .append (.row _ (sprinkled_markAll (depth + 1) body))
      (sprinkled_optional depth "else:".toList orelse)
  | .attempt _ body handlers orelse final =>
    .append (.append (.append (.row _ (sprinkled_markAll (depth + 1) body))
      (sprinkled_markClauses depth handlers)) (sprinkled_optional depth "else:".toList orelse))
      (sprinkled_optional depth "finally:".toList final)
  | .scope _ header body => .row _ (sprinkled_markAll (depth + 1) body)
  | .define _ decorators header body =>
    .append (.refl _) (.row _ (sprinkled_markAll (depth + 1) body))
  | .choose _ header cases => .row _ (sprinkled_markClauses (depth + 1) cases)

/-- Marking sprinkles the rows of statements with their lines. -/
theorem sprinkled_markAll (depth : Nat) : (ss : List Stmt) →
    Sprinkled (writtenAll depth ss) (linesAll ss) (writtenAll depth (markAll ss))
  | [] => .nil
  | s :: rest => by
    rw [markAll, linesAll]
    split
    · next hmarker =>
      obtain ⟨line, rfl⟩ : ∃ line, s = .marker line := by
        cases s with
        | marker line => exact ⟨line, rfl⟩
        | _ => cases hmarker
      exact .append (.refl _) (sprinkled_markAll depth rest)
    · next hmarker =>
      have hrows := (sprinkled_marked depth s).append (sprinkled_markAll depth rest)
      rw [lines_eq_cons hmarker]
      exact .mark depth s.line hrows

/-- Marking sprinkles the rows of clauses. -/
theorem sprinkled_markClauses (depth : Nat) : (clauses : List Clause) →
    Sprinkled (writtenClauses depth clauses) (linesClauses clauses)
      (writtenClauses depth (markClauses clauses))
  | [] => .nil
  | .mk _ header body :: rest =>
    .append (.row _ (sprinkled_markAll (depth + 1) body)) (sprinkled_markClauses depth rest)

/-- A clause that is written if it has statements is written with markers then. -/
theorem sprinkled_optional (depth : Nat) (header : List Char) : (ss : List Stmt) →
    Sprinkled (optionalRows depth header ss) (linesAll ss)
      (optionalRows depth header (markAll ss))
  | [] => .nil
  | s :: rest => by
    have hsome : (markAll (s :: rest)).isEmpty = false := by
      rw [markAll]
      split <;> rfl
    rw [optionalRows, optionalRows, hsome]
    exact .row _ (sprinkled_markAll (depth + 1) (s :: rest))

end

/-! ## Markers in rows -/

theorem isMarked_eq_false_iff (x : List Char) :
    Marker.isMarked x = false ↔ ¬Marker.opening <:+: x ∧ ¬Marker.ending <:+: x := by
  rw [← Text.contains_iff_infix, ← Text.contains_iff_infix, Marker.isMarked, Marker.isEnd,
    Bool.or_eq_false_iff, Bool.not_eq_true, Bool.not_eq_true]

/-- A text without markers has none in its parts. -/
theorem isMarked_of_isInfix {x y : List Char} (h : Marker.isMarked y = false) (hx : x <:+: y) :
    Marker.isMarked x = false := by
  rw [isMarked_eq_false_iff] at h ⊢
  exact ⟨fun hopen => h.1 (hopen.trans hx), fun hend => h.2 (hend.trans hx)⟩

theorem isMarked_indented_markerText (depth line : Nat) :
    Marker.isMarked (indented depth (markerText line)) = true := by
  rw [← Bool.not_eq_false, isMarked_eq_false_iff]
  rintro ⟨hnot, -⟩
  refine hnot ?_
  have hopening : Marker.opening <:+: Marker.ofLine line := by
    rw [Marker.ofLine, List.append_assoc]
    exact (List.prefix_append _ _).isInfix
  have hmarker : Marker.ofLine line <:+: markerText line := List.infix_append _ _ _
  exact (hopening.trans hmarker).trans (List.suffix_append _ _).isInfix

/-- What is left of sprinkled rows without the rows that hold a marker. -/
theorem Sprinkled.filter {ys zs : List (List Char)} {ns : List Nat} (h : Sprinkled ys ns zs)
    (hys : ∀ y ∈ ys, Marker.isMarked y = false) : zs.filter (fun z => !Marker.isMarked z) = ys := by
  induction h with
  | nil => rfl
  | row y _ ih =>
    rw [List.filter_cons_of_pos (by rw [hys y List.mem_cons_self]; rfl),
      ih fun z hz => hys z (List.mem_cons_of_mem y hz)]
  | mark depth line _ ih =>
    rw [List.filter_cons_of_neg (by rw [isMarked_indented_markerText]; simp), ih hys]

/-- What rows have to be for their lines to be told apart by markers: none holds a carriage return
or ends in a blank, and one that holds a marker is one line. -/
structure Strippable (y : List Char) : Prop where
  noReturn : '\r' ∉ y
  sign : EndsInSign y
  line : Marker.isMarked y = true → '\n' ∉ y

theorem filter_flatMap_splitLines {ys : List (List Char)} (h : ∀ y ∈ ys, Strippable y) :
    (ys.flatMap Text.splitLines).filter (fun l => !Marker.isMarked l) =
      (ys.filter fun y => !Marker.isMarked y).flatMap Text.splitLines := by
  induction ys with
  | nil => rfl
  | cons y ys ih =>
    rw [List.flatMap_cons, List.filter_append, ih fun z hz => h z (List.mem_cons_of_mem y hz)]
    cases hmarked : Marker.isMarked y with
    | true =>
      rw [Text.splitLines_of_not_mem ((h y List.mem_cons_self).line hmarked),
        List.filter_cons_of_neg (by rw [hmarked]; simp),
        List.filter_cons_of_neg (by rw [hmarked]; simp), List.filter_nil, List.nil_append]
    | false =>
      rw [List.filter_cons_of_pos (by rw [hmarked]; rfl), List.flatMap_cons,
        List.filter_eq_self.mpr]
      intro l hl
      rw [isMarked_of_isInfix hmarked (Text.infix_of_mem_splitLines hl)]
      rfl

theorem not_mem_joinLines {ys : List (List Char)} {c : Char} (hc : c ≠ '\n')
    (h : ∀ y ∈ ys, c ∉ y) : c ∉ Text.joinLines ys := by
  induction ys with
  | nil => simp [Text.joinLines]
  | cons y ys ih =>
    have hrest := ih fun z hz => h z (List.mem_cons_of_mem y hz)
    by_cases hys : ys = []
    · rw [hys, Text.joinLines]
      exact h y List.mem_cons_self
    · rw [Text.joinLines_cons y ys hys, List.mem_append, List.mem_cons, not_or, not_or]
      exact ⟨h y List.mem_cons_self, hc, hrest⟩

/-- The last line of a text that ends in a sign is not empty. -/
theorem EndsInSign.getLast?_splitLines {y : List Char} (h : EndsInSign y) :
    (Text.splitLines y).getLast? ≠ some [] := by
  obtain ⟨c, hc, hblank⟩ := h
  intro hlast
  obtain ⟨before, hlines⟩ := List.getLast?_eq_some_iff.mp hlast
  have hjoin := Text.joinLines_splitLines y
  rw [hlines] at hjoin
  cases before with
  | nil =>
    rw [← hjoin] at hc
    cases hc
  | cons b before =>
    rw [Text.joinLines_append _ _ (by simp) (by simp), Text.joinLines] at hjoin
    rw [← hjoin, List.getLast?_concat] at hc
    cases hc
    cases hblank

/-- Of rows put together the lines without markers are left. -/
theorem strip_joinLines {ys : List (List Char)} (h : ∀ y ∈ ys, Strippable y) :
    Marker.strip (Text.joinLines ys) =
      Text.joinLines (ys.filter fun y => !Marker.isMarked y) := by
  by_cases hys : ys = []
  · subst hys
    rfl
  · have hlast : (Text.splitLines (Text.joinLines ys)).getLast? ≠ some [] := by
      obtain ⟨before, y, hys'⟩ := (List.eq_nil_or_concat ys).resolve_left hys
      rw [List.concat_eq_append] at hys'
      rw [Text.splitLines_joinLines _ hys, hys', List.flatMap_append, List.flatMap_singleton,
        List.getLast?_append_of_ne_nil _ (Text.splitLines_ne_nil y)]
      exact (h y (by simp [hys'])).sign.getLast?_splitLines
    rw [Marker.strip, Text.lines_eq_splitLines
      (not_mem_joinLines (by decide) fun y hy => (h y hy).noReturn) hlast,
      Text.splitLines_joinLines ys hys, filter_flatMap_splitLines h,
      Text.joinLines_flatMap_splitLines]

/-! ## Rows of a source without markers -/

variable {source : List Char} {program : List Stmt}

theorem exists_stands_of_mem {ys xs : List (List Char)} (h : List.Forall₂ Stands ys xs)
    {y : List Char} (hy : y ∈ ys) : ∃ x ∈ xs, ∃ depth, y = indented depth x := by
  induction h with
  | nil => cases hy
  | cons hstands _ ih =>
    rcases List.mem_cons.mp hy with rfl | hy
    · exact ⟨_, List.mem_cons_self, hstands⟩
    · obtain ⟨x, hx, hrow⟩ := ih hy
      exact ⟨x, List.mem_cons_of_mem _ hx, hrow⟩

/-- Every row of a program is given by a logical line of its source. -/
theorem exists_gives_of_row {y : List Char} {indent : Nat} (h : parse source = .ok program)
    (hy : y ∈ writtenAll indent program) :
    ∃ lines, tokenize source = .ok lines ∧ ∃ t ∈ lines, ∃ xs, Gives t xs ∧
      ∃ x ∈ xs, ∃ depth, y = indented depth x := by
  obtain ⟨lines, xs, htokens, hgathers, hshows⟩ := gathers_of_parse h
  obtain ⟨x, hx, hrow⟩ := exists_stands_of_mem (hshows indent) hy
  obtain ⟨t, ht, xs, hgives, hx⟩ := hgathers.exists_gives hx
  exact ⟨lines, htokens, t, ht, xs, hgives, x, hx, hrow⟩

/-- A word that is not in the source, and begins neither in a keyword nor with a space, is in no row
of the program. -/
theorem not_infix_row {y w : List Char} (h : parse source = .ok program)
    (hy : y ∈ writtenAll 0 program) (hw : '\n' ∉ w) (hsource : ¬w <:+: Text.unifyBreaks source)
    (hbare : ∀ kind header, LineKind.bareHeader? kind = some header → ¬w <:+: header)
    (hhead : ∀ c ∈ w.head?, c ∉ "if ".toList) : ¬w <:+: y := by
  obtain ⟨lines, htokens, t, ht, xs, hgives, x, hx, depth, rfl⟩ := exists_gives_of_row h hy
  intro hin
  have htext : w <:+: x := by
    refine infix_of_infix_append hin fun c hc hmem => ?_
    rw [List.eq_of_mem_replicate hmem] at hc
    exact hhead ' ' hc (by decide)
  refine hsource (infix_of_mem_tokenize htokens ht hw ?_)
  refine infix_text_of_gives hgives hx htext hbare fun c hc hmem => hhead c hc ?_
  exact List.mem_append_left [' '] hmem

theorem EndsInSign.indented {x : List Char} (h : EndsInSign x) (depth : Nat) :
    EndsInSign (indented depth x) := by
  obtain ⟨c, hc, hblank⟩ := h
  refine ⟨c, ?_, hblank⟩
  rw [Stmt.indented, List.getLast?_append, hc]
  rfl

/-- No header that the tree brings along holds a number sign or a carriage return. -/
theorem not_infix_bareHeader {w : List Char} {c : Char} (hc : c ∈ w)
    (hsign : c = '#' ∨ c = '\r') (kind : LineKind) (header : List Char)
    (hheader : kind.bareHeader? = some header) : ¬w <:+: header := by
  have hnot : '#' ∉ header ∧ '\r' ∉ header := by
    rcases LineKind.eq_of_bareHeader? hheader with rfl | rfl | rfl <;> decide
  intro hin
  rcases hsign with rfl | rfl
  · exact hnot.1 (hin.subset hc)
  · exact hnot.2 (hin.subset hc)

/-- The rows of a program whose source holds neither markers nor carriage returns. -/
theorem strippable_row {y : List Char} (h : parse source = .ok program)
    (hmarks : Marker.isMarked source = false) (hreturn : '\r' ∉ source)
    (hy : y ∈ writtenAll 0 program) : Strippable y ∧ Marker.isMarked y = false := by
  have hunified : Text.unifyBreaks source = source := by
    rw [Text.unifyBreaks_eq_self_iff]
    exact fun hin => hreturn (hin.subset (by simp))
  obtain ⟨hopening, hending⟩ := (isMarked_eq_false_iff source).mp hmarks
  have hmarked : Marker.isMarked y = false := by
    rw [isMarked_eq_false_iff]
    constructor
    · exact not_infix_row h hy (by decide) (hunified.symm ▸ hopening)
        (not_infix_bareHeader (c := '#') (by decide) (.inl rfl)) (by rintro _ ⟨⟩; decide)
    · exact not_infix_row h hy (by decide) (hunified.symm ▸ hending)
        (not_infix_bareHeader (c := '#') (by decide) (.inl rfl)) (by rintro _ ⟨⟩; decide)
  refine ⟨⟨?_, ?_, ?_⟩, hmarked⟩
  · have hnone : ¬['\r'] <:+: y := by
      refine not_infix_row h hy (by decide) ?_
        (not_infix_bareHeader (c := '\r') (by decide) (.inr rfl)) (by rintro _ ⟨⟩; decide)
      rw [hunified]
      exact fun hin => hreturn (hin.subset (by simp))
    intro hmem
    obtain ⟨before, after, rfl⟩ := List.append_of_mem hmem
    exact hnone ⟨before, after, by simp⟩
  · obtain ⟨lines, htokens, t, ht, xs, hgives, x, hx, depth, rfl⟩ := exists_gives_of_row h hy
    exact (endsInSign_of_gives (faithful_of_mem_tokenize htokens t ht) hgives hx).indented depth
  · exact fun hm => absurd (hmarked.symm.trans hm) (by simp)

theorem strippable_marker (depth line : Nat) :
    Strippable (indented depth (markerText line)) := by
  have hdigits : ∀ c ∈ Text.digits line, c ≠ '\n' ∧ c ≠ '\r' := by
    intro c hc
    have hdigit := Text.isDigit_of_mem_digits hc
    constructor
    · rintro rfl
      exact absurd hdigit (by decide)
    · rintro rfl
      exact absurd hdigit (by decide)
  have hfree : ∀ c ∈ indented depth (markerText line), c ≠ '\n' ∧ c ≠ '\r' := by
    intro c hc
    rw [indented, markerText_eq, List.mem_append, List.mem_append, List.mem_append] at hc
    rcases hc with hc | hc | hc | hc
    · rw [List.eq_of_mem_replicate hc]
      decide
    · constructor <;> rintro rfl <;> exact absurd hc (by decide)
    · exact hdigits c hc
    · constructor <;> rintro rfl <;> exact absurd hc (by decide)
  refine ⟨fun h => (hfree _ h).2 rfl, ?_, fun _ h => (hfree _ h).1 rfl⟩
  refine EndsInSign.indented ⟨')', ?_, by decide⟩ depth
  rw [markerText_eq, List.getLast?_append, List.getLast?_append]
  rfl

/-- Dropping the lines with markers from an instrumented source leaves the source as its program is
written. -/
theorem strip_instrument (h : parse source = .ok program)
    (hmarks : Marker.isMarked source = false) (hreturn : '\r' ∉ source) :
    ∃ instrumented, instrument source = .ok instrumented ∧
      Marker.strip instrumented = render program := by
  refine ⟨render (markAll program), by rw [instrument, h]; rfl, ?_⟩
  have hsprinkled := sprinkled_markAll 0 program
  rw [render, strip_joinLines, hsprinkled.filter fun y hy => (strippable_row h hmarks hreturn hy).2]
  · rfl
  · intro y hy
    rcases hsprinkled.mem_or_marker hy with hy | ⟨depth, line, rfl⟩
    · exact (strippable_row h hmarks hreturn hy).1
    · exact strippable_marker depth line

/-- A source with a string over several lines, a comment and clauses. -/
def nestedSource : List Char :=
  "if x:\n  y = \"\"\"a\n\n#b\"\"\"  # c\nelif z: v; w\nelse:\n  try: u\n  finally: t".toList

theorem strip_instrument_nestedSource : ∃ program, parse nestedSource = .ok program ∧
    Marker.isMarked nestedSource = false ∧ '\r' ∉ nestedSource ∧
    ∃ instrumented, instrument nestedSource = .ok instrumented ∧
      Marker.strip instrumented = render program := by
  have hread : (parse nestedSource).isOk = true := by decide +kernel
  have hmarks : Marker.isMarked nestedSource = false := by decide +kernel
  have hreturn : '\r' ∉ nestedSource := by decide +kernel
  cases h : parse nestedSource with
  | error e =>
    rw [h] at hread
    cases hread
  | ok program => exact ⟨program, rfl, hmarks, hreturn, strip_instrument h hmarks hreturn⟩

end StepTrace.Python
