import Mathlib.Data.List.Basic
import StepTrace.Proofs.Marker.Codec
import StepTrace.Proofs.Python.Stripping

/-!
# What an instrumented program announces

The numbers in the markers of an instrumented source are the lines of its statements, one for each
and in their order (`announced_instrument`). Nothing else in the source is taken for a marker if the
source holds none, and so many lines as a machine word counts are never reached.
-/

set_option autoImplicit false

namespace StepTrace

/-! ## Lines of a text -/

/-- What is found in the lines of a text is found in the pieces between its line feeds, if carriage
returns and an empty end make no difference to it. -/
theorem Text.filterMap_lines {α : Type} {f : List Char → Option α} {s : List Char}
    (hnil : f [] = none) (hreturn : ∀ l ∈ splitLines s, f (dropReturn l) = f l) :
    (lines s).filterMap f = (splitLines s).filterMap f := by
  obtain ⟨before, last, hpieces⟩ : ∃ before last, splitLines s = before ++ [last] :=
    ⟨_, _, (List.dropLast_append_getLast (splitLines_ne_nil s)).symm⟩
  have hbefore : (before.map dropReturn).filterMap f = before.filterMap f := by
    rw [List.filterMap_map]
    refine List.filterMap_congr fun l hl => hreturn l ?_
    rw [hpieces]
    exact List.mem_append_left _ hl
  rw [lines, hpieces, List.getLast?_concat, List.dropLast_concat, List.filterMap_append]
  cases last with
  | nil => simp [hbefore, hnil]
  | cons c last => simp [List.filterMap_append, hbefore]

namespace Python

open Stmt

/-- The numbers in the markers of a text. -/
def announced (s : List Char) : List Nat := (Text.lines s).filterMap Marker.line?

variable {ys zs : List (List Char)} {ns : List Nat} {source : List Char} {program : List Stmt}

/-- The marker of a statement has its line. -/
theorem line?_markerRow {n : Nat} (hn : n < Text.wordBound) (depth : Nat) :
    Marker.line? (indented depth (markerText n)) = some n := by
  have hassoc : ∀ a b c d : List Char, a ++ (b ++ c ++ d) = a ++ b ++ c ++ d := by
    intro a b c d
    simp only [List.append_assoc]
  have hrow : indented depth (markerText n) =
      (List.replicate (4 * depth) ' ' ++ "print(\x22".toList) ++ Marker.ofLine n ++
        "\x22)".toList := hassoc _ _ _ _
  have hsign : '#' ∉ List.replicate (4 * depth) ' ' ++ "print(\x22".toList := by
    rw [List.mem_append, not_or]
    exact ⟨fun h => absurd (List.eq_of_mem_replicate h) (by decide), by decide⟩
  have hopening : ¬Marker.opening <:+: List.replicate (4 * depth) ' ' ++ "print(\x22".toList :=
    fun hin => hsign (hin.subset List.mem_cons_self)
  rw [hrow, Marker.line?_eq_some_iff]
  exact Marker.carries_ofLine hn hopening _

/-- Of rows with markers in between the markers are read. -/
theorem Sprinkled.filterMap_line? (h : Sprinkled ys ns zs)
    (hys : ∀ y ∈ ys, ¬Marker.opening <:+: y) (hns : ∀ n ∈ ns, n < Text.wordBound) :
    (zs.flatMap Text.splitLines).filterMap Marker.line? = ns := by
  induction h with
  | nil => rfl
  | row y _ ih =>
    have hnone : (Text.splitLines y).filterMap Marker.line? = [] := by
      refine List.filterMap_eq_nil_iff.mpr fun l hl => Marker.line?_eq_none fun hin => ?_
      exact hys y List.mem_cons_self (hin.trans (Text.infix_of_mem_splitLines hl))
    rw [List.flatMap_cons, List.filterMap_append, hnone, List.nil_append,
      ih (fun z hz => hys z (List.mem_cons_of_mem y hz)) hns]
  | mark depth line _ ih =>
    have hrow := (strippable_marker depth line).line (isMarked_indented_markerText depth line)
    rw [List.flatMap_cons, List.filterMap_append, Text.splitLines_of_not_mem hrow,
      ih hys fun n hn => hns n (List.mem_cons_of_mem line hn), List.filterMap_cons,
      line?_markerRow (hns line List.mem_cons_self)]
    rfl

/-- The markers between rows are read in the lines of the text that the rows make up. -/
theorem Sprinkled.announced_joinLines (h : Sprinkled ys ns zs)
    (hys : ∀ y ∈ ys, ¬Marker.opening <:+: y) (hns : ∀ n ∈ ns, n < Text.wordBound) :
    announced (Text.joinLines zs) = ns := by
  by_cases hzs : zs = []
  · subst hzs
    cases h
    rfl
  · have hpieces : Text.splitLines (Text.joinLines zs) = zs.flatMap Text.splitLines :=
      Text.splitLines_joinLines zs hzs
    rw [announced, Text.filterMap_lines rfl, hpieces, h.filterMap_line? hys hns]
    intro l hl
    rw [hpieces] at hl
    obtain ⟨z, hz, hl⟩ := List.mem_flatMap.mp hl
    rcases h.mem_or_marker hz with hy | ⟨depth, line, rfl⟩
    · have hnot : ¬Marker.opening <:+: l := fun hin =>
        hys z hy (hin.trans (Text.infix_of_mem_splitLines hl))
      have hprefix : Text.dropReturn l <:+: l := (Text.dropReturn_isPrefix l).isInfix
      rw [Marker.line?_eq_none hnot, Marker.line?_eq_none fun hin => hnot (hin.trans hprefix)]
    · have hmarker := strippable_marker depth line
      rw [Text.dropReturn_of_not_mem fun hmem =>
        hmarker.noReturn ((Text.infix_of_mem_splitLines hl).subset hmem)]

/-- An instrumented source announces the lines of its statements: as many as there are statements,
in the order of the source, each the line of a logical line. -/
theorem announced_instrument (h : parse source = .ok program)
    (hmarks : Text.contains Marker.opening source = false)
    (hsize : (Text.splitLines source).length < Text.wordBound) :
    ∃ instrumented lines, instrument source = .ok instrumented ∧ tokenize source = .ok lines ∧
      announced instrumented = linesAll program ∧
      (announced instrumented).length = countAll program ∧
      (announced instrumented).Pairwise (· ≤ ·) ∧
      ∀ n ∈ announced instrumented, ∃ t ∈ lines, t.line = n := by
  obtain ⟨lines, htokens, hnumbers⟩ := numbers_of_parse h
  have horder := inOrder_of_tokenize htokens
  have hopening : ¬Marker.opening <:+: Text.unifyBreaks source := by
    intro hin
    have := (Text.contains_iff_infix _ _).mpr (Text.isInfix_of_isInfix_unifyBreaks (by decide) hin)
    rw [hmarks] at this
    cases this
  have hannounced : announced (render (markAll program)) = linesAll program := by
    refine (sprinkled_markAll 0 program).announced_joinLines (fun y hy => ?_) fun n hn => ?_
    · exact not_infix_row h hy (by decide) hopening
        (not_infix_bareHeader (c := '#') (by decide) (.inl rfl)) (by rintro _ ⟨⟩; decide)
    · obtain ⟨t, ht, rfl⟩ := hnumbers.exists_line n hn
      have hle := (horder.bounds t ht).2
      rw [Text.length_splitLines] at hsize
      omega
  refine ⟨render (markAll program), lines, by rw [instrument, h]; rfl, htokens, ?_⟩
  rw [hannounced]
  exact ⟨rfl, length_linesAll program, hnumbers.pairwise horder.increasing, hnumbers.exists_line⟩

/-- A source with a decorator, statements that share a line, a string over two lines and clauses. -/
def decoratedSource : List Char :=
  "@d\ndef f():\n  a; b = \"\"\"c\n\"\"\"\n  if x: y\n  elif z:\n    w\n  else: v".toList

theorem announced_instrument_decoratedSource : ∃ program, parse decoratedSource = .ok program ∧
    Text.contains Marker.opening decoratedSource = false ∧
    (Text.splitLines decoratedSource).length < Text.wordBound ∧
    ∃ instrumented lines, instrument decoratedSource = .ok instrumented ∧
      tokenize decoratedSource = .ok lines ∧ announced instrumented = linesAll program ∧
      (announced instrumented).length = countAll program ∧
      (announced instrumented).Pairwise (· ≤ ·) ∧
      ∀ n ∈ announced instrumented, ∃ t ∈ lines, t.line = n := by
  have hread : (parse decoratedSource).isOk = true := by decide +kernel
  have hmarks : Text.contains Marker.opening decoratedSource = false := by decide +kernel
  have hsize : (Text.splitLines decoratedSource).length < Text.wordBound := by decide +kernel
  cases h : parse decoratedSource with
  | error e =>
    rw [h] at hread
    cases hread
  | ok program => exact ⟨program, rfl, hmarks, hsize, announced_instrument h hmarks hsize⟩

/-- The definition counts once, on the line of its keyword; the `elif` clause is a statement. -/
example : ((instrument decoratedSource).toOption.map announced) =
    some [2, 3, 3, 5, 5, 6, 7, 8] := by
  decide +kernel

end Python

end StepTrace
