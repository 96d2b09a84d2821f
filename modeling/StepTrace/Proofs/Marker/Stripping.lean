import StepTrace.Proofs.Marker.Codec

/-!
# Stripping and reading

Two readings decide what a marker line is. Stripping looks for the opening of a marker, the reading
of output for a marker with its number. A line with an opening that no number follows is text that
was printed, but it is stripped (`IsBroken`). So stripping keeps the printed lines of a text exactly
if none of them is broken (`strip_keeps_output_iff`), and a broken one is lost
(`strip_loses_output`).
-/

set_option autoImplicit false

namespace StepTrace

namespace Marker

/-- Whether a line of output is text that was printed. -/
def isPrinted (l : List Char) : Bool := (classify l).outputText?.isSome

/-- A line that holds the opening of a marker, but neither a marker nor the end marker. -/
def IsBroken (l : List Char) : Prop :=
  opening <:+: l ∧ (∀ n, ¬Carries l n) ∧ ¬ending <:+: l

theorem isPrinted_iff (l : List Char) :
    isPrinted l = true ↔ (∀ n, ¬Carries l n) ∧ ¬ending <:+: l := by
  simp only [← line?_eq_some_iff, ← isEnd_iff, isPrinted, classify]
  cases line? l with
  | some n => simp [LineEvent.outputText?]
  | none => cases isEnd l <;> simp [LineEvent.outputText?]

theorem isMarked_iff (l : List Char) :
    isMarked l = true ↔ opening <:+: l ∨ ending <:+: l := by
  rw [isMarked, Bool.or_eq_true, Text.contains_iff_infix, isEnd_iff]

/-- A line without an opening carries no number. -/
theorem not_carries {l : List Char} (h : ¬opening <:+: l) (n : Nat) : ¬Carries l n := by
  rw [← line?_eq_some_iff, line?_eq_none h]
  exact Option.some_ne_none n ∘ Eq.symm

/-- The lines that stripping keeps are the printed ones that are not broken. -/
theorem isMarked_eq_false_iff_isPrinted (l : List Char) :
    isMarked l = false ↔ isPrinted l = true ∧ ¬IsBroken l := by
  rw [← Bool.not_eq_true, isMarked_iff, isPrinted_iff, IsBroken, not_or]
  constructor
  · rintro ⟨hopening, hending⟩
    exact ⟨⟨not_carries hopening, hending⟩, fun h => hopening h.1⟩
  · rintro ⟨⟨hnumber, hending⟩, hwhole⟩
    exact ⟨fun hopening => hwhole ⟨hopening, hnumber, hending⟩, hending⟩

/-- A broken line is printed, but not kept. -/
theorem IsBroken.lost {l : List Char} (h : IsBroken l) : isPrinted l = true ∧ isMarked l = true :=
  ⟨(isPrinted_iff l).mpr h.2, (isMarked_iff l).mpr (.inl h.1)⟩

/-- Of a text that holds a broken line the printed lines are not what stripping keeps. -/
theorem strip_ne_of_isBroken {s l : List Char} (hl : l ∈ Text.lines s) (hbroken : IsBroken l) :
    strip s ≠ Text.joinLines ((Text.lines s).filter isPrinted) := by
  obtain ⟨hprinted, hmarked⟩ := hbroken.lost
  have hmem : l ∈ (Text.lines s).filter isPrinted := List.mem_filter.mpr ⟨hl, hprinted⟩
  have hfree : ∀ p : List Char → Bool, ∀ m ∈ (Text.lines s).filter p, '\n' ∉ m := fun p m hm =>
    Text.newline_not_mem_of_mem_lines (List.mem_filter.mp hm).1
  intro heq
  have hsplit := congrArg Text.splitLines heq
  rw [Text.splitLines_joinLines_of_not_mem (List.ne_nil_of_mem hmem) (hfree _), strip] at hsplit
  rcases eq_or_ne ((Text.lines s).filter fun m => !isMarked m) [] with hnone | hsome
  · -- nothing is kept, and the broken line is not empty
    rw [hnone] at hsplit
    rw [← hsplit] at hmem
    rw [List.mem_singleton.mp hmem] at hmarked
    exact absurd hmarked (by decide)
  · rw [Text.splitLines_joinLines_of_not_mem hsome (hfree _)] at hsplit
    rw [← hsplit, List.mem_filter, hmarked] at hmem
    exact absurd hmem.2 (by decide)

end Marker

/-- A line is kept by stripping exactly if it is read as text that was printed and is not broken. So
what stripping leaves of a text are the lines that were printed exactly if none of its lines is
broken; of such a text it drops just the lines that are read as active lines or as the end. -/
theorem strip_keeps_output_iff (s : List Char) :
    (∀ l, Marker.isMarked l = false ↔ Marker.isPrinted l = true ∧ ¬Marker.IsBroken l) ∧
    (Marker.strip s = Text.joinLines ((Text.lines s).filter Marker.isPrinted) ↔
      ∀ l ∈ Text.lines s, ¬Marker.IsBroken l) := by
  refine ⟨Marker.isMarked_eq_false_iff_isPrinted, fun heq l hl hbroken => ?_, ?_⟩
  · exact Marker.strip_ne_of_isBroken hl hbroken heq
  · intro hwhole
    have hsame : ∀ l ∈ Text.lines s, (!Marker.isMarked l) = Marker.isPrinted l := by
      intro l hl
      rw [Bool.eq_iff_iff, Bool.not_eq_true', Marker.isMarked_eq_false_iff_isPrinted,
        and_iff_left (hwhole l hl)]
    rw [Marker.strip, List.filter_congr hsame]

/-- An opening without a number is printed text, and stripping drops its line. -/
theorem strip_loses_output :
    Marker.IsBroken "##active_lineX##".toList ∧
    Marker.classify "##active_lineX##".toList = .outputText "##active_lineX##" ∧
    Marker.strip "a\n##active_lineX##\nb".toList = "a\nb".toList ∧
    Text.joinLines ((Text.lines "a\n##active_lineX##\nb".toList).filter Marker.isPrinted) =
      "a\n##active_lineX##\nb".toList := by
  have hclassified : Marker.classify "##active_lineX##".toList =
      .outputText "##active_lineX##" := by
    decide +kernel
  have hprinted : Marker.isPrinted "##active_lineX##".toList = true := by
    rw [Marker.isPrinted, hclassified]
    rfl
  have hopening : Marker.opening <:+: "##active_lineX##".toList := by decide +kernel
  exact ⟨⟨hopening, (Marker.isPrinted_iff _).mp hprinted⟩, hclassified, by decide +kernel,
    by decide +kernel⟩

end StepTrace
