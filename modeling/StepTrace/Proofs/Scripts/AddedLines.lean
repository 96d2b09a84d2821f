import Mathlib.Data.List.Forall2
import StepTrace.Proofs.Posix.Closing
import StepTrace.Proofs.Posix.Passages

/-!
# Lines that are added to a script

A shell script and a PowerShell script are marked line by line: before some lines, or before all, a
line is put that prints a marker (`Interleaved`). Nothing else happens to the script, whatever the
scan of it makes of its lines: without the added lines the script is there again, each of them
stands right before the line that it counts, and no line is counted twice
(`addsMarkers_instrument`).
-/

set_option autoImplicit false

namespace StepTrace

/-! ## Lines with others between them -/

/-- Lines, the first of them with a number, and what they become if another line is put before those
whose numbers are listed. The other line is told by the line and its number. -/
inductive Interleaved (added : List Char → Nat → List Char) :
    Nat → List (List Char) → List Nat → List (List Char) → Prop
  | nil (n : Nat) : Interleaved added n [] [] []
  | plain {n : Nat} {lines out : List (List Char)} {numbers : List Nat} (line : List Char) :
      Interleaved added (n + 1) lines numbers out →
      Interleaved added n (line :: lines) numbers (line :: out)
  | marked {n : Nat} {lines out : List (List Char)} {numbers : List Nat} (line : List Char) :
      Interleaved added (n + 1) lines numbers out →
      Interleaved added n (line :: lines) (n :: numbers) (added line n :: line :: out)

namespace Interleaved

variable {added : List Char → Nat → List Char} {n : Nat} {lines out : List (List Char)}
  {numbers : List Nat}

theorem ne_nil (h : Interleaved added n lines numbers out) (hlines : lines ≠ []) : out ≠ [] := by
  cases h with
  | nil => exact absurd rfl hlines
  | plain line h => exact List.cons_ne_nil _ _
  | marked line h => exact List.cons_ne_nil _ _

theorem mem (h : Interleaved added n lines numbers out) {l : List Char} (hl : l ∈ out) :
    l ∈ lines ∨ ∃ line ∈ lines, ∃ k, l = added line k := by
  induction h with
  | nil => cases hl
  | plain line _ ih =>
    rcases List.mem_cons.mp hl with rfl | hl
    · exact .inl List.mem_cons_self
    · rcases ih hl with hl | ⟨m, hm, hk⟩
      · exact .inl (List.mem_cons_of_mem _ hl)
      · exact .inr ⟨m, List.mem_cons_of_mem _ hm, hk⟩
  | @marked n _ _ _ line _ ih =>
    rcases List.mem_cons.mp hl with rfl | hl
    · exact .inr ⟨line, List.mem_cons_self, n, rfl⟩
    · rcases List.mem_cons.mp hl with rfl | hl
      · exact .inl List.mem_cons_self
      · rcases ih hl with hl | ⟨m, hm, hk⟩
        · exact .inl (List.mem_cons_of_mem _ hl)
        · exact .inr ⟨m, List.mem_cons_of_mem _ hm, hk⟩

/-- The numbers count on from the first. -/
theorem le_of_mem (h : Interleaved added n lines numbers out) : ∀ k ∈ numbers, n ≤ k := by
  induction h with
  | nil => simp
  | plain line _ ih => exact fun k hk => Nat.le_of_succ_le (ih k hk)
  | marked line _ ih =>
    exact List.forall_mem_cons.mpr ⟨Nat.le_refl _, fun k hk => Nat.le_of_succ_le (ih k hk)⟩

theorem increasing (h : Interleaved added n lines numbers out) : numbers.Pairwise (· < ·) := by
  induction h with
  | nil => exact List.Pairwise.nil
  | plain line _ ih => exact ih
  | marked line h ih => exact List.Pairwise.cons h.le_of_mem ih

section Holding

/-! The added lines are told from the others by what they hold. -/

variable {holds : List Char → Bool} (hlines : ∀ l ∈ lines, holds l = false)
  (hadded : ∀ line k, holds (added line k) = true)

include hlines hadded

/-- Without the added lines the lines are there again. -/
theorem filter_not (h : Interleaved added n lines numbers out) :
    out.filter (fun l => !holds l) = lines := by
  induction h with
  | nil => rfl
  | plain line _ ih =>
    obtain ⟨hline, hrest⟩ := List.forall_mem_cons.mp hlines
    rw [List.filter_cons_of_pos (by simp [hline]), ih hrest]
  | marked line _ ih =>
    obtain ⟨hline, hrest⟩ := List.forall_mem_cons.mp hlines
    rw [List.filter_cons_of_neg (by simp [hadded]), List.filter_cons_of_pos (by simp [hline]),
      ih hrest]

/-- The added lines are those of the numbers, in their order. -/
theorem filter (h : Interleaved added n lines numbers out) :
    List.Forall₂ (fun l number => ∃ k line, number = n + k ∧ lines[k]? = some line ∧
      l = added line number) (out.filter holds) numbers := by
  -- a number counts the lines before it, which are one more behind a further line
  have hshift : ∀ {n : Nat} {lines : List (List Char)} (first : List Char) {ls ns},
      List.Forall₂ (fun l number => ∃ k line, number = n + 1 + k ∧ lines[k]? = some line ∧
        l = added line number) ls ns →
      List.Forall₂ (fun l number => ∃ k line, number = n + k ∧ (first :: lines)[k]? = some line ∧
        l = added line number) ls ns := by
    intro n lines first ls ns hall
    refine hall.imp fun l number => ?_
    rintro ⟨k, line, hnumber, hline, hl⟩
    exact ⟨k + 1, line, by omega, hline, hl⟩
  induction h with
  | nil => exact List.Forall₂.nil
  | plain line _ ih =>
    obtain ⟨hline, hrest⟩ := List.forall_mem_cons.mp hlines
    rw [List.filter_cons_of_neg (by simp [hline])]
    exact hshift line (ih hrest)
  | marked line _ ih =>
    obtain ⟨hline, hrest⟩ := List.forall_mem_cons.mp hlines
    rw [List.filter_cons_of_pos (hadded _ _), List.filter_cons_of_neg (by simp [hline])]
    exact List.Forall₂.cons ⟨0, line, rfl, rfl, rfl⟩ (hshift line (ih hrest))

/-- An added line stands right before the line that it is told by, which has the number that the
lines before it amount to. -/
theorem followed (h : Interleaved added n lines numbers out) {before after : List (List Char)}
    {l : List Char} (hout : out = before ++ l :: after) (hl : holds l = true) :
    ∃ k line rest, k = (before.filter fun m => !holds m).length ∧ lines[k]? = some line ∧
      l = added line (n + k) ∧ n + k ∈ numbers ∧ after = line :: rest := by
  induction h generalizing before with
  | nil => cases before <;> cases hout
  | plain line _ ih =>
    obtain ⟨hline, hrest⟩ := List.forall_mem_cons.mp hlines
    cases before with
    | nil =>
      obtain ⟨rfl, -⟩ := List.cons.inj hout
      rw [hline] at hl
      cases hl
    | cons m before =>
      rw [List.cons_append] at hout
      obtain ⟨rfl, htail⟩ := List.cons.inj hout
      obtain ⟨k, m, rest, hk, hm, hadd, hnumber, hafter⟩ := ih hrest htail
      refine ⟨k + 1, m, rest, ?_, hm, ?_, ?_, hafter⟩
      · rw [List.filter_cons_of_pos (by simp [hline]), List.length_cons, hk]
      · rw [hadd, Nat.add_right_comm, Nat.add_assoc]
      · rwa [Nat.add_right_comm, Nat.add_assoc] at hnumber
  | marked line _ ih =>
    obtain ⟨hline, hrest⟩ := List.forall_mem_cons.mp hlines
    -- it is the first line that comes out, or the second, which is not an added one, or a later one
    rcases before with _ | ⟨m, _ | ⟨m', before⟩⟩
    · rw [List.nil_append] at hout
      obtain ⟨rfl, htail⟩ := List.cons.inj hout
      exact ⟨0, line, _, rfl, rfl, rfl, List.mem_cons_self, htail.symm⟩
    · simp only [List.cons_append, List.nil_append, List.cons.injEq] at hout
      obtain ⟨-, rfl, -⟩ := hout
      rw [hline] at hl
      cases hl
    · simp only [List.cons_append, List.cons.injEq] at hout
      obtain ⟨rfl, rfl, htail⟩ := hout
      obtain ⟨k, m, rest, hk, hm, hadd, hnumber, hafter⟩ := ih hrest htail
      refine ⟨k + 1, m, rest, ?_, hm, ?_, ?_, hafter⟩
      · rw [List.filter_cons_of_neg (by simp [hadded]), List.filter_cons_of_pos (by simp [hline]),
          List.length_cons, hk]
      · rw [hadd, Nat.add_right_comm, Nat.add_assoc]
      · rw [Nat.add_right_comm, Nat.add_assoc] at hnumber
        exact List.mem_cons_of_mem _ hnumber

end Holding

end Interleaved

/-! ## Scripts with their markers -/

/-- A text that is a script and, before the lines with some numbers, lines that print their
markers. -/
structure AddsMarkers (added : List Char → Nat → List Char) (code out : List Char)
    (numbers : List Nat) : Prop where
  /-- Without the lines that hold a marker the script is there again, line by line. -/
  kept : (Text.splitLines out).filter (fun l => !Text.contains Marker.opening l) =
    Text.splitLines code
  /-- The lines that hold a marker are those that the numbers and their lines tell. -/
  printed : List.Forall₂ (fun l number => ∃ k line, number = 1 + k ∧
      (Text.splitLines code)[k]? = some line ∧ l = added line number)
    ((Text.splitLines out).filter (Text.contains Marker.opening)) numbers
  /-- Behind each of them stands the line that it counts: of the script's lines so many come
  before. -/
  followed : ∀ before l after, Text.splitLines out = before ++ l :: after →
    Text.contains Marker.opening l = true → ∃ k line rest,
      k = (before.filter fun m => !Text.contains Marker.opening m).length ∧
      (Text.splitLines code)[k]? = some line ∧ l = added line (1 + k) ∧ 1 + k ∈ numbers ∧
      after = line :: rest
  increasing : numbers.Pairwise (· < ·)

theorem addsMarkers_joinLines {added : List Char → Nat → List Char} {code : List Char}
    {numbers : List Nat} {out : List (List Char)}
    (hcode : Text.contains Marker.opening code = false)
    (hadded : ∀ line k, Text.contains Marker.opening (added line k) = true)
    (hbreak : ∀ line, '\n' ∉ line → ∀ k, '\n' ∉ added line k)
    (h : Interleaved added 1 (Text.splitLines code) numbers out) :
    AddsMarkers added code (Text.joinLines out) numbers := by
  have hlines : ∀ l ∈ Text.splitLines code, Text.contains Marker.opening l = false := by
    intro l hl
    rw [Bool.eq_false_iff] at hcode ⊢
    rw [ne_eq, Text.contains_iff_infix] at hcode ⊢
    exact fun hin => hcode (hin.trans (Text.infix_of_mem_splitLines hl))
  have hout : Text.splitLines (Text.joinLines out) = out := by
    refine Text.splitLines_joinLines_of_not_mem (h.ne_nil (Text.splitLines_ne_nil code)) ?_
    intro l hl
    rcases h.mem hl with hl | ⟨line, hline, k, rfl⟩
    · exact Text.newline_not_mem_of_mem_splitLines hl
    · exact hbreak line (Text.newline_not_mem_of_mem_splitLines hline) k
  constructor
  · rw [hout]
    exact h.filter_not hlines hadded
  · rw [hout]
    exact h.filter hlines hadded
  · rw [hout]
    exact fun before l after => h.followed hlines hadded
  · exact h.increasing

namespace Marker

theorem contains_opening (before : List Char) (n : Nat) (after : List Char) :
    Text.contains opening (before ++ ofLine n ++ after) = true := by
  rw [Text.contains_iff_infix, ofLine]
  exact ⟨before, Text.digits n ++ delimiter ++ after, by simp⟩

end Marker

namespace PowerShell

/-- The line that is put before a line: the command that prints its marker. -/
def markerCommand (_line : List Char) (n : Nat) : List Char := writeOutput (Marker.ofLine n)

theorem newline_not_mem_markerCommand (line : List Char) (n : Nat) :
    '\n' ∉ markerCommand line n := by
  have hsigns : '\n' ∉ "Write-Output \x22".toList ∧ '\n' ∉ ['\x22'] := by decide
  intro hmem
  change '\n' ∈ "Write-Output \x22".toList ++ Marker.ofLine n ++ ['\x22'] at hmem
  rw [List.mem_append, List.mem_append] at hmem
  rcases hmem with (hmem | hmem) | hmem
  · exact hsigns.1 hmem
  · exact absurd (Marker.mem_ofLine hmem) (by decide)
  · exact hsigns.2 hmem

/-- Every line has its marker. -/
theorem interleaved_markLines (n : Nat) (lines : List (List Char)) :
    Interleaved markerCommand n lines (List.range' n lines.length) (markLines n lines) := by
  induction lines generalizing n with
  | nil => exact .nil n
  | cons line rest ih => exact .marked line (ih (n + 1))

end PowerShell

namespace Posix

/-- The line that is put before a line: the command that prints its marker, behind the blanks that
the line begins with. -/
def markerCommand (line : List Char) (n : Nat) : List Char :=
  indentation line ++ echo (Marker.ofLine n)

theorem newline_not_mem_markerCommand {line : List Char} (h : '\n' ∉ line) (n : Nat) :
    '\n' ∉ markerCommand line n := by
  rw [markerCommand, List.mem_append, not_or]
  exact ⟨fun hmem => h ((List.takeWhile_prefix _).subset hmem),
    not_mem_echo (by decide) (by decide) n⟩

/-- The lines on which a command begins have their markers. -/
theorem interleaved_markLines (s : ScriptState) (n : Nat) (lines : List (List Char)) :
    Interleaved markerCommand n lines (markedNumbers s n lines) (markLines s n lines) := by
  induction lines generalizing s n with
  | nil => exact .nil n
  | cons line rest ih =>
    rw [markedNumbers, markLines]
    split
    · exact .marked line (ih (s.consume line) (n + 1))
    · exact .plain line (ih (s.consume line) (n + 1))

end Posix

/-- What a shell or PowerShell script becomes is the script with lines added to it, each of which
prints one marker and stands right before the line that it counts; no line is counted twice. In
PowerShell every line is counted. -/
theorem addsMarkers_instrument {code : List Char}
    (hcode : Text.contains Marker.opening code = false) :
    (∀ launch, ∃ out, (Adapter.powershell launch).instrument code = .ok out ∧
      AddsMarkers PowerShell.markerCommand code out
        (List.range' 1 (Text.splitLines code).length)) ∧
    ∀ language launch, ∃ out, (Adapter.posix language launch).instrument code = .ok out ∧
      AddsMarkers Posix.markerCommand code out
        (Posix.markedNumbers .start 1 (Text.splitLines code)) := by
  constructor
  · intro launch
    refine ⟨_, rfl, addsMarkers_joinLines hcode (fun line k => ?_) (fun line _ k => ?_)
      (PowerShell.interleaved_markLines 1 _)⟩
    · exact Marker.contains_opening _ k _
    · exact PowerShell.newline_not_mem_markerCommand line k
  · intro language launch
    refine ⟨_, rfl, addsMarkers_joinLines hcode (fun line k => ?_) (fun line hline k => ?_)
      (Posix.interleaved_markLines .start 1 _)⟩
    · have hwhole := Marker.contains_opening (Posix.indentation line ++ "echo \x22".toList) k
        ['\x22']
      simpa only [Posix.markerCommand, Posix.echo_eq, List.append_assoc] using hwhole
    · exact Posix.newline_not_mem_markerCommand hline k

/-- A script with an indented line that goes on, a carriage return, a blank line, a here-document
and a line feed at its end. -/
def looseScript : List Char :=
  "\tls \\\n -l\r\n\nif true; then\n  cat <<A\n\techo\nA\nfi\n".toList

theorem addsMarkers_instrument_looseScript :
    Text.contains Marker.opening looseScript = false ∧
    (∃ out, (Adapter.powershell ⟨"pwsh", []⟩).instrument looseScript = .ok out ∧
      AddsMarkers PowerShell.markerCommand looseScript out [1, 2, 3, 4, 5, 6, 7, 8, 9]) ∧
    ∃ out, (Adapter.posix .shell ⟨"/bin/sh", []⟩).instrument looseScript = .ok out ∧
      AddsMarkers Posix.markerCommand looseScript out [1, 4, 5] := by
  have hcode : Text.contains Marker.opening looseScript = false := by decide +kernel
  have hall : List.range' 1 (Text.splitLines looseScript).length = [1, 2, 3, 4, 5, 6, 7, 8, 9] := by
    decide +kernel
  have hsome : Posix.markedNumbers .start 1 (Text.splitLines looseScript) = [1, 4, 5] := by
    decide +kernel
  obtain ⟨hpowershell, hposix⟩ := addsMarkers_instrument hcode
  exact ⟨hcode, hall ▸ hpowershell _, hsome ▸ hposix _ _⟩

end StepTrace
