import StepTrace.Proofs.Posix.Quoting

/-!
# Passages of a script without markers

Marking a script goes line by line, so a script that is cut in two is marked part by part
(`markLines_append`, `markedNumbers_append`). A passage on no line of which a command begins is left
as it is (`IsSilent.markLines`).
-/

set_option autoImplicit false

namespace StepTrace.Posix

/-- The numbers of the lines on which a command begins, the first line with a number. -/
def markedNumbers (s : ScriptState) (number : Nat) : List (List Char) → List Nat
  | [] => []
  | line :: rest =>
    let after := markedNumbers (s.consume line) (number + 1) rest
    if s.startsCommand line then number :: after else after

theorem markedNumbers_append (s : ScriptState) (number : Nat) (before rest : List (List Char)) :
    markedNumbers s number (before ++ rest) = markedNumbers s number before ++
      markedNumbers (before.foldl ScriptState.consume s) (number + before.length) rest := by
  induction before generalizing s number with
  | nil => simp [markedNumbers]
  | cons l before ih =>
    have hn : number + 1 + before.length = number + (before.length + 1) := by omega
    simp only [List.cons_append, markedNumbers, ih, List.foldl_cons, List.length_cons, hn]
    split <;> rfl

namespace ScriptState

/-- On none of some lines does a command begin, if they are met in a state. -/
def IsSilent (s : ScriptState) : List (List Char) → Prop
  | [] => True
  | line :: rest => s.startsCommand line = false ∧ IsSilent (s.consume line) rest

namespace IsSilent

variable {s : ScriptState} {lines rest : List (List Char)}

theorem append (h : s.IsSilent lines) (hrest : (lines.foldl consume s).IsSilent rest) :
    s.IsSilent (lines ++ rest) := by
  induction lines generalizing s with
  | nil => exact hrest
  | cons line lines ih => exact ⟨h.1, ih h.2 hrest⟩

/-- Lines that leave the state as it is are silent if each of them is. -/
theorem of_consume (h : ∀ line ∈ lines, s.startsCommand line = false ∧ s.consume line = s) :
    s.IsSilent lines ∧ lines.foldl consume s = s := by
  induction lines with
  | nil => exact ⟨trivial, rfl⟩
  | cons line lines ih =>
    obtain ⟨⟨hstarts, hkeeps⟩, hlines⟩ := List.forall_mem_cons.mp h
    obtain ⟨hsilent, hfold⟩ := ih hlines
    rw [List.foldl_cons, hkeeps]
    exact ⟨⟨hstarts, hkeeps.symm ▸ hsilent⟩, hfold⟩

theorem startsCommand (h : s.IsSilent lines) {u v : List (List Char)} {line : List Char}
    (hcut : lines = u ++ line :: v) : (u.foldl consume s).startsCommand line = false := by
  induction u generalizing s lines with
  | nil =>
    subst hcut
    exact h.1
  | cons m u ih =>
    subst hcut
    exact ih h.2 rfl

/-- No marker is put into a silent passage. -/
theorem markLines (h : s.IsSilent lines) (number : Nat) :
    Posix.markLines s number lines = lines := by
  induction lines generalizing s number with
  | nil => rfl
  | cons line lines ih => rw [Posix.markLines, h.1, if_neg Bool.false_ne_true, ih h.2]

theorem markedNumbers (h : s.IsSilent lines) (number : Nat) :
    Posix.markedNumbers s number lines = [] := by
  induction lines generalizing s number with
  | nil => rfl
  | cons line lines ih => rw [Posix.markedNumbers, h.1, if_neg Bool.false_ne_true, ih h.2]

end IsSilent

/-- A blank line or a comment leaves a line open that goes on, in a here-document or not. -/
theorem continued_of_isIdle {s : ScriptState} (hquoting : s.quoting = .bare)
    (hcontinued : s.continued = true) {line : List Char} (hidle : isIdle (Text.trim line) = true) :
    (s.consume line).quoting = .bare ∧ (s.consume line).continued = true := by
  rw [consume]
  split
  · rw [passHeredoc]
    split
    · exact ⟨hquoting, hcontinued⟩
    · next d rest _ =>
      generalize (if d.stripTabs then line.dropWhile (· == '\t') else line) = candidate
      change (if candidate = d.word then _ else s).quoting = _ ∧
        (if candidate = d.word then _ else s).continued = _
      split <;> exact ⟨hquoting, hcontinued⟩
  · rw [hquoting, hidle]
    exact ⟨hquoting, hcontinued⟩

/-- Behind a line that goes on no command begins up to the next line of code. -/
theorem isSilent_of_continued {s : ScriptState} (hquoting : s.quoting = .bare)
    (hcontinued : s.continued = true) {idle : List (List Char)}
    (hidle : ∀ line ∈ idle, isIdle (Text.trim line) = true) (line : List Char) :
    s.IsSilent (idle ++ [line]) := by
  have hsilent : ∀ {t : ScriptState}, t.continued = true → ∀ l, t.startsCommand l = false := by
    intro t ht l
    rw [ScriptState.startsCommand, ht, Bool.or_true, Bool.true_or, if_pos rfl]
  induction idle generalizing s with
  | nil => exact ⟨hsilent hcontinued line, trivial⟩
  | cons l idle ih =>
    obtain ⟨hl, hrest⟩ := List.forall_mem_cons.mp hidle
    obtain ⟨hquoting', hcontinued'⟩ := continued_of_isIdle hquoting hcontinued hl
    exact ⟨hsilent hcontinued l, ih hquoting' hcontinued' hrest⟩

end ScriptState

/-- What instrumenting makes of a script with a silent passage: the passage stands in it as it is.
-/
theorem instrument_of_isSilent {code : List Char} {before passage rest : List (List Char)}
    (hcode : Text.splitLines code = before ++ passage ++ rest)
    (h : (before.foldl ScriptState.consume .start).IsSilent passage) :
    instrument code = Text.joinLines (markLines .start 1 before ++ passage ++
      markLines ((before ++ passage).foldl ScriptState.consume .start)
        (1 + before.length + passage.length) rest) := by
  rw [instrument, hcode, List.append_assoc, markLines_append, markLines_append, h.markLines,
    ← List.append_assoc, List.foldl_append]

end StepTrace.Posix
