import StepTrace.Proofs.Python.Scan
import StepTrace.Python.Stmt.Writer

/-!
# Rows of source

A row is a text that is one logical line by itself, behind some spaces. Source that consists of rows
is read as one logical line for each of them (`tokenize_rows`); `placed` says which ones.
-/

set_option autoImplicit false

namespace StepTrace.Python

/-- The logical line that a text is by itself. -/
def alone (x : List Char) : LogicalLine :=
  match tokenize x with
  | .ok [l] => l
  | _ => default

/-- A text that is one logical line by itself, wherever it stands as a row. -/
structure RowText (x : List Char) : Prop where
  oneLine : OneLine x (alone x)
  noBackslash : x.getLast? ≠ some '\\'

/-- A row: spaces and a text. -/
def IsRow (y : List Char) : Prop := ∃ n x, y = List.replicate n ' ' ++ x ∧ RowText x

/-- The logical line that a row is on some line of a source. -/
def rowLine (line : Nat) (y : List Char) : LogicalLine :=
  { alone (y.dropWhile (· == ' ')) with line := line, indent := (y.takeWhile (· == ' ')).length }

/-- The logical lines of some rows, the first of which stands on a line with some number. -/
def placed (line : Nat) : List (List Char) → List LogicalLine
  | [] => []
  | y :: ys => rowLine line y :: placed (line + Text.breaks y + 1) ys

variable {x y : List Char} {l : LogicalLine}

theorem OneLine.eq_alone (h : OneLine x l) : alone x = l := by
  rw [alone, h.read]

theorem RowText.of_oneLine (h : OneLine x l) (hlast : x.getLast? ≠ some '\\') : RowText x :=
  ⟨h.eq_alone.symm ▸ h, hlast⟩

theorem OneLine.not_isBlank_of_getLast? {c : Char} (h : OneLine x l) (hc : x.getLast? = some c) :
    Text.isBlank c = false := by
  obtain ⟨l', hread⟩ := h.reading
  refine Text.not_isBlank_of_getLast?_trimEnd (s := l'.behind.reverse) ?_
  have htext : Text.trimEnd l'.behind.reverse = x := by
    rw [← h.text, hread.finish]
    rfl
  rw [htext, hc]

theorem rowLine_of_rowText (h : RowText x) (line n : Nat) :
    rowLine line (List.replicate n ' ' ++ x) = { alone x with line := line, indent := n } := by
  obtain ⟨c, s, rfl, hc⟩ := h.oneLine.opens
  have hspace : (c == ' ') = false := beq_false_of_ne hc.1
  have hdrop : (List.replicate n ' ' ++ c :: s).dropWhile (· == ' ') = c :: s := by
    rw [List.dropWhile_append_of_pos (by simp), List.dropWhile_cons, hspace]
    rfl
  have htake : (List.replicate n ' ' ++ c :: s).takeWhile (· == ' ') = List.replicate n ' ' := by
    rw [List.takeWhile_append_of_pos (by simp), List.takeWhile_cons, hspace]
    simp
  rw [rowLine, hdrop, htake, List.length_replicate]

theorem length_placed (line : Nat) (ys : List (List Char)) :
    (placed line ys).length = ys.length := by
  induction ys generalizing line with
  | nil => rfl
  | cons y ys ih => simp [placed, ih]

/-- The line behind some rows. -/
def lineBehind (line : Nat) : List (List Char) → Nat
  | [] => line
  | y :: ys => lineBehind (line + Text.breaks y + 1) ys

theorem placed_append (line : Nat) (ys zs : List (List Char)) :
    placed line (ys ++ zs) = placed line ys ++ placed (lineBehind line ys) zs := by
  induction ys generalizing line with
  | nil => rfl
  | cons y ys ih => simp [placed, lineBehind, ih]

theorem IsRow.getLast? (h : IsRow y) : y.getLast? ≠ some '\r' := by
  obtain ⟨n, x, rfl, hx⟩ := h
  obtain ⟨c, s, rfl, -⟩ := hx.oneLine.opens
  rw [List.getLast?_append_of_ne_nil _ (by simp)]
  -- a carriage return is blank, and a text does not end in a blank
  intro hlast
  exact absurd (hx.oneLine.not_isBlank_of_getLast? hlast) (by decide)

theorem IsRow.unifyBreaks (h : IsRow y) : Text.unifyBreaks y = y := by
  obtain ⟨n, x, rfl, hx⟩ := h
  induction n with
  | zero => exact hx.oneLine.breaks
  | succ n ih =>
    rw [List.replicate_succ, List.cons_append, Text.unifyBreaks, if_neg (by simp), ih]

/-- Source that consists of rows is read row by row. -/
theorem lex_rows (ys : List (List Char)) (hys : ∀ y ∈ ys, IsRow y) (line : Nat) :
    lex line (.margin 0) (Text.joinLines ys) = .ok (placed line ys) := by
  induction ys generalizing line with
  | nil => rfl
  | cons y ys ih =>
    obtain ⟨n, x, rfl, hx⟩ := hys y List.mem_cons_self
    have hbreaks : Text.breaks (List.replicate n ' ' ++ x) = Text.breaks x := by
      simp [Text.breaks, List.count_replicate]
    rw [placed, rowLine_of_rowText hx, hbreaks]
    -- the last row has no line feed behind it
    cases ys with
    | nil => exact lex_last_row hx.oneLine hx.noBackslash line n
    | cons z zs =>
      rw [Text.joinLines_cons _ _ (by simp), lex_row hx.oneLine hx.noBackslash,
        ih fun y hy => hys y (List.mem_cons_of_mem _ hy)]
      rfl

theorem unifyBreaks_rows (ys : List (List Char)) (hys : ∀ y ∈ ys, IsRow y) :
    Text.unifyBreaks (Text.joinLines ys) = Text.joinLines ys := by
  induction ys with
  | nil => rfl
  | cons y ys ih =>
    have hy := hys y List.mem_cons_self
    cases ys with
    | nil => exact hy.unifyBreaks
    | cons z zs =>
      rw [Text.joinLines_cons _ _ (by simp), Text.unifyBreaks_append_newline _ _ hy.unifyBreaks
        hy.getLast?, ih fun y hy => hys y (List.mem_cons_of_mem _ hy)]

/-- The logical lines of source that consists of rows. -/
theorem tokenize_rows (ys : List (List Char)) (hys : ∀ y ∈ ys, IsRow y) :
    tokenize (Text.joinLines ys) = .ok (placed 1 ys) := by
  rw [tokenize, unifyBreaks_rows ys hys]
  exact lex_rows ys hys 1

end StepTrace.Python
