import StepTrace.Proofs.Python.Reading
import Mathlib.Order.Monotone.Basic

/-!
# Only the order of indentations matters

Lines whose indentations are replaced by others in the same order, where the margin stays the
margin, are read as the same statements or refused for the same cause (`parseLines_reindented`). The
readers of statements only compare indentations: `Regular` says of all of them with some fuel that
they read the replaced lines alike and leave the replaced rest.
-/

set_option autoImplicit false

namespace StepTrace.Python

/-- The line at another indentation. -/
def LogicalLine.reindented (f : Nat → Nat) (l : LogicalLine) : LogicalLine :=
  { l with indent := f l.indent }

/-- What is read, with the lines that are left at other indentations. -/
def restReindented {α : Type} (f : Nat → Nat) (r : Except SyntaxError (α × List LogicalLine)) :
    Except SyntaxError (α × List LogicalLine) :=
  r.map fun p => (p.1, p.2.map (LogicalLine.reindented f))

variable {f : Nat → Nat} {fuel indent : Nat} {l : LogicalLine} {lines : List LogicalLine}
  {keyword : String} {inline : List Stmt} {kind : LineKind}

theorem restReindented_bind {α β : Type} {x y : Except SyntaxError (α × List LogicalLine)}
    {k k' : α × List LogicalLine → Except SyntaxError (β × List LogicalLine)}
    (hx : y = restReindented f x)
    (hk : ∀ a rest, k' (a, rest.map (LogicalLine.reindented f)) = restReindented f (k (a, rest))) :
    y >>= k' = restReindented f (x >>= k) := by
  subst hx
  cases x with
  | error e => rfl
  | ok p => exact hk p.1 p.2

theorem restReindented_bind_same {α β : Type} {x : Except SyntaxError α}
    {k k' : α → Except SyntaxError (β × List LogicalLine)}
    (hk : ∀ a, k' a = restReindented f (k a)) : x >>= k' = restReindented f (x >>= k) := by
  cases x with
  | error e => rfl
  | ok a => exact hk a

theorem indent_reindented (f : Nat → Nat) (l : LogicalLine) :
    (l.reindented f).indent = f l.indent := rfl

theorem kind_reindented (f : Nat → Nat) (l : LogicalLine) : (l.reindented f).kind = l.kind := rfl

/-- Decorators stand at the replaced indentation as they stood at the first. -/
theorem spanDecorators_reindented (hf : StrictMono f) (indent : Nat) (lines : List LogicalLine) :
    spanDecorators (f indent) (lines.map (LogicalLine.reindented f)) =
      ((spanDecorators indent lines).1,
        (spanDecorators indent lines).2.map (LogicalLine.reindented f)) := by
  induction lines with
  | nil => rfl
  | cons l lines ih =>
    rw [List.map_cons, spanDecorators, spanDecorators]
    simp only [indent_reindented, kind_reindented, hf.injective.eq_iff]
    split_ifs
    · rw [ih]
      rfl
    · rfl

theorem checkDedent_reindented (hf : StrictMono f) (indent inner : Nat)
    (lines : List LogicalLine) :
    checkDedent (f indent) (f inner) (lines.map (LogicalLine.reindented f)) =
      checkDedent indent inner lines := by
  cases lines with
  | nil => rfl
  | cons l lines =>
    rw [List.map_cons, checkDedent, checkDedent]
    simp only [indent_reindented, hf.lt_iff_lt]
    rfl

/-- What holds of the readers of statements with some fuel: they read lines at other indentations
alike. -/
structure Regular (f : Nat → Nat) (fuel : Nat) : Prop where
  suite : ∀ indent lines, readSuite fuel (f indent) (lines.map (LogicalLine.reindented f)) =
    restReindented f (readSuite fuel indent lines)
  statement : ∀ indent l lines,
    readStatement fuel (f indent) (l.reindented f) (lines.map (LogicalLine.reindented f)) =
      restReindented f (readStatement fuel indent l lines)
  body : ∀ indent l keyword inline lines,
    readBody fuel (f indent) (l.reindented f) keyword inline
        (lines.map (LogicalLine.reindented f)) =
      restReindented f (readBody fuel indent l keyword inline lines)
  branch : ∀ indent l header inline lines,
    readBranch fuel (f indent) (l.reindented f) header inline
        (lines.map (LogicalLine.reindented f)) =
      restReindented f (readBranch fuel indent l header inline lines)
  clause : ∀ indent kind keyword lines,
    readClause fuel (f indent) kind keyword (lines.map (LogicalLine.reindented f)) =
      restReindented f (readClause fuel indent kind keyword lines)
  handlers : ∀ indent lines, readHandlers fuel (f indent) (lines.map (LogicalLine.reindented f)) =
    restReindented f (readHandlers fuel indent lines)
  define : ∀ indent l decorators lines,
    readDefine fuel (f indent) (l.reindented f) decorators
        (lines.map (LogicalLine.reindented f)) =
      restReindented f (readDefine fuel indent l decorators lines)
  cases : ∀ indent lines, readCases fuel (f indent) (lines.map (LogicalLine.reindented f)) =
    restReindented f (readCases fuel indent lines)

theorem regular_zero (f : Nat → Nat) : Regular f 0 where
  suite := fun _ _ => by rw [readSuite, readSuite]; rfl
  statement := fun _ _ _ => by rw [readStatement, readStatement]; rfl
  body := fun _ _ _ _ _ => by rw [readBody, readBody]; rfl
  branch := fun _ _ _ _ _ => by rw [readBranch, readBranch]; rfl
  clause := fun _ _ _ _ => by rw [readClause, readClause]; rfl
  handlers := fun _ _ => by rw [readHandlers, readHandlers]; rfl
  define := fun _ _ _ _ => by rw [readDefine, readDefine]; rfl
  cases := fun _ _ => by rw [readCases, readCases]; rfl

namespace Regular

variable (h : Regular f fuel) (hf : StrictMono f)

include h

theorem define_succ (indent : Nat) (l : LogicalLine) (decorators : List (List Char))
    (lines : List LogicalLine) :
    readDefine (fuel + 1) (f indent) (l.reindented f) decorators
        (lines.map (LogicalLine.reindented f)) =
      restReindented f (readDefine (fuel + 1) indent l decorators lines) := by
  rw [readDefine, readDefine]
  refine restReindented_bind_same fun p => ?_
  exact restReindented_bind (h.body _ _ _ _ _) fun body rest => rfl

include hf

theorem suite_succ (indent : Nat) (lines : List LogicalLine) :
    readSuite (fuel + 1) (f indent) (lines.map (LogicalLine.reindented f)) =
      restReindented f (readSuite (fuel + 1) indent lines) := by
  cases lines with
  | nil =>
    rw [List.map_nil, readSuite, readSuite]
    rfl
  | cons l lines =>
    rw [List.map_cons, readSuite, readSuite]
    simp only [indent_reindented, hf.lt_iff_lt]
    split_ifs
    · rfl
    · rfl
    refine restReindented_bind (h.statement _ _ _) fun ss rest => ?_
    exact restReindented_bind (h.suite _ _) fun others rest => rfl

theorem body_succ (indent : Nat) (l : LogicalLine) (keyword : String) (inline : List Stmt)
    (lines : List LogicalLine) :
    readBody (fuel + 1) (f indent) (l.reindented f) keyword inline
        (lines.map (LogicalLine.reindented f)) =
      restReindented f (readBody (fuel + 1) indent l keyword inline lines) := by
  rw [readBody.eq_def, readBody.eq_def]
  dsimp only
  split_ifs
  · rfl
  cases lines with
  | nil => rfl
  | cons first lines =>
    rw [List.map_cons]
    dsimp only
    simp only [indent_reindented, hf.lt_iff_lt]
    split_ifs
    · refine restReindented_bind (h.suite first.indent (first :: lines)) fun body rest => ?_
      have hdedent := checkDedent_reindented hf indent first.indent rest
      exact hdedent ▸ restReindented_bind_same fun _ => rfl
    · rfl

theorem clause_succ (indent : Nat) (kind : LineKind) (keyword : String)
    (lines : List LogicalLine) :
    readClause (fuel + 1) (f indent) kind keyword (lines.map (LogicalLine.reindented f)) =
      restReindented f (readClause (fuel + 1) indent kind keyword lines) := by
  cases lines with
  | nil =>
    rw [List.map_nil, readClause, readClause]
    rfl
  | cons l lines =>
    rw [List.map_cons, readClause, readClause]
    simp only [indent_reindented, kind_reindented, hf.injective.eq_iff]
    split_ifs
    · exact restReindented_bind_same fun p => h.body _ _ _ _ _
    · rfl

theorem handlers_succ (indent : Nat) (lines : List LogicalLine) :
    readHandlers (fuel + 1) (f indent) (lines.map (LogicalLine.reindented f)) =
      restReindented f (readHandlers (fuel + 1) indent lines) := by
  cases lines with
  | nil =>
    rw [List.map_nil, readHandlers, readHandlers]
    rfl
  | cons l lines =>
    rw [List.map_cons, readHandlers, readHandlers]
    simp only [indent_reindented, kind_reindented, hf.injective.eq_iff]
    split_ifs
    · refine restReindented_bind_same fun p => ?_
      refine restReindented_bind (h.body _ _ _ _ _) fun body rest => ?_
      exact restReindented_bind (h.handlers _ _) fun others rest => rfl
    · rfl

theorem cases_succ (indent : Nat) (lines : List LogicalLine) :
    readCases (fuel + 1) (f indent) (lines.map (LogicalLine.reindented f)) =
      restReindented f (readCases (fuel + 1) indent lines) := by
  cases lines with
  | nil =>
    rw [List.map_nil, readCases, readCases]
    rfl
  | cons l lines =>
    rw [List.map_cons, readCases, readCases]
    have hcase : (l.reindented f).isCase = l.isCase := rfl
    simp only [indent_reindented, hf.lt_iff_lt]
    split_ifs with _ _ hmoved hfirst hfirst
    · rfl
    · rfl
    · rfl
    · exact absurd (hcase ▸ hmoved) hfirst
    · exact absurd (hcase ▸ hfirst) hmoved
    refine restReindented_bind_same fun p => ?_
    refine restReindented_bind (h.body _ _ _ _ _) fun body rest => ?_
    exact restReindented_bind (h.cases _ _) fun others rest => rfl

theorem branch_succ (indent : Nat) (l : LogicalLine) (header : List Char) (inline : List Stmt)
    (lines : List LogicalLine) :
    readBranch (fuel + 1) (f indent) (l.reindented f) header inline
        (lines.map (LogicalLine.reindented f)) =
      restReindented f (readBranch (fuel + 1) indent l header inline lines) := by
  rw [readBranch, readBranch]
  refine restReindented_bind (h.body _ _ _ _ _) fun body rest => ?_
  cases rest with
  | nil => rfl
  | cons next others =>
    rw [List.map_cons]
    dsimp only
    simp only [indent_reindented, kind_reindented, hf.injective.eq_iff]
    split_ifs
    · refine restReindented_bind_same fun p => ?_
      exact restReindented_bind (h.branch _ _ _ _ _) fun s rest => rfl
    · exact restReindented_bind (h.clause _ _ _ (next :: others)) fun orelse rest => rfl

theorem statement_succ (indent : Nat) (l : LogicalLine) (lines : List LogicalLine) :
    readStatement (fuel + 1) (f indent) (l.reindented f) (lines.map (LogicalLine.reindented f)) =
      restReindented f (readStatement (fuel + 1) indent l lines) := by
  have hline : (l.reindented f).kind = l.kind := rfl
  rw [readStatement, readStatement, hline]
  -- Where two lines are compared it is by `=` or `<`, which `f` keeps; the rest is the same calls.
  cases hkind : l.kind with
  | simple => rfl
  | decorator =>
    dsimp only
    rw [spanDecorators_reindented hf]
    dsimp only
    cases hrest : (spanDecorators indent lines).2 with
    | nil => rfl
    | cons d rest =>
      rw [List.map_cons]
      dsimp only
      simp only [indent_reindented, kind_reindented, hf.injective.eq_iff]
      split_ifs
      · exact restReindented_bind (h.define _ _ _ _) fun s rest => rfl
      · rfl
  | branch =>
    refine restReindented_bind_same fun p => ?_
    exact restReindented_bind (h.branch _ _ _ _ _) fun s rest => rfl
  | loop =>
    refine restReindented_bind_same fun p => ?_
    refine restReindented_bind (h.body _ _ _ _ _) fun body rest => ?_
    exact restReindented_bind (h.clause _ _ _ _) fun orelse rest => rfl
  | attempt =>
    refine restReindented_bind_same fun p => ?_
    refine restReindented_bind (h.body _ _ _ _ _) fun body rest => ?_
    refine restReindented_bind (h.handlers _ _) fun handlers rest => ?_
    refine restReindented_bind (h.clause _ _ _ _) fun orelse rest => ?_
    refine restReindented_bind (h.clause _ _ _ _) fun final rest => ?_
    dsimp only
    split_ifs <;> rfl
  | scope =>
    refine restReindented_bind_same fun p => ?_
    exact restReindented_bind (h.body _ _ _ _ _) fun body rest => rfl
  | define => exact restReindented_bind (h.define _ _ _ _) fun s rest => rfl
  | choose =>
    refine restReindented_bind_same fun p => ?_
    cases lines with
    | nil => rfl
    | cons first lines =>
      rw [List.map_cons]
      dsimp only
      simp only [indent_reindented, hf.lt_iff_lt]
      split_ifs
      · refine restReindented_bind (h.cases first.indent (first :: lines)) fun cases rest => ?_
        have hdedent := checkDedent_reindented hf indent first.indent rest
        exact hdedent ▸ restReindented_bind_same fun _ => rfl
      · rfl
  | _ => rfl

end Regular

theorem regular (hf : StrictMono f) : (fuel : Nat) → Regular f fuel
  | 0 => regular_zero f
  | fuel + 1 =>
    have h := regular hf fuel
    { suite := h.suite_succ hf
      statement := h.statement_succ hf
      body := h.body_succ hf
      branch := h.branch_succ hf
      clause := h.clause_succ hf
      handlers := h.handlers_succ hf
      define := h.define_succ
      cases := h.cases_succ hf }

/-- Lines at other indentations in the same order are the same program, or none for the same
cause. -/
theorem parseLines_reindented (hf : StrictMono f) (hzero : f 0 = 0) (lines : List LogicalLine) :
    parseLines (lines.map (LogicalLine.reindented f)) = parseLines lines := by
  have hsuite := (regular hf (4 * lines.length + 4)).suite 0 lines
  rw [hzero] at hsuite
  rw [parseLines_eq, parseLines_eq, List.length_map, hsuite]
  cases readSuite (4 * lines.length + 4) 0 lines <;> rfl

/-- A block inside a block, and a line that stands between the two. -/
def steppedLines : List LogicalLine :=
  [⟨1, 0, "if a:".toList, [4], []⟩, ⟨2, 2, "try:".toList, [3], []⟩, ⟨3, 7, "b".toList, [], []⟩,
    ⟨4, 4, "c".toList, [], []⟩]

theorem parseLines_reindented_steppedLines : StrictMono (fun n : Nat => 3 * n) ∧ 3 * 0 = 0 ∧
    parseLines (steppedLines.map (LogicalLine.reindented (3 * ·))) = parseLines steppedLines ∧
    (parseLines steppedLines).map Stmt.countAll = .error (.inconsistentDedent 4) := by
  have hf : StrictMono (fun n : Nat => 3 * n) := fun a b hless => by
    show 3 * a < 3 * b
    omega
  exact ⟨hf, rfl, parseLines_reindented hf rfl steppedLines, by decide +kernel⟩

end StepTrace.Python
