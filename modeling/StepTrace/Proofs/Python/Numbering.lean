import StepTrace.Proofs.Python.Grammar
import StepTrace.Proofs.Python.Passages

/-!
# The lines that statements stand on

A statement tree holds its statements in the order of the source: `Stmt.linesAll` lists the lines of
a program's statements, each before those of its bodies, and `numbers_of_parse` says that they are
lines of the logical lines that the program is read from, one after the other. Logical lines come
with increasing numbers, none beyond the end of the source (`inOrder_of_tokenize`).
-/

set_option autoImplicit false

namespace StepTrace.Python

namespace Stmt

mutual

/-- The lines of the statements in a statement: its own, then those of its bodies from first to
last. Markers have none. -/
def lines : Stmt → List Nat
  | simple line _ => [line]
  | marker _ => []
  | branch line _ body orelse => line :: (linesAll body ++ linesAll orelse)
  | loop line _ body orelse => line :: (linesAll body ++ linesAll orelse)
  | attempt line body handlers orelse final =>
    line :: (linesAll body ++ linesClauses handlers ++ linesAll orelse ++ linesAll final)
  | scope line _ body => line :: linesAll body
  | define line _ _ body => line :: linesAll body
  | choose line _ cases => line :: linesClauses cases

/-- The lines of the statements in a list of statements. -/
def linesAll : List Stmt → List Nat
  | [] => []
  | s :: rest => lines s ++ linesAll rest

/-- The lines of the statements in the bodies of clauses. -/
def linesClauses : List Clause → List Nat
  | [] => []
  | .mk _ _ body :: rest => linesAll body ++ linesClauses rest

end

mutual

/-- Every statement that is counted has its line. -/
theorem length_lines : (s : Stmt) → s.lines.length = s.count
  | simple _ _ => rfl
  | marker _ => rfl
  | branch _ _ body orelse => by
    simp [lines, count, length_linesAll body, length_linesAll orelse, Nat.add_comm 1]
  | loop _ _ body orelse => by
    simp [lines, count, length_linesAll body, length_linesAll orelse, Nat.add_comm 1]
  | attempt _ body handlers orelse final => by
    simp [lines, count, length_linesAll body, length_linesClauses handlers,
      length_linesAll orelse, length_linesAll final, Nat.add_comm 1, Nat.add_assoc]
  | scope _ _ body => by simp [lines, count, length_linesAll body, Nat.add_comm 1]
  | define _ _ _ body => by simp [lines, count, length_linesAll body, Nat.add_comm 1]
  | choose _ _ cases => by simp [lines, count, length_linesClauses cases, Nat.add_comm 1]

theorem length_linesAll : (ss : List Stmt) → (linesAll ss).length = countAll ss
  | [] => rfl
  | s :: rest => by simp [linesAll, countAll, length_lines s, length_linesAll rest]

theorem length_linesClauses : (clauses : List Clause) →
    (linesClauses clauses).length = countClauses clauses
  | [] => rfl
  | .mk _ _ body :: rest => by
    simp [linesClauses, countClauses, length_linesAll body, length_linesClauses rest]

end

theorem linesAll_append (ss ss' : List Stmt) :
    linesAll (ss ++ ss') = linesAll ss ++ linesAll ss' := by
  induction ss with
  | nil => rfl
  | cons s ss ih => rw [List.cons_append, linesAll, ih, linesAll, List.append_assoc]

theorem linesAll_singleton (s : Stmt) : linesAll [s] = s.lines := by
  rw [linesAll, linesAll, List.append_nil]

/-- The simple statements of a line all stand on it. -/
theorem linesAll_simples (t : LogicalLine) (pos : Nat) :
    linesAll (t.simples pos) = List.replicate (t.pieces pos).length t.line := by
  rw [LogicalLine.simples]
  induction t.pieces pos with
  | nil => rfl
  | cons x xs ih => rw [List.map_cons, linesAll, ih]; rfl

end Stmt

open Stmt

/-! ## Numbers that logical lines give -/

/-- The logical lines down to some of them give numbers: each its own line, any number of times. -/
inductive Numbers : List LogicalLine → List LogicalLine → List Nat → Prop
  | refl (lines : List LogicalLine) : Numbers lines lines []
  | line (t : LogicalLine) (k : Nat) {lines rest : List LogicalLine} {ns : List Nat} :
      Numbers lines rest ns → Numbers (t :: lines) rest (List.replicate k t.line ++ ns)

variable {lines lines' rest : List LogicalLine} {ns ms : List Nat}

theorem Numbers.trans (h : Numbers lines lines' ns) (h' : Numbers lines' rest ms) :
    Numbers lines rest (ns ++ ms) := by
  induction h with
  | refl => exact h'
  | line t k _ ih =>
    rw [List.append_assoc]
    exact .line t k (ih h')

/-- A line may give its number once more. -/
theorem Numbers.once (t : LogicalLine) (k : Nat) (h : Numbers lines rest ns) :
    Numbers (t :: lines) rest (t.line :: (List.replicate k t.line ++ ns)) :=
  .line t (k + 1) h

/-- Lines may be left out. -/
theorem Numbers.of_suffix (h : rest <:+ lines) : Numbers lines rest [] := by
  obtain ⟨before, rfl⟩ := h
  induction before with
  | nil => exact .refl rest
  | cons t before ih => exact .line t 0 ih

/-- Every number is that of a line. -/
theorem Numbers.exists_line (h : Numbers lines rest ns) : ∀ n ∈ ns, ∃ t ∈ lines, t.line = n := by
  induction h with
  | refl => exact fun n hn => absurd hn (by simp)
  | line t k _ ih =>
    intro n hn
    rcases List.mem_append.mp hn with hn | hn
    · exact ⟨t, List.mem_cons_self, (List.eq_of_mem_replicate hn).symm⟩
    · obtain ⟨u, hu, hline⟩ := ih n hn
      exact ⟨u, List.mem_cons_of_mem t hu, hline⟩

/-- Lines with increasing numbers give numbers that do not decrease. -/
theorem Numbers.pairwise (h : Numbers lines rest ns)
    (hlines : lines.Pairwise (·.line < ·.line)) : ns.Pairwise (· ≤ ·) := by
  induction h with
  | refl => exact .nil
  | line t k hnumbers ih =>
    obtain ⟨hfirst, hlines⟩ := List.pairwise_cons.mp hlines
    refine List.pairwise_append.mpr ⟨?_, ih hlines, fun n hn m hm => ?_⟩
    · exact List.pairwise_replicate.mpr (.inr (Nat.le_refl _))
    · obtain ⟨u, hu, rfl⟩ := hnumbers.exists_line m hm
      rw [List.eq_of_mem_replicate hn]
      exact Nat.le_of_lt (hfirst u hu)

mutual

theorem ReadsSuite.numbers {indent : Nat} {lines rest : List LogicalLine} {ss : List Stmt} :
    ReadsSuite indent lines ss rest → Numbers lines rest (linesAll ss)
  | .over => .refl _
  | .dedent _ => .refl _
  | .more _ hstatement hsuite => by
    rw [linesAll_append]
    exact hstatement.numbers.trans hsuite.numbers

theorem ReadsStatement.numbers {indent : Nat} {l : LogicalLine} {lines rest : List LogicalLine}
    {ss : List Stmt} :
    ReadsStatement indent l lines ss rest → Numbers (l :: lines) rest (linesAll ss)
  | .simple _ => by
    rw [linesAll_simples, ← List.append_nil (List.replicate _ _)]
    exact .line l _ (.refl _)
  | .decorated _ hspan _ _ hdefine => by
    have hsuffix := spanDecorators_suffix indent lines
    rw [hspan] at hsuffix
    rw [linesAll_singleton]
    exact .line l 0 ((Numbers.of_suffix hsuffix).trans hdefine.numbers)
  | .branch _ _ hbranch => by
    obtain ⟨k, ns, hlines, hnumbers⟩ := hbranch.numbers
    rw [linesAll_singleton, hlines]
    exact .once l k hnumbers
  | .loop _ _ hbody helse => by
    obtain ⟨k, ns, hlines, hnumbers⟩ := hbody.numbers
    rw [linesAll_singleton, Stmt.lines, hlines, List.append_assoc]
    exact .once l k (hnumbers.trans helse.numbers)
  | .attempt _ _ hbody hhandlers helse hfinal _ => by
    obtain ⟨k, ns, hlines, hnumbers⟩ := hbody.numbers
    rw [linesAll_singleton, Stmt.lines, hlines, List.append_assoc, List.append_assoc,
      List.append_assoc]
    exact .once l k (hnumbers.trans (hhandlers.numbers.trans (helse.numbers.trans hfinal.numbers)))
  | .scope _ _ hbody => by
    obtain ⟨k, ns, hlines, hnumbers⟩ := hbody.numbers
    rw [linesAll_singleton, Stmt.lines, hlines]
    exact .once l k hnumbers
  | .define _ hdefine => by
    rw [linesAll_singleton]
    exact hdefine.numbers
  | .choose _ _ _ hcases _ => by
    rw [linesAll_singleton, Stmt.lines]
    exact .once l 0 hcases.numbers

/-- The statements after the colon of a clause stand on its line. -/
theorem ReadsBody.numbers {indent pos : Nat} {l : LogicalLine} {lines rest : List LogicalLine}
    {body : List Stmt} : ReadsBody indent l pos lines body rest →
    ∃ k ns, linesAll body = List.replicate k l.line ++ ns ∧ Numbers lines rest ns
  | .inline _ => ⟨_, [], by rw [linesAll_simples, List.append_nil], .refl _⟩
  | .block _ _ hsuite _ => ⟨0, _, rfl, hsuite.numbers⟩

theorem ReadsBranch.numbers {indent pos : Nat} {l : LogicalLine} {header : List Char}
    {lines rest : List LogicalLine} {s : Stmt} : ReadsBranch indent l header pos lines s rest →
    ∃ k ns, s.lines = l.line :: (List.replicate k l.line ++ ns) ∧ Numbers lines rest ns
  | .nested hbody _ _ _ hbranch => by
    obtain ⟨k, ns, hlines, hnumbers⟩ := hbody.numbers
    obtain ⟨k', ns', hlines', hnumbers'⟩ := hbranch.numbers
    refine ⟨k, _, ?_, hnumbers.trans (.once _ k' hnumbers')⟩
    rw [Stmt.lines, linesAll_singleton, hlines, hlines', List.append_assoc]
  | .closed hbody _ helse => by
    obtain ⟨k, ns, hlines, hnumbers⟩ := hbody.numbers
    refine ⟨k, _, ?_, hnumbers.trans helse.numbers⟩
    rw [Stmt.lines, hlines, List.append_assoc]

theorem ReadsClause.numbers {indent : Nat} {kind : LineKind} {lines rest : List LogicalLine}
    {body : List Stmt} :
    ReadsClause indent kind lines body rest → Numbers lines rest (linesAll body)
  | .absent _ => .refl _
  | .present _ _ _ hbody => by
    obtain ⟨k, ns, hlines, hnumbers⟩ := hbody.numbers
    rw [hlines]
    exact .line _ k hnumbers

theorem ReadsHandlers.numbers {indent : Nat} {lines rest : List LogicalLine}
    {handlers : List Clause} :
    ReadsHandlers indent lines handlers rest → Numbers lines rest (linesClauses handlers)
  | .over _ => .refl _
  | .more _ _ _ hbody hmore => by
    obtain ⟨k, ns, hlines, hnumbers⟩ := hbody.numbers
    rw [linesClauses, hlines, List.append_assoc]
    exact .line _ k (hnumbers.trans hmore.numbers)

theorem ReadsDefine.numbers {indent : Nat} {l : LogicalLine} {decorators : List (List Char)}
    {lines rest : List LogicalLine} {s : Stmt} :
    ReadsDefine indent l decorators lines s rest → Numbers (l :: lines) rest s.lines
  | .mk _ hbody => by
    obtain ⟨k, ns, hlines, hnumbers⟩ := hbody.numbers
    rw [Stmt.lines, hlines]
    exact .once l k hnumbers

theorem ReadsCases.numbers {indent : Nat} {lines rest : List LogicalLine} {cases : List Clause} :
    ReadsCases indent lines cases rest → Numbers lines rest (linesClauses cases)
  | .over => .refl _
  | .dedent _ => .refl _
  | .more _ _ _ hbody hmore => by
    obtain ⟨k, ns, hlines, hnumbers⟩ := hbody.numbers
    rw [linesClauses, hlines, List.append_assoc]
    exact .line _ k (hnumbers.trans hmore.numbers)

end

/-- The lines of a program's statements are given by the logical lines of its source. -/
theorem numbers_of_parse {source : List Char} {program : List Stmt}
    (h : parse source = .ok program) :
    ∃ lines, tokenize source = .ok lines ∧ Numbers lines [] (linesAll program) := by
  obtain ⟨lines, htokens, hsuite⟩ := reads_of_parse h
  exact ⟨lines, htokens, hsuite.numbers⟩

/-! ## The order of logical lines -/

/-- Logical lines whose numbers increase and stay between two numbers. -/
structure InOrder (low high : Nat) (lines : List LogicalLine) : Prop where
  increasing : lines.Pairwise (·.line < ·.line)
  bounds : ∀ t ∈ lines, low ≤ t.line ∧ t.line ≤ high

namespace InOrder

variable {low low' high : Nat}

theorem nil (low high : Nat) : InOrder low high [] := ⟨.nil, fun t ht => absurd ht (by simp)⟩

theorem weaken (h : InOrder low high lines) (hlow : low' ≤ low) : InOrder low' high lines :=
  ⟨h.increasing, fun t ht => ⟨hlow.trans (h.bounds t ht).1, (h.bounds t ht).2⟩⟩

theorem cons {t : LogicalLine} (h : InOrder low high lines) (hlow : t.line < low)
    (hhigh : t.line ≤ high) : InOrder t.line high (t :: lines) where
  increasing := .cons (fun u hu => hlow.trans_le (h.bounds u hu).1) h.increasing
  bounds := List.forall_mem_cons.mpr
    ⟨⟨Nat.le_refl _, hhigh⟩, (h.weaken (Nat.le_of_lt hlow)).bounds⟩

end InOrder

/-- The least number that the next logical line can have. -/
def Mode.earliest (line : Nat) : Mode → Nat
  | .inside l => l.line
  | _ => line

theorem Mode.Idle.earliest {m : Mode} (h : m.Idle) (line : Nat) : m.earliest line = line := by
  cases m with
  | inside l => exact h.elim
  | margin column => rfl
  | remark => rfl

theorem le_lineAfter (line : Nat) (c : Char) : line ≤ lineAfter line c := by
  rw [lineAfter]
  split <;> omega

/-- Logical lines are read in order, the first not before the line where the reader stands or where
the line that it reads began. -/
theorem Lexes.inOrder {line : Nat} {m : Mode} {s : List Char} (h : Lexes line m s lines)
    (hm : m.earliest line ≤ line) : InOrder (m.earliest line) (line + Text.breaks s) lines := by
  induction h with
  | stop line hidle => exact .nil _ _
  | last line hclosed =>
    exact ⟨List.pairwise_singleton _ _, List.forall_mem_singleton.mpr
      ⟨Nat.le_refl _, hm.trans (Nat.le_add_right _ _)⟩⟩
  | @idle line m m' c next lines hidle hidle' hstep _ ih =>
    have hlow := hidle'.earliest (lineAfter line c)
    have hrest := ih (Nat.le_of_eq hlow)
    rw [hlow] at hrest
    rw [hidle.earliest, ← lineAfter_add_breaks]
    exact hrest.weaken (le_lineAfter line c)
  | opens hc _ ih => exact ih (Nat.le_refl _)
  | @ends line l c next lines hends _ ih =>
    -- the line ends here, and the next one begins behind it
    have hafter : lineAfter line c = line + 1 := if_pos hends.2.2
    rw [← lineAfter_add_breaks, hafter]
    refine (ih (Nat.le_refl _)).cons (t := l.finish) ?_ ?_
    · exact Nat.lt_succ_of_le hm
    · exact (Nat.le_succ_of_le hm).trans (Nat.le_add_right _ _)
  | @grows line l l₁ c next lines hgoes hgrow _ ih =>
    -- a line keeps the number that it began with
    have hplace : l₁.line = l.line := hgrow.place.1
    have hrest := ih (hplace.le.trans (Nat.le_trans hm (le_lineAfter line c)))
    rw [Mode.earliest, hplace] at hrest
    rw [← lineAfter_add_breaks]
    exact hrest

/-- The logical lines of a source increase from the first line on and end within it. -/
theorem inOrder_of_tokenize {source : List Char} (h : tokenize source = .ok lines) :
    InOrder 1 (1 + Text.breaks source) lines := by
  rw [← Text.breaks_unifyBreaks]
  exact (lexes_of_tokenize h).inOrder (Nat.le_refl _)

end StepTrace.Python
