import StepTrace.Proofs.Python.Grammar
import StepTrace.Proofs.Python.RoundTrip
import Mathlib.Data.List.Forall2

/-!
# What a tree keeps of its lines

A program is written as rows, and each row comes from a logical line that it was read from: the
lines from first to last give the rows from first to last (`gathers_of_parse`). `Gives` says which
rows a line gives. One kind of line may give none: an `else` or `finally` clause in whose body no
statement stands is not written again (`Hollow`).
-/

set_option autoImplicit false

namespace StepTrace.Python

/-! ## Rows that lines give -/

namespace LineKind

/-- Whether a line of this kind begins a statement or clause whose header is kept. -/
def keepsHeader : LineKind → Bool
  | .branch | .loop | .exceptClause | .scope | .define | .choose => true
  | _ => false

/-- What stands for the header of a line of this kind, whatever the header is. -/
def bareHeader? : LineKind → Option (List Char)
  | .attempt => some "try:".toList
  | .elseClause => some "else:".toList
  | .finallyClause => some "finally:".toList
  | _ => none

theorem eq_of_bareHeader? {kind : LineKind} {header : List Char}
    (h : kind.bareHeader? = some header) :
    header = "try:".toList ∨ header = "else:".toList ∨ header = "finally:".toList := by
  cases kind with
  | attempt => exact .inl (Option.some.inj h).symm
  | elseClause => exact .inr (.inl (Option.some.inj h).symm)
  | finallyClause => exact .inr (.inr (Option.some.inj h).symm)
  | _ => cases h

end LineKind

/-- The rows that a line may give, without their indentation. -/
inductive Gives (t : LogicalLine) : List (List Char) → Prop
  | simple : t.kind = .simple → Gives t (t.pieces 0)
  | decorator : t.kind = .decorator → Gives t [t.text]
  | header (colon : Nat) : t.kind.keepsHeader = true ∨ t.isCase = true →
      t.headerColon? = some colon → Gives t (t.through colon :: t.pieces (colon + 1))
  | bare (colon : Nat) (header : List Char) : t.kind.bareHeader? = some header →
      t.headerColon? = some colon → Gives t (header :: t.pieces (colon + 1))
  /-- The clause becomes an `if` statement in an `else` clause. -/
  | elif (colon : Nat) : t.kind = .elifClause → t.headerColon? = some colon →
      Gives t ("else:".toList ::
        ("if".toList ++ (t.through colon).drop "elif".toList.length) :: t.pieces (colon + 1))

/-- Whether no statement stands in a line. -/
def Idle (t : LogicalLine) : Prop := t.kind = .simple ∧ t.pieces 0 = []

instance (t : LogicalLine) : Decidable (Idle t) := inferInstanceAs (Decidable (_ ∧ _))

/-- Whether a line is an `else` or `finally` clause in whose body, which is on the line or in the
lines that follow it, no statement stands. -/
def Hollow (t : LogicalLine) (lines : List LogicalLine) : Prop :=
  (t.kind = .elseClause ∨ t.kind = .finallyClause) ∧
    (∃ colon ∈ t.headerColon?, t.pieces (colon + 1) = []) ∧
    ∀ u ∈ lines.takeWhile (t.indent < ·.indent), Idle u

instance (t : LogicalLine) (lines : List LogicalLine) : Decidable (Hollow t lines) :=
  inferInstanceAs (Decidable (_ ∧ _ ∧ _))

/-- Whether no clause in some lines is hollow. -/
def AllSolid : List LogicalLine → Prop
  | [] => True
  | t :: lines => ¬Hollow t lines ∧ AllSolid lines

/-- Whether clauses are hollow is computed. -/
def decideAllSolid : (lines : List LogicalLine) → Decidable (AllSolid lines)
  | [] => inferInstanceAs (Decidable True)
  | _ :: lines =>
    have := decideAllSolid lines
    inferInstanceAs (Decidable (_ ∧ _))

instance (lines : List LogicalLine) : Decidable (AllSolid lines) := decideAllSolid lines

/-- The lines down to some of them give rows. -/
inductive Gathers : List LogicalLine → List LogicalLine → List (List Char) → Prop
  | refl (lines : List LogicalLine) : Gathers lines lines []
  | line {t : LogicalLine} {lines rest : List LogicalLine} {xs ys : List (List Char)} :
      Gives t xs → Gathers lines rest ys → Gathers (t :: lines) rest (xs ++ ys)
  | hollow {t : LogicalLine} {lines rest : List LogicalLine} {ys : List (List Char)} :
      Hollow t lines → Gathers (lines.dropWhile (t.indent < ·.indent)) rest ys →
      Gathers (t :: lines) rest ys

variable {indent pos : Nat} {t l : LogicalLine} {lines lines' rest : List LogicalLine}
  {xs ys : List (List Char)} {ss : List Stmt}

theorem Gathers.trans (h : Gathers lines lines' xs) (h' : Gathers lines' rest ys) :
    Gathers lines rest (xs ++ ys) := by
  induction h with
  | refl => exact h'
  | line hgives _ ih =>
    rw [List.append_assoc]
    exact .line hgives (ih h')
  | hollow hhollow _ ih => exact .hollow hhollow (ih h')

theorem Gathers.of_gives (h : Gives t xs) : Gathers (t :: lines) lines xs := by
  have hone := Gathers.line h (.refl lines)
  rwa [List.append_nil] at hone

/-- Every row comes from a line. -/
theorem Gathers.exists_gives (h : Gathers lines rest xs) {x : List Char} (hx : x ∈ xs) :
    ∃ t ∈ lines, ∃ ys, Gives t ys ∧ x ∈ ys := by
  induction h with
  | refl => cases hx
  | line hgives _ ih =>
    rcases List.mem_append.mp hx with hx | hx
    · exact ⟨_, List.mem_cons_self, _, hgives, hx⟩
    · obtain ⟨t, ht, hrest⟩ := ih hx
      exact ⟨t, List.mem_cons_of_mem _ ht, hrest⟩
  | hollow _ _ ih =>
    obtain ⟨t, ht, hrest⟩ := ih hx
    exact ⟨t, List.mem_cons_of_mem _ ((List.dropWhile_suffix _).subset ht), hrest⟩

/-- Without hollow clauses every line gives its rows. -/
theorem Gathers.forall₂_gives (h : Gathers lines [] xs) (hsolid : AllSolid lines) :
    ∃ rows, List.Forall₂ Gives lines rows ∧ xs = rows.flatten := by
  obtain ⟨rest, hrest⟩ : ∃ rest : List LogicalLine, rest = [] := ⟨[], rfl⟩
  rw [← hrest] at h
  induction h with
  | refl =>
    subst hrest
    exact ⟨[], .nil, rfl⟩
  | line hgives _ ih =>
    obtain ⟨rows, hrows, rfl⟩ := ih hsolid.2 hrest
    exact ⟨_ :: rows, .cons hgives hrows, rfl⟩
  | hollow hhollow => exact absurd hhollow hsolid.1

/-! ## Rows that statements are written as -/

/-- Whether a row is a text at some depth. -/
def Stands (y x : List Char) : Prop := ∃ depth, y = Stmt.indented depth x

theorem stands_indented (depth : Nat) (x : List Char) : Stands (Stmt.indented depth x) x :=
  ⟨depth, rfl⟩

/-- Whether statements are written as rows, whatever they are indented by. -/
def Shows (ss : List Stmt) (xs : List (List Char)) : Prop :=
  ∀ depth, List.Forall₂ Stands (Stmt.writtenAll depth ss) xs

theorem forall₂_stands_map (depth : Nat) (xs : List (List Char)) :
    List.Forall₂ Stands (xs.map (Stmt.indented depth)) xs := by
  induction xs with
  | nil => exact .nil
  | cons x xs ih => exact .cons (stands_indented depth x) ih

theorem Shows.append {ss' : List Stmt} (h : Shows ss xs) (h' : Shows ss' ys) :
    Shows (ss ++ ss') (xs ++ ys) := by
  intro depth
  have hwritten : Stmt.writtenAll depth (ss ++ ss') =
      Stmt.writtenAll depth ss ++ Stmt.writtenAll depth ss' := by
    clear h h'
    induction ss with
    | nil => rfl
    | cons s ss ih => rw [List.cons_append, Stmt.writtenAll, ih, Stmt.writtenAll, List.append_assoc]
  rw [hwritten]
  exact List.rel_append (h depth) (h' depth)

theorem shows_singleton {s : Stmt}
    (h : ∀ depth, List.Forall₂ Stands (Stmt.written depth s) xs) : Shows [s] xs := by
  intro depth
  rw [Stmt.writtenAll, Stmt.writtenAll, List.append_nil]
  exact h depth

/-- Simple statements are written as their texts. -/
theorem shows_simples (t : LogicalLine) (pos : Nat) : Shows (t.simples pos) (t.pieces pos) := by
  intro depth
  rw [LogicalLine.simples]
  induction t.pieces pos with
  | nil => exact .nil
  | cons x xs ih => exact .cons (stands_indented depth x) ih

theorem kindOfWord_ne_choose {word : List Char}
    (h : ¬(word = "match".toList ∧ opensSoftBlock t word false = true)) :
    kindOfWord t word ≠ .choose := by
  unfold kindOfWord
  rw [if_neg h]
  exact ite_ne (by decide) (ite_ne (by decide) (ite_ne (by decide) (ite_ne (by decide)
    (ite_ne (by decide) (ite_ne (by decide) (ite_ne (by decide) (ite_ne (by decide)
    (ite_ne (by decide) (ite_ne (by decide) (by decide))))))))))

theorem opensSoftBlock_of_kind_choose (h : t.kind = .choose) :
    opensSoftBlock t t.firstWord false = true := by
  by_contra hsoft
  rw [LogicalLine.kind] at h
  split at h
  · cases h
  · dsimp only at h
    split at h
    · exact absurd h (ite_ne (by decide) (ite_ne (by decide) (ite_ne (by decide) (by decide))))
    · exact kindOfWord_ne_choose (fun hboth => hsoft hboth.2) h

/-- Nothing follows the colon of a `match` statement. -/
theorem pieces_of_choose (hkind : t.kind = .choose) {colon : Nat}
    (hcolon : t.headerColon? = some colon) : t.pieces (colon + 1) = [] := by
  have hsoft := opensSoftBlock_of_kind_choose hkind
  rw [opensSoftBlock, hcolon] at hsoft
  simp only [Bool.false_or, Bool.and_eq_true, beq_iff_eq] at hsoft
  exact pieces_of_byteSize_le (Nat.le_of_eq hsoft.1.1.symm)

/-! ## Idle lines -/

/-- Every statement but those of an idle line is one. -/
theorem ReadsStatement.idle (h : ReadsStatement indent l lines [] rest) :
    Idle l ∧ rest = lines := by
  generalize hnil : ([] : List Stmt) = ss at h
  cases h with
  | simple hkind => exact ⟨⟨hkind, simples_eq_nil_iff.mp hnil.symm⟩, rfl⟩
  | _ => cases hnil

theorem ReadsSuite.idle {indent : Nat} {lines rest : List LogicalLine} {ss : List Stmt} :
    ReadsSuite indent lines ss rest → ss = [] →
    ∃ block, lines = block ++ rest ∧ ∀ u ∈ block, u.indent = indent ∧ Idle u
  | .over, _ => ⟨[], rfl, fun u hu => absurd hu (by simp)⟩
  | .dedent _, _ => ⟨[], rfl, fun u hu => absurd hu (by simp)⟩
  | .more hindent hstatement hsuite, hnil => by
    obtain ⟨rfl, hothers⟩ := List.append_eq_nil_iff.mp hnil
    obtain ⟨hidle, rfl⟩ := hstatement.idle
    obtain ⟨block, rfl, hblock⟩ := hsuite.idle hothers
    refine ⟨_ :: block, rfl, fun u hu => ?_⟩
    rcases List.mem_cons.mp hu with rfl | hu
    · exact ⟨hindent, hidle⟩
    · exact hblock u hu

theorem le_of_checkDedent {inner : Nat} (h : checkDedent indent inner (l :: rest) = .ok ())
    (hless : l.indent < inner) : l.indent ≤ indent := by
  rw [checkDedent] at h
  split at h
  · cases h
  · omega

/-- A clause without statements is hollow, up to where its block ends. -/
theorem ReadsBody.hollow (h : ReadsBody indent t pos lines [] rest) (hindent : t.indent = indent)
    (hkind : t.kind = .elseClause ∨ t.kind = .finallyClause) {colon : Nat}
    (hcolon : t.headerColon? = some colon) (hpos : pos = colon + 1) :
    Hollow t lines ∧ lines.dropWhile (t.indent < ·.indent) = rest := by
  subst hpos
  generalize hnil : ([] : List Stmt) = body at h
  cases h with
  | inline hinline => exact absurd (simples_eq_nil_iff.mp hnil.symm) hinline
  | block hinline hdeeper hsuite hdedent =>
    -- the block is all the lines that stand further in: it is idle, and the next line stands out
    obtain ⟨block, hlines, hblock⟩ := hsuite.idle hnil.symm
    have hin : ∀ u ∈ block, decide (t.indent < u.indent) = true := by
      intro u hu
      rw [(hblock u hu).1, hindent]
      exact decide_eq_true hdeeper
    have hout : ∀ u ∈ rest.head?, ¬decide (t.indent < u.indent) = true := by
      intro u hu
      obtain ⟨more, rfl⟩ := List.head?_eq_some_iff.mp hu
      have hle := le_of_checkDedent hdedent (hsuite.dedent_rest u rfl)
      simp only [decide_eq_true_eq]
      omega
    have hstop : rest.takeWhile (fun u => decide (t.indent < u.indent)) = [] ∧
        rest.dropWhile (fun u => decide (t.indent < u.indent)) = rest := by
      cases rest with
      | nil => exact ⟨rfl, rfl⟩
      | cons u rest =>
        exact ⟨List.takeWhile_cons_of_neg (hout u rfl), List.dropWhile_cons_of_neg (hout u rfl)⟩
    rw [hlines]
    refine ⟨⟨hkind, ⟨colon, hcolon, hinline⟩, fun u hu => ?_⟩, ?_⟩
    · rw [List.takeWhile_append_of_pos hin, hstop.1, List.append_nil] at hu
      exact (hblock u hu).2
    · rw [List.dropWhile_append_of_pos hin, hstop.2]

/-! ## The rows of what is read -/

/-- The decorators that stand together are given by their lines. -/
theorem gathers_spanDecorators (indent : Nat) (lines : List LogicalLine) :
    Gathers lines (spanDecorators indent lines).2 (spanDecorators indent lines).1 := by
  induction lines with
  | nil => exact .refl []
  | cons l lines ih =>
    rw [spanDecorators]
    split
    · next hdecorator => exact .line (.decorator hdecorator.2) ih
    · exact .refl _

mutual

theorem ReadsSuite.gathers {indent : Nat} {lines rest : List LogicalLine} {ss : List Stmt} :
    ReadsSuite indent lines ss rest → ∃ xs, Gathers lines rest xs ∧ Shows ss xs
  | .over => ⟨[], .refl _, fun _ => .nil⟩
  | .dedent _ => ⟨[], .refl _, fun _ => .nil⟩
  | .more _ hstatement hsuite => by
    obtain ⟨xs, hxs, hshows⟩ := hstatement.gathers
    obtain ⟨ys, hys, hshows'⟩ := hsuite.gathers
    exact ⟨xs ++ ys, hxs.trans hys, hshows.append hshows'⟩

theorem ReadsStatement.gathers {indent : Nat} {l : LogicalLine} {lines rest : List LogicalLine}
    {ss : List Stmt} : ReadsStatement indent l lines ss rest →
    ∃ xs, Gathers (l :: lines) rest xs ∧ Shows ss xs
  | .simple hkind => ⟨l.pieces 0, .of_gives (.simple hkind), shows_simples l 0⟩
  | .decorated hkind hspan _ hdefined hdefine => by
    have hdecorators := gathers_spanDecorators indent lines
    rw [hspan] at hdecorators
    obtain ⟨xs, hxs, hshows⟩ := hdefine.gathers hdefined
    exact ⟨_, (Gathers.line (.decorator hkind) hdecorators).trans hxs, hshows⟩
  | .branch hkind hcolon hbranch => by
    obtain ⟨xs, hxs, hshows⟩ := hbranch.gathers
    exact ⟨_, .line (.header _ (.inl (by rw [hkind]; rfl)) hcolon) hxs, hshows⟩
  | .loop hkind hcolon hbody helse => by
    obtain ⟨xs, hxs, hshows⟩ := hbody.gathers
    obtain ⟨ys, hys, hshows'⟩ := helse.gathers (.inl rfl) rfl
    refine ⟨_, .line (.header _ (.inl (by rw [hkind]; rfl)) hcolon) (hxs.trans hys), ?_⟩
    refine shows_singleton fun depth => ?_
    rw [List.cons_append, ← List.append_assoc]
    exact .cons (stands_indented depth _) (List.rel_append (hshows (depth + 1)) (hshows' depth))
  | .attempt hkind hcolon hbody hhandlers helse hfinal _ => by
    -- the parts are gathered in the order in which they are written
    obtain ⟨xs, hxs, hshows⟩ := hbody.gathers
    obtain ⟨xs₁, hxs₁, hshows₁⟩ := hhandlers.gathers
    obtain ⟨xs₂, hxs₂, hshows₂⟩ := helse.gathers (.inl rfl) rfl
    obtain ⟨xs₃, hxs₃, hshows₃⟩ := hfinal.gathers (.inr rfl) rfl
    refine ⟨_, .line (.bare _ _ (by rw [hkind]; rfl) hcolon)
      (((hxs.trans hxs₁).trans hxs₂).trans hxs₃), shows_singleton fun depth => ?_⟩
    simp only [List.cons_append, ← List.append_assoc]
    exact .cons (stands_indented depth _) (List.rel_append (List.rel_append (List.rel_append
      (hshows (depth + 1)) (hshows₁ depth)) (hshows₂ depth)) (hshows₃ depth))
  | .scope hkind hcolon hbody => by
    obtain ⟨xs, hxs, hshows⟩ := hbody.gathers
    refine ⟨_, .line (.header _ (.inl (by rw [hkind]; rfl)) hcolon) hxs, ?_⟩
    exact shows_singleton fun depth => .cons (stands_indented depth _) (hshows (depth + 1))
  | .define hkind hdefine => by
    obtain ⟨xs, hxs, hshows⟩ := hdefine.gathers hkind
    exact ⟨xs, hxs, hshows⟩
  | .choose hkind hcolon _ hcases _ => by
    obtain ⟨xs, hxs, hshows⟩ := hcases.gathers
    refine ⟨_, .line (.header _ (.inl (by rw [hkind]; rfl)) hcolon) hxs, ?_⟩
    -- a colon ends the line of a `match` statement, so no statements stand behind it
    rw [pieces_of_choose hkind hcolon]
    exact shows_singleton fun depth => .cons (stands_indented depth _) (hshows (depth + 1))

theorem ReadsBody.gathers {indent pos : Nat} {l : LogicalLine} {lines rest : List LogicalLine}
    {body : List Stmt} : ReadsBody indent l pos lines body rest →
    ∃ xs, Gathers lines rest xs ∧ Shows body (l.pieces pos ++ xs)
  | .inline _ => by
    refine ⟨[], .refl _, ?_⟩
    rw [List.append_nil]
    exact shows_simples l pos
  | .block hinline _ hsuite _ => by
    obtain ⟨xs, hxs, hshows⟩ := hsuite.gathers
    rw [hinline]
    exact ⟨xs, hxs, hshows⟩

theorem ReadsBranch.gathers {indent pos : Nat} {l : LogicalLine} {header : List Char}
    {lines rest : List LogicalLine} {s : Stmt} : ReadsBranch indent l header pos lines s rest →
    ∃ xs, Gathers lines rest xs ∧ Shows [s] (header :: l.pieces pos ++ xs)
  | .nested hbody _ hkind hcolon hbranch => by
    obtain ⟨xs, hxs, hshows⟩ := hbody.gathers
    obtain ⟨ys, hys, hshows'⟩ := hbranch.gathers
    refine ⟨_, hxs.trans (.line (.elif _ hkind hcolon) hys), shows_singleton fun depth => ?_⟩
    rw [List.cons_append, ← List.append_assoc]
    exact .cons (stands_indented depth _) (List.rel_append (hshows (depth + 1))
      (.cons (stands_indented depth _) (hshows' (depth + 1))))
  | .closed hbody _ helse => by
    obtain ⟨xs, hxs, hshows⟩ := hbody.gathers
    obtain ⟨ys, hys, hshows'⟩ := helse.gathers (.inl rfl) rfl
    refine ⟨_, hxs.trans hys, shows_singleton fun depth => ?_⟩
    rw [List.cons_append, ← List.append_assoc]
    exact .cons (stands_indented depth _) (List.rel_append (hshows (depth + 1)) (hshows' depth))

theorem ReadsClause.gathers {indent : Nat} {kind : LineKind} {header : List Char}
    {lines rest : List LogicalLine} {body : List Stmt} : ReadsClause indent kind lines body rest →
    kind = .elseClause ∨ kind = .finallyClause → kind.bareHeader? = some header →
    ∃ xs, Gathers lines rest xs ∧
      ∀ depth, List.Forall₂ Stands (optionalRows depth header body) xs
  | .absent _, _, _ => ⟨[], .refl _, fun _ => .nil⟩
  | @ReadsClause.present _ _ _ _ _ _ [] hindent hkind hcolon hbody, hclause, _ => by
    -- a clause without statements is not written, and its lines are hollow
    obtain ⟨hhollow, hrest⟩ := hbody.hollow hindent (hkind ▸ hclause) hcolon rfl
    exact ⟨[], .hollow hhollow (hrest ▸ .refl _), fun _ => .nil⟩
  | @ReadsClause.present _ _ _ _ _ _ (_ :: _) _ hkind hcolon hbody, _, hheader => by
    obtain ⟨xs, hxs, hshows⟩ := hbody.gathers
    refine ⟨_, .line (.bare _ _ (hkind ▸ hheader) hcolon) hxs, fun depth => ?_⟩
    exact .cons (stands_indented depth _) (hshows (depth + 1))

theorem ReadsHandlers.gathers {indent : Nat} {lines rest : List LogicalLine}
    {handlers : List Clause} : ReadsHandlers indent lines handlers rest →
    ∃ xs, Gathers lines rest xs ∧
      ∀ depth, List.Forall₂ Stands (Stmt.writtenClauses depth handlers) xs
  | .over _ => ⟨[], .refl _, fun _ => .nil⟩
  | .more _ hkind hcolon hbody hmore => by
    obtain ⟨xs, hxs, hshows⟩ := hbody.gathers
    obtain ⟨ys, hys, hshows'⟩ := hmore.gathers
    refine ⟨_, .line (.header _ (.inl (by rw [hkind]; rfl)) hcolon) (hxs.trans hys), ?_⟩
    intro depth
    rw [List.cons_append, ← List.append_assoc]
    exact .cons (stands_indented depth _) (List.rel_append (hshows (depth + 1)) (hshows' depth))

theorem ReadsDefine.gathers {indent : Nat} {l : LogicalLine} {decorators : List (List Char)}
    {lines rest : List LogicalLine} {s : Stmt} : ReadsDefine indent l decorators lines s rest →
    l.kind = .define → ∃ xs, Gathers (l :: lines) rest xs ∧ Shows [s] (decorators ++ xs)
  | .mk hcolon hbody, hkind => by
    obtain ⟨xs, hxs, hshows⟩ := hbody.gathers
    refine ⟨_, .line (.header _ (.inl (by rw [hkind]; rfl)) hcolon) hxs, ?_⟩
    refine shows_singleton fun depth => List.rel_append (forall₂_stands_map depth _) ?_
    exact .cons (stands_indented depth _) (hshows (depth + 1))

theorem ReadsCases.gathers {indent : Nat} {lines rest : List LogicalLine} {cases : List Clause} :
    ReadsCases indent lines cases rest → ∃ xs, Gathers lines rest xs ∧
      ∀ depth, List.Forall₂ Stands (Stmt.writtenClauses depth cases) xs
  | .over => ⟨[], .refl _, fun _ => .nil⟩
  | .dedent _ => ⟨[], .refl _, fun _ => .nil⟩
  | .more _ hcase hcolon hbody hmore => by
    obtain ⟨xs, hxs, hshows⟩ := hbody.gathers
    obtain ⟨ys, hys, hshows'⟩ := hmore.gathers
    refine ⟨_, .line (.header _ (.inr hcase) hcolon) (hxs.trans hys), fun depth => ?_⟩
    rw [List.cons_append, ← List.append_assoc]
    exact .cons (stands_indented depth _) (List.rel_append (hshows (depth + 1)) (hshows' depth))

end

/-- The rows of a program that is read from a source are those that its logical lines give. -/
theorem gathers_of_parse {source : List Char} {program : List Stmt}
    (h : parse source = .ok program) :
    ∃ lines xs, tokenize source = .ok lines ∧ Gathers lines [] xs ∧ Shows program xs := by
  obtain ⟨lines, htokens, hsuite⟩ := reads_of_parse h
  obtain ⟨xs, hxs, hshows⟩ := hsuite.gathers
  exact ⟨lines, xs, htokens, hxs, hshows⟩

end StepTrace.Python
