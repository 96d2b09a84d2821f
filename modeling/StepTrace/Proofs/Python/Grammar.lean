import StepTrace.Proofs.Python.Reading

/-!
# The grammar of statement trees

What the readers of statements accept, told without fuel: one relation for each reader, one
constructor for each way in which it reads something. A relation says which statements are read from
which lines and which lines are left. `reads_of_parse` says that a program that is read from a
source is derived so; what holds of all programs is then proved by recursion on the derivation.
-/

set_option autoImplicit false

namespace StepTrace.Python

/-- Whether no line of a kind stands first at an indentation. -/
def Lacks (indent : Nat) (kind : LineKind) (lines : List LogicalLine) : Prop :=
  ∀ l ∈ lines.head?, ¬(l.indent = indent ∧ l.kind = kind)

mutual

/-- The statements at an indentation. -/
inductive ReadsSuite : Nat → List LogicalLine → List Stmt → List LogicalLine → Prop
  | over {indent : Nat} : ReadsSuite indent [] [] []
  | dedent {indent : Nat} {l : LogicalLine} {rest : List LogicalLine} : l.indent < indent →
      ReadsSuite indent (l :: rest) [] (l :: rest)
  | more {indent : Nat} {l : LogicalLine} {lines rest rest' : List LogicalLine}
      {ss others : List Stmt} : l.indent = indent → ReadsStatement indent l lines ss rest →
      ReadsSuite indent rest others rest' → ReadsSuite indent (l :: lines) (ss ++ others) rest'

/-- The statements that a line begins. -/
inductive ReadsStatement :
    Nat → LogicalLine → List LogicalLine → List Stmt → List LogicalLine → Prop
  | simple {indent : Nat} {l : LogicalLine} {lines : List LogicalLine} : l.kind = .simple →
      ReadsStatement indent l lines (l.simples 0) lines
  | decorated {indent : Nat} {l d : LogicalLine} {decorators : List (List Char)}
      {lines rest rest' : List LogicalLine} {s : Stmt} : l.kind = .decorator →
      spanDecorators indent lines = (decorators, d :: rest) → d.indent = indent →
      d.kind = .define → ReadsDefine indent d (l.text :: decorators) rest s rest' →
      ReadsStatement indent l lines [s] rest'
  | branch {indent : Nat} {l : LogicalLine} {lines rest : List LogicalLine} {colon : Nat}
      {s : Stmt} : l.kind = .branch → l.headerColon? = some colon →
      ReadsBranch indent l (l.through colon) (colon + 1) lines s rest →
      ReadsStatement indent l lines [s] rest
  | loop {indent : Nat} {l : LogicalLine} {lines rest rest' : List LogicalLine} {colon : Nat}
      {body orelse : List Stmt} : l.kind = .loop → l.headerColon? = some colon →
      ReadsBody indent l (colon + 1) lines body rest →
      ReadsClause indent .elseClause rest orelse rest' →
      ReadsStatement indent l lines [.loop l.line (l.through colon) body orelse] rest'
  | attempt {indent : Nat} {l : LogicalLine} {lines rest rest₁ rest₂ rest₃ : List LogicalLine}
      {colon : Nat} {body orelse final : List Stmt} {handlers : List Clause} :
      l.kind = .attempt → l.headerColon? = some colon →
      ReadsBody indent l (colon + 1) lines body rest →
      ReadsHandlers indent rest handlers rest₁ →
      ReadsClause indent .elseClause rest₁ orelse rest₂ →
      ReadsClause indent .finallyClause rest₂ final rest₃ → handlers ≠ [] ∨ final ≠ [] →
      ReadsStatement indent l lines [.attempt l.line body handlers orelse final] rest₃
  | scope {indent : Nat} {l : LogicalLine} {lines rest : List LogicalLine} {colon : Nat}
      {body : List Stmt} : l.kind = .scope → l.headerColon? = some colon →
      ReadsBody indent l (colon + 1) lines body rest →
      ReadsStatement indent l lines [.scope l.line (l.through colon) body] rest
  | define {indent : Nat} {l : LogicalLine} {lines rest : List LogicalLine} {s : Stmt} :
      l.kind = .define → ReadsDefine indent l [] lines s rest →
      ReadsStatement indent l lines [s] rest
  | choose {indent : Nat} {l first : LogicalLine} {lines rest : List LogicalLine} {colon : Nat}
      {cases : List Clause} : l.kind = .choose → l.headerColon? = some colon →
      indent < first.indent → ReadsCases first.indent (first :: lines) cases rest →
      checkDedent indent first.indent rest = .ok () →
      ReadsStatement indent l (first :: lines) [.choose l.line (l.through colon) cases] rest

/-- The body of a clause, where the rest of the clause's line begins at an offset. -/
inductive ReadsBody :
    Nat → LogicalLine → Nat → List LogicalLine → List Stmt → List LogicalLine → Prop
  | inline {indent : Nat} {l : LogicalLine} {pos : Nat} {lines : List LogicalLine} :
      l.pieces pos ≠ [] → ReadsBody indent l pos lines (l.simples pos) lines
  | block {indent : Nat} {l first : LogicalLine} {pos : Nat} {lines rest : List LogicalLine}
      {body : List Stmt} : l.pieces pos = [] → indent < first.indent →
      ReadsSuite first.indent (first :: lines) body rest →
      checkDedent indent first.indent rest = .ok () →
      ReadsBody indent l pos (first :: lines) body rest

/-- An `if` statement with its clauses, where its header is given. -/
inductive ReadsBranch :
    Nat → LogicalLine → List Char → Nat → List LogicalLine → Stmt → List LogicalLine → Prop
  | nested {indent : Nat} {l next : LogicalLine} {header : List Char} {pos colon : Nat}
      {lines others rest : List LogicalLine} {body : List Stmt} {s : Stmt} :
      ReadsBody indent l pos lines body (next :: others) → next.indent = indent →
      next.kind = .elifClause → next.headerColon? = some colon →
      ReadsBranch indent next ("if".toList ++ (next.through colon).drop "elif".toList.length)
        (colon + 1) others s rest →
      ReadsBranch indent l header pos lines (.branch l.line header body [s]) rest
  | closed {indent : Nat} {l : LogicalLine} {header : List Char} {pos : Nat}
      {lines rest rest' : List LogicalLine} {body orelse : List Stmt} :
      ReadsBody indent l pos lines body rest → Lacks indent .elifClause rest →
      ReadsClause indent .elseClause rest orelse rest' →
      ReadsBranch indent l header pos lines (.branch l.line header body orelse) rest'

/-- The body of a clause of some kind, if there is one. -/
inductive ReadsClause :
    Nat → LineKind → List LogicalLine → List Stmt → List LogicalLine → Prop
  | absent {indent : Nat} {kind : LineKind} {lines : List LogicalLine} :
      Lacks indent kind lines → ReadsClause indent kind lines [] lines
  | present {indent : Nat} {kind : LineKind} {l : LogicalLine} {lines rest : List LogicalLine}
      {colon : Nat} {body : List Stmt} : l.indent = indent → l.kind = kind →
      l.headerColon? = some colon → ReadsBody indent l (colon + 1) lines body rest →
      ReadsClause indent kind (l :: lines) body rest

/-- The handlers of a `try` statement. -/
inductive ReadsHandlers : Nat → List LogicalLine → List Clause → List LogicalLine → Prop
  | over {indent : Nat} {lines : List LogicalLine} : Lacks indent .exceptClause lines →
      ReadsHandlers indent lines [] lines
  | more {indent : Nat} {l : LogicalLine} {lines rest rest' : List LogicalLine} {colon : Nat}
      {body : List Stmt} {others : List Clause} : l.indent = indent → l.kind = .exceptClause →
      l.headerColon? = some colon → ReadsBody indent l (colon + 1) lines body rest →
      ReadsHandlers indent rest others rest' →
      ReadsHandlers indent (l :: lines) (.mk l.line (l.through colon) body :: others) rest'

/-- A definition with decorators. -/
inductive ReadsDefine :
    Nat → LogicalLine → List (List Char) → List LogicalLine → Stmt → List LogicalLine → Prop
  | mk {indent : Nat} {l : LogicalLine} {decorators : List (List Char)}
      {lines rest : List LogicalLine} {colon : Nat} {body : List Stmt} :
      l.headerColon? = some colon → ReadsBody indent l (colon + 1) lines body rest →
      ReadsDefine indent l decorators lines (.define l.line decorators (l.through colon) body) rest

/-- The cases of a `match` statement. -/
inductive ReadsCases : Nat → List LogicalLine → List Clause → List LogicalLine → Prop
  | over {indent : Nat} : ReadsCases indent [] [] []
  | dedent {indent : Nat} {l : LogicalLine} {rest : List LogicalLine} : l.indent < indent →
      ReadsCases indent (l :: rest) [] (l :: rest)
  | more {indent : Nat} {l : LogicalLine} {lines rest rest' : List LogicalLine} {colon : Nat}
      {body : List Stmt} {others : List Clause} : l.indent = indent → l.isCase = true →
      l.headerColon? = some colon → ReadsBody indent l (colon + 1) lines body rest →
      ReadsCases indent rest others rest' →
      ReadsCases indent (l :: lines) (.mk l.line (l.through colon) body :: others) rest'

end

/-! ## What is left -/

mutual

theorem ReadsSuite.suffix {indent : Nat} {lines rest : List LogicalLine} {ss : List Stmt} :
    ReadsSuite indent lines ss rest → rest <:+ lines
  | .over => List.suffix_rfl
  | .dedent _ => List.suffix_rfl
  | .more _ hs hsuite => hsuite.suffix.trans (hs.suffix.trans (List.suffix_cons _ _))

theorem ReadsStatement.suffix {indent : Nat} {l : LogicalLine} {lines rest : List LogicalLine}
    {ss : List Stmt} : ReadsStatement indent l lines ss rest → rest <:+ lines
  | .simple _ => List.suffix_rfl
  | .decorated _ hspan _ _ hdefine => by
    have hsuffix := spanDecorators_suffix indent lines
    rw [hspan] at hsuffix
    exact hdefine.suffix.trans ((List.suffix_cons _ _).trans hsuffix)
  | .branch _ _ h => h.suffix
  | .loop _ _ hbody helse => helse.suffix.trans hbody.suffix
  | .attempt _ _ hbody hhandlers helse hfinal _ =>
    hfinal.suffix.trans (helse.suffix.trans (hhandlers.suffix.trans hbody.suffix))
  | .scope _ _ hbody => hbody.suffix
  | .define _ h => h.suffix
  | .choose _ _ _ hcases _ => hcases.suffix

theorem ReadsBody.suffix {indent pos : Nat} {l : LogicalLine} {lines rest : List LogicalLine}
    {body : List Stmt} : ReadsBody indent l pos lines body rest → rest <:+ lines
  | .inline _ => List.suffix_rfl
  | .block _ _ hsuite _ => hsuite.suffix

theorem ReadsBranch.suffix {indent pos : Nat} {l : LogicalLine} {header : List Char}
    {lines rest : List LogicalLine} {s : Stmt} :
    ReadsBranch indent l header pos lines s rest → rest <:+ lines
  | .nested hbody _ _ _ h => h.suffix.trans ((List.suffix_cons _ _).trans hbody.suffix)
  | .closed hbody _ helse => helse.suffix.trans hbody.suffix

theorem ReadsClause.suffix {indent : Nat} {kind : LineKind} {lines rest : List LogicalLine}
    {body : List Stmt} : ReadsClause indent kind lines body rest → rest <:+ lines
  | .absent _ => List.suffix_rfl
  | .present _ _ _ hbody => hbody.suffix.trans (List.suffix_cons _ _)

theorem ReadsHandlers.suffix {indent : Nat} {lines rest : List LogicalLine}
    {handlers : List Clause} : ReadsHandlers indent lines handlers rest → rest <:+ lines
  | .over _ => List.suffix_rfl
  | .more _ _ _ hbody hmore =>
    hmore.suffix.trans (hbody.suffix.trans (List.suffix_cons _ _))

theorem ReadsDefine.suffix {indent : Nat} {l : LogicalLine} {decorators : List (List Char)}
    {lines rest : List LogicalLine} {s : Stmt} :
    ReadsDefine indent l decorators lines s rest → rest <:+ lines
  | .mk _ hbody => hbody.suffix

theorem ReadsCases.suffix {indent : Nat} {lines rest : List LogicalLine} {cases : List Clause} :
    ReadsCases indent lines cases rest → rest <:+ lines
  | .over => List.suffix_rfl
  | .dedent _ => List.suffix_rfl
  | .more _ _ _ hbody hmore =>
    hmore.suffix.trans (hbody.suffix.trans (List.suffix_cons _ _))

end

/-- The lines that a suite leaves begin further out. -/
theorem ReadsSuite.dedent_rest {indent : Nat} {lines rest : List LogicalLine} {ss : List Stmt} :
    ReadsSuite indent lines ss rest → ∀ l ∈ rest.head?, l.indent < indent
  | .over => fun l hl => absurd hl (by simp)
  | .dedent hless => by
    rintro l ⟨⟩
    exact hless
  | .more _ _ hsuite => hsuite.dedent_rest

/-! ## What is read is derived -/

variable {fuel indent pos : Nat} {l : LogicalLine} {lines rest : List LogicalLine}
  {keyword : String} {ss : List Stmt} {s : Stmt} {header : List Char} {clauses : List Clause}

theorem simples_eq_nil_iff : l.simples pos = [] ↔ l.pieces pos = [] := List.map_eq_nil_iff

/-- What the readers with some fuel read is derived. -/
structure Derives (fuel : Nat) : Prop where
  suite : ∀ {indent lines ss rest}, readSuite fuel indent lines = .ok (ss, rest) →
    4 * lines.length ≤ fuel → ReadsSuite indent lines ss rest
  statement : ∀ {indent l lines ss rest}, readStatement fuel indent l lines = .ok (ss, rest) →
    4 * lines.length + 3 ≤ fuel → ReadsStatement indent l lines ss rest
  body : ∀ {indent l keyword pos lines ss rest},
    readBody fuel indent l keyword (l.simples pos) lines = .ok (ss, rest) →
    4 * lines.length + 1 ≤ fuel → ReadsBody indent l pos lines ss rest
  branch : ∀ {indent l header pos lines s rest},
    readBranch fuel indent l header (l.simples pos) lines = .ok (s, rest) →
    4 * lines.length + 2 ≤ fuel → ReadsBranch indent l header pos lines s rest
  clause : ∀ {indent kind keyword lines ss rest},
    readClause fuel indent kind keyword lines = .ok (ss, rest) →
    4 * lines.length ≤ fuel → ReadsClause indent kind lines ss rest
  handlers : ∀ {indent lines clauses rest}, readHandlers fuel indent lines = .ok (clauses, rest) →
    4 * lines.length ≤ fuel → ReadsHandlers indent lines clauses rest
  define : ∀ {indent l decorators lines s rest},
    readDefine fuel indent l decorators lines = .ok (s, rest) →
    4 * lines.length + 2 ≤ fuel → ReadsDefine indent l decorators lines s rest
  cases : ∀ {indent lines clauses rest}, readCases fuel indent lines = .ok (clauses, rest) →
    4 * lines.length ≤ fuel → ReadsCases indent lines clauses rest

theorem eq_nil_of_fuel (h : 4 * lines.length ≤ 0) : lines = [] :=
  List.eq_nil_of_length_eq_zero (by omega)

theorem lacks_nil (indent : Nat) (kind : LineKind) : Lacks indent kind [] :=
  fun l hl => absurd hl (by simp)

theorem lacks_cons {kind : LineKind} (h : ¬(l.indent = indent ∧ l.kind = kind)) :
    Lacks indent kind (l :: lines) := by
  rintro l ⟨⟩
  exact h

theorem derives_zero : Derives 0 where
  suite := by
    intro indent lines ss rest h hfuel
    obtain rfl := eq_nil_of_fuel hfuel
    rw [readSuite] at h
    cases h
    exact .over
  statement := by omega
  body := by omega
  branch := by omega
  clause := by
    intro indent kind keyword lines ss rest h hfuel
    obtain rfl := eq_nil_of_fuel hfuel
    rw [readClause] at h
    cases h
    exact .absent (lacks_nil _ _)
  handlers := by
    intro indent lines clauses rest h hfuel
    obtain rfl := eq_nil_of_fuel hfuel
    rw [readHandlers] at h
    cases h
    exact .over (lacks_nil _ _)
  define := by omega
  cases := by
    intro indent lines clauses rest h hfuel
    obtain rfl := eq_nil_of_fuel hfuel
    rw [readCases] at h
    cases h
    exact .over

namespace Derives

variable (hd : Derives fuel)

include hd

theorem suite_succ (h : readSuite (fuel + 1) indent lines = .ok (ss, rest))
    (hfuel : 4 * lines.length ≤ fuel + 1) : ReadsSuite indent lines ss rest := by
  cases lines with
  | nil =>
    rw [readSuite] at h
    cases h
    exact .over
  | cons l lines =>
    rw [List.length_cons] at hfuel
    rw [readSuite] at h
    split at h
    · next hless =>
      cases h
      exact .dedent hless
    split at h
    · cases h
    next hless hmore =>
    obtain ⟨⟨ss₁, rest₁⟩, hstatement, h⟩ := exists_of_bind_eq_ok h
    obtain ⟨⟨ss₂, rest₂⟩, hsuite, h⟩ := exists_of_bind_eq_ok h
    cases h
    have hread := hd.statement hstatement (by omega)
    have hlen := hread.suffix.length_le
    exact .more (by omega) hread (hd.suite hsuite (by omega))

theorem body_succ
    (h : readBody (fuel + 1) indent l keyword (l.simples pos) lines = .ok (ss, rest))
    (hfuel : 4 * lines.length + 1 ≤ fuel + 1) : ReadsBody indent l pos lines ss rest := by
  rw [readBody.eq_def] at h
  dsimp only at h
  by_cases hinline : l.pieces pos = []
  · rw [simples_eq_nil_iff.mpr hinline] at h
    cases lines with
    | nil => cases h
    | cons first lines =>
      simp only [List.isEmpty_nil, Bool.not_true, Bool.false_eq_true, if_false] at h
      split at h
      · next hindent =>
        obtain ⟨⟨body, rest₁⟩, hsuite, h⟩ := exists_of_bind_eq_ok h
        obtain ⟨_, hdedent, h⟩ := exists_of_bind_eq_ok h
        cases h
        exact .block hinline hindent (hd.suite hsuite (by omega)) hdedent
      · cases h
  · have hsome : (l.simples pos).isEmpty = false := by
      rw [List.isEmpty_eq_false_iff, ne_eq, simples_eq_nil_iff]
      exact hinline
    rw [hsome] at h
    cases h
    exact .inline hinline

theorem clause_succ {kind : LineKind}
    (h : readClause (fuel + 1) indent kind keyword lines = .ok (ss, rest))
    (hfuel : 4 * lines.length ≤ fuel + 1) : ReadsClause indent kind lines ss rest := by
  cases lines with
  | nil =>
    rw [readClause] at h
    cases h
    exact .absent (lacks_nil _ _)
  | cons l lines =>
    rw [List.length_cons] at hfuel
    rw [readClause] at h
    split at h
    · next hclause =>
      obtain ⟨⟨header, inline⟩, hsplit, h⟩ := exists_of_bind_eq_ok h
      obtain ⟨colon, hcolon, -, rfl⟩ := split_eq_ok hsplit
      exact .present hclause.1 hclause.2 hcolon (hd.body h (by omega))
    · next hclause =>
      cases h
      exact .absent (lacks_cons hclause)

theorem handlers_succ (h : readHandlers (fuel + 1) indent lines = .ok (clauses, rest))
    (hfuel : 4 * lines.length ≤ fuel + 1) : ReadsHandlers indent lines clauses rest := by
  cases lines with
  | nil =>
    rw [readHandlers] at h
    cases h
    exact .over (lacks_nil _ _)
  | cons l lines =>
    rw [List.length_cons] at hfuel
    rw [readHandlers] at h
    split at h
    · next hclause =>
      obtain ⟨⟨header, inline⟩, hsplit, h⟩ := exists_of_bind_eq_ok h
      obtain ⟨colon, hcolon, rfl, rfl⟩ := split_eq_ok hsplit
      obtain ⟨⟨body, rest₁⟩, hbody, h⟩ := exists_of_bind_eq_ok h
      obtain ⟨⟨others, rest₂⟩, hmore, h⟩ := exists_of_bind_eq_ok h
      cases h
      have hread := hd.body hbody (by omega)
      have hlen := hread.suffix.length_le
      exact .more hclause.1 hclause.2 hcolon hread (hd.handlers hmore (by omega))
    · next hclause =>
      cases h
      exact .over (lacks_cons hclause)

theorem cases_succ (h : readCases (fuel + 1) indent lines = .ok (clauses, rest))
    (hfuel : 4 * lines.length ≤ fuel + 1) : ReadsCases indent lines clauses rest := by
  cases lines with
  | nil =>
    rw [readCases] at h
    cases h
    exact .over
  | cons l lines =>
    rw [List.length_cons] at hfuel
    rw [readCases] at h
    split at h
    · next hless =>
      cases h
      exact .dedent hless
    split at h
    · cases h
    split at h
    · cases h
    next hless hmore hcase =>
    obtain ⟨⟨header, inline⟩, hsplit, h⟩ := exists_of_bind_eq_ok h
    obtain ⟨colon, hcolon, rfl, rfl⟩ := split_eq_ok hsplit
    obtain ⟨⟨body, rest₁⟩, hbody, h⟩ := exists_of_bind_eq_ok h
    obtain ⟨⟨others, rest₂⟩, hmore, h⟩ := exists_of_bind_eq_ok h
    cases h
    have hread := hd.body hbody (by omega)
    have hlen := hread.suffix.length_le
    exact .more (by omega) (by simpa using hcase) hcolon hread (hd.cases hmore (by omega))

theorem define_succ {decorators : List (List Char)}
    (h : readDefine (fuel + 1) indent l decorators lines = .ok (s, rest))
    (hfuel : 4 * lines.length + 2 ≤ fuel + 1) : ReadsDefine indent l decorators lines s rest := by
  rw [readDefine] at h
  obtain ⟨⟨header, inline⟩, hsplit, h⟩ := exists_of_bind_eq_ok h
  obtain ⟨colon, hcolon, rfl, rfl⟩ := split_eq_ok hsplit
  obtain ⟨⟨body, rest₁⟩, hbody, h⟩ := exists_of_bind_eq_ok h
  cases h
  exact .mk hcolon (hd.body hbody (by omega))

theorem branch_succ
    (h : readBranch (fuel + 1) indent l header (l.simples pos) lines = .ok (s, rest))
    (hfuel : 4 * lines.length + 2 ≤ fuel + 1) : ReadsBranch indent l header pos lines s rest := by
  rw [readBranch] at h
  obtain ⟨⟨body, rest₁⟩, hbody, h⟩ := exists_of_bind_eq_ok h
  have hread := hd.body hbody (by omega)
  have hlen := hread.suffix.length_le
  cases rest₁ with
  | nil =>
    cases h
    exact .closed hread (lacks_nil _ _) (.absent (lacks_nil _ _))
  | cons next others =>
    rw [List.length_cons] at hlen
    dsimp only at h
    split at h
    · next hclause =>
      obtain ⟨⟨elifHeader, inline⟩, hsplit, h⟩ := exists_of_bind_eq_ok h
      obtain ⟨colon, hcolon, rfl, rfl⟩ := split_eq_ok hsplit
      obtain ⟨⟨s', rest₂⟩, hbranch, h⟩ := exists_of_bind_eq_ok h
      cases h
      exact .nested hread hclause.1 hclause.2 hcolon (hd.branch hbranch (by omega))
    · next hclause =>
      obtain ⟨⟨orelse, rest₂⟩, helse, h⟩ := exists_of_bind_eq_ok h
      cases h
      exact .closed hread (lacks_cons hclause)
        (hd.clause helse (by rw [List.length_cons]; omega))

theorem statement_succ (h : readStatement (fuel + 1) indent l lines = .ok (ss, rest))
    (hfuel : 4 * lines.length + 3 ≤ fuel + 1) : ReadsStatement indent l lines ss rest := by
  cases hkind : l.kind with
  | simple =>
    rw [readStatement, hkind] at h
    cases h
    exact .simple hkind
  | decorator =>
    have hspan := (spanDecorators_suffix indent lines).length_le
    rw [readStatement, hkind] at h
    dsimp only at h
    split at h
    · cases h
    · next d rest₁ hrest =>
      rw [hrest, List.length_cons] at hspan
      split at h
      · next hdefine =>
        obtain ⟨⟨s, rest₂⟩, hread, h⟩ := exists_of_bind_eq_ok h
        cases h
        exact .decorated hkind (Prod.ext rfl hrest) hdefine.1 hdefine.2
          (hd.define hread (by omega))
      · cases h
  | branch =>
    rw [readStatement, hkind] at h
    obtain ⟨⟨header, inline⟩, hsplit, h⟩ := exists_of_bind_eq_ok h
    obtain ⟨colon, hcolon, rfl, rfl⟩ := split_eq_ok hsplit
    obtain ⟨⟨s, rest₁⟩, hread, h⟩ := exists_of_bind_eq_ok h
    cases h
    exact .branch hkind hcolon (hd.branch hread (by omega))
  | loop =>
    rw [readStatement, hkind] at h
    obtain ⟨⟨header, inline⟩, hsplit, h⟩ := exists_of_bind_eq_ok h
    obtain ⟨colon, hcolon, rfl, rfl⟩ := split_eq_ok hsplit
    obtain ⟨⟨body, rest₁⟩, hbody, h⟩ := exists_of_bind_eq_ok h
    obtain ⟨⟨orelse, rest₂⟩, helse, h⟩ := exists_of_bind_eq_ok h
    cases h
    have hread := hd.body hbody (by omega)
    have hlen := hread.suffix.length_le
    exact .loop hkind hcolon hread (hd.clause helse (by omega))
  | attempt =>
    rw [readStatement, hkind] at h
    obtain ⟨⟨header, inline⟩, hsplit, h⟩ := exists_of_bind_eq_ok h
    obtain ⟨colon, hcolon, rfl, rfl⟩ := split_eq_ok hsplit
    obtain ⟨⟨body, rest₁⟩, hbody, h⟩ := exists_of_bind_eq_ok h
    obtain ⟨⟨handlers, rest₂⟩, hhandlers, h⟩ := exists_of_bind_eq_ok h
    obtain ⟨⟨orelse, rest₃⟩, helse, h⟩ := exists_of_bind_eq_ok h
    obtain ⟨⟨final, rest₄⟩, hfinal, h⟩ := exists_of_bind_eq_ok h
    dsimp only at h
    split at h
    · cases h
    next hwhole =>
    cases h
    have hbody := hd.body hbody (by omega)
    have hlen := hbody.suffix.length_le
    have hhandlers := hd.handlers hhandlers (by omega)
    have hlen₁ := hhandlers.suffix.length_le
    have helse := hd.clause helse (by omega)
    have hlen₂ := helse.suffix.length_le
    refine .attempt hkind hcolon hbody hhandlers helse (hd.clause hfinal (by omega)) ?_
    by_contra hnone
    rw [not_or, not_ne_iff, not_ne_iff] at hnone
    rw [hnone.1, hnone.2] at hwhole
    exact hwhole rfl
  | scope =>
    rw [readStatement, hkind] at h
    obtain ⟨⟨header, inline⟩, hsplit, h⟩ := exists_of_bind_eq_ok h
    obtain ⟨colon, hcolon, rfl, rfl⟩ := split_eq_ok hsplit
    obtain ⟨⟨body, rest₁⟩, hbody, h⟩ := exists_of_bind_eq_ok h
    cases h
    exact .scope hkind hcolon (hd.body hbody (by omega))
  | define =>
    rw [readStatement, hkind] at h
    obtain ⟨⟨s, rest₁⟩, hread, h⟩ := exists_of_bind_eq_ok h
    cases h
    exact .define hkind (hd.define hread (by omega))
  | choose =>
    rw [readStatement, hkind] at h
    obtain ⟨⟨header, inline⟩, hsplit, h⟩ := exists_of_bind_eq_ok h
    obtain ⟨colon, hcolon, rfl, rfl⟩ := split_eq_ok hsplit
    cases lines with
    | nil => cases h
    | cons first lines =>
      dsimp only at h
      split at h
      · next hindent =>
        obtain ⟨⟨cases, rest₁⟩, hcases, h⟩ := exists_of_bind_eq_ok h
        obtain ⟨_, hdedent, h⟩ := exists_of_bind_eq_ok h
        cases h
        exact .choose hkind hcolon hindent (hd.cases hcases (by omega)) hdedent
      · cases h
  -- a clause without its statement is refused
  | _ =>
    rw [readStatement, hkind] at h
    cases h

end Derives

theorem derives : (fuel : Nat) → Derives fuel
  | 0 => derives_zero
  | fuel + 1 =>
    have hd := derives fuel
    { suite := hd.suite_succ
      statement := hd.statement_succ
      body := hd.body_succ
      branch := hd.branch_succ
      clause := hd.clause_succ
      handlers := hd.handlers_succ
      define := hd.define_succ
      cases := hd.cases_succ }

/-- A program that is read from a source is derived from its logical lines, and none is left. -/
theorem reads_of_parse {source : List Char} {program : List Stmt}
    (h : parse source = .ok program) :
    ∃ lines, tokenize source = .ok lines ∧ ReadsSuite 0 lines program [] := by
  obtain ⟨lines, htokens, h⟩ := exists_of_bind_eq_ok h
  obtain ⟨rest, hread⟩ := readSuite_of_parseLines h
  have hsuite := (derives _).suite hread (by omega)
  refine ⟨lines, htokens, ?_⟩
  -- nothing stands further out than the margin
  cases rest with
  | nil => exact hsuite
  | cons r rest => exact absurd (hsuite.dedent_rest r rfl) (Nat.not_lt_zero _)

end StepTrace.Python
