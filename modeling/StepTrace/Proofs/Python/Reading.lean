import StepTrace.Proofs.Python.Pieces

/-!
# What is read is well-formed

The statements that are read from a source are well-formed, apart from what the reader lets pass: a
body may hold no statement, a simple statement may begin like a compound one, and a text may be one
that does not last. `Durable` excludes these, and `allWellFormed_of_parse` says that nothing else
can be wrong. The readers of statements call each other with less fuel each time; `Readers` says
what holds of all of them with the same fuel.
-/

set_option autoImplicit false

namespace StepTrace.Python

namespace Stmt

mutual

/-- Whether every text of a statement lasts, every body of it has statements, and its simple
statements begin like simple statements. -/
def Durable : Stmt → Prop
  | simple _ text => Lasting text ∧ (alone text).kind = .simple
  | marker _ => True
  | branch _ header body orelse =>
    Lasting header ∧ body ≠ [] ∧ AllDurable body ∧ AllDurable orelse
  | loop _ header body orelse =>
    Lasting header ∧ body ≠ [] ∧ AllDurable body ∧ AllDurable orelse
  | attempt _ body handlers orelse final =>
    body ≠ [] ∧ AllDurable body ∧ ClausesDurable handlers ∧ AllDurable orelse ∧ AllDurable final
  | scope _ header body => Lasting header ∧ body ≠ [] ∧ AllDurable body
  | define _ decorators header body =>
    (∀ x ∈ decorators, Lasting x) ∧ Lasting header ∧ body ≠ [] ∧ AllDurable body
  | choose _ header cases => Lasting header ∧ ClausesDurable cases

/-- Whether all statements of a list are durable. -/
def AllDurable : List Stmt → Prop
  | [] => True
  | s :: rest => Durable s ∧ AllDurable rest

/-- Whether all clauses of a list are durable. -/
def ClausesDurable : List Clause → Prop
  | [] => True
  | .mk _ header body :: rest =>
    Lasting header ∧ body ≠ [] ∧ AllDurable body ∧ ClausesDurable rest

end

/-- Whether a statement is well-formed if it is durable. -/
def WellRead (s : Stmt) : Prop := Durable s → WellFormed s

/-- Whether statements are well-formed if they are durable. -/
def AllWellRead (ss : List Stmt) : Prop := AllDurable ss → AllWellFormed ss

/-- Whether clauses are well-formed if they are durable. -/
def ClausesWellRead (sort : LogicalLine → Prop) (clauses : List Clause) : Prop :=
  ClausesDurable clauses → ClausesWellFormed sort clauses

theorem allDurable_append (ss ss' : List Stmt) :
    AllDurable (ss ++ ss') ↔ AllDurable ss ∧ AllDurable ss' := by
  induction ss with
  | nil => exact (and_iff_right trivial).symm
  | cons s ss ih => rw [List.cons_append, AllDurable, AllDurable, ih, and_assoc]

theorem allWellFormed_append (ss ss' : List Stmt) :
    AllWellFormed (ss ++ ss') ↔ AllWellFormed ss ∧ AllWellFormed ss' := by
  induction ss with
  | nil => exact (and_iff_right trivial).symm
  | cons s ss ih => rw [List.cons_append, AllWellFormed, AllWellFormed, ih, and_assoc]

theorem allWellRead_nil : AllWellRead [] := fun _ => trivial

theorem WellRead.singleton {s : Stmt} (h : WellRead s) : AllWellRead [s] :=
  fun hs => ⟨h hs.1, trivial⟩

theorem AllWellRead.append {ss ss' : List Stmt} (h : AllWellRead ss) (h' : AllWellRead ss') :
    AllWellRead (ss ++ ss') := by
  intro hall
  rw [allDurable_append] at hall
  rw [allWellFormed_append]
  exact ⟨h hall.1, h' hall.2⟩

theorem allWellRead_simples {line : Nat} {texts : List (List Char)}
    (h : ∀ x ∈ texts, Lasting x → (alone x).kind = .simple → SimpleText x) :
    AllWellRead (texts.map (simple line)) := by
  induction texts with
  | nil => exact allWellRead_nil
  | cons x texts ih =>
    intro hall
    obtain ⟨⟨hx, hkind⟩, hrest⟩ := hall
    exact ⟨h x List.mem_cons_self hx hkind,
      ih (fun y hy => h y (List.mem_cons_of_mem x hy)) hrest⟩

end Stmt

open Stmt

/-! ## What a line gives -/

variable {l : LogicalLine} {lines lines' rest : List LogicalLine} {header : List Char}
  {inline : List Stmt} {keyword : String} {fuel indent : Nat}

theorem Faithful.allWellRead_simples (hl : Faithful l) {pos : Nat}
    (hpos : pos = 0 ∨ ∃ colon, l.headerColon? = some colon ∧ pos = colon + 1) :
    AllWellRead (l.simples pos) := by
  obtain ⟨blanks, f, hcourse⟩ := hl
  exact Stmt.allWellRead_simples fun x hx => hcourse.simpleText hpos hx

theorem split_eq_ok (h : l.split keyword = .ok (header, inline)) :
    ∃ colon, l.headerColon? = some colon ∧ header = l.through colon ∧
      inline = l.simples (colon + 1) := by
  rw [LogicalLine.split] at h
  cases hcolon : l.headerColon? with
  | none =>
    rw [hcolon] at h
    cases h
  | some colon =>
    rw [hcolon] at h
    cases h
    exact ⟨colon, rfl, rfl, rfl⟩

theorem Faithful.allWellRead_inline (hl : Faithful l) (h : l.split keyword = .ok (header, inline)) :
    AllWellRead inline := by
  obtain ⟨colon, hcolon, -, rfl⟩ := split_eq_ok h
  exact hl.allWellRead_simples (.inr ⟨colon, hcolon, rfl⟩)

theorem Faithful.headerText {kind : LineKind} (hl : Faithful l) (hkind : l.kind = kind)
    (hne : kind ≠ .simple) (h : l.split keyword = .ok (header, inline)) (hx : Lasting header) :
    HeaderText (OfKind kind) header := by
  obtain ⟨blanks, f, hcourse⟩ := hl
  obtain ⟨colon, hcolon, rfl, -⟩ := split_eq_ok h
  exact hcourse.headerText hkind hne hcolon hx.noReturn

theorem Faithful.headerText_case (hl : Faithful l) (hcase : l.isCase = true)
    (h : l.split keyword = .ok (header, inline)) (hx : Lasting header) :
    HeaderText OfCase header := by
  obtain ⟨blanks, f, hcourse⟩ := hl
  obtain ⟨colon, hcolon, rfl, -⟩ := split_eq_ok h
  exact hcourse.headerText_case hcase hcolon hx.noReturn

theorem Faithful.headerText_elif (hl : Faithful l) (hkind : l.kind = .elifClause)
    (h : l.split keyword = .ok (header, inline))
    (hx : Lasting ("if".toList ++ header.drop "elif".toList.length)) :
    HeaderText (OfKind .branch) ("if".toList ++ header.drop "elif".toList.length) := by
  obtain ⟨blanks, f, hcourse⟩ := hl
  obtain ⟨colon, hcolon, rfl, -⟩ := split_eq_ok h
  exact hcourse.headerText_elif hkind hcolon hx.noReturn

theorem Faithful.decoratorText (hl : Faithful l) (hkind : l.kind = .decorator)
    (hx : Lasting l.text) : DecoratorText l.text := by
  obtain ⟨blanks, f, hcourse⟩ := hl
  exact hcourse.decoratorText hkind hx

/-! ## Readers -/

/-- Whether a reader, if it reads something, leaves lines that it was given and reads what has a
property. -/
def Yields {α : Type} (lines : List LogicalLine) (P : α → Prop)
    (r : Except SyntaxError (α × List LogicalLine)) : Prop :=
  ∀ a rest, r = .ok (a, rest) → rest <:+ lines ∧ P a

theorem Yields.ok {α : Type} {P : α → Prop} {a : α} (hrest : rest <:+ lines) (ha : P a) :
    Yields lines P (.ok (a, rest)) := by
  rintro _ _ ⟨⟩
  exact ⟨hrest, ha⟩

theorem Yields.error {α : Type} {P : α → Prop} (e : SyntaxError) :
    Yields (α := α) lines P (.error e) := by
  rintro _ _ ⟨⟩

theorem Yields.bind {α β : Type} {P : β → Prop} {x : Except SyntaxError α}
    {k : α → Except SyntaxError (β × List LogicalLine)}
    (h : ∀ a, x = .ok a → Yields lines P (k a)) : Yields lines P (x >>= k) := by
  cases x with
  | error e => exact .error e
  | ok a => exact h a rfl

theorem Yields.bindPair {α β γ : Type} {P : β → Prop} {x : Except SyntaxError (α × γ)}
    {k : α × γ → Except SyntaxError (β × List LogicalLine)}
    (h : ∀ a c, x = .ok (a, c) → Yields lines P (k (a, c))) : Yields lines P (x >>= k) :=
  .bind fun r hr => h r.1 r.2 hr

theorem exists_of_bind_eq_ok {α β : Type} {x : Except SyntaxError α}
    {k : α → Except SyntaxError β} {b : β} (h : x >>= k = .ok b) :
    ∃ a, x = .ok a ∧ k a = .ok b := by
  cases x with
  | error e => cases h
  | ok a => exact ⟨a, rfl, h⟩

theorem readSuite_of_parseLines {program : List Stmt} (h : parseLines lines = .ok program) :
    ∃ rest, readSuite (4 * lines.length + 4) 0 lines = .ok (program, rest) := by
  rw [parseLines_eq] at h
  cases hread : readSuite (4 * lines.length + 4) 0 lines with
  | error e =>
    rw [hread] at h
    cases h
  | ok result =>
    rw [hread] at h
    cases h
    exact ⟨result.2, rfl⟩

theorem Yields.mono {α : Type} {P : α → Prop} {r : Except SyntaxError (α × List LogicalLine)}
    (h : Yields lines' P r) (hlines : lines' <:+ lines) : Yields lines P r :=
  fun a rest hr => ⟨(h a rest hr).1.trans hlines, (h a rest hr).2⟩

/-- Whether all lines are what their texts say. -/
def AllFaithful (lines : List LogicalLine) : Prop := ∀ t ∈ lines, Faithful t

theorem AllFaithful.of_suffix (h : AllFaithful lines) (hrest : rest <:+ lines) :
    AllFaithful rest :=
  fun t ht => h t (hrest.subset ht)

theorem spanDecorators_suffix (indent : Nat) (lines : List LogicalLine) :
    (spanDecorators indent lines).2 <:+ lines := by
  induction lines with
  | nil => exact List.suffix_rfl
  | cons l lines ih =>
    rw [spanDecorators]
    split
    · exact ih.trans (List.suffix_cons l lines)
    · exact List.suffix_rfl

theorem decoratorText_of_mem_spanDecorators {x : List Char} (hlines : AllFaithful lines)
    (hx : x ∈ (spanDecorators indent lines).1) (hlast : Lasting x) : DecoratorText x := by
  induction lines with
  | nil => cases hx
  | cons l lines ih =>
    rw [spanDecorators] at hx
    split at hx
    · next hdecorator =>
      rcases List.mem_cons.mp hx with rfl | hx
      · exact (hlines l List.mem_cons_self).decoratorText hdecorator.2 hlast
      · exact ih (hlines.of_suffix (List.suffix_cons l lines)) hx
    · cases hx

theorem readCases_ne_nil {cases : List Clause}
    (hread : readCases (fuel + 1) l.indent (l :: lines) = .ok (cases, rest)) : cases ≠ [] := by
  rw [readCases, if_neg (Nat.lt_irrefl _), if_neg (Nat.lt_irrefl _)] at hread
  split at hread
  · cases hread
  obtain ⟨⟨header, inline⟩, -, hread⟩ := exists_of_bind_eq_ok hread
  obtain ⟨⟨body, rest⟩, -, hread⟩ := exists_of_bind_eq_ok hread
  obtain ⟨⟨others, rest⟩, -, hread⟩ := exists_of_bind_eq_ok hread
  cases hread
  exact List.cons_ne_nil _ _

/-- What holds of the readers of statements with some fuel. -/
structure Readers (fuel : Nat) : Prop where
  suite : ∀ indent lines, AllFaithful lines → 4 * lines.length ≤ fuel →
    Yields lines AllWellRead (readSuite fuel indent lines)
  statement : ∀ indent l lines, Faithful l → AllFaithful lines → 4 * lines.length + 3 ≤ fuel →
    Yields lines AllWellRead (readStatement fuel indent l lines)
  body : ∀ indent l keyword inline lines, AllFaithful lines → 4 * lines.length + 1 ≤ fuel →
    AllWellRead inline → Yields lines AllWellRead (readBody fuel indent l keyword inline lines)
  branch : ∀ indent l header inline lines, AllFaithful lines → 4 * lines.length + 2 ≤ fuel →
    (Lasting header → HeaderText (OfKind .branch) header) → AllWellRead inline →
    Yields lines WellRead (readBranch fuel indent l header inline lines)
  clause : ∀ indent kind keyword lines, AllFaithful lines → 4 * lines.length ≤ fuel →
    Yields lines AllWellRead (readClause fuel indent kind keyword lines)
  handlers : ∀ indent lines, AllFaithful lines → 4 * lines.length ≤ fuel →
    Yields lines (ClausesWellRead (OfKind .exceptClause)) (readHandlers fuel indent lines)
  define : ∀ indent l decorators lines, Faithful l → l.kind = .define → AllFaithful lines →
    (∀ x ∈ decorators, Lasting x → DecoratorText x) → 4 * lines.length + 2 ≤ fuel →
    Yields lines WellRead (readDefine fuel indent l decorators lines)
  cases : ∀ indent lines, AllFaithful lines → 4 * lines.length ≤ fuel →
    Yields lines (ClausesWellRead OfCase) (readCases fuel indent lines)

theorem readers_zero : Readers 0 where
  suite := by
    intro indent lines hlines hfuel
    rw [readSuite]
    exact .ok List.suffix_rfl allWellRead_nil
  statement := by omega
  body := by omega
  branch := by omega
  clause := by
    intro indent kind keyword lines hlines hfuel
    rw [readClause]
    exact .ok List.suffix_rfl allWellRead_nil
  handlers := by
    intro indent lines hlines hfuel
    rw [readHandlers]
    exact .ok List.suffix_rfl fun _ => trivial
  define := by omega
  cases := by
    intro indent lines hlines hfuel
    rw [readCases]
    exact .ok List.suffix_rfl fun _ => trivial

namespace Readers

variable (h : Readers fuel)

include h

theorem suite_succ (hlines : AllFaithful lines) (hfuel : 4 * lines.length ≤ fuel + 1) :
    Yields lines AllWellRead (readSuite (fuel + 1) indent lines) := by
  cases lines with
  | nil =>
    rw [readSuite]
    exact .ok List.suffix_rfl allWellRead_nil
  | cons l lines =>
    rw [List.length_cons] at hfuel
    rw [readSuite]
    split
    · exact .ok List.suffix_rfl allWellRead_nil
    split
    · exact .error _
    refine .bindPair fun ss rest hstatement => ?_
    obtain ⟨hrest, hss⟩ := h.statement indent l lines (hlines l List.mem_cons_self)
      (fun t ht => hlines t (List.mem_cons_of_mem l ht)) (by omega) ss rest hstatement
    refine .bindPair fun others rest' hsuite => ?_
    -- no more lines are left than there were behind the first, so the fuel suffices
    have hlen := hrest.length_le
    obtain ⟨hrest', hothers⟩ := h.suite indent rest
      (hlines.of_suffix (hrest.trans (List.suffix_cons l lines))) (by omega) others rest' hsuite
    exact .ok (hrest'.trans (hrest.trans (List.suffix_cons l lines))) (hss.append hothers)

theorem body_succ {bodyOf : LogicalLine} (hlines : AllFaithful lines)
    (hfuel : 4 * lines.length + 1 ≤ fuel + 1) (hinline : AllWellRead inline) :
    Yields lines AllWellRead (readBody (fuel + 1) indent bodyOf keyword inline lines) := by
  rw [readBody.eq_def]
  dsimp only
  split
  · exact .ok List.suffix_rfl hinline
  cases lines with
  | nil => exact .error _
  | cons first lines =>
    dsimp only
    split
    · refine .bindPair fun body rest hsuite => ?_
      obtain ⟨hrest, hbody⟩ := h.suite first.indent (first :: lines) hlines (by omega) body rest
        hsuite
      exact .bind fun _ _ => .ok hrest hbody
    · exact .error _

theorem clause_succ {kind : LineKind} (hlines : AllFaithful lines)
    (hfuel : 4 * lines.length ≤ fuel + 1) :
    Yields lines AllWellRead (readClause (fuel + 1) indent kind keyword lines) := by
  cases lines with
  | nil =>
    rw [readClause]
    exact .ok List.suffix_rfl allWellRead_nil
  | cons l lines =>
    rw [List.length_cons] at hfuel
    rw [readClause]
    split
    · refine .bindPair fun header inline hsplit => ?_
      exact (h.body indent l keyword inline lines
        (hlines.of_suffix (List.suffix_cons l lines)) (by omega)
        ((hlines l List.mem_cons_self).allWellRead_inline hsplit)).mono (List.suffix_cons l lines)
    · exact .ok List.suffix_rfl allWellRead_nil

theorem handlers_succ (hlines : AllFaithful lines) (hfuel : 4 * lines.length ≤ fuel + 1) :
    Yields lines (ClausesWellRead (OfKind .exceptClause))
      (readHandlers (fuel + 1) indent lines) := by
  cases lines with
  | nil =>
    rw [readHandlers]
    exact .ok List.suffix_rfl fun _ => trivial
  | cons l lines =>
    rw [List.length_cons] at hfuel
    have hl := hlines l List.mem_cons_self
    have hsuffix := List.suffix_cons l lines
    rw [readHandlers]
    split
    · next hclause =>
      refine .bindPair fun header inline hsplit => ?_
      refine .bindPair fun body rest hread => ?_
      obtain ⟨hrest, hbody⟩ := h.body indent l "except" inline lines (hlines.of_suffix hsuffix)
        (by omega) (hl.allWellRead_inline hsplit) body rest hread
      have hlen := hrest.length_le
      refine .bindPair fun others rest' hread' => ?_
      obtain ⟨hrest', hothers⟩ := h.handlers indent rest (hlines.of_suffix (hrest.trans hsuffix))
        (by omega) others rest' hread'
      refine .ok (hrest'.trans (hrest.trans hsuffix)) ?_
      rintro ⟨hheader, hne, hdurable, hdurable'⟩
      exact ⟨hl.headerText hclause.2 (by decide) hsplit hheader, hne, hbody hdurable,
        hothers hdurable'⟩
    · exact .ok List.suffix_rfl fun _ => trivial

theorem cases_succ (hlines : AllFaithful lines) (hfuel : 4 * lines.length ≤ fuel + 1) :
    Yields lines (ClausesWellRead OfCase) (readCases (fuel + 1) indent lines) := by
  cases lines with
  | nil =>
    rw [readCases]
    exact .ok List.suffix_rfl fun _ => trivial
  | cons l lines =>
    rw [List.length_cons] at hfuel
    have hl := hlines l List.mem_cons_self
    have hsuffix := List.suffix_cons l lines
    rw [readCases]
    split
    · exact .ok List.suffix_rfl fun _ => trivial
    split
    · exact .error _
    split
    · exact .error _
    next hcase =>
    refine .bindPair fun header inline hsplit => ?_
    refine .bindPair fun body rest hread => ?_
    obtain ⟨hrest, hbody⟩ := h.body indent l "case" inline lines (hlines.of_suffix hsuffix)
      (by omega) (hl.allWellRead_inline hsplit) body rest hread
    have hlen := hrest.length_le
    refine .bindPair fun others rest' hread' => ?_
    obtain ⟨hrest', hothers⟩ := h.cases indent rest (hlines.of_suffix (hrest.trans hsuffix))
      (by omega) others rest' hread'
    refine .ok (hrest'.trans (hrest.trans hsuffix)) ?_
    rintro ⟨hheader, hne, hdurable, hdurable'⟩
    exact ⟨hl.headerText_case (by simpa using hcase) hsplit hheader, hne, hbody hdurable,
      hothers hdurable'⟩

theorem define_succ {decorators : List (List Char)} (hl : Faithful l) (hkind : l.kind = .define)
    (hlines : AllFaithful lines) (hdecorators : ∀ x ∈ decorators, Lasting x → DecoratorText x)
    (hfuel : 4 * lines.length + 2 ≤ fuel + 1) :
    Yields lines WellRead (readDefine (fuel + 1) indent l decorators lines) := by
  rw [readDefine]
  refine .bindPair fun header inline hsplit => ?_
  refine .bindPair fun body rest hread => ?_
  obtain ⟨hrest, hbody⟩ := h.body indent l (defineKeyword l) inline lines hlines (by omega)
    (hl.allWellRead_inline hsplit) body rest hread
  refine .ok hrest ?_
  rintro ⟨hlast, hheader, hne, hdurable⟩
  exact ⟨fun x hx => hdecorators x hx (hlast x hx),
    hl.headerText hkind (by decide) hsplit hheader, hne, hbody hdurable⟩

theorem branch_succ (hlines : AllFaithful lines) (hfuel : 4 * lines.length + 2 ≤ fuel + 1)
    (hheader : Lasting header → HeaderText (OfKind .branch) header)
    (hinline : AllWellRead inline) :
    Yields lines WellRead (readBranch (fuel + 1) indent l header inline lines) := by
  rw [readBranch]
  refine .bindPair fun body rest hread => ?_
  obtain ⟨hrest, hbody⟩ := h.body indent l "if" inline lines hlines (by omega) hinline body rest
    hread
  have hlen := hrest.length_le
  -- the branch is well read with any `else` part that is
  have hwhole : ∀ orelse, AllWellRead orelse → WellRead (.branch l.line header body orelse) := by
    rintro orelse horelse ⟨hlast, hne, hdurable, hdurable'⟩
    exact ⟨hheader hlast, hne, hbody hdurable, horelse hdurable'⟩
  cases rest with
  | nil => exact .ok List.nil_suffix (hwhole [] allWellRead_nil)
  | cons next others =>
    have hnext : others <:+ lines := (List.suffix_cons next others).trans hrest
    have hfaithful : Faithful next := hlines next (hrest.subset List.mem_cons_self)
    rw [List.length_cons] at hlen
    dsimp only
    split
    · -- an `elif` clause is read as a branch of its own, the only statement of the `else` part
      next hclause =>
      refine .bindPair fun elifHeader elifInline hsplit => ?_
      refine .bindPair fun s rest' hread' => ?_
      obtain ⟨hrest', hs⟩ := h.branch indent next _ elifInline others (hlines.of_suffix hnext)
        (by omega) (hfaithful.headerText_elif hclause.2 hsplit)
        (hfaithful.allWellRead_inline hsplit) s rest' hread'
      exact .ok (hrest'.trans hnext) (hwhole [s] hs.singleton)
    · refine .bindPair fun orelse rest' hread' => ?_
      obtain ⟨hrest', horelse⟩ := h.clause indent .elseClause "else" (next :: others)
        (hlines.of_suffix hrest) (by rw [List.length_cons]; omega) orelse rest' hread'
      exact .ok (hrest'.trans hrest) (hwhole orelse horelse)

theorem decorated_succ (hl : Faithful l) (hkind : l.kind = .decorator) (hlines : AllFaithful lines)
    (hfuel : 4 * lines.length + 3 ≤ fuel + 1) :
    Yields lines AllWellRead (readStatement (fuel + 1) indent l lines) := by
  have hspan := spanDecorators_suffix indent lines
  rw [readStatement, hkind]
  dsimp only
  cases hrest : (spanDecorators indent lines).2 with
  | nil => exact .error _
  | cons d rest =>
    rw [hrest] at hspan
    have hsuffix : rest <:+ lines := (List.suffix_cons d rest).trans hspan
    have hlen := hspan.length_le
    rw [List.length_cons] at hlen
    dsimp only
    split
    · next hdefine =>
      refine .bindPair fun s rest' hread => ?_
      -- the first decorator is the line itself, the others stand behind it
      have hall : ∀ x ∈ l.text :: (spanDecorators indent lines).1, Lasting x →
          DecoratorText x := by
        intro x hx hlast
        rcases List.mem_cons.mp hx with rfl | hx
        · exact hl.decoratorText hkind hlast
        · exact decoratorText_of_mem_spanDecorators hlines hx hlast
      obtain ⟨hrest', hs⟩ := h.define indent d _ rest (hlines d (hspan.subset List.mem_cons_self))
        hdefine.2 (hlines.of_suffix hsuffix) hall (by omega) s rest' hread
      exact .ok (hrest'.trans hsuffix) hs.singleton
    · exact .error _

theorem attempt_succ (hl : Faithful l) (hkind : l.kind = .attempt) (hlines : AllFaithful lines)
    (hfuel : 4 * lines.length + 3 ≤ fuel + 1) :
    Yields lines AllWellRead (readStatement (fuel + 1) indent l lines) := by
  rw [readStatement, hkind]
  dsimp only
  refine .bindPair fun header inline hsplit => ?_
  refine .bindPair fun body rest hread => ?_
  obtain ⟨hrest, hbody⟩ := h.body indent l "try" inline lines hlines (by omega)
    (hl.allWellRead_inline hsplit) body rest hread
  have hlen := hrest.length_le
  refine .bindPair fun handlers rest₁ hread₁ => ?_
  obtain ⟨hrest₁, hhandlers⟩ := h.handlers indent rest (hlines.of_suffix hrest) (by omega) handlers
    rest₁ hread₁
  have hlen₁ := hrest₁.length_le
  refine .bindPair fun orelse rest₂ hread₂ => ?_
  obtain ⟨hrest₂, horelse⟩ := h.clause indent .elseClause "else" rest₁
    (hlines.of_suffix (hrest₁.trans hrest)) (by omega) orelse rest₂ hread₂
  have hlen₂ := hrest₂.length_le
  refine .bindPair fun final rest₃ hread₃ => ?_
  obtain ⟨hrest₃, hfinal⟩ := h.clause indent .finallyClause "finally" rest₂
    (hlines.of_suffix (hrest₂.trans (hrest₁.trans hrest))) (by omega) final rest₃ hread₃
  dsimp only
  split
  · exact .error _
  next hwhole =>
  -- the reader refuses a `try` statement with neither handlers nor a `finally` clause
  have hhandled : handlers ≠ [] ∨ final ≠ [] := by
    by_contra hnone
    rw [not_or, not_ne_iff, not_ne_iff] at hnone
    rw [hnone.1, hnone.2] at hwhole
    exact hwhole rfl
  refine .ok (hrest₃.trans (hrest₂.trans (hrest₁.trans hrest))) (WellRead.singleton ?_)
  rintro ⟨hne, hdurable, hdurable₁, hdurable₂, hdurable₃⟩
  exact ⟨hne, hhandled, hbody hdurable, hhandlers hdurable₁, horelse hdurable₂, hfinal hdurable₃⟩

theorem choose_succ (hl : Faithful l) (hkind : l.kind = .choose) (hlines : AllFaithful lines)
    (hfuel : 4 * lines.length + 3 ≤ fuel + 1) :
    Yields lines AllWellRead (readStatement (fuel + 1) indent l lines) := by
  rw [readStatement, hkind]
  dsimp only
  refine .bindPair fun header inline hsplit => ?_
  cases lines with
  | nil => exact .error _
  | cons first lines =>
    dsimp only
    split
    · refine .bindPair fun cases rest hread => ?_
      obtain ⟨hrest, hcases⟩ := h.cases first.indent (first :: lines) hlines (by omega) cases rest
        hread
      -- the cases are looked for where the first line stands, so that line is one of them
      obtain ⟨fuel, rfl⟩ : ∃ k, fuel = k + 1 := ⟨fuel - 1, by omega⟩
      have hne := readCases_ne_nil hread
      refine .bind fun _ _ => .ok hrest (WellRead.singleton ?_)
      rintro ⟨hheader, hdurable⟩
      exact ⟨hl.headerText hkind (by decide) hsplit hheader, hne, hcases hdurable⟩
    · exact .error _

theorem statement_succ (hl : Faithful l) (hlines : AllFaithful lines)
    (hfuel : 4 * lines.length + 3 ≤ fuel + 1) :
    Yields lines AllWellRead (readStatement (fuel + 1) indent l lines) := by
  cases hkind : l.kind with
  | decorator => exact h.decorated_succ hl hkind hlines hfuel
  | attempt => exact h.attempt_succ hl hkind hlines hfuel
  | choose => exact h.choose_succ hl hkind hlines hfuel
  | simple =>
    rw [readStatement, hkind]
    exact .ok List.suffix_rfl (hl.allWellRead_simples (.inl rfl))
  | branch =>
    rw [readStatement, hkind]
    dsimp only
    refine .bindPair fun header inline hsplit => ?_
    refine .bindPair fun s rest hread => ?_
    obtain ⟨hrest, hs⟩ := h.branch indent l header inline lines hlines (by omega)
      (hl.headerText hkind (by decide) hsplit) (hl.allWellRead_inline hsplit) s rest hread
    exact .ok hrest hs.singleton
  | loop =>
    rw [readStatement, hkind]
    dsimp only
    refine .bindPair fun header inline hsplit => ?_
    refine .bindPair fun body rest hread => ?_
    obtain ⟨hrest, hbody⟩ := h.body indent l (loopKeyword l) inline lines hlines (by omega)
      (hl.allWellRead_inline hsplit) body rest hread
    have hlen := hrest.length_le
    refine .bindPair fun orelse rest' hread' => ?_
    obtain ⟨hrest', horelse⟩ := h.clause indent .elseClause "else" rest (hlines.of_suffix hrest)
      (by omega) orelse rest' hread'
    refine .ok (hrest'.trans hrest) (WellRead.singleton ?_)
    rintro ⟨hheader, hne, hdurable, hdurable'⟩
    exact ⟨hl.headerText hkind (by decide) hsplit hheader, hne, hbody hdurable, horelse hdurable'⟩
  | scope =>
    rw [readStatement, hkind]
    dsimp only
    refine .bindPair fun header inline hsplit => ?_
    refine .bindPair fun body rest hread => ?_
    obtain ⟨hrest, hbody⟩ := h.body indent l "with" inline lines hlines (by omega)
      (hl.allWellRead_inline hsplit) body rest hread
    refine .ok hrest (WellRead.singleton ?_)
    rintro ⟨hheader, hne, hdurable⟩
    exact ⟨hl.headerText hkind (by decide) hsplit hheader, hne, hbody hdurable⟩
  | define =>
    rw [readStatement, hkind]
    dsimp only
    refine .bindPair fun s rest hread => ?_
    obtain ⟨hrest, hs⟩ := h.define indent l [] lines hl hkind hlines
      (fun x hx => absurd hx (by simp)) (by omega) s rest hread
    exact .ok hrest hs.singleton
  -- a clause without its statement is refused
  | _ =>
    rw [readStatement, hkind]
    exact .error _

end Readers

theorem readers : (fuel : Nat) → Readers fuel
  | 0 => readers_zero
  | fuel + 1 =>
    have h := readers fuel
    { suite := fun _ _ => h.suite_succ
      statement := fun _ _ _ => h.statement_succ
      body := fun _ _ _ _ _ => h.body_succ
      branch := fun _ _ _ _ _ => h.branch_succ
      clause := fun _ _ _ _ => h.clause_succ
      handlers := fun _ _ => h.handlers_succ
      define := fun _ _ _ _ => h.define_succ
      cases := fun _ _ => h.cases_succ }

/-- A program that was read is well-formed if it is durable. -/
theorem allWellFormed_of_parse {source : List Char} {program : List Stmt}
    (h : parse source = .ok program) (hdurable : AllDurable program) : AllWellFormed program := by
  obtain ⟨lines, htokens, hlines⟩ := exists_of_bind_eq_ok h
  obtain ⟨rest, hread⟩ := readSuite_of_parseLines hlines
  exact ((readers _).suite 0 lines (faithful_of_mem_tokenize htokens) (by omega) program rest
    hread).2 hdurable

end StepTrace.Python
