import StepTrace.Proofs.Python.WellFormed

/-!
# Reading back what was written

A well-formed program that is written and read again is the same program, up to line numbers and
with its markers as simple statements (`parse_render`). The rows of a program are known to be read
line by line; what is left is to follow the reader of statements through them. For each constructor
one lemma says that its statement reads back if its parts do.
-/

set_option autoImplicit false

namespace StepTrace.Python

open Stmt

/-! ## Single lines -/

/-- A line that a text is wherever it stands. -/
def standing (line indent : Nat) (x : List Char) : LogicalLine :=
  { alone x with line := line, indent := indent }

variable {x : List Char} {line depth indent fuel : Nat} {l : LogicalLine}
  {rest : List LogicalLine}

theorem RowText.text_standing (hx : RowText x) : (standing line indent x).text = x :=
  hx.oneLine.text

theorem placed_cons (hx : RowText x) (ys : List (List Char)) :
    placed line (indented depth x :: ys) =
      standing line (4 * depth) x :: placed (line + Text.breaks (indented depth x) + 1) ys := by
  rw [placed, indented, rowLine_of_rowText hx]
  rfl

/-- Nothing stands behind the end of a line. -/
theorem pieces_of_byteSize_le (h : Text.byteSize l.text ≤ indent) : l.pieces indent = [] := by
  have hslice : ∀ start stop, Text.byteSize l.text ≤ start →
      Text.sliceBytes start stop l.text = [] := by
    intro start stop hstart
    refine Text.dropBytes_of_byteSize_le _ _ (Nat.le_trans ?_ hstart)
    have hcut := congrArg Text.byteSize (Text.takeBytes_append_dropBytes stop l.text)
    rw [Text.byteSize_append] at hcut
    omega
  -- a stretch begins at the place or behind a semicolon after it
  have hall : ∀ s ∈ l.stretches indent, s = [] := by
    intro s hs
    obtain ⟨⟨start, stop⟩, hmem, rfl⟩ := List.mem_map.mp hs
    refine hslice start stop ?_
    have hstart := (List.of_mem_zip hmem).1
    rcases List.mem_cons.mp hstart with rfl | hstart
    · exact h
    · obtain ⟨o, ho, rfl⟩ := List.mem_map.mp hstart
      rcases List.mem_append.mp ho with ho | ho
      · have := (List.mem_filter.mp ho).2
        simp only [decide_eq_true_eq] at this
        omega
      · rw [List.mem_singleton.mp ho]
        omega
  rw [LogicalLine.pieces, List.filter_eq_nil_iff]
  intro s hs
  obtain ⟨s', hs', rfl⟩ := List.mem_map.mp hs
  rw [hall s' hs']
  decide

/-- A header is cut behind its last character. -/
theorem HeaderText.split {sort : LogicalLine → Prop} (hx : HeaderText sort x) (keyword : String) :
    (standing line indent x).split keyword = .ok (x, []) := by
  obtain ⟨c, s, hcons, -⟩ := hx.oneLine.opens
  have hpos : 0 < Text.byteSize x := by
    have := c.utf8Size_pos
    rw [hcons, Text.byteSize]
    omega
  have hcolon : (standing line indent x).headerColon? = some (Text.byteSize x - 1) := hx.colon
  rw [LogicalLine.split, hcolon]
  dsimp only
  have hend : Text.byteSize x - 1 + 1 = Text.byteSize x := by omega
  rw [LogicalLine.through, LogicalLine.simples, hx.text_standing, hend,
    Text.takeBytes_of_byteSize_le _ _ (Nat.le_refl _),
    pieces_of_byteSize_le (Nat.le_of_eq (congrArg Text.byteSize hx.text_standing)), List.map_nil]

theorem SimpleText.trim (hx : SimpleText x) : Text.trim x = x := by
  have hstart : Text.trimStart x = x := by
    cases x with
    | nil => rfl
    | cons c s =>
      have hc := hx.noBlank c rfl
      rw [Text.trimStart, List.dropWhile_cons, hc]
      rfl
  rw [Text.trim, hstart]
  exact Text.trimEnd_eq_self fun c hc => hx.oneLine.not_isBlank_of_getLast? hc

/-- The text of a simple statement is the only one on its line. -/
theorem SimpleText.simples (hx : SimpleText x) :
    (standing line indent x).simples 0 = [.simple line x] := by
  have hstretches : (standing line indent x).stretches 0 = [x] := by
    have hnone : (standing line indent x).semicolons = [] := hx.semicolons
    rw [LogicalLine.stretches, hnone, hx.text_standing]
    simp only [List.filter_nil, List.nil_append, List.map_cons, List.map_nil, List.zip_cons_cons,
      List.zip_nil_right, Text.sliceBytes, Text.takeBytes_of_byteSize_le _ _ (Nat.le_refl _),
      Text.dropBytes_zero]
  obtain ⟨c, s, hcons, -⟩ := hx.oneLine.opens
  have hsome : (!x.isEmpty) = true := by
    rw [hcons]
    rfl
  rw [LogicalLine.simples, LogicalLine.pieces, hstretches, List.map_singleton, hx.trim,
    List.filter_singleton, hsome]
  rfl

theorem SimpleText.kind_standing (hx : SimpleText x) : (standing line indent x).kind = .simple :=
  hx.kind

theorem DecoratorText.kind_standing (hx : DecoratorText x) (line indent : Nat) :
    (standing line indent x).kind = .decorator := by
  rw [LogicalLine.kind, hx.text_standing, if_pos hx.sign]

/-! ## What stands behind a statement -/

/-- Whether a line goes on with a statement that other lines began. -/
def LineKind.continues : LineKind → Bool
  | .elifClause | .elseClause | .exceptClause | .finallyClause => true
  | _ => false

/-- Whether the first of some lines, if there is one, has a property. -/
def First (P : LogicalLine → Prop) (lines : List LogicalLine) : Prop := ∀ l ∈ lines.head?, P l

theorem First.append {P : LogicalLine → Prop} {lines : List LogicalLine} (h : First P lines)
    (hrest : First P rest) : First P (lines ++ rest) := by
  cases lines with
  | nil => exact hrest
  | cons l lines => exact h

theorem First.mono {P Q : LogicalLine → Prop} (h : First P rest) (hPQ : ∀ l, P l → Q l) :
    First Q rest :=
  fun l hl => hPQ l (h l hl)

/-- A line that begins another statement at some indentation, or stands further out. -/
def Outer (indent : Nat) (l : LogicalLine) : Prop :=
  l.indent < indent ∨ l.indent = indent ∧ l.kind.continues = false

theorem Outer.not_clause {kind : LineKind} (h : Outer indent l) (hkind : kind.continues = true) :
    ¬(l.indent = indent ∧ l.kind = kind) := by
  rintro ⟨hi, rfl⟩
  rcases h with h | h
  · omega
  · rw [hkind] at h
    cases h.2

theorem Outer.indent_le (h : Outer indent l) : l.indent ≤ indent := by
  rcases h with h | h <;> omega

/-! ## Reading back -/

namespace Stmt

/-- Whether the rows of some statements read back wherever they stand. -/
def AllReadBack (ss : List Stmt) : Prop :=
  ∀ fuel depth line rest, 4 * (writtenAll depth ss).length + 1 ≤ fuel →
    First (fun l => l.indent < 4 * depth) rest →
    ∃ ss', readSuite fuel (4 * depth) (placed line (writtenAll depth ss) ++ rest) =
      .ok (ss', rest) ∧ unnumbered ss' = spelled ss

/-- Whether the rows of some handlers read back wherever they stand. -/
def HandlersReadBack (handlers : List Clause) : Prop :=
  ∀ fuel depth line rest, 4 * (writtenClauses depth handlers).length ≤ fuel →
    First (fun l => l.indent ≤ 4 * depth) rest →
    First (fun l => ¬(l.indent = 4 * depth ∧ l.kind = .exceptClause)) rest →
    ∃ handlers', readHandlers fuel (4 * depth)
        (placed line (writtenClauses depth handlers) ++ rest) = .ok (handlers', rest) ∧
      rebuiltClauses marker handlers' = rebuiltClauses asSimple handlers

/-- Whether the rows of some cases read back wherever they stand. -/
def CasesReadBack (cases : List Clause) : Prop :=
  ∀ fuel depth line rest, 4 * (writtenClauses depth cases).length ≤ fuel →
    First (fun l => l.indent < 4 * depth) rest →
    ∃ cases', readCases fuel (4 * depth) (placed line (writtenClauses depth cases) ++ rest) =
        .ok (cases', rest) ∧ rebuiltClauses marker cases' = rebuiltClauses asSimple cases

/-- Whether the rows of a statement read back wherever they stand. -/
def ReadsBack (s : Stmt) : Prop :=
  ∀ fuel depth line rest, 4 * (written depth s).length ≤ fuel → First (Outer (4 * depth)) rest →
    ∃ l ls s', placed line (written depth s) = l :: ls ∧ l.indent = 4 * depth ∧
      l.kind.continues = false ∧ readStatement fuel (4 * depth) l (ls ++ rest) = .ok ([s'], rest) ∧
      rebuilt marker s' = rebuilt asSimple s

end Stmt

variable {ss body orelse final : List Stmt} {header : List Char}

theorem HeaderText.continues {kind : LineKind} (hx : HeaderText (OfKind kind) x)
    (hkind : kind.continues = false) : (alone x).kind.continues = false := by
  have hsort : (alone x).kind = kind := hx.sort
  rw [hsort, hkind]

/-- The first row of a statement. -/
theorem written_eq_cons (s : Stmt) (hs : s.WellFormed) (depth : Nat) :
    ∃ x ys, written depth s = indented depth x :: ys ∧ RowText x ∧
      (alone x).kind.continues = false := by
  cases s with
  | simple _ text =>
    have htext : SimpleText text := hs
    exact ⟨text, [], rfl, htext.toRowText, by rw [htext.kind]; rfl⟩
  | marker line =>
    have htext := simpleText_markerText line
    exact ⟨markerText line, [], rfl, htext.toRowText, by rw [htext.kind]; rfl⟩
  | branch _ header body orelse => exact ⟨header, _, rfl, hs.1.toRowText, hs.1.continues rfl⟩
  | loop _ header body orelse => exact ⟨header, _, rfl, hs.1.toRowText, hs.1.continues rfl⟩
  | attempt _ body handlers orelse final =>
    refine ⟨"try:".toList, writtenAll (depth + 1) body ++ (writtenClauses depth handlers ++
      ((if orelse.isEmpty then [] else
        indented depth "else:".toList :: writtenAll (depth + 1) orelse) ++
      (if final.isEmpty then [] else
        indented depth "finally:".toList :: writtenAll (depth + 1) final))), ?_,
      headerText_try.toRowText, headerText_try.continues rfl⟩
    rw [written]
    simp only [List.cons_append, List.append_assoc]
  | scope _ header body => exact ⟨header, _, rfl, hs.1.toRowText, hs.1.continues rfl⟩
  | define _ decorators header body =>
    cases decorators with
    | nil => exact ⟨header, _, rfl, hs.2.1.toRowText, hs.2.1.continues rfl⟩
    | cons x decorators =>
      have hx := hs.1 x List.mem_cons_self
      have hkind : (alone x).kind = .decorator := by
        rw [LogicalLine.kind, hx.oneLine.text, if_pos hx.sign]
      exact ⟨x, _, rfl, hx.toRowText, by rw [hkind]; rfl⟩
  | choose _ header cases => exact ⟨header, _, rfl, hs.1.toRowText, hs.1.continues rfl⟩

theorem first_placed_writtenAll (hss : AllWellFormed ss) (depth line : Nat) :
    First (fun l => l.indent = 4 * depth ∧ l.kind.continues = false)
      (placed line (writtenAll depth ss)) := by
  cases ss with
  | nil => exact fun l hl => absurd hl (by simp [writtenAll, placed])
  | cons s rest =>
    obtain ⟨x, ys, hrows, hx, hkind⟩ := written_eq_cons s hss.1 depth
    rw [writtenAll, hrows, List.cons_append, placed_cons hx]
    intro l hl
    cases hl
    exact ⟨rfl, hkind⟩

theorem writtenAll_ne_nil (hss : AllWellFormed ss) (h : ss ≠ []) : writtenAll depth ss ≠ [] := by
  cases ss with
  | nil => exact absurd rfl h
  | cons s rest =>
    obtain ⟨x, ys, hrows, -⟩ := written_eq_cons s hss.1 depth
    rw [writtenAll, hrows]
    simp

/-- What stands no deeper than the header of a block is no slip of indentation in it. -/
theorem checkDedent_eq_ok (inner : Nat) (hrest : First (fun l => l.indent ≤ indent) rest) :
    checkDedent indent inner rest = .ok () := by
  cases rest with
  | nil => rfl
  | cons r rest =>
    have hr : r.indent ≤ indent := hrest r rfl
    rw [checkDedent, if_neg (by omega)]

/-- An indented block is read as a body. -/
theorem readBody_written (hne : body ≠ []) (hwell : AllWellFormed body) (hbody : AllReadBack body)
    (fuel depth line : Nat) (l : LogicalLine) (keyword : String)
    (hfuel : 4 * (writtenAll (depth + 1) body).length + 2 ≤ fuel)
    (hrest : First (fun l => l.indent ≤ 4 * depth) rest) :
    ∃ body', readBody fuel (4 * depth) l keyword []
        (placed line (writtenAll (depth + 1) body) ++ rest) = .ok (body', rest) ∧
      unnumbered body' = spelled body := by
  obtain ⟨fuel, rfl⟩ : ∃ k, fuel = k + 1 := ⟨fuel - 1, by omega⟩
  obtain ⟨body', hread, hsame⟩ := hbody fuel (depth + 1) line rest (by omega)
    (hrest.mono fun l hl => by omega)
  have hfirst := first_placed_writtenAll hwell (depth + 1) line
  -- the block has a first row, and it stands deeper than the header
  have hsome : placed line (writtenAll (depth + 1) body) ≠ [] := by
    rw [← List.length_pos_iff, length_placed, List.length_pos_iff]
    exact writtenAll_ne_nil hwell hne
  refine ⟨body', ?_, hsame⟩
  cases hplaced : placed line (writtenAll (depth + 1) body) with
  | nil => exact absurd hplaced hsome
  | cons first more =>
    rw [hplaced] at hread hfirst
    have hindent : first.indent = 4 * (depth + 1) := (hfirst first rfl).1
    have hdedent : checkDedent (4 * depth) (4 * (depth + 1)) rest = .ok () :=
      checkDedent_eq_ok _ hrest
    rw [List.cons_append] at hread ⊢
    rw [readBody]
    simp only [List.isEmpty_nil, Bool.not_true, Bool.false_eq_true, if_false]
    rw [if_pos (by omega), hindent, hread]
    simp only [bind, Except.bind, hdedent, pure, Except.pure]

/-- The rows of a clause that is written if it has statements. -/
def optionalRows (depth : Nat) (header : List Char) (ss : List Stmt) : List (List Char) :=
  if ss.isEmpty then [] else indented depth header :: writtenAll (depth + 1) ss

/-- The first row of such a clause is its header. -/
theorem first_placed_optionalRows {kind : LineKind} (hheader : HeaderText (OfKind kind) header)
    (ss : List Stmt) (depth line : Nat) :
    First (fun l => l.indent = 4 * depth ∧ l.kind = kind)
      (placed line (optionalRows depth header ss)) := by
  rw [optionalRows]
  split
  · exact fun l hl => absurd hl (by simp [placed])
  · rw [placed_cons hheader.toRowText]
    intro l hl
    cases hl
    exact ⟨rfl, hheader.sort⟩

theorem readClause_absent {kind : LineKind} (keyword : String)
    (hrest : First (fun l => ¬(l.indent = indent ∧ l.kind = kind)) rest) :
    readClause fuel indent kind keyword rest = .ok ([], rest) := by
  cases fuel with
  | zero => rw [readClause]
  | succ fuel =>
    cases rest with
    | nil => rw [readClause]
    | cons r rest => rw [readClause, if_neg (hrest r rfl)]

/-- A clause that may be there or not. -/
theorem readClause_written {kind : LineKind} (hheader : HeaderText (OfKind kind) header)
    (hwell : AllWellFormed ss) (hss : AllReadBack ss) (fuel depth line : Nat) (keyword : String)
    (hfuel : 4 * (optionalRows depth header ss).length ≤ fuel)
    (hin : First (fun l => l.indent ≤ 4 * depth) rest)
    (hrest : First (fun l => ¬(l.indent = 4 * depth ∧ l.kind = kind)) rest) :
    ∃ ss', readClause fuel (4 * depth) kind keyword
        (placed line (optionalRows depth header ss) ++ rest) = .ok (ss', rest) ∧
      unnumbered ss' = spelled ss := by
  rw [optionalRows] at hfuel ⊢
  cases ss with
  | nil => exact ⟨[], readClause_absent keyword hrest, rfl⟩
  | cons s ss =>
    rw [List.isEmpty_cons, if_neg (by simp), List.length_cons] at hfuel
    obtain ⟨fuel, rfl⟩ : ∃ k, fuel = k + 1 := ⟨fuel - 1, by omega⟩
    rw [List.isEmpty_cons, if_neg (by simp), placed_cons hheader.toRowText, List.cons_append,
      readClause, if_pos ⟨rfl, hheader.sort⟩, hheader.split keyword]
    exact readBody_written (by simp) hwell hss fuel depth _ _ keyword (by omega) hin

/-! ## One constructor after another -/

/-- A statement reads back if its first line and the rows behind it do. -/
theorem Stmt.ReadsBack.of_rows {s : Stmt} (ys : Nat → List (List Char)) (hx : RowText x)
    (hkind : (alone x).kind.continues = false)
    (hrows : ∀ depth, written depth s = indented depth x :: ys depth)
    (h : ∀ fuel depth line next rest, 4 * (ys depth).length + 3 ≤ fuel →
      First (Outer (4 * depth)) rest →
      ∃ s', readStatement (fuel + 1) (4 * depth) (standing line (4 * depth) x)
          (placed next (ys depth) ++ rest) = .ok ([s'], rest) ∧
        rebuilt marker s' = rebuilt asSimple s) : ReadsBack s := by
  intro fuel depth line rest hfuel hrest
  rw [hrows, List.length_cons] at hfuel
  obtain ⟨fuel, rfl⟩ : ∃ k, fuel = k + 1 := ⟨fuel - 1, by omega⟩
  obtain ⟨s', hread, hsame⟩ :=
    h fuel depth line (line + Text.breaks (indented depth x) + 1) rest (by omega) hrest
  refine ⟨standing line (4 * depth) x, _, s', ?_, rfl, hkind, hread, hsame⟩
  rw [hrows]
  exact placed_cons hx _

theorem readsBack_simple (n : Nat) (hx : SimpleText x) : ReadsBack (.simple n x) := by
  refine .of_rows (fun _ => []) hx.toRowText (by rw [hx.kind]; rfl) (fun _ => rfl) ?_
  intro fuel depth line next rest _ _
  refine ⟨.simple line x, ?_, rfl⟩
  rw [readStatement, hx.kind_standing]
  exact congrArg (fun ss => Except.ok (ss, rest)) hx.simples

theorem readsBack_marker (n : Nat) : ReadsBack (.marker n) := by
  have hx := simpleText_markerText n
  refine .of_rows (fun _ => []) hx.toRowText (by rw [hx.kind]; rfl) (fun _ => rfl) ?_
  intro fuel depth line next rest _ _
  refine ⟨.simple line (markerText n), ?_, rfl⟩
  rw [readStatement, hx.kind_standing]
  exact congrArg (fun ss => Except.ok (ss, rest)) hx.simples

/-- A branch is read part by part if no `elif` clause follows its body. -/
theorem readBranch_of_parts {lines between : List LogicalLine}
    (hbody : readBody fuel indent l "if" [] lines = .ok (body, between))
    (hnext : First (fun l => ¬(l.indent = indent ∧ l.kind = .elifClause)) between)
    (horelse : readClause fuel indent .elseClause "else" between = .ok (orelse, rest)) :
    readBranch (fuel + 1) indent l header [] lines =
      .ok (.branch l.line header body orelse, rest) := by
  rw [readBranch, hbody]
  cases between with
  | nil =>
    rw [readClause_absent _ fun l hl => absurd hl (by simp)] at horelse
    cases horelse
    rfl
  | cons next others =>
    dsimp only [bind, Except.bind]
    rw [if_neg (hnext next rfl), horelse]
    rfl

theorem readsBack_branch (n : Nat) (hheader : HeaderText (OfKind .branch) header)
    (hne : body ≠ []) (hwell : AllWellFormed body) (hbody : AllReadBack body)
    (hwell' : AllWellFormed orelse) (horelse : AllReadBack orelse) :
    ReadsBack (.branch n header body orelse) := by
  refine .of_rows (fun depth => writtenAll (depth + 1) body ++
    optionalRows depth "else:".toList orelse) hheader.toRowText (hheader.continues rfl)
    (fun _ => rfl) ?_
  intro fuel depth line next rest hfuel hrest
  rw [List.length_append] at hfuel
  obtain ⟨fuel, rfl⟩ : ∃ k, fuel = k + 1 := ⟨fuel - 1, by omega⟩
  have hkind : (standing line (4 * depth) header).kind = .branch := hheader.sort
  have helse := first_placed_optionalRows headerText_else orelse depth
    (lineBehind next (writtenAll (depth + 1) body))
  have hin : First (fun l => l.indent ≤ 4 * depth) rest := hrest.mono fun _ => Outer.indent_le
  obtain ⟨body', hread, hsame⟩ := readBody_written hne hwell hbody fuel depth next
    (standing line (4 * depth) header) "if" (by omega)
    ((helse.mono fun _ h => Nat.le_of_eq h.1).append hin)
  obtain ⟨orelse', hread', hsame'⟩ := readClause_written headerText_else hwell' horelse
    fuel depth (lineBehind next (writtenAll (depth + 1) body)) "else" (by omega) hin
    (hrest.mono fun _ h => h.not_clause rfl)
  -- an `else` part is never written as an `elif` clause
  have hnext := (helse.mono fun l h => (fun hc => by rw [h.2] at hc; cases hc.2 :
    ¬(l.indent = 4 * depth ∧ l.kind = .elifClause))).append
    (hrest.mono fun _ h => h.not_clause rfl)
  refine ⟨.branch line header body' orelse', ?_, ?_⟩
  · rw [readStatement, hkind, placed_append, List.append_assoc]
    dsimp only
    rw [hheader.split "if"]
    dsimp only [bind, Except.bind]
    rw [readBranch_of_parts hread hnext hread']
    rfl
  · rw [rebuilt, rebuilt, ← unnumbered, ← unnumbered, hsame, hsame']
    rfl

theorem readsBack_loop (n : Nat) (hheader : HeaderText (OfKind .loop) header)
    (hne : body ≠ []) (hwell : AllWellFormed body) (hbody : AllReadBack body)
    (hwell' : AllWellFormed orelse) (horelse : AllReadBack orelse) :
    ReadsBack (.loop n header body orelse) := by
  refine .of_rows (fun depth => writtenAll (depth + 1) body ++
    optionalRows depth "else:".toList orelse) hheader.toRowText (hheader.continues rfl)
    (fun _ => rfl) ?_
  intro fuel depth line next rest hfuel hrest
  rw [List.length_append] at hfuel
  have hkind : (standing line (4 * depth) header).kind = .loop := hheader.sort
  have helse := first_placed_optionalRows headerText_else orelse depth
    (lineBehind next (writtenAll (depth + 1) body))
  have hin : First (fun l => l.indent ≤ 4 * depth) rest := hrest.mono fun _ => Outer.indent_le
  obtain ⟨body', hread, hsame⟩ := readBody_written hne hwell hbody fuel depth next
    (standing line (4 * depth) header) (loopKeyword (standing line (4 * depth) header)) (by omega)
    ((helse.mono fun _ h => Nat.le_of_eq h.1).append hin)
  obtain ⟨orelse', hread', hsame'⟩ := readClause_written headerText_else hwell' horelse
    fuel depth (lineBehind next (writtenAll (depth + 1) body)) "else" (by omega) hin
    (hrest.mono fun _ h => h.not_clause rfl)
  refine ⟨.loop line header body' orelse', ?_, ?_⟩
  · rw [readStatement, hkind, placed_append, List.append_assoc]
    dsimp only
    rw [hheader.split]
    dsimp only [bind, Except.bind]
    rw [hread]
    dsimp only
    rw [hread']
    rfl
  · rw [rebuilt, rebuilt, ← unnumbered, ← unnumbered, hsame, hsame']
    rfl

theorem readsBack_scope (n : Nat) (hheader : HeaderText (OfKind .scope) header)
    (hne : body ≠ []) (hwell : AllWellFormed body) (hbody : AllReadBack body) :
    ReadsBack (.scope n header body) := by
  refine .of_rows (fun depth => writtenAll (depth + 1) body) hheader.toRowText
    (hheader.continues rfl) (fun _ => rfl) ?_
  intro fuel depth line next rest hfuel hrest
  have hkind : (standing line (4 * depth) header).kind = .scope := hheader.sort
  obtain ⟨body', hread, hsame⟩ := readBody_written hne hwell hbody fuel depth next
    (standing line (4 * depth) header) "with" (by omega) (hrest.mono fun _ => Outer.indent_le)
  refine ⟨.scope line header body', ?_, ?_⟩
  · rw [readStatement, hkind]
    dsimp only
    rw [hheader.split]
    dsimp only [bind, Except.bind]
    rw [hread]
    rfl
  · rw [rebuilt, rebuilt, ← unnumbered, hsame]
    rfl

/-- Decorators are read up to the definition. -/
theorem spanDecorators_written (decorators : List (List Char))
    (hdecorators : ∀ x ∈ decorators, DecoratorText x)
    (hrest : First (fun l => ¬(l.indent = 4 * depth ∧ l.kind = .decorator)) rest) :
    spanDecorators (4 * depth) (placed line (decorators.map (indented depth)) ++ rest) =
      (decorators, rest) := by
  induction decorators generalizing line with
  | nil =>
    cases rest with
    | nil => rfl
    | cons r rest =>
      rw [List.map_nil, placed, List.nil_append, spanDecorators, if_neg (hrest r rfl)]
  | cons x decorators ih =>
    have hx := hdecorators x List.mem_cons_self
    rw [List.map_cons, placed_cons hx.toRowText, List.cons_append, spanDecorators,
      if_pos ⟨rfl, hx.kind_standing _ _⟩, ih fun y hy => hdecorators y (List.mem_cons_of_mem x hy),
      hx.text_standing]

/-- A definition is read from its header on. -/
theorem readDefine_written (hheader : HeaderText (OfKind .define) header)
    (hne : body ≠ []) (hwell : AllWellFormed body) (hbody : AllReadBack body)
    (decorators : List (List Char)) (fuel depth line next : Nat)
    (hfuel : 4 * (writtenAll (depth + 1) body).length + 3 ≤ fuel)
    (hrest : First (Outer (4 * depth)) rest) :
    ∃ body', readDefine fuel (4 * depth) (standing line (4 * depth) header) decorators
        (placed next (writtenAll (depth + 1) body) ++ rest) =
          .ok (.define line decorators header body', rest) ∧
      unnumbered body' = spelled body := by
  obtain ⟨fuel, rfl⟩ : ∃ k, fuel = k + 1 := ⟨fuel - 1, by omega⟩
  obtain ⟨body', hread, hsame⟩ := readBody_written hne hwell hbody fuel depth next
    (standing line (4 * depth) header) (defineKeyword (standing line (4 * depth) header))
    (by omega) (hrest.mono fun _ => Outer.indent_le)
  refine ⟨body', ?_, hsame⟩
  rw [readDefine, hheader.split]
  dsimp only [bind, Except.bind]
  rw [hread]
  rfl

theorem readsBack_define (n : Nat) (decorators : List (List Char))
    (hdecorators : ∀ x ∈ decorators, DecoratorText x)
    (hheader : HeaderText (OfKind .define) header)
    (hne : body ≠ []) (hwell : AllWellFormed body) (hbody : AllReadBack body) :
    ReadsBack (.define n decorators header body) := by
  have hkind : ∀ line depth, (standing line (4 * depth) header).kind = .define :=
    fun _ _ => hheader.sort
  have hrebuilt : ∀ line body', unnumbered body' = spelled body →
      rebuilt marker (.define line decorators header body') =
        rebuilt asSimple (.define n decorators header body) := by
    intro line body' hsame
    rw [rebuilt, rebuilt, ← unnumbered, hsame]
    rfl
  cases decorators with
  | nil =>
    refine .of_rows (fun depth => writtenAll (depth + 1) body) hheader.toRowText
      (hheader.continues rfl) (fun _ => rfl) ?_
    intro fuel depth line next rest hfuel hrest
    obtain ⟨body', hread, hsame⟩ := readDefine_written hheader hne hwell hbody []
      fuel depth line next hfuel hrest
    refine ⟨.define line [] header body', ?_, hrebuilt line body' hsame⟩
    rw [readStatement, hkind]
    dsimp only [bind, Except.bind]
    rw [hread]
    rfl
  -- with decorators the statement begins at the first of them
  | cons x decorators =>
    have hx := hdecorators x List.mem_cons_self
    refine .of_rows (fun depth => decorators.map (indented depth) ++
      indented depth header :: writtenAll (depth + 1) body) hx.toRowText ?_ (fun _ => rfl) ?_
    · have hdecorator : (alone x).kind = .decorator := hx.kind_standing 0 0
      rw [hdecorator]
      rfl
    intro fuel depth line next rest hfuel hrest
    rw [List.length_append, List.length_cons] at hfuel
    obtain ⟨body', hread, hsame⟩ := readDefine_written hheader hne hwell hbody
      (x :: decorators) fuel depth (lineBehind next (decorators.map (indented depth)))
      (lineBehind next (decorators.map (indented depth)) +
        Text.breaks (indented depth header) + 1) (by omega) hrest
    refine ⟨.define (lineBehind next (decorators.map (indented depth))) (x :: decorators) header
      body', ?_, hrebuilt _ body' hsame⟩
    rw [readStatement, hx.kind_standing, placed_append, List.append_assoc,
      placed_cons hheader.toRowText, List.cons_append]
    dsimp only
    rw [spanDecorators_written decorators
      (fun y hy => hdecorators y (List.mem_cons_of_mem x hy))
      (fun l hl => by
        cases hl
        rw [hkind]
        simp)]
    dsimp only
    rw [if_pos ⟨rfl, hkind _ depth⟩, hx.text_standing]
    dsimp only [bind, Except.bind]
    rw [hread]
    rfl

variable {clauses handlers : List Clause}

theorem handlersReadBack_nil : HandlersReadBack [] := by
  intro fuel depth line rest _ _ hrest
  refine ⟨[], ?_, rfl⟩
  rw [writtenClauses, placed, List.nil_append]
  cases fuel with
  | zero => rw [readHandlers]
  | succ fuel =>
    cases rest with
    | nil => rw [readHandlers]
    | cons r rest => rw [readHandlers, if_neg (hrest r rfl)]

/-- The first row of clauses is a header. -/
theorem first_placed_clauses {sort : LogicalLine → Prop} (hclauses : ClausesWellFormed sort clauses)
    (depth line : Nat) :
    First (fun l => l.indent = 4 * depth) (placed line (writtenClauses depth clauses)) := by
  cases clauses with
  | nil => exact fun l hl => absurd hl (by simp [writtenClauses, placed])
  | cons clause rest =>
    obtain ⟨n, header, body⟩ := clause
    rw [writtenClauses, List.cons_append, placed_cons hclauses.1.toRowText]
    intro l hl
    cases hl
    rfl

theorem handlersReadBack_cons (n : Nat) (hheader : HeaderText (OfKind .exceptClause) header)
    (hne : body ≠ []) (hwell : AllWellFormed body) (hbody : AllReadBack body)
    (hclauses : ClausesWellFormed (OfKind .exceptClause) clauses)
    (hrestBack : HandlersReadBack clauses) : HandlersReadBack (.mk n header body :: clauses) := by
  intro fuel depth line rest hfuel hin hrest
  rw [writtenClauses, List.cons_append, List.length_cons, List.length_append] at hfuel
  obtain ⟨fuel, rfl⟩ : ∃ k, fuel = k + 1 := ⟨fuel - 1, by omega⟩
  have hfirst := first_placed_clauses hclauses depth
    (lineBehind (line + Text.breaks (indented depth header) + 1) (writtenAll (depth + 1) body))
  obtain ⟨body', hread, hsame⟩ := readBody_written hne hwell hbody fuel depth
    (line + Text.breaks (indented depth header) + 1) (standing line (4 * depth) header) "except"
    (by omega) ((hfirst.mono fun _ h => Nat.le_of_eq h).append hin)
  obtain ⟨clauses', hread', hsame'⟩ := hrestBack fuel depth
    (lineBehind (line + Text.breaks (indented depth header) + 1) (writtenAll (depth + 1) body)) rest
    (by omega) hin hrest
  refine ⟨.mk line header body' :: clauses', ?_, ?_⟩
  · rw [writtenClauses, List.cons_append, placed_cons hheader.toRowText, placed_append,
      List.cons_append, List.append_assoc, readHandlers, if_pos ⟨rfl, hheader.sort⟩, hheader.split]
    dsimp only [bind, Except.bind]
    rw [hread]
    dsimp only
    rw [hread']
    rfl
  · rw [rebuiltClauses, rebuiltClauses, ← unnumbered, hsame, hsame']
    rfl

theorem isEmpty_of_unnumbered {ss' : List Stmt} (h : unnumbered ss' = spelled ss) :
    ss'.isEmpty = ss.isEmpty := by
  cases ss' <;> cases ss
  · rfl
  · cases h
  · cases h
  · rfl

theorem isEmpty_of_rebuiltClauses {clauses' : List Clause}
    (h : rebuiltClauses marker clauses' = rebuiltClauses asSimple clauses) :
    clauses'.isEmpty = clauses.isEmpty := by
  rcases clauses' with _ | ⟨⟨n', header', body'⟩, rest'⟩ <;>
    rcases clauses with _ | ⟨⟨n, header, body⟩, rest⟩
  · rfl
  · rw [rebuiltClauses, rebuiltClauses] at h
    cases h
  · rw [rebuiltClauses, rebuiltClauses] at h
    cases h
  · rfl

theorem readsBack_attempt (n : Nat) (hne : body ≠ []) (hhandled : handlers ≠ [] ∨ final ≠ [])
    (hwell : AllWellFormed body) (hbody : AllReadBack body)
    (hclauses : ClausesWellFormed (OfKind .exceptClause) handlers)
    (hhandlers : HandlersReadBack handlers) (hwell' : AllWellFormed orelse)
    (horelse : AllReadBack orelse) (hwell'' : AllWellFormed final) (hfinal : AllReadBack final) :
    ReadsBack (.attempt n body handlers orelse final) := by
  refine .of_rows (fun depth => writtenAll (depth + 1) body ++
    (writtenClauses depth handlers ++ (optionalRows depth "else:".toList orelse ++
      optionalRows depth "finally:".toList final))) headerText_try.toRowText
    (headerText_try.continues rfl) (fun depth => ?_) ?_
  · rw [written]
    simp only [List.cons_append, List.append_assoc, optionalRows]
  intro fuel depth line next rest hfuel hrest
  simp only [List.length_append] at hfuel
  have hkind : (standing line (4 * depth) "try:".toList).kind = .attempt := headerText_try.sort
  have hhandler := first_placed_clauses hclauses depth
    (lineBehind next (writtenAll (depth + 1) body))
  have helse := first_placed_optionalRows headerText_else orelse depth
    (lineBehind (lineBehind next (writtenAll (depth + 1) body)) (writtenClauses depth handlers))
  have hfinally := first_placed_optionalRows headerText_finally final depth
    (lineBehind (lineBehind (lineBehind next (writtenAll (depth + 1) body))
      (writtenClauses depth handlers)) (optionalRows depth "else:".toList orelse))
  -- what stands behind each part is no deeper, and does not go on with the part
  have hin := hrest.mono fun _ => Outer.indent_le
  have hin₁ := (hfinally.mono fun _ h => Nat.le_of_eq h.1).append hin
  have hin₂ := (helse.mono fun _ h => Nat.le_of_eq h.1).append hin₁
  have hin₃ := (hhandler.mono fun _ h => Nat.le_of_eq h).append hin₂
  -- a clause of one kind is none of another
  have hnot : ∀ {kind kind' : LineKind} {l : LogicalLine}, kind' ≠ kind →
      l.indent = 4 * depth ∧ l.kind = kind → ¬(l.indent = 4 * depth ∧ l.kind = kind') :=
    fun hne h h' => hne (h'.2.symm.trans h.2)
  have hnoExcept : First (fun l => ¬(l.indent = 4 * depth ∧ l.kind = .exceptClause)) _ :=
    (helse.mono fun _ => hnot (by decide)).append
      ((hfinally.mono fun _ => hnot (by decide)).append (hrest.mono fun _ h => h.not_clause rfl))
  have hnoElse : First (fun l => ¬(l.indent = 4 * depth ∧ l.kind = .elseClause)) _ :=
    (hfinally.mono fun _ => hnot (by decide)).append (hrest.mono fun _ h => h.not_clause rfl)
  obtain ⟨body', hread, hsame⟩ := readBody_written hne hwell hbody fuel depth next
    (standing line (4 * depth) "try:".toList) "try" (by omega) hin₃
  obtain ⟨handlers', hread₁, hsame₁⟩ := hhandlers fuel depth
    (lineBehind next (writtenAll (depth + 1) body)) _ (by omega) hin₂ hnoExcept
  obtain ⟨orelse', hread₂, hsame₂⟩ := readClause_written headerText_else hwell' horelse
    fuel depth (lineBehind (lineBehind next (writtenAll (depth + 1) body))
      (writtenClauses depth handlers)) "else" (by omega) hin₁ hnoElse
  obtain ⟨final', hread₃, hsame₃⟩ := readClause_written headerText_finally hwell'' hfinal
    fuel depth (lineBehind (lineBehind (lineBehind next (writtenAll (depth + 1) body))
      (writtenClauses depth handlers)) (optionalRows depth "else:".toList orelse)) "finally"
    (by omega) hin (hrest.mono fun _ h => h.not_clause rfl)
  -- the statement is not refused for want of a handler
  have hwhole : (handlers'.isEmpty && final'.isEmpty) = false := by
    rw [isEmpty_of_rebuiltClauses hsame₁, isEmpty_of_unnumbered hsame₃]
    rcases hhandled with h | h
    · simp [h]
    · simp [h]
  refine ⟨.attempt line body' handlers' orelse' final', ?_, ?_⟩
  · rw [readStatement, hkind, placed_append, placed_append, placed_append]
    simp only [List.append_assoc]
    rw [headerText_try.split]
    dsimp only [bind, Except.bind]
    rw [hread]
    dsimp only
    rw [hread₁]
    dsimp only
    rw [hread₂]
    dsimp only
    rw [hread₃]
    dsimp only
    rw [hwhole]
    rfl
  · rw [rebuilt, rebuilt, ← unnumbered, ← unnumbered, ← unnumbered, hsame, hsame₁, hsame₂, hsame₃]
    rfl

theorem casesReadBack_nil : CasesReadBack [] := by
  intro fuel depth line rest _ hrest
  refine ⟨[], ?_, rfl⟩
  rw [writtenClauses, placed, List.nil_append]
  cases fuel with
  | zero => rw [readCases]
  | succ fuel =>
    cases rest with
    | nil => rw [readCases]
    | cons r rest => rw [readCases, if_pos (hrest r rfl)]

theorem casesReadBack_cons (n : Nat) (hheader : HeaderText OfCase header)
    (hne : body ≠ []) (hwell : AllWellFormed body) (hbody : AllReadBack body)
    (hclauses : ClausesWellFormed OfCase clauses) (hrestBack : CasesReadBack clauses) :
    CasesReadBack (.mk n header body :: clauses) := by
  intro fuel depth line rest hfuel hrest
  rw [writtenClauses, List.cons_append, List.length_cons, List.length_append] at hfuel
  obtain ⟨fuel, rfl⟩ : ∃ k, fuel = k + 1 := ⟨fuel - 1, by omega⟩
  have hcase : (standing line (4 * depth) header).isCase = true := hheader.sort
  have hindent : (standing line (4 * depth) header).indent = 4 * depth := rfl
  -- behind the body stands the next case or what follows the block, neither further in
  have hfirst := first_placed_clauses hclauses depth
    (lineBehind (line + Text.breaks (indented depth header) + 1) (writtenAll (depth + 1) body))
  obtain ⟨body', hread, hsame⟩ := readBody_written hne hwell hbody fuel depth
    (line + Text.breaks (indented depth header) + 1) (standing line (4 * depth) header) "case"
    (by omega) ((hfirst.mono fun _ h => Nat.le_of_eq h).append
      (hrest.mono fun _ h => Nat.le_of_lt h))
  obtain ⟨clauses', hread', hsame'⟩ := hrestBack fuel depth
    (lineBehind (line + Text.breaks (indented depth header) + 1) (writtenAll (depth + 1) body)) rest
    (by omega) hrest
  refine ⟨.mk line header body' :: clauses', ?_, ?_⟩
  · rw [writtenClauses, List.cons_append, placed_cons hheader.toRowText, placed_append,
      List.cons_append, List.append_assoc, readCases, hindent, if_neg (Nat.lt_irrefl _),
      if_neg (Nat.lt_irrefl _), hcase, if_neg (by simp), hheader.split]
    dsimp only [bind, Except.bind]
    rw [hread]
    dsimp only
    rw [hread']
    rfl
  · rw [rebuiltClauses, rebuiltClauses, ← unnumbered, hsame, hsame']
    rfl

theorem readsBack_choose (n : Nat) (hheader : HeaderText (OfKind .choose) header)
    (hne : clauses ≠ []) (hclauses : ClausesWellFormed OfCase clauses)
    (hcases : CasesReadBack clauses) : ReadsBack (.choose n header clauses) := by
  refine .of_rows (fun depth => writtenClauses (depth + 1) clauses) hheader.toRowText
    (hheader.continues rfl) (fun _ => rfl) ?_
  intro fuel depth line next rest hfuel hrest
  have hkind : (standing line (4 * depth) header).kind = .choose := hheader.sort
  obtain ⟨clauses', hread, hsame⟩ := hcases fuel (depth + 1) next rest (by omega)
    (hrest.mono fun l hl => by have := hl.indent_le; omega)
  have hfirst := first_placed_clauses hclauses (depth + 1) next
  refine ⟨.choose line header clauses', ?_, ?_⟩
  · cases hplaced : placed next (writtenClauses (depth + 1) clauses) with
    | nil =>
      -- a `match` statement has a case, so a line follows its own
      obtain ⟨⟨m, caseHeader, body⟩, more, rfl⟩ := List.exists_cons_of_ne_nil hne
      rw [writtenClauses, List.cons_append, placed_cons hclauses.1.toRowText] at hplaced
      cases hplaced
    | cons first more =>
      rw [hplaced] at hread hfirst
      have hindent : first.indent = 4 * (depth + 1) := hfirst first rfl
      have hdedent : checkDedent (4 * depth) (4 * (depth + 1)) rest = .ok () :=
        checkDedent_eq_ok _ (hrest.mono fun _ => Outer.indent_le)
      rw [List.cons_append] at hread ⊢
      rw [readStatement, hkind]
      dsimp only
      rw [hheader.split]
      dsimp only [bind, Except.bind]
      rw [if_pos (by omega), hindent, hread]
      dsimp only
      rw [hdedent]
      rfl
  · rw [rebuilt, rebuilt, hsame]

/-! ## Whole programs -/

theorem allReadBack_nil : AllReadBack [] := by
  intro fuel depth line rest _ hrest
  refine ⟨[], ?_, rfl⟩
  rw [writtenAll, placed, List.nil_append]
  cases fuel with
  | zero => rw [readSuite]
  | succ fuel =>
    cases rest with
    | nil => rw [readSuite]
    | cons r rest => rw [readSuite, if_pos (hrest r rfl)]

theorem allReadBack_cons {s : Stmt} (hs : ReadsBack s) (hwell : AllWellFormed ss)
    (hss : AllReadBack ss) : AllReadBack (s :: ss) := by
  intro fuel depth line rest hfuel hrest
  rw [writtenAll, List.length_append] at hfuel
  obtain ⟨fuel, rfl⟩ : ∃ k, fuel = k + 1 := ⟨fuel - 1, by omega⟩
  have hfirst := first_placed_writtenAll hwell depth (lineBehind line (written depth s))
  obtain ⟨l, ls, s', hplaced, hindent, hkind, hread, hsame⟩ := hs fuel depth line
    (placed (lineBehind line (written depth s)) (writtenAll depth ss) ++ rest) (by omega)
    ((hfirst.mono fun _ h => Or.inr h).append (hrest.mono fun _ h => Or.inl h))
  -- each statement takes a row, and four units of fuel with it
  have hpos : 0 < (written depth s).length := by
    rw [← length_placed line, hplaced]
    simp
  obtain ⟨ss', hread', hsame'⟩ := hss fuel depth (lineBehind line (written depth s)) rest
    (by omega) hrest
  refine ⟨s' :: ss', ?_, ?_⟩
  · rw [writtenAll, placed_append, hplaced, List.cons_append, List.cons_append, List.append_assoc,
      readSuite, hindent, if_neg (Nat.lt_irrefl _), if_neg (Nat.lt_irrefl _)]
    dsimp only [bind, Except.bind]
    rw [hread]
    dsimp only
    rw [hread']
    rfl
  · rw [unnumbered, spelled, rebuiltAll, rebuiltAll, hsame, ← unnumbered, hsame']
    rfl

mutual

/-- A well-formed statement reads back. -/
theorem readsBack_of_wellFormed : (s : Stmt) → s.WellFormed → ReadsBack s
  | .simple n _, hs => readsBack_simple n hs
  | .marker n, _ => readsBack_marker n
  | .branch n _ body orelse, ⟨hheader, hne, hbody, horelse⟩ =>
    readsBack_branch n hheader hne hbody (allReadBack_of_wellFormed body hbody) horelse
      (allReadBack_of_wellFormed orelse horelse)
  | .loop n _ body orelse, ⟨hheader, hne, hbody, horelse⟩ =>
    readsBack_loop n hheader hne hbody (allReadBack_of_wellFormed body hbody) horelse
      (allReadBack_of_wellFormed orelse horelse)
  | .attempt n body handlers orelse final,
      ⟨hne, hhandled, hbody, hhandlers, horelse, hfinal⟩ =>
    readsBack_attempt n hne hhandled hbody (allReadBack_of_wellFormed body hbody) hhandlers
      (handlersReadBack_of_wellFormed handlers hhandlers) horelse
      (allReadBack_of_wellFormed orelse horelse) hfinal (allReadBack_of_wellFormed final hfinal)
  | .scope n _ body, ⟨hheader, hne, hbody⟩ =>
    readsBack_scope n hheader hne hbody (allReadBack_of_wellFormed body hbody)
  | .define n decorators _ body, ⟨hdecorators, hheader, hne, hbody⟩ =>
    readsBack_define n decorators hdecorators hheader hne hbody
      (allReadBack_of_wellFormed body hbody)
  | .choose n _ cases, ⟨hheader, hne, hcases⟩ =>
    readsBack_choose n hheader hne hcases (casesReadBack_of_wellFormed cases hcases)

theorem allReadBack_of_wellFormed : (ss : List Stmt) → AllWellFormed ss → AllReadBack ss
  | [], _ => allReadBack_nil
  | s :: rest, ⟨hs, hrest⟩ =>
    allReadBack_cons (readsBack_of_wellFormed s hs) hrest (allReadBack_of_wellFormed rest hrest)

theorem handlersReadBack_of_wellFormed : (clauses : List Clause) →
    ClausesWellFormed (OfKind .exceptClause) clauses → HandlersReadBack clauses
  | [], _ => handlersReadBack_nil
  | .mk n _ body :: rest, ⟨hheader, hne, hbody, hrest⟩ =>
    handlersReadBack_cons n hheader hne hbody (allReadBack_of_wellFormed body hbody) hrest
      (handlersReadBack_of_wellFormed rest hrest)

theorem casesReadBack_of_wellFormed : (clauses : List Clause) →
    ClausesWellFormed OfCase clauses → CasesReadBack clauses
  | [], _ => casesReadBack_nil
  | .mk n _ body :: rest, ⟨hheader, hne, hbody, hrest⟩ =>
    casesReadBack_cons n hheader hne hbody (allReadBack_of_wellFormed body hbody) hrest
      (casesReadBack_of_wellFormed rest hrest)

end

/-- The rows of a well-formed program are read as the program, up to line numbers and with its
markers as simple statements. -/
theorem parse_written (program : List Stmt) (h : AllWellFormed program) :
    ∃ program', parse (Text.joinLines (writtenAll 0 program)) = .ok program' ∧
      unnumbered program' = spelled program := by
  obtain ⟨program', hread, hsame⟩ := allReadBack_of_wellFormed program h
    (4 * (placed 1 (writtenAll 0 program)).length + 4) 0 1 []
    (by rw [length_placed]; omega) (fun l hl => absurd hl (by simp))
  refine ⟨program', ?_, hsame⟩
  rw [List.append_nil] at hread
  rw [parse, tokenize_rows _ (isRow_of_mem_writtenAll program h 0)]
  show parseLines (placed 1 (writtenAll 0 program)) = .ok program'
  rw [parseLines_eq, hread]
  rfl

/-- A well-formed program that is written and read again is the same up to line numbers, its
markers simple statements. -/
theorem parse_render (program : List Stmt) (h : AllWellFormed program) :
    ∃ program', parse (render program) = .ok program' ∧
      unnumbered program' = spelled program :=
  parse_written program h

/-- A program with every constructor. -/
def sampler : List Stmt :=
  [.define 1 ["@cache".toList] "def f(x):".toList
    [.choose 2 "match x:".toList
      [.mk 3 "case [1, y]:".toList [.marker 4, .simple 4 "return 1".toList],
       .mk 5 "case _:".toList [.simple 5 "pass".toList]]],
   .attempt 6
    [.loop 7 "for i in y:".toList
      [.branch 8 "if i:".toList [.simple 8 "f(i)".toList]
        [.branch 9 "if not i:".toList [.marker 10] [.simple 11 "g(i,\n  2)".toList]]]
      [.marker 12]]
    [.mk 13 "except E:".toList [.scope 14 "with z:".toList [.simple 14 "h()".toList]]]
    [.simple 15 "k()".toList] [.simple 16 "l()".toList]]

theorem parse_render_sampler : AllWellFormed sampler ∧
    ∃ program', parse (render sampler) = .ok program' ∧ unnumbered program' = spelled sampler := by
  have hwell : AllWellFormed sampler := by decide +kernel
  exact ⟨hwell, parse_render sampler hwell⟩

/-- That a simple statement does not begin with white space is no part of being a logical line: a
no-break space there is lost. -/
theorem parse_render_leading_blank :
    ¬∀ x, RowText x → (alone x).semicolons = [] → (alone x).kind = .simple →
      ∃ program', parse (render [.simple 1 x]) = .ok program' ∧
        unnumbered program' = spelled [.simple 1 x] := by
  intro h
  obtain ⟨program', hparse, hsame⟩ := h ['\u00a0', 'x'] (by decide +kernel) (by decide +kernel)
    (by decide +kernel)
  -- the line keeps the space, but the statement that is cut out of it does not
  have htokens : tokenize (render [.simple 1 ['\u00a0', 'x']]) = .ok [alone ['\u00a0', 'x']] := by
    decide +kernel
  have hkind : (alone ['\u00a0', 'x']).kind = .simple := by decide +kernel
  have hpieces : (alone ['\u00a0', 'x']).pieces 0 = [['x']] := by decide +kernel
  have hplace : (alone ['\u00a0', 'x']).indent = 0 := by decide +kernel
  have hread : parse (render [.simple 1 ['\u00a0', 'x']]) =
      .ok [.simple (alone ['\u00a0', 'x']).line ['x']] := by
    rw [parse, htokens]
    simp [bind, Except.bind, parseLines, hplace, readSuite, readStatement, hkind,
      LogicalLine.simples, hpieces, pure, Except.pure, Except.map]
  rw [hread] at hparse
  cases hparse
  exact absurd hsame (by simp [unnumbered, spelled, rebuiltAll, rebuilt])

end StepTrace.Python
