import StepTrace.Proofs.Python.Rows
import StepTrace.Python.Stmt.Reader

/-!
# Well-formed statement trees

A tree is well-formed if every body has statements and every text is one logical line that begins
what its place in the tree asks for. `isRow_of_mem_written` says that a well-formed tree is written
in rows. The marker statements of a tree are written as simple statements; `rebuilt` compares trees
up to that and up to line numbers.
-/

set_option autoImplicit false

namespace StepTrace.Python

/-! ## Texts -/

/-- The text of a simple statement. -/
structure SimpleText (x : List Char) : Prop extends RowText x where
  semicolons : (alone x).semicolons = []
  kind : (alone x).kind = .simple
  noBlank : ∀ c ∈ x.head?, Text.isBlank c = false

/-- The header of a clause: a line of some sort of which the first colon is the last character. -/
structure HeaderText (sort : LogicalLine → Prop) (x : List Char) : Prop extends RowText x where
  sort : sort (alone x)
  colon : (alone x).headerColon? = some (Text.byteSize x - 1)

/-- The text of a decorator. -/
structure DecoratorText (x : List Char) : Prop extends RowText x where
  sign : x.head? = some '@'

/-- A line that begins something of a kind. -/
abbrev OfKind (kind : LineKind) (l : LogicalLine) : Prop := l.kind = kind

/-- A line that is a case of a `match` statement. -/
abbrev OfCase (l : LogicalLine) : Prop := l.isCase = true

instance (x : List Char) (l : LogicalLine) : Decidable (OneLine x l) :=
  decidable_of_iff (tokenize x = .ok [l] ∧ l.indent = 0 ∧ l.text = x)
    ⟨fun h => ⟨h.1, h.2.1, h.2.2⟩, fun h => ⟨h.read, h.indent, h.text⟩⟩

instance (x : List Char) : Decidable (RowText x) :=
  decidable_of_iff (OneLine x (alone x) ∧ x.getLast? ≠ some '\\')
    ⟨fun h => ⟨h.1, h.2⟩, fun h => ⟨h.oneLine, h.noBackslash⟩⟩

instance (x : List Char) : Decidable (SimpleText x) :=
  decidable_of_iff (RowText x ∧ (alone x).semicolons = [] ∧ (alone x).kind = .simple ∧
      x.head?.any Text.isBlank = false)
    ⟨fun h => ⟨h.1, h.2.1, h.2.2.1, (Option.any_eq_false _ _).mp h.2.2.2⟩,
      fun h => ⟨h.toRowText, h.semicolons, h.kind, (Option.any_eq_false _ _).mpr h.noBlank⟩⟩

instance (sort : LogicalLine → Prop) [DecidablePred sort] (x : List Char) :
    Decidable (HeaderText sort x) :=
  decidable_of_iff (RowText x ∧ sort (alone x) ∧
      (alone x).headerColon? = some (Text.byteSize x - 1))
    ⟨fun h => ⟨h.1, h.2.1, h.2.2⟩, fun h => ⟨h.toRowText, h.sort, h.colon⟩⟩

instance (x : List Char) : Decidable (DecoratorText x) :=
  decidable_of_iff (RowText x ∧ x.head? = some '@')
    ⟨fun h => ⟨h.1, h.2⟩, fun h => ⟨h.toRowText, h.sign⟩⟩

theorem headerText_else : HeaderText (OfKind .elseClause) "else:".toList := by
  decide +kernel

theorem headerText_try : HeaderText (OfKind .attempt) "try:".toList := by
  decide +kernel

theorem headerText_finally : HeaderText (OfKind .finallyClause) "finally:".toList := by
  decide +kernel

/-! ## Markers as simple statements -/

/-- The line after some characters, none of which ends it; nothing if one is refused. -/
def growAll? (line : Nat) (l : OpenLine) (after : List Char) : List Char → Option OpenLine
  | [] => some l
  | c :: s =>
    if l.Ends c then none
    else
      match l.grow line c (s ++ after) with
      | .ok l => growAll? (lineAfter line c) l after s
      | .error _ => none

theorem scans_of_growAll? {line : Nat} {l l' : OpenLine} {after s : List Char}
    (h : growAll? line l after s = some l') : Scans after line l s l' := by
  induction s generalizing line l with
  | nil =>
    cases h
    exact .nil _ _
  | cons c s ih =>
    rw [growAll?] at h
    split at h
    · cases h
    · next hends =>
      split at h
      · next l₁ hgrow => exact .cons hends (grow_eq_ok_iff.mp hgrow) (ih h)
      · cases h

/-- Where the reader stands inside the string of a marker statement. -/
def inMarker (current : List Char) : OpenLine where
  line := 1
  indent := 0
  earlier := []
  current := current
  inString := false
  colons := []
  semicolons := []
  frames := [.string '\x22' false false 1, .bracket '(' 1]
  skip := 0
  comment := false

theorem scans_digits (ds after current : List Char) (h : ∀ c ∈ ds, c.isDigit = true) :
    Scans after 1 (inMarker current) ds (inMarker (ds.reverse ++ current)) := by
  induction ds generalizing current with
  | nil => exact .nil _ _
  | cons c ds ih =>
    have hc := h c List.mem_cons_self
    -- a digit means nothing in a string
    have hplain : c ≠ '\\' ∧ c ≠ '\n' ∧ c ≠ '\x22' ∧ c ≠ '\x7b' := by
      refine ⟨?_, ?_, ?_, ?_⟩ <;> rintro rfl <;> exact absurd hc (by decide)
    have hgrow : Grows (inMarker current) 1 c (ds ++ after) (inMarker (c :: current)) :=
      .string '\x22' false false 1 [.bracket '(' 1] _ rfl rfl
        (.plain hplain.1 hplain.2.1 hplain.2.2.1 fun h => hplain.2.2.2 h.1)
    have hline : lineAfter 1 c = 1 := if_neg hplain.2.1
    refine .cons (fun h => absurd h.2.1 (by simp [inMarker])) hgrow ?_
    rw [hline, List.reverse_cons, List.append_assoc]
    exact ih (c :: current) fun d hd => h d (List.mem_cons_of_mem c hd)

theorem markerText_eq (n : Nat) :
    Stmt.markerText n =
      "print(\x22##active_line".toList ++ (Text.digits n ++ "##\x22)".toList) := by
  have htext : Stmt.markerText n =
      "print(\x22".toList ++ (Marker.opening ++ Text.digits n ++ Marker.delimiter) ++
        "\x22)".toList := rfl
  have hopen : "print(\x22##active_line".toList = "print(\x22".toList ++ Marker.opening := by
    decide +kernel
  have hclose : "##\x22)".toList = Marker.delimiter ++ "\x22)".toList := by decide +kernel
  rw [htext, hopen, hclose]
  simp only [List.append_assoc]

theorem newline_not_mem_digits (n : Nat) : '\n' ∉ Text.digits n :=
  fun h => absurd (Text.isDigit_of_mem_digits h) (by decide)

theorem scans_markerText (n : Nat) : ∃ l, Scans [] 1 (.start 1 0) (Stmt.markerText n) l ∧
    l.frames = [] ∧ l.semicolons = [] ∧ l.behind = (Stmt.markerText n).reverse := by
  have hbreaks : Text.breaks (Text.digits n) = 0 :=
    List.count_eq_zero.mpr (newline_not_mem_digits n)
  -- the text falls into what opens the string, the digits, and what closes it
  have hstart : Scans (Text.digits n ++ "##\x22)".toList ++ []) 1 (.start 1 0)
      "print(\x22##active_line".toList (inMarker "enil_evitca##\x22(tnirp".toList) :=
    scans_of_growAll? (by rfl)
  have hend : Scans [] 1 (inMarker ((Text.digits n).reverse ++ "enil_evitca##\x22(tnirp".toList))
      "##\x22)".toList
      { inMarker (")\x22##".toList ++ ((Text.digits n).reverse ++ "enil_evitca##\x22(tnirp".toList))
        with frames := [] } :=
    scans_of_growAll? (by rfl)
  have hscan := hstart.append ((scans_digits (Text.digits n) ("##\x22)".toList ++ [])
    "enil_evitca##\x22(tnirp".toList fun _ => Text.isDigit_of_mem_digits).append
    (by rwa [hbreaks]))
  rw [← markerText_eq] at hscan
  refine ⟨_, hscan, rfl, rfl, ?_⟩
  rw [markerText_eq, List.reverse_append, List.reverse_append]
  exact List.append_nil _

/-- A marker statement is written as a simple statement. -/
theorem simpleText_markerText (n : Nat) : SimpleText (Stmt.markerText n) := by
  obtain ⟨l, hscan, hframes, hsemicolons, hbehind⟩ := scans_markerText n
  have hlast : (Stmt.markerText n).getLast? = some ')' := by
    rw [markerText_eq, ← List.append_assoc, List.getLast?_append_of_ne_nil _ (by decide)]
    decide +kernel
  have hcons : Stmt.markerText n = 'p' :: (Stmt.markerText n).tail := by
    rw [markerText_eq]
    rfl
  have htext : Text.trimEnd l.behind.reverse = Stmt.markerText n := by
    rw [hbehind, List.reverse_reverse]
    refine Text.trimEnd_eq_self fun c hc => ?_
    rw [hlast] at hc
    cases hc
    decide
  -- there is no line feed in it at all
  have hunified : Text.unifyBreaks (Stmt.markerText n) = Stmt.markerText n := by
    rw [Text.unifyBreaks_eq_self_iff]
    intro hinfix
    have hmem : '\n' ∈ Stmt.markerText n := hinfix.subset (by decide)
    rw [markerText_eq, List.mem_append, List.mem_append] at hmem
    rcases hmem with h | h | h
    · exact absurd h (by decide +kernel)
    · exact newline_not_mem_digits n h
    · exact absurd h (by decide +kernel)
  have hone : OneLine (Stmt.markerText n) l.finish := by
    rw [hcons] at hscan hunified htext ⊢
    exact .of_scans (by decide) hunified hscan hframes htext
  refine ⟨.of_oneLine hone (by rw [hlast]; decide), ?_, ?_, ?_⟩
  · rw [hone.eq_alone]
    exact congrArg List.reverse hsemicolons
  · -- its first word is no keyword, whatever the number
    have hkind : (alone (Stmt.markerText n)).text = Stmt.markerText n := hone.eq_alone ▸ hone.text
    rw [LogicalLine.kind, LogicalLine.firstWord, hkind, markerText_eq]
    rfl
  · rw [hcons]
    intro c hc
    cases hc
    decide

namespace Stmt

/-! ## Trees -/

mutual

/-- Whether every body of a statement has statements and every text fits its place. -/
def WellFormed : Stmt → Prop
  | simple _ text => SimpleText text
  | marker _ => True
  | branch _ header body orelse =>
    HeaderText (OfKind .branch) header ∧ body ≠ [] ∧ AllWellFormed body ∧ AllWellFormed orelse
  | loop _ header body orelse =>
    HeaderText (OfKind .loop) header ∧ body ≠ [] ∧ AllWellFormed body ∧ AllWellFormed orelse
  | attempt _ body handlers orelse final =>
    body ≠ [] ∧ (handlers ≠ [] ∨ final ≠ []) ∧ AllWellFormed body ∧
      ClausesWellFormed (OfKind .exceptClause) handlers ∧ AllWellFormed orelse ∧
      AllWellFormed final
  | scope _ header body => HeaderText (OfKind .scope) header ∧ body ≠ [] ∧ AllWellFormed body
  | define _ decorators header body =>
    (∀ x ∈ decorators, DecoratorText x) ∧ HeaderText (OfKind .define) header ∧ body ≠ [] ∧
      AllWellFormed body
  | choose _ header cases =>
    HeaderText (OfKind .choose) header ∧ cases ≠ [] ∧ ClausesWellFormed OfCase cases

/-- Whether all statements of a list are well-formed. -/
def AllWellFormed : List Stmt → Prop
  | [] => True
  | s :: rest => WellFormed s ∧ AllWellFormed rest

/-- Whether all clauses of a list are well-formed, their headers of some sort. -/
def ClausesWellFormed (sort : LogicalLine → Prop) : List Clause → Prop
  | [] => True
  | .mk _ header body :: rest =>
    HeaderText sort header ∧ body ≠ [] ∧ AllWellFormed body ∧ ClausesWellFormed sort rest

end

mutual

/-- Whether a statement is well-formed can be told. -/
def decideWellFormed : (s : Stmt) → Decidable (WellFormed s)
  | simple _ text => inferInstanceAs (Decidable (SimpleText text))
  | marker _ => isTrue trivial
  | branch _ header body orelse =>
    have := decideAllWellFormed body
    have := decideAllWellFormed orelse
    inferInstanceAs (Decidable (HeaderText (OfKind .branch) header ∧ body ≠ [] ∧
      AllWellFormed body ∧ AllWellFormed orelse))
  | loop _ header body orelse =>
    have := decideAllWellFormed body
    have := decideAllWellFormed orelse
    inferInstanceAs (Decidable (HeaderText (OfKind .loop) header ∧ body ≠ [] ∧
      AllWellFormed body ∧ AllWellFormed orelse))
  | attempt _ body handlers orelse final =>
    have := decideAllWellFormed body
    have := decideClausesWellFormed (OfKind .exceptClause) handlers
    have := decideAllWellFormed orelse
    have := decideAllWellFormed final
    inferInstanceAs (Decidable (body ≠ [] ∧ (handlers ≠ [] ∨ final ≠ []) ∧ AllWellFormed body ∧
      ClausesWellFormed (OfKind .exceptClause) handlers ∧ AllWellFormed orelse ∧
      AllWellFormed final))
  | scope _ header body =>
    have := decideAllWellFormed body
    inferInstanceAs (Decidable (HeaderText (OfKind .scope) header ∧ body ≠ [] ∧
      AllWellFormed body))
  | define _ decorators header body =>
    have := decideAllWellFormed body
    inferInstanceAs (Decidable ((∀ x ∈ decorators, DecoratorText x) ∧
      HeaderText (OfKind .define) header ∧ body ≠ [] ∧ AllWellFormed body))
  | choose _ header cases =>
    have := decideClausesWellFormed OfCase cases
    inferInstanceAs (Decidable (HeaderText (OfKind .choose) header ∧ cases ≠ [] ∧
      ClausesWellFormed OfCase cases))

/-- Whether statements are well-formed can be told. -/
def decideAllWellFormed : (ss : List Stmt) → Decidable (AllWellFormed ss)
  | [] => isTrue trivial
  | s :: rest =>
    have := decideWellFormed s
    have := decideAllWellFormed rest
    inferInstanceAs (Decidable (WellFormed s ∧ AllWellFormed rest))

/-- Whether clauses are well-formed can be told. -/
def decideClausesWellFormed (sort : LogicalLine → Prop) [DecidablePred sort] :
    (clauses : List Clause) → Decidable (ClausesWellFormed sort clauses)
  | [] => isTrue trivial
  | .mk _ header body :: rest =>
    have := decideAllWellFormed body
    have := decideClausesWellFormed sort rest
    inferInstanceAs (Decidable (HeaderText sort header ∧ body ≠ [] ∧ AllWellFormed body ∧
      ClausesWellFormed sort rest))

end

instance (ss : List Stmt) : Decidable (AllWellFormed ss) := decideAllWellFormed ss

mutual

/-- A statement without line numbers, its marker statements replaced. -/
def rebuilt (mark : Nat → Stmt) : Stmt → Stmt
  | simple _ text => simple 0 text
  | marker line => mark line
  | branch _ header body orelse => branch 0 header (rebuiltAll mark body) (rebuiltAll mark orelse)
  | loop _ header body orelse => loop 0 header (rebuiltAll mark body) (rebuiltAll mark orelse)
  | attempt _ body handlers orelse final =>
    attempt 0 (rebuiltAll mark body) (rebuiltClauses mark handlers) (rebuiltAll mark orelse)
      (rebuiltAll mark final)
  | scope _ header body => scope 0 header (rebuiltAll mark body)
  | define _ decorators header body => define 0 decorators header (rebuiltAll mark body)
  | choose _ header cases => choose 0 header (rebuiltClauses mark cases)

/-- Statements without line numbers, their marker statements replaced. -/
def rebuiltAll (mark : Nat → Stmt) : List Stmt → List Stmt
  | [] => []
  | s :: rest => rebuilt mark s :: rebuiltAll mark rest

/-- Clauses without line numbers, their marker statements replaced. -/
def rebuiltClauses (mark : Nat → Stmt) : List Clause → List Clause
  | [] => []
  | .mk _ header body :: rest => .mk 0 header (rebuiltAll mark body) :: rebuiltClauses mark rest

end

/-- Statements up to their line numbers. -/
def unnumbered (program : List Stmt) : List Stmt := rebuiltAll marker program

/-- A marker statement as the simple statement that it is written as. -/
def asSimple (line : Nat) : Stmt := simple 0 (markerText line)

/-- Statements up to their line numbers, each marker statement as a simple statement. -/
def spelled (program : List Stmt) : List Stmt := rebuiltAll asSimple program

/-! ## Well-formed trees are written in rows -/

theorem isRow_indented {x : List Char} (hx : RowText x) (depth : Nat) : IsRow (indented depth x) :=
  ⟨4 * depth, x, rfl, hx⟩

/-- The rows of a header and of what stands under it. -/
theorem isRow_of_mem_headed {header : List Char} {depth : Nat} {rows : List (List Char)}
    (hheader : RowText header) (hrows : ∀ y ∈ rows, IsRow y) :
    ∀ y ∈ indented depth header :: rows, IsRow y :=
  List.forall_mem_cons.mpr ⟨isRow_indented hheader depth, hrows⟩

/-- The rows of an optional clause. -/
theorem isRow_of_mem_optional {sort : LogicalLine → Prop} {header : List Char} {depth : Nat}
    {rows : List (List Char)} {absent : Bool} (hheader : HeaderText sort header)
    (hrows : ∀ y ∈ rows, IsRow y) :
    ∀ y ∈ (if absent then [] else indented depth header :: rows), IsRow y := by
  intro y hy
  split at hy
  · cases hy
  · exact isRow_of_mem_headed hheader.toRowText hrows y hy

mutual

/-- A well-formed statement is written in rows. -/
theorem isRow_of_mem_written : (s : Stmt) → WellFormed s → ∀ depth, ∀ y ∈ written depth s, IsRow y
  | simple _ text, hs, depth, y, hy => by
    rw [written, List.mem_singleton] at hy
    exact hy ▸ isRow_indented hs.toRowText depth
  | marker line, _, depth, y, hy => by
    rw [written, List.mem_singleton] at hy
    exact hy ▸ isRow_indented (simpleText_markerText line).toRowText depth
  | branch _ header body orelse, ⟨hheader, _, hbody, horelse⟩, depth, y, hy => by
    rw [written, List.mem_append] at hy
    rcases hy with hy | hy
    · exact isRow_of_mem_headed hheader.toRowText (isRow_of_mem_writtenAll body hbody _) y hy
    · exact isRow_of_mem_optional headerText_else (isRow_of_mem_writtenAll orelse horelse _) y hy
  | loop _ header body orelse, ⟨hheader, _, hbody, horelse⟩, depth, y, hy => by
    rw [written, List.mem_append] at hy
    rcases hy with hy | hy
    · exact isRow_of_mem_headed hheader.toRowText (isRow_of_mem_writtenAll body hbody _) y hy
    · exact isRow_of_mem_optional headerText_else (isRow_of_mem_writtenAll orelse horelse _) y hy
  | attempt _ body handlers orelse final, ⟨_, _, hbody, hhandlers, horelse, hfinal⟩, depth, y,
      hy => by
    rw [written, List.mem_append, List.mem_append, List.mem_append] at hy
    rcases hy with ((hy | hy) | hy) | hy
    · exact isRow_of_mem_headed headerText_try.toRowText (isRow_of_mem_writtenAll body hbody _) y hy
    · exact isRow_of_mem_writtenClauses handlers hhandlers _ y hy
    · exact isRow_of_mem_optional headerText_else (isRow_of_mem_writtenAll orelse horelse _) y hy
    · exact isRow_of_mem_optional headerText_finally (isRow_of_mem_writtenAll final hfinal _) y hy
  | scope _ header body, ⟨hheader, _, hbody⟩, depth, y, hy => by
    rw [written] at hy
    exact isRow_of_mem_headed hheader.toRowText (isRow_of_mem_writtenAll body hbody _) y hy
  | define _ decorators header body, ⟨hdecorators, hheader, _, hbody⟩, depth, y, hy => by
    rw [written, List.mem_append, List.mem_map] at hy
    rcases hy with ⟨x, hx, rfl⟩ | hy
    · exact isRow_indented (hdecorators x hx).toRowText depth
    · exact isRow_of_mem_headed hheader.toRowText (isRow_of_mem_writtenAll body hbody _) y hy
  | choose _ header cases, ⟨hheader, _, hcases⟩, depth, y, hy => by
    rw [written] at hy
    exact isRow_of_mem_headed hheader.toRowText (isRow_of_mem_writtenClauses cases hcases _) y hy

/-- Well-formed statements are written in rows. -/
theorem isRow_of_mem_writtenAll : (ss : List Stmt) → AllWellFormed ss →
    ∀ depth, ∀ y ∈ writtenAll depth ss, IsRow y
  | [], _, _, _, hy => by cases hy
  | s :: rest, ⟨hs, hrest⟩, depth, y, hy => by
    rw [writtenAll, List.mem_append] at hy
    rcases hy with hy | hy
    · exact isRow_of_mem_written s hs depth y hy
    · exact isRow_of_mem_writtenAll rest hrest depth y hy

/-- Well-formed clauses are written in rows. -/
theorem isRow_of_mem_writtenClauses {sort : LogicalLine → Prop} : (clauses : List Clause) →
    ClausesWellFormed sort clauses → ∀ depth, ∀ y ∈ writtenClauses depth clauses, IsRow y
  | [], _, _, _, hy => by cases hy
  | .mk _ header body :: rest, ⟨hheader, _, hbody, hrest⟩, depth, y, hy => by
    rw [writtenClauses, List.mem_append] at hy
    rcases hy with hy | hy
    · exact isRow_of_mem_headed hheader.toRowText (isRow_of_mem_writtenAll body hbody _) y hy
    · exact isRow_of_mem_writtenClauses rest hrest depth y hy

end

end Stmt

end StepTrace.Python
