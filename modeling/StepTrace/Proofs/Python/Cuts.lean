import StepTrace.Proofs.Python.Faults
import StepTrace.Proofs.Python.Offsets

/-!
# Cuts do not fail

The readers of statements cut lines at their offsets, and a cut fails beyond the end of a text,
within a character, or where it would end before it begins. `parse?` reads a source with cuts that
may fail. They never do: all cuts are made at the ends of words and at offsets, and those stand
where they should (`cutsCleanly_of_marks`), so it reads every source as `parse` does
(`offsets_of_source`).
-/

set_option autoImplicit false

namespace StepTrace.Text

/-- Whether a position stands between two characters of a text, or at one of its ends. -/
def isBoundary (n : Nat) (s : List Char) : Bool := byteSize (takeBytes n s) == n

/-- The part of a text between two of its positions. -/
def slice? (start stop : Nat) (s : List Char) : Option (List Char) :=
  if start ≤ stop ∧ isBoundary start s = true ∧ isBoundary stop s = true then
    some (sliceBytes start stop s)
  else none

variable {u v s : List Char}

theorem isBoundary_of_isPrefix (h : u <+: s) : isBoundary (byteSize u) s = true := by
  obtain ⟨v, rfl⟩ := h
  rw [isBoundary, takeBytes_byteSize, beq_self_eq_true]

theorem exists_of_isBoundary {n : Nat} (h : isBoundary n s = true) :
    ∃ u v, s = u ++ v ∧ n = byteSize u := by
  rw [isBoundary, beq_iff_eq] at h
  exact ⟨takeBytes n s, dropBytes n s, (takeBytes_append_dropBytes n s).symm, h.symm⟩

theorem le_of_isBoundary {n : Nat} (h : isBoundary n s = true) : n ≤ byteSize s := by
  obtain ⟨u, v, rfl, rfl⟩ := exists_of_isBoundary h
  rw [byteSize_append]
  exact Nat.le_add_right _ _

theorem byteSize_le_of_isPrefix (h : u <+: s) : byteSize u ≤ byteSize s :=
  le_of_isBoundary (isBoundary_of_isPrefix h)

/-- Between the ends of two of its beginnings a text can be cut. -/
theorem slice?_of_isPrefix (hu : u <+: v) (hv : v <+: s) :
    slice? (byteSize u) (byteSize v) s = some (sliceBytes (byteSize u) (byteSize v) s) :=
  if_pos ⟨byteSize_le_of_isPrefix hu, isBoundary_of_isPrefix (hu.trans hv),
    isBoundary_of_isPrefix hv⟩

theorem eq_nil_of_byteSize (h : byteSize s = 0) : s = [] := by
  cases s with
  | nil => rfl
  | cons c s =>
    have hpos := c.utf8Size_pos
    rw [byteSize] at h
    omega

/-- A cut gives the part of the text that stands between the two positions, and fails where there is
none. -/
theorem slice?_eq_some_iff {start stop : Nat} {x : List Char} :
    slice? start stop s = some x ↔
      ∃ u v, s = u ++ x ++ v ∧ start = byteSize u ∧ stop = byteSize (u ++ x) := by
  constructor
  · intro h
    rw [slice?] at h
    split at h
    · next hcut =>
      cases h
      obtain ⟨hle, hstart, hstop⟩ := hcut
      obtain ⟨u, v, hu, rfl⟩ := exists_of_isBoundary hstart
      obtain ⟨w, v', hw, rfl⟩ := exists_of_isBoundary hstop
      -- of two beginnings the one that is not greater begins the other
      obtain ⟨x, rfl⟩ : u <+: w := by
        rcases List.prefix_or_prefix_of_prefix ⟨v, hu.symm⟩ ⟨v', hw.symm⟩ with h | ⟨x, rfl⟩
        · exact h
        · rw [byteSize_append] at hle
          rw [eq_nil_of_byteSize (s := x) (by omega), List.append_nil]
      rw [hw, sliceBytes_byteSize]
      exact ⟨u, v', rfl, rfl, rfl⟩
    · cases h
  · rintro ⟨u, v, rfl, rfl, rfl⟩
    rw [slice?_of_isPrefix (List.prefix_append u x) (List.prefix_append _ v), sliceBytes_byteSize]

/-- Behind one of its beginnings a text can be cut. -/
theorem slice?_byteSize (u v : List Char) :
    slice? (byteSize u) (byteSize (u ++ v)) (u ++ v) = some v :=
  slice?_eq_some_iff.mpr ⟨u, [], (List.append_nil _).symm, rfl, rfl⟩

end StepTrace.Text

namespace StepTrace.Python

/-! ## Reading with cuts that may fail

The readers of statements once more, with every cut one that may fail. They cut where and when the
readers do: a line that is looked at for nothing but its indentation is not cut.
-/

/-- What is read, or the cause why nothing is, unless a cut fails. -/
abbrev Checked (α : Type) : Type := ExceptT SyntaxError Option α

/-- Whether a line that begins with a soft keyword opens a block. -/
def opensSoftBlock? (l : LogicalLine) (word : List Char) (inline : Bool) : Option Bool :=
  match l.headerColon? with
  | none => some false
  | some colon =>
    -- a line that goes on behind its colon is not cut, unless it may do so
    if (inline || colon + 1 == Text.byteSize l.text) = true then
      (Text.slice? (Text.byteSize word) colon l.text).map fun subject =>
        !Text.allBlank subject && !(subject.head?.any fun c => "=.,:)]\x7d".toList.contains c)
    else some false

/-- What a line that begins with a word begins. -/
def kindOfWord? (l : LogicalLine) (word : List Char) : Option LineKind :=
  if word = "match".toList then
    (opensSoftBlock? l word false).map fun opens => if opens then .choose else .simple
  else if word = "case".toList then
    (opensSoftBlock? l word false).map fun opens => if opens then .caseClause else .simple
  else some (kindOfWord l word)

namespace LogicalLine

/-- What a logical line begins. -/
def kind? (l : LogicalLine) : Option LineKind :=
  if l.text.head? = some '@' then some .decorator
  else
    let word := l.firstWord
    if word = "async".toList then
      (Text.slice? (Text.byteSize word) (Text.byteSize l.text) l.text).map fun s =>
        kindOfAsync (Text.leadingWord (Text.trimStart s))
    else kindOfWord? l word

/-- Whether a line stands at an indentation and begins what is looked for. -/
def begins? (l : LogicalLine) (indent : Nat) (kind : LineKind) : Option Bool :=
  if l.indent = indent then l.kind?.map (· == kind) else some false

/-- Whether a line inside a `match` block is a `case` clause. -/
def isCase? (l : LogicalLine) : Option Bool :=
  if l.firstWord = "case".toList then opensSoftBlock? l "case".toList true else some false

/-- The simple statements written on a line from an offset on. -/
def simples? (l : LogicalLine) (start : Nat) : Option (List Stmt) := do
  let ends := (l.semicolons.filter fun o => start ≤ o) ++ [Text.byteSize l.text]
  let starts := start :: ends.map (· + 1)
  let stretches ← (starts.zip ends).mapM fun p => Text.slice? p.1 p.2 l.text
  return ((stretches.map Text.trim).filter fun s => !s.isEmpty).map (Stmt.simple l.line)

/-- The header of a compound statement, colon included, and the statements after the colon. -/
def split? (l : LogicalLine) (keyword : String) : Checked (List Char × List Stmt) :=
  match l.headerColon? with
  | none => throw (.missingColon l.line keyword)
  | some colon => do
    let header ← Text.slice? 0 (colon + 1) l.text
    let inline ← l.simples? (colon + 1)
    return (header, inline)

end LogicalLine

/-- The header of an `elif` clause as one of an `if` statement. -/
def asBranch? (header : List Char) : Option (List Char) :=
  (Text.slice? "elif".toList.length (Text.byteSize header) header).map ("if".toList ++ ·)

namespace Checked

/-- The decorators that stand at an indentation, and the lines after them. -/
def decorators (indent : Nat) :
    List LogicalLine → Option (List (List Char) × List LogicalLine)
  | [] => some ([], [])
  | l :: rest => do
    if ← l.begins? indent .decorator then
      let (decorators, rest) ← decorators indent rest
      return (l.text :: decorators, rest)
    else return ([], l :: rest)

/-- After a block the next line has to stand at the block's indentation or not inside its owner. -/
def dedent (indent bodyIndent : Nat) (lines : List LogicalLine) : Checked Unit :=
  ExceptT.mk (some (checkDedent indent bodyIndent lines))

mutual

/-- The statements at an indentation, up to the first line that stands further out. -/
def suite : Nat → Nat → List LogicalLine → Checked (List Stmt × List LogicalLine)
  | 0, _, lines => return ([], lines)
  | _ + 1, _, [] => return ([], [])
  | fuel + 1, indent, l :: rest =>
    if l.indent < indent then return ([], l :: rest)
    else if indent < l.indent then throw (.unexpectedIndent l.line)
    else do
      let (stmts, rest) ← statement fuel indent l rest
      let (others, rest) ← suite fuel indent rest
      return (stmts ++ others, rest)

/-- The statements that a line begins. -/
def statement : Nat → Nat → LogicalLine → List LogicalLine →
    Checked (List Stmt × List LogicalLine)
  | 0, _, _, lines => return ([], lines)
  | fuel + 1, indent, l, rest => do
    match ← l.kind? with
    | .simple =>
      let stmts ← l.simples? 0
      return (stmts, rest)
    | .decorator =>
      let (decorators, rest) ← decorators indent rest
      match rest with
      | [] => throw (.danglingDecorator l.line)
      | d :: rest =>
        if ← d.begins? indent .define then
          let (s, rest) ← define fuel indent d (l.text :: decorators) rest
          return ([s], rest)
        else throw (.danglingDecorator l.line)
    | .branch =>
      let (header, inline) ← l.split? "if"
      let (s, rest) ← branch fuel indent l header inline rest
      return ([s], rest)
    | .loop =>
      let (header, inline) ← l.split? (loopKeyword l)
      let (body, rest) ← body fuel indent l (loopKeyword l) inline rest
      let (orelse, rest) ← clause fuel indent .elseClause "else" rest
      return ([.loop l.line header body orelse], rest)
    | .attempt =>
      let (_, inline) ← l.split? "try"
      let (body, rest) ← body fuel indent l "try" inline rest
      let (handlers, rest) ← handlers fuel indent rest
      let (orelse, rest) ← clause fuel indent .elseClause "else" rest
      let (final, rest) ← clause fuel indent .finallyClause "finally" rest
      if handlers.isEmpty && final.isEmpty then throw (.incompleteTry l.line)
      else return ([.attempt l.line body handlers orelse final], rest)
    | .scope =>
      let (header, inline) ← l.split? "with"
      let (body, rest) ← body fuel indent l "with" inline rest
      return ([.scope l.line header body], rest)
    | .define =>
      let (s, rest) ← define fuel indent l [] rest
      return ([s], rest)
    | .choose =>
      let (header, _) ← l.split? "match"
      match rest with
      | [] => throw (.expectedIndentedBlock l.line "match")
      | first :: others =>
        if indent < first.indent then
          let (cases, rest) ← cases fuel first.indent (first :: others)
          dedent indent first.indent rest
          return ([.choose l.line header cases], rest)
        else throw (.expectedIndentedBlock l.line "match")
    | .elifClause | .elseClause | .exceptClause | .finallyClause | .caseClause =>
      throw (.orphanClause l.line (String.ofList l.firstWord))

/-- The body of a clause. -/
def body : Nat → Nat → LogicalLine → String → List Stmt → List LogicalLine →
    Checked (List Stmt × List LogicalLine)
  | 0, _, _, _, _, lines => return ([], lines)
  | fuel + 1, indent, l, keyword, inline, rest =>
    if !inline.isEmpty then return (inline, rest)
    else
      match rest with
      | [] => throw (.expectedIndentedBlock l.line keyword)
      | first :: others =>
        if indent < first.indent then do
          let (body, rest) ← suite fuel first.indent (first :: others)
          dedent indent first.indent rest
          return (body, rest)
        else throw (.expectedIndentedBlock l.line keyword)

/-- An `if` statement whose header is read, with the clauses that belong to it. -/
def branch : Nat → Nat → LogicalLine → List Char → List Stmt → List LogicalLine →
    Checked (Stmt × List LogicalLine)
  | 0, _, l, header, _, lines => return (.branch l.line header [] [], lines)
  | fuel + 1, indent, l, header, inline, rest => do
    let (body, rest) ← body fuel indent l "if" inline rest
    match rest with
    | [] => return (.branch l.line header body [], [])
    | next :: others =>
      if ← next.begins? indent .elifClause then
        let (elifHeader, elifInline) ← next.split? "elif"
        let nested ← asBranch? elifHeader
        let (s, rest) ← branch fuel indent next nested elifInline others
        return (.branch l.line header body [s], rest)
      else
        let (orelse, rest) ← clause fuel indent .elseClause "else" (next :: others)
        return (.branch l.line header body orelse, rest)

/-- The body of a clause that may be there or not. -/
def clause : Nat → Nat → LineKind → String → List LogicalLine →
    Checked (List Stmt × List LogicalLine)
  | 0, _, _, _, lines => return ([], lines)
  | _ + 1, _, _, _, [] => return ([], [])
  | fuel + 1, indent, kind, keyword, l :: rest => do
    if ← l.begins? indent kind then
      let (_, inline) ← l.split? keyword
      body fuel indent l keyword inline rest
    else return ([], l :: rest)

/-- The handlers of a `try` statement. -/
def handlers : Nat → Nat → List LogicalLine → Checked (List Clause × List LogicalLine)
  | 0, _, lines => return ([], lines)
  | _ + 1, _, [] => return ([], [])
  | fuel + 1, indent, l :: rest => do
    if ← l.begins? indent .exceptClause then
      let (header, inline) ← l.split? "except"
      let (body, rest) ← body fuel indent l "except" inline rest
      let (others, rest) ← handlers fuel indent rest
      return (.mk l.line header body :: others, rest)
    else return ([], l :: rest)

/-- A definition with its decorators. -/
def define : Nat → Nat → LogicalLine → List (List Char) → List LogicalLine →
    Checked (Stmt × List LogicalLine)
  | 0, _, l, decorators, lines => return (.define l.line decorators [] [], lines)
  | fuel + 1, indent, l, decorators, rest => do
    let (header, inline) ← l.split? (defineKeyword l)
    let (body, rest) ← body fuel indent l (defineKeyword l) inline rest
    return (.define l.line decorators header body, rest)

/-- The cases of a `match` statement, all at one indentation. -/
def cases : Nat → Nat → List LogicalLine → Checked (List Clause × List LogicalLine)
  | 0, _, lines => return ([], lines)
  | _ + 1, _, [] => return ([], [])
  | fuel + 1, indent, l :: rest =>
    if l.indent < indent then return ([], l :: rest)
    else if indent < l.indent then throw (.unexpectedIndent l.line)
    else do
      if !(← l.isCase?) then throw (.expectedCase l.line)
      else
        let (header, inline) ← l.split? "case"
        let (body, rest) ← body fuel indent l "case" inline rest
        let (others, rest) ← cases fuel indent rest
        return (.mk l.line header body :: others, rest)

end

/-- The program that logical lines are. -/
def program (lines : List LogicalLine) : Checked (List Stmt) :=
  match lines with
  | [] => return []
  | l :: rest =>
    if 0 < l.indent then throw (.unexpectedIndent l.line)
    else do
      let (stmts, _) ← suite (4 * (l :: rest).length + 4) 0 (l :: rest)
      return stmts

end Checked

/-- The program that a source is, or the cause why it is none, unless a cut fails. -/
def parse? (source : List Char) : Option (Except SyntaxError (List Stmt)) :=
  match tokenize source with
  | .error e => some (.error e)
  | .ok lines => (Checked.program lines).run

/-! ## Cuts of a line -/

variable {t l : LogicalLine} {word : List Char} {start : Nat}

/-- Whether a reader that may fail reads what another one reads. -/
def Agrees {α : Type} (x? : Checked α) (x : Except SyntaxError α) : Prop := x?.run = some x

namespace Agrees

variable {α β : Type} {x? : Checked α} {x : Except SyntaxError α}

theorem ok (a : α) : Agrees (pure a) (.ok a) := rfl

theorem error (e : SyntaxError) : Agrees (throw e : Checked α) (.error e) := rfl

theorem bind {k? : α → Checked β} {k : α → Except SyntaxError β} (h : Agrees x? x)
    (hk : ∀ a, x = .ok a → Agrees (k? a) (k a)) : Agrees (x? >>= k?) (x >>= k) := by
  have hrun : (x? >>= k?).run = x?.run >>= ExceptT.bindCont k? := rfl
  rw [Agrees, hrun, show x?.run = some x from h]
  cases x with
  | error e => rfl
  | ok a => exact hk a rfl

/-- A cut that does not fail. -/
theorem cut {a? : Option α} {a : α} {k? : α → Checked β} {r : Except SyntaxError β}
    (h : a? = some a) (hk : Agrees (k? a) r) : Agrees (liftM a? >>= k?) r := by
  subst h
  exact hk

end Agrees

/-- Whether what is asked of a line can be cut out of it. -/
structure CutsCleanly (t : LogicalLine) : Prop where
  kind : t.kind? = some t.kind
  isCase : t.isCase? = some t.isCase
  simples : t.simples? 0 = some (t.simples 0)
  split : ∀ keyword, Agrees (t.split? keyword) (t.split keyword)
  nested : t.kind = .elifClause → ∀ keyword header inline, t.split keyword = .ok (header, inline) →
    asBranch? header = some ("if".toList ++ header.drop "elif".toList.length)

/-- The header of a line begins with the line's first word and ends behind a character. -/
theorem Marks.header {colon : Nat} (h : Marks t.text ':' t.colons)
    (hcolon : t.headerColon? = some colon) :
    ∃ u v, t.text = u ++ ':' :: v ∧ colon = Text.byteSize u ∧ t.firstWord <+: u := by
  obtain ⟨u, v, htext, hk, -⟩ := h.stands colon (List.mem_of_mem_head? hcolon)
  refine ⟨u, v, htext, hk, ?_⟩
  rw [LogicalLine.firstWord, htext, leadingWord_append_of_stop u (by decide)]
  exact List.takeWhile_prefix _

theorem opensSoftBlock?_eq (h : Marks t.text ':' t.colons) (hword : t.firstWord = word)
    (inline : Bool) : opensSoftBlock? t word inline = some (opensSoftBlock t word inline) := by
  unfold opensSoftBlock? opensSoftBlock
  cases hcolon : t.headerColon? with
  | none => rfl
  | some colon =>
    obtain ⟨u, v, htext, rfl, hu⟩ := h.header hcolon
    have hwhole : u <+: t.text := ⟨':' :: v, htext.symm⟩
    dsimp only
    rw [hword] at hu
    rw [Text.slice?_of_isPrefix hu hwhole, Bool.and_assoc]
    split
    · next hends => rw [hends, Bool.true_and, Option.map_some]
    · next hends => rw [Bool.eq_false_iff.mpr hends, Bool.false_and]

theorem kindOfWord?_eq (h : Marks t.text ':' t.colons) (hword : t.firstWord = word) :
    kindOfWord? t word = some (kindOfWord t word) := by
  rw [kindOfWord?, opensSoftBlock?_eq h hword]
  split
  · next hmatch =>
    subst hmatch
    unfold kindOfWord
    cases opensSoftBlock t "match".toList false <;> rfl
  split
  · next hcase =>
    subst hcase
    unfold kindOfWord
    cases opensSoftBlock t "case".toList false <;> rfl
  · rfl

theorem kind?_eq (h : Marks t.text ':' t.colons) : t.kind? = some t.kind := by
  rw [LogicalLine.kind?, LogicalLine.kind]
  split
  · rfl
  dsimp only
  split
  · obtain ⟨s, hs⟩ : Text.leadingWord t.text <+: t.text := List.takeWhile_prefix _
    rw [LogicalLine.firstWord]
    generalize Text.leadingWord t.text = word at hs ⊢
    rw [← hs, Text.slice?_byteSize, List.drop_left, Option.map_some]
  · exact kindOfWord?_eq h rfl

theorem isCase?_eq (h : Marks t.text ':' t.colons) : t.isCase? = some t.isCase := by
  rw [LogicalLine.isCase?, LogicalLine.isCase]
  split
  · next hword => rw [opensSoftBlock?_eq h hword, hword, beq_self_eq_true, Bool.true_and]
  · next hword => rw [beq_eq_false_iff_ne.mpr hword, Bool.false_and]

/-- Cut at positions in order a text falls into stretches. -/
theorem boundaries_of_mem_zip {text : List Char} (ks : List Nat)
    (hstart : Text.isBoundary start text = true) (hle : ∀ k ∈ ks, start ≤ k)
    (hks : ks.Pairwise (· < ·))
    (hin : ∀ k ∈ ks, Text.isBoundary k text = true ∧ Text.isBoundary (k + 1) text = true) :
    ∀ p ∈ (start :: (ks ++ [Text.byteSize text]).map (· + 1)).zip (ks ++ [Text.byteSize text]),
      p.1 ≤ p.2 ∧ Text.isBoundary p.1 text = true ∧ Text.isBoundary p.2 text = true := by
  induction ks generalizing start with
  | nil =>
    intro p hp
    obtain rfl : p = (start, Text.byteSize text) := by simpa using hp
    exact ⟨Text.le_of_isBoundary hstart, hstart, Text.isBoundary_of_isPrefix List.prefix_rfl⟩
  | cons k ks ih =>
    obtain ⟨hk, hks⟩ := List.pairwise_cons.mp hks
    obtain ⟨hbefore, hbehind⟩ := hin k List.mem_cons_self
    intro p hp
    -- every stretch but the first begins behind the sign that ends the one before
    rcases List.mem_cons.mp hp with rfl | hp
    · exact ⟨hle k List.mem_cons_self, hstart, hbefore⟩
    · exact ih hbehind hk hks (fun k' hk' => hin k' (List.mem_cons_of_mem k hk')) p hp

theorem mapM_eq_some {α β : Type} {g : α → Option β} {f : α → β} {xs : List α}
    (h : ∀ x ∈ xs, g x = some (f x)) : xs.mapM g = some (xs.map f) := by
  induction xs with
  | nil => rfl
  | cons x xs ih =>
    obtain ⟨hx, hxs⟩ := List.forall_mem_cons.mp h
    rw [List.mapM_cons, hx, ih hxs]
    rfl

theorem simples?_eq (h : Marks t.text ';' t.semicolons)
    (hstart : Text.isBoundary start t.text = true) : t.simples? start = some (t.simples start) := by
  have hin : ∀ k ∈ t.semicolons,
      Text.isBoundary k t.text = true ∧ Text.isBoundary (k + 1) t.text = true := by
    intro k hk
    obtain ⟨u, v, htext, rfl, -⟩ := h.stands k hk
    have hsign : Text.byteSize u + 1 = Text.byteSize (u ++ [';']) :=
      (Text.byteSize_append u [';']).symm
    rw [hsign]
    exact ⟨Text.isBoundary_of_isPrefix ⟨_, htext.symm⟩,
      Text.isBoundary_of_isPrefix ⟨v, by rw [htext, List.append_assoc]; rfl⟩⟩
  have hcuts := boundaries_of_mem_zip (t.semicolons.filter fun o => start ≤ o) hstart
    (fun k hk => by simpa using (List.mem_filter.mp hk).2) (h.increasing.filter _)
    (fun k hk => hin k (List.mem_filter.mp hk).1)
  have hslices := mapM_eq_some (g := fun p : Nat × Nat => Text.slice? p.1 p.2 t.text)
    (f := fun p => Text.sliceBytes p.1 p.2 t.text) fun p hp => if_pos (hcuts p hp)
  rw [LogicalLine.simples?, hslices]
  rfl

theorem agrees_split? (hc : Marks t.text ':' t.colons) (hs : Marks t.text ';' t.semicolons)
    (keyword : String) : Agrees (t.split? keyword) (t.split keyword) := by
  rw [LogicalLine.split?, LogicalLine.split]
  cases hcolon : t.headerColon? with
  | none => exact .error _
  | some colon =>
    obtain ⟨u, v, htext, rfl, -⟩ := hc.header hcolon
    have hheader : u ++ [':'] <+: t.text := ⟨v, by rw [htext, List.append_assoc]; rfl⟩
    have hslice := Text.slice?_of_isPrefix List.nil_prefix hheader
    rw [byteSize_colon, Text.byteSize, Text.sliceBytes, Text.dropBytes_zero] at hslice
    have hinline : t.simples? (Text.byteSize u + 1) = some (t.simples (Text.byteSize u + 1)) := by
      rw [← byteSize_colon]
      exact simples?_eq hs (Text.isBoundary_of_isPrefix hheader)
    exact .cut hslice (.cut hinline (.ok _))

/-- Where its offsets point at its colons and semicolons, a line can be cut. -/
theorem cutsCleanly_of_marks (hc : Marks t.text ':' t.colons) (hs : Marks t.text ';' t.semicolons) :
    CutsCleanly t where
  kind := kind?_eq hc
  isCase := isCase?_eq hc
  simples := simples?_eq hs (Text.isBoundary_of_isPrefix List.nil_prefix)
  split := agrees_split? hc hs
  nested := by
    intro hkind keyword header inline hsplit
    rw [LogicalLine.split] at hsplit
    cases hcolon : t.headerColon? with
    | none =>
      rw [hcolon] at hsplit
      cases hsplit
    | some colon =>
      rw [hcolon] at hsplit
      cases hsplit
      obtain ⟨u, v, htext, rfl, hu⟩ := hc.header hcolon
      rw [firstWord_of_kind_elif hkind] at hu
      obtain ⟨w, rfl⟩ := hu
      rw [through_of_text htext, List.append_assoc, asBranch?, List.drop_left]
      exact congrArg (Option.map _) (Text.slice?_byteSize "elif".toList _)

/-! ## Reading without a failure -/

/-- Whether all that is asked of some lines can be cut out of them. -/
def AllCutCleanly (lines : List LogicalLine) : Prop := ∀ t ∈ lines, CutsCleanly t

theorem AllCutCleanly.of_subset {lines rest : List LogicalLine} (h : AllCutCleanly lines)
    (hrest : rest ⊆ lines) : AllCutCleanly rest :=
  fun t ht => h t (hrest ht)

/-- What a reader leaves to the next one can be cut as well. -/
theorem Agrees.read {α β : Type} {x? : Checked (α × List LogicalLine)}
    {x : Except SyntaxError (α × List LogicalLine)} {lines : List LogicalLine}
    {k? : α × List LogicalLine → Checked β} {k : α × List LogicalLine → Except SyntaxError β}
    (h : Agrees x? x) (hlines : AllCutCleanly lines) (hx : Answers lines x)
    (hk : ∀ a rest, AllCutCleanly rest → Agrees (k? (a, rest)) (k (a, rest))) :
    Agrees (x? >>= k?) (x >>= k) :=
  h.bind fun p hp => hk p.1 p.2 (hlines.of_subset (hx.ok p.1 p.2 hp))

theorem CutsCleanly.begins? (h : CutsCleanly l) (indent : Nat) (kind : LineKind) :
    l.begins? indent kind = some (decide (l.indent = indent ∧ l.kind = kind)) := by
  rw [LogicalLine.begins?, h.kind]
  split
  · next hindent => simp [hindent, Option.map_some, beq_eq_decide]
  · next hindent => simp [hindent]

theorem decorators_eq {indent : Nat} {lines : List LogicalLine} (h : AllCutCleanly lines) :
    Checked.decorators indent lines = some (spanDecorators indent lines) := by
  induction lines with
  | nil => rfl
  | cons l lines ih =>
    obtain ⟨hl, hlines⟩ := List.forall_mem_cons.mp h
    rw [Checked.decorators, hl.begins?, spanDecorators, ih hlines]
    by_cases hbegins : l.indent = indent ∧ l.kind = .decorator
    · rw [if_pos hbegins, decide_eq_true hbegins]
      rfl
    · rw [if_neg hbegins, decide_eq_false hbegins]
      rfl

variable {fuel : Nat}

/-- What holds of the readers of statements with some fuel: no cut of theirs fails. -/
structure Unfailing (fuel : Nat) : Prop where
  suite : ∀ indent lines, AllCutCleanly lines →
    Agrees (Checked.suite fuel indent lines) (readSuite fuel indent lines)
  statement : ∀ indent l lines, AllCutCleanly (l :: lines) →
    Agrees (Checked.statement fuel indent l lines) (readStatement fuel indent l lines)
  body : ∀ indent l keyword inline lines, AllCutCleanly (l :: lines) →
    Agrees (Checked.body fuel indent l keyword inline lines)
      (readBody fuel indent l keyword inline lines)
  branch : ∀ indent l header inline lines, AllCutCleanly (l :: lines) →
    Agrees (Checked.branch fuel indent l header inline lines)
      (readBranch fuel indent l header inline lines)
  clause : ∀ indent kind keyword lines, AllCutCleanly lines →
    Agrees (Checked.clause fuel indent kind keyword lines)
      (readClause fuel indent kind keyword lines)
  handlers : ∀ indent lines, AllCutCleanly lines →
    Agrees (Checked.handlers fuel indent lines) (readHandlers fuel indent lines)
  define : ∀ indent l decorators lines, AllCutCleanly (l :: lines) →
    Agrees (Checked.define fuel indent l decorators lines)
      (readDefine fuel indent l decorators lines)
  cases : ∀ indent lines, AllCutCleanly lines →
    Agrees (Checked.cases fuel indent lines) (readCases fuel indent lines)

theorem unfailing_zero : Unfailing 0 where
  suite := fun _ _ _ => by rw [Checked.suite, readSuite]; exact .ok _
  statement := fun _ _ _ _ => by rw [Checked.statement, readStatement]; exact .ok _
  body := fun _ _ _ _ _ _ => by rw [Checked.body, readBody]; exact .ok _
  branch := fun _ _ _ _ _ _ => by rw [Checked.branch, readBranch]; exact .ok _
  clause := fun _ _ _ _ _ => by rw [Checked.clause, readClause]; exact .ok _
  handlers := fun _ _ _ => by rw [Checked.handlers, readHandlers]; exact .ok _
  define := fun _ _ _ _ _ => by rw [Checked.define, readDefine]; exact .ok _
  cases := fun _ _ _ => by rw [Checked.cases, readCases]; exact .ok _

namespace Unfailing

variable (h : Unfailing fuel)

include h

theorem suite_succ (indent : Nat) (lines : List LogicalLine) (hlines : AllCutCleanly lines) :
    Agrees (Checked.suite (fuel + 1) indent lines) (readSuite (fuel + 1) indent lines) := by
  cases lines with
  | nil =>
    rw [Checked.suite, readSuite]
    exact .ok _
  | cons l lines =>
    rw [Checked.suite, readSuite]
    split
    · exact .ok _
    split
    · exact .error _
    have hanswers := answering fuel
    refine (h.statement indent l lines hlines).read hlines (hanswers.statement indent l lines)
      fun ss rest hrest => ?_
    exact (h.suite indent rest hrest).bind fun p _ => .ok _

theorem body_succ (indent : Nat) (l : LogicalLine) (keyword : String) (inline : List Stmt)
    (lines : List LogicalLine) (hlines : AllCutCleanly (l :: lines)) :
    Agrees (Checked.body (fuel + 1) indent l keyword inline lines)
      (readBody (fuel + 1) indent l keyword inline lines) := by
  rw [Checked.body.eq_def, readBody.eq_def]
  dsimp only
  split
  · exact .ok _
  cases lines with
  | nil => exact .error _
  | cons first lines =>
    dsimp only
    split
    · have hsuite := h.suite first.indent (first :: lines) fun t ht =>
        hlines t (List.mem_cons_of_mem l ht)
      refine hsuite.bind fun p _ => ?_
      exact (show Agrees (Checked.dedent indent first.indent p.2)
        (checkDedent indent first.indent p.2) from rfl).bind fun _ _ => .ok _
    · exact .error _

theorem clause_succ (indent : Nat) (kind : LineKind) (keyword : String)
    (lines : List LogicalLine) (hlines : AllCutCleanly lines) :
    Agrees (Checked.clause (fuel + 1) indent kind keyword lines)
      (readClause (fuel + 1) indent kind keyword lines) := by
  cases lines with
  | nil =>
    rw [Checked.clause, readClause]
    exact .ok _
  | cons l lines =>
    have hl := hlines l List.mem_cons_self
    rw [Checked.clause, readClause]
    refine .cut (hl.begins? indent kind) ?_
    simp only [decide_eq_true_eq]
    split
    · exact (hl.split keyword).bind fun p _ => h.body indent l keyword p.2 lines hlines
    · exact .ok _

theorem handlers_succ (indent : Nat) (lines : List LogicalLine) (hlines : AllCutCleanly lines) :
    Agrees (Checked.handlers (fuel + 1) indent lines) (readHandlers (fuel + 1) indent lines) := by
  cases lines with
  | nil =>
    rw [Checked.handlers, readHandlers]
    exact .ok _
  | cons l lines =>
    have hl := hlines l List.mem_cons_self
    have hanswers := answering fuel
    rw [Checked.handlers, readHandlers]
    refine .cut (hl.begins? indent .exceptClause) ?_
    simp only [decide_eq_true_eq]
    split
    · refine (hl.split "except").bind fun p _ => ?_
      refine (h.body indent l "except" p.2 lines hlines).read hlines
        (hanswers.body indent l "except" p.2 lines) fun body rest hrest => ?_
      exact (h.handlers indent rest hrest).bind fun _ _ => .ok _
    · exact .ok _

theorem cases_succ (indent : Nat) (lines : List LogicalLine) (hlines : AllCutCleanly lines) :
    Agrees (Checked.cases (fuel + 1) indent lines) (readCases (fuel + 1) indent lines) := by
  cases lines with
  | nil =>
    rw [Checked.cases, readCases]
    exact .ok _
  | cons l lines =>
    have hl := hlines l List.mem_cons_self
    have hanswers := answering fuel
    rw [Checked.cases, readCases]
    split
    · exact .ok _
    split
    · exact .error _
    refine .cut hl.isCase ?_
    split
    · exact .error _
    refine (hl.split "case").bind fun p _ => ?_
    refine (h.body indent l "case" p.2 lines hlines).read hlines
      (hanswers.body indent l "case" p.2 lines) fun body rest hrest => ?_
    exact (h.cases indent rest hrest).bind fun _ _ => .ok _

theorem define_succ (indent : Nat) (l : LogicalLine) (decorators : List (List Char))
    (lines : List LogicalLine) (hlines : AllCutCleanly (l :: lines)) :
    Agrees (Checked.define (fuel + 1) indent l decorators lines)
      (readDefine (fuel + 1) indent l decorators lines) := by
  rw [Checked.define, readDefine]
  refine ((hlines l List.mem_cons_self).split _).bind fun p _ => ?_
  exact (h.body indent l _ p.2 lines hlines).bind fun _ _ => .ok _

theorem branch_succ (indent : Nat) (l : LogicalLine) (header : List Char) (inline : List Stmt)
    (lines : List LogicalLine) (hlines : AllCutCleanly (l :: lines)) :
    Agrees (Checked.branch (fuel + 1) indent l header inline lines)
      (readBranch (fuel + 1) indent l header inline lines) := by
  have hanswers := answering fuel
  rw [Checked.branch, readBranch]
  refine (h.body indent l "if" inline lines hlines).read hlines
    (hanswers.body indent l "if" inline lines) fun body rest hrest => ?_
  cases rest with
  | nil => exact .ok _
  | cons next others =>
    have hnext := hrest next List.mem_cons_self
    refine .cut (hnext.begins? indent .elifClause) ?_
    simp only [decide_eq_true_eq]
    split
    · next hbegins =>
      -- the header begins with the keyword that it loses
      refine (hnext.split "elif").bind fun p hp => ?_
      refine .cut (hnext.nested hbegins.2 "elif" p.1 p.2 hp) ?_
      exact (h.branch indent next _ p.2 others hrest).bind fun _ _ => .ok _
    · exact (h.clause indent .elseClause "else" (next :: others) hrest).bind fun _ _ => .ok _

theorem statement_succ (indent : Nat) (l : LogicalLine) (lines : List LogicalLine)
    (hlines : AllCutCleanly (l :: lines)) :
    Agrees (Checked.statement (fuel + 1) indent l lines)
      (readStatement (fuel + 1) indent l lines) := by
  have hanswers := answering fuel
  obtain ⟨hl, hrest⟩ := List.forall_mem_cons.mp hlines
  -- what a reader leaves are lines at hand, so the next one can cut them
  rw [Checked.statement, readStatement]
  refine .cut hl.kind ?_
  cases hkind : l.kind with
  | simple => exact .cut hl.simples (.ok _)
  | decorator =>
    have hspan := (spanDecorators_suffix indent lines).subset
    refine .cut (decorators_eq hrest) ?_
    dsimp only
    cases hothers : (spanDecorators indent lines).2 with
    | nil => exact .error _
    | cons d rest =>
      rw [hothers] at hspan
      have hdecorated := AllCutCleanly.of_subset hrest hspan
      refine .cut ((hdecorated d List.mem_cons_self).begins? indent .define) ?_
      simp only [decide_eq_true_eq]
      split
      · exact (h.define indent d _ rest hdecorated).bind fun _ _ => .ok _
      · exact .error _
  | branch =>
    refine (hl.split "if").bind fun p _ => ?_
    exact (h.branch indent l p.1 p.2 lines hlines).bind fun _ _ => .ok _
  | loop =>
    refine (hl.split _).bind fun p _ => ?_
    refine (h.body indent l _ p.2 lines hlines).read hlines
      (hanswers.body indent l _ p.2 lines) fun body rest hrest => ?_
    exact (h.clause indent .elseClause "else" rest hrest).bind fun _ _ => .ok _
  | attempt =>
    refine (hl.split "try").bind fun p _ => ?_
    refine (h.body indent l "try" p.2 lines hlines).read hlines
      (hanswers.body indent l "try" p.2 lines) fun body rest₁ hrest₁ => ?_
    refine (h.handlers indent rest₁ hrest₁).read hrest₁ (hanswers.handlers indent rest₁)
      fun handlers rest₂ hrest₂ => ?_
    refine (h.clause indent .elseClause "else" rest₂ hrest₂).read hrest₂
      (hanswers.clause indent .elseClause "else" rest₂) fun orelse rest₃ hrest₃ => ?_
    refine (h.clause indent .finallyClause "finally" rest₃ hrest₃).bind fun _ _ => ?_
    dsimp only
    split
    · exact .error _
    · exact .ok _
  | scope =>
    refine (hl.split "with").bind fun p _ => ?_
    exact (h.body indent l "with" p.2 lines hlines).bind fun _ _ => .ok _
  | define => exact (h.define indent l [] lines hlines).bind fun _ _ => .ok _
  | choose =>
    refine (hl.split "match").bind fun p _ => ?_
    cases lines with
    | nil => exact .error _
    | cons first lines =>
      dsimp only
      split
      · refine (h.cases first.indent (first :: lines) hrest).bind fun q _ => ?_
        exact (show Agrees (Checked.dedent indent first.indent q.2)
          (checkDedent indent first.indent q.2) from rfl).bind fun _ _ => .ok _
      · exact .error _
  | _ => exact .error _

end Unfailing

theorem unfailing : (fuel : Nat) → Unfailing fuel
  | 0 => unfailing_zero
  | fuel + 1 =>
    have h := unfailing fuel
    { suite := h.suite_succ
      statement := h.statement_succ
      body := h.body_succ
      branch := h.branch_succ
      clause := h.clause_succ
      handlers := h.handlers_succ
      define := h.define_succ
      cases := h.cases_succ }

theorem program_eq {lines : List LogicalLine} (h : AllCutCleanly lines) :
    (Checked.program lines).run = some (parseLines lines) := by
  cases lines with
  | nil => rfl
  | cons l lines =>
    rw [Checked.program, parseLines]
    split
    · rfl
    · have hsuite := (unfailing (4 * (l :: lines).length + 4)).suite 0 (l :: lines) h
      have hmap : ∀ r : Except SyntaxError (List Stmt × List LogicalLine),
          r.map Prod.fst = r >>= fun p => .ok p.1 := fun r => by cases r <;> rfl
      rw [hmap]
      exact hsuite.bind fun p _ => .ok p.1

/-- Of every source that the reader accepts the logical lines come with increasing numbers, each
begins on the row with its number, and its offsets point at its top-level colons and semicolons. So
every line can be cut, and no source is read to a cut that fails. -/
theorem offsets_of_source (source : List Char) :
    (∀ lines, tokenize source = .ok lines → lines.Pairwise (·.line < ·.line) ∧
      ∀ t ∈ lines, BeginsOn (Text.unifyBreaks source) t ∧ Marks t.text ':' t.colons ∧
        Marks t.text ';' t.semicolons ∧ CutsCleanly t) ∧
      parse? source = some (parse source) := by
  have hmarks : ∀ lines, tokenize source = .ok lines → ∀ t ∈ lines,
      Marks t.text ':' t.colons ∧ Marks t.text ';' t.semicolons ∧ CutsCleanly t := by
    intro lines h t ht
    obtain ⟨hcolons, hsemicolons⟩ := (faithful_of_mem_tokenize h t ht).marks
    exact ⟨hcolons, hsemicolons, cutsCleanly_of_marks hcolons hsemicolons⟩
  constructor
  · intro lines h
    refine ⟨(inOrder_of_tokenize h).increasing, fun t ht => ⟨?_, hmarks lines h t ht⟩⟩
    obtain ⟨above, blanks, rest, hread⟩ := readFrom_of_mem_tokenize h t ht
    exact hread.beginsOn
  · rw [parse?, parse]
    cases h : tokenize source with
    | error e => rfl
    | ok lines => exact program_eq fun t ht => (hmarks lines h t ht).2.2

/-- A line over three rows, of which a comment and a blank row are left out, and a line with signs
in a string. -/
def broadSource : List Char :=
  "é = [1, # λ\r\n\r\n  2]; ü: int = 3\r\nif é:  b(\x27日:\x27, y:=2); c\r\n".toList

/-- The logical lines of `broadSource`. -/
def broadLines : List LogicalLine :=
  [⟨1, 0, "é = [1, \n  2]; ü: int = 3".toList, [18], [14]⟩,
    ⟨4, 0, "if é:  b(\x27日:\x27, y:=2); c".toList, [5], [23]⟩]

theorem offsets_of_source_broadSource :
    tokenize broadSource = .ok broadLines ∧ broadLines.Pairwise (·.line < ·.line) ∧
      (∀ t ∈ broadLines, BeginsOn (Text.unifyBreaks broadSource) t ∧ Marks t.text ':' t.colons ∧
        Marks t.text ';' t.semicolons ∧ CutsCleanly t) ∧
      parse? broadSource = some (parse broadSource) := by
  have hlines : tokenize broadSource = .ok broadLines := by decide +kernel
  obtain ⟨hincreasing, hoffsets⟩ := (offsets_of_source broadSource).1 broadLines hlines
  exact ⟨hlines, hincreasing, hoffsets, (offsets_of_source broadSource).2⟩

end StepTrace.Python
