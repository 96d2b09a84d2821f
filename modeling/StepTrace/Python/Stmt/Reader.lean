import StepTrace.Python.LogicalLine.Reader
import StepTrace.Python.Stmt

/-!
# Reading statement trees

A program is read from its logical lines by their indentation. `match` and `case` are names as well:
`match` opens a block only where a colon ends the line, and inside that block the body of a `case`
may follow its colon. The readers carry fuel; `parseLines` gives them four calls for each line, more
than they can use.
-/

set_option autoImplicit false

namespace StepTrace.Python

/-- What a logical line begins. -/
inductive LineKind where
  | simple
  | decorator
  | branch
  | elifClause
  | elseClause
  | loop
  | attempt
  | exceptClause
  | finallyClause
  | scope
  | define
  | choose
  | caseClause
  deriving DecidableEq, Repr

/-- Whether a line that begins with a soft keyword opens a block: something that can be a subject
stands between the keyword and the colon, and unless `inline` nothing follows the colon. -/
def opensSoftBlock (l : LogicalLine) (word : List Char) (inline : Bool) : Bool :=
  match l.headerColon? with
  | none => false
  | some colon =>
    let subject := Text.sliceBytes (Text.byteSize word) colon l.text
    (inline || colon + 1 == Text.byteSize l.text) && !Text.allBlank subject &&
      !(subject.head?.any fun c => "=.,:)]\x7d".toList.contains c)

/-- What a line that begins with a word begins. -/
def kindOfWord (l : LogicalLine) (word : List Char) : LineKind :=
  if word = "if".toList then .branch
  else if word = "elif".toList then .elifClause
  else if word = "else".toList then .elseClause
  else if word = "for".toList ∨ word = "while".toList then .loop
  else if word = "try".toList then .attempt
  else if word = "except".toList then .exceptClause
  else if word = "finally".toList then .finallyClause
  else if word = "with".toList then .scope
  else if word = "def".toList ∨ word = "class".toList then .define
  else if word = "match".toList ∧ opensSoftBlock l word false = true then .choose
  else if word = "case".toList ∧ opensSoftBlock l word false = true then .caseClause
  else .simple

/-- What a line that begins with `async` begins, by the word after it. -/
def kindOfAsync (word : List Char) : LineKind :=
  if word = "def".toList then .define
  else if word = "for".toList then .loop
  else if word = "with".toList then .scope
  else .simple

/-- What a logical line begins. -/
def LogicalLine.kind (l : LogicalLine) : LineKind :=
  if l.text.head? = some '@' then .decorator
  else
    let word := l.firstWord
    if word = "async".toList then
      kindOfAsync (Text.leadingWord (Text.trimStart (l.text.drop word.length)))
    else kindOfWord l word

/-- Whether a line inside a `match` block is a `case` clause. -/
def LogicalLine.isCase (l : LogicalLine) : Bool :=
  l.firstWord == "case".toList && opensSoftBlock l "case".toList true

/-- The simple statements written on a line from an offset on. -/
def LogicalLine.simples (l : LogicalLine) (start : Nat) : List Stmt :=
  (l.pieces start).map (Stmt.simple l.line)

/-- The header of a compound statement, colon included, and the statements after the colon. -/
def LogicalLine.split (l : LogicalLine) (keyword : String) :
    Except SyntaxError (List Char × List Stmt) :=
  match l.headerColon? with
  | none => .error (.missingColon l.line keyword)
  | some colon => .ok (l.through colon, l.simples (colon + 1))

/-- The decorators that stand at an indentation, and the lines after them. -/
def spanDecorators (indent : Nat) : List LogicalLine → List (List Char) × List LogicalLine
  | [] => ([], [])
  | l :: rest =>
    if l.indent = indent ∧ l.kind = .decorator then
      let (decorators, rest) := spanDecorators indent rest
      (l.text :: decorators, rest)
    else ([], l :: rest)

/-- After a block the next line has to stand at the block's indentation or not inside its owner. -/
def checkDedent (indent bodyIndent : Nat) : List LogicalLine → Except SyntaxError Unit
  | [] => .ok ()
  | l :: _ =>
    if indent < l.indent ∧ l.indent < bodyIndent then .error (.inconsistentDedent l.line)
    else .ok ()

/-- The keyword of a loop. -/
def loopKeyword (l : LogicalLine) : String :=
  if l.firstWord = "while".toList then "while" else "for"

/-- The keyword of a definition. -/
def defineKeyword (l : LogicalLine) : String :=
  if l.firstWord = "class".toList then "class" else "def"

mutual

/-- The statements at an indentation, up to the first line that stands further out. -/
def readSuite : Nat → Nat → List LogicalLine → Except SyntaxError (List Stmt × List LogicalLine)
  | 0, _, lines => .ok ([], lines)
  | _ + 1, _, [] => .ok ([], [])
  | fuel + 1, indent, l :: rest =>
    if l.indent < indent then .ok ([], l :: rest)
    else if indent < l.indent then .error (.unexpectedIndent l.line)
    else do
      let (stmts, rest) ← readStatement fuel indent l rest
      let (others, rest) ← readSuite fuel indent rest
      return (stmts ++ others, rest)

/-- The statements that a line begins. -/
def readStatement : Nat → Nat → LogicalLine → List LogicalLine →
    Except SyntaxError (List Stmt × List LogicalLine)
  | 0, _, _, lines => .ok ([], lines)
  | fuel + 1, indent, l, rest =>
    match l.kind with
    | .simple => .ok (l.simples 0, rest)
    | .decorator =>
      let (decorators, rest) := spanDecorators indent rest
      match rest with
      | [] => .error (.danglingDecorator l.line)
      | d :: rest =>
        if d.indent = indent ∧ d.kind = .define then do
          let (s, rest) ← readDefine fuel indent d (l.text :: decorators) rest
          return ([s], rest)
        else .error (.danglingDecorator l.line)
    | .branch => do
      let (header, inline) ← l.split "if"
      let (s, rest) ← readBranch fuel indent l header inline rest
      return ([s], rest)
    | .loop => do
      let (header, inline) ← l.split (loopKeyword l)
      let (body, rest) ← readBody fuel indent l (loopKeyword l) inline rest
      let (orelse, rest) ← readClause fuel indent .elseClause "else" rest
      return ([.loop l.line header body orelse], rest)
    | .attempt => do
      let (_, inline) ← l.split "try"
      let (body, rest) ← readBody fuel indent l "try" inline rest
      let (handlers, rest) ← readHandlers fuel indent rest
      let (orelse, rest) ← readClause fuel indent .elseClause "else" rest
      let (final, rest) ← readClause fuel indent .finallyClause "finally" rest
      -- an `else` clause alone does not make a `try` statement whole
      if handlers.isEmpty && final.isEmpty then .error (.incompleteTry l.line)
      else return ([.attempt l.line body handlers orelse final], rest)
    | .scope => do
      let (header, inline) ← l.split "with"
      let (body, rest) ← readBody fuel indent l "with" inline rest
      return ([.scope l.line header body], rest)
    | .define => do
      let (s, rest) ← readDefine fuel indent l [] rest
      return ([s], rest)
    | .choose => do
      let (header, _) ← l.split "match"
      match rest with
      | [] => .error (.expectedIndentedBlock l.line "match")
      | first :: _ =>
        if indent < first.indent then do
          let caseIndent := first.indent
          let (cases, rest) ← readCases fuel caseIndent rest
          checkDedent indent caseIndent rest
          return ([.choose l.line header cases], rest)
        else .error (.expectedIndentedBlock l.line "match")
    | .elifClause | .elseClause | .exceptClause | .finallyClause | .caseClause =>
      .error (.orphanClause l.line (String.ofList l.firstWord))

/-- The body of a clause: the statements after its colon if there are any, or else the indented
block that follows. -/
def readBody : Nat → Nat → LogicalLine → String → List Stmt → List LogicalLine →
    Except SyntaxError (List Stmt × List LogicalLine)
  | 0, _, _, _, _, lines => .ok ([], lines)
  | fuel + 1, indent, l, keyword, inline, rest =>
    if !inline.isEmpty then .ok (inline, rest)
    else
      match rest with
      | [] => .error (.expectedIndentedBlock l.line keyword)
      | first :: _ =>
        if indent < first.indent then do
          let bodyIndent := first.indent
          let (body, rest) ← readSuite fuel bodyIndent rest
          checkDedent indent bodyIndent rest
          return (body, rest)
        else .error (.expectedIndentedBlock l.line keyword)

/-- An `if` statement whose header is read, with the clauses that belong to it. -/
def readBranch : Nat → Nat → LogicalLine → List Char → List Stmt → List LogicalLine →
    Except SyntaxError (Stmt × List LogicalLine)
  | 0, _, l, header, _, lines => .ok (.branch l.line header [] [], lines)
  | fuel + 1, indent, l, header, inline, rest => do
    let (body, rest) ← readBody fuel indent l "if" inline rest
    match rest with
    | [] => return (.branch l.line header body [], [])
    | next :: others =>
      if next.indent = indent ∧ next.kind = .elifClause then do
        let (elifHeader, elifInline) ← next.split "elif"
        -- as a statement of its own the clause begins with `if`
        let nested := "if".toList ++ elifHeader.drop "elif".toList.length
        let (s, rest) ← readBranch fuel indent next nested elifInline others
        return (.branch l.line header body [s], rest)
      else do
        let (orelse, rest) ← readClause fuel indent .elseClause "else" (next :: others)
        return (.branch l.line header body orelse, rest)

/-- The body of a clause that may be there or not. -/
def readClause : Nat → Nat → LineKind → String → List LogicalLine →
    Except SyntaxError (List Stmt × List LogicalLine)
  | 0, _, _, _, lines => .ok ([], lines)
  | _ + 1, _, _, _, [] => .ok ([], [])
  | fuel + 1, indent, kind, keyword, l :: rest =>
    if l.indent = indent ∧ l.kind = kind then do
      let (_, inline) ← l.split keyword
      readBody fuel indent l keyword inline rest
    else .ok ([], l :: rest)

/-- The handlers of a `try` statement. -/
def readHandlers : Nat → Nat → List LogicalLine →
    Except SyntaxError (List Clause × List LogicalLine)
  | 0, _, lines => .ok ([], lines)
  | _ + 1, _, [] => .ok ([], [])
  | fuel + 1, indent, l :: rest =>
    if l.indent = indent ∧ l.kind = .exceptClause then do
      let (header, inline) ← l.split "except"
      let (body, rest) ← readBody fuel indent l "except" inline rest
      let (others, rest) ← readHandlers fuel indent rest
      return (.mk l.line header body :: others, rest)
    else .ok ([], l :: rest)

/-- A definition with its decorators. -/
def readDefine : Nat → Nat → LogicalLine → List (List Char) → List LogicalLine →
    Except SyntaxError (Stmt × List LogicalLine)
  | 0, _, l, decorators, lines => .ok (.define l.line decorators [] [], lines)
  | fuel + 1, indent, l, decorators, rest => do
    let (header, inline) ← l.split (defineKeyword l)
    let (body, rest) ← readBody fuel indent l (defineKeyword l) inline rest
    return (.define l.line decorators header body, rest)

/-- The cases of a `match` statement, all at one indentation. -/
def readCases : Nat → Nat → List LogicalLine → Except SyntaxError (List Clause × List LogicalLine)
  | 0, _, lines => .ok ([], lines)
  | _ + 1, _, [] => .ok ([], [])
  | fuel + 1, indent, l :: rest =>
    if l.indent < indent then .ok ([], l :: rest)
    else if indent < l.indent then .error (.unexpectedIndent l.line)
    else if !l.isCase then .error (.expectedCase l.line)
    else do
      let (header, inline) ← l.split "case"
      let (body, rest) ← readBody fuel indent l "case" inline rest
      let (others, rest) ← readCases fuel indent rest
      return (.mk l.line header body :: others, rest)

end

/-- The program that logical lines are. -/
def parseLines (lines : List LogicalLine) : Except SyntaxError (List Stmt) :=
  match lines with
  | [] => .ok []
  | l :: _ =>
    if 0 < l.indent then .error (.unexpectedIndent l.line)
    else (readSuite (4 * lines.length + 4) 0 lines).map Prod.fst

/-- A program is a suite at the margin: a first line that is indented is refused there as well. -/
theorem parseLines_eq (lines : List LogicalLine) :
    parseLines lines = (readSuite (4 * lines.length + 4) 0 lines).map Prod.fst := by
  cases lines with
  | nil =>
    rw [readSuite]
    rfl
  | cons l rest =>
    rw [parseLines]
    split
    · next hindented =>
      rw [readSuite, if_neg (Nat.not_lt_zero _), if_pos hindented]
      rfl
    · rfl

/-- The program that a source is. -/
def parse (source : List Char) : Except SyntaxError (List Stmt) :=
  tokenize source >>= parseLines

end StepTrace.Python
