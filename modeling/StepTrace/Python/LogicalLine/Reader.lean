import StepTrace.Python.LogicalLine
import StepTrace.Python.SyntaxError
import StepTrace.Text.Line

/-!
# Reading logical lines

A machine that reads Python source one character at a time. Between logical lines it stands in the
margin or in a remark; inside one it keeps the text so far and the stack of open brackets, strings
and replacement fields. Some steps look at the next two characters and take them along: the machine
then passes over them. `lex` runs the machine; the line number it carries is one more than the line
feeds it has passed.
-/

set_option autoImplicit false

namespace StepTrace.Python

/-- An open construct inside a logical line. -/
inductive Frame where
  /-- A bracket, and the line it stands on. -/
  | bracket (opener : Char) (line : Nat)
  /-- A string, and the line its quote stands on. -/
  | string (quote : Char) (triple format : Bool) (line : Nat)
  /-- A replacement field of a formatted string. -/
  | field
  deriving DecidableEq, Repr

/-- A logical line that is being read. -/
structure OpenLine where
  line : Nat
  indent : Nat
  /-- The finished physical lines, the last character first. -/
  earlier : List Char
  /-- The physical line that is being read, the last character first. -/
  current : List Char
  /-- Whether that physical line began inside a string. -/
  inString : Bool
  /-- Offsets of the top-level colons, the last first. -/
  colons : List Nat
  /-- Offsets of the top-level semicolons, the last first. -/
  semicolons : List Nat
  /-- The open constructs, the innermost first. -/
  frames : List Frame
  /-- How many characters to pass over because they are taken already. -/
  skip : Nat
  /-- Whether a comment is being passed over. -/
  comment : Bool
  deriving DecidableEq, Repr

namespace OpenLine

/-- A logical line of which nothing has been read. -/
def start (line indent : Nat) : OpenLine :=
  ⟨line, indent, [], [], false, [], [], [], 0, false⟩

/-- The text so far, the last character first. -/
def behind (l : OpenLine) : List Char := l.current ++ l.earlier

/-- The offset of the next character. -/
def offset (l : OpenLine) : Nat := Text.byteSize l.behind

/-- The line with one more character. -/
def push (l : OpenLine) (c : Char) : OpenLine := { l with current := c :: l.current }

/-- The line after a line feed in it. -/
def breakLine (l : OpenLine) (inString : Bool) : OpenLine :=
  { l with earlier := '\n' :: l.behind, current := [], inString := inString }

/-- The line after a line feed outside strings; a blank continuation line is dropped. -/
def continueLine (l : OpenLine) : OpenLine :=
  if l.earlier ≠ [] ∧ l.inString = false ∧ Text.allBlank l.current = true then
    { l with current := [], inString := false }
  else l.breakLine false

/-- The line inside one more construct. -/
def enter (l : OpenLine) (f : Frame) : OpenLine := { l with frames := f :: l.frames }

/-- The line after its innermost construct closed. -/
def leave (l : OpenLine) : OpenLine := { l with frames := l.frames.tail }

/-- The line with the next `n` characters taken already. -/
def passing (l : OpenLine) (n : Nat) : OpenLine := { l with skip := n }

/-- The logical line that has been read. -/
def finish (l : OpenLine) : LogicalLine where
  line := l.line
  indent := l.indent
  text := Text.trimEnd l.behind.reverse
  colons := l.colons.reverse
  semicolons := l.semicolons.reverse

/-- The error that a construct left open at the end of the source is. -/
def unclosed? : Frame → Option SyntaxError
  | .bracket opener line => some (.unclosedBracket line opener)
  | .string _ _ _ line => some (.unterminatedString line)
  | .field => none

/-- Whether a string opened here is formatted: the name before its quote is a short string mark that
says so. -/
def opensFormat (l : OpenLine) : Bool :=
  let mark := l.behind.takeWhile Text.isWordChar
  mark.length ≤ 2 && mark.all (fun c => "rbuft".toList.contains c.toLower) &&
    mark.any fun c => "ft".toList.contains c.toLower

end OpenLine

/-- The bracket that closes another. -/
def closerOf (opener : Char) : Char :=
  if opener = '(' then ')' else if opener = '[' then ']' else '\x7d'

/-- One step inside a string. -/
def stepString (l : OpenLine) (quote : Char) (triple format : Bool) (opened : Nat)
    (c : Char) (next : List Char) : Except SyntaxError OpenLine :=
  if c = '\\' then
    match next with
    | [] => .ok (l.push c)
    | e :: _ =>
      -- the line feed is part of the string, and a physical line begins behind it
      if e = '\n' then .ok (((l.push c).breakLine true).passing 1)
      else .ok (((l.push c).push e).passing 1)
  else if c = '\n' then
    if triple then .ok (l.breakLine true) else .error (.unterminatedString opened)
  else if c = quote then
    if triple then
      if next.take 2 = [quote, quote] then
        .ok ((((l.push quote).push quote).push quote).leave.passing 2)
      else .ok (l.push quote)
    else .ok (l.push quote).leave
  else if c = '\x7b' ∧ format = true then
    -- a doubled brace is text
    if next.head? = some '\x7b' then .ok (((l.push c).push c).passing 1)
    else .ok ((l.push c).enter .field)
  else .ok (l.push c)

/-- The constructs left open by a closing bracket, or why it closes none. -/
def closeBracket (line : Nat) (c : Char) : List Frame → Except SyntaxError (List Frame)
  | .bracket opener _ :: outer =>
    if closerOf opener = c then .ok outer
    else .error (.mismatchedBracket line c opener)
  | .field :: outer => if c = '\x7d' then .ok outer else .error (.unmatchedBracket line c)
  | _ => .error (.unmatchedBracket line c)

/-- One step outside strings, at a character that does not end the logical line. -/
def stepCode (l : OpenLine) (line : Nat) (c : Char) (next : List Char) :
    Except SyntaxError OpenLine :=
  -- in a replacement field the sign may be a fill character
  if c = '#' ∧ l.frames.head? ≠ some .field then .ok { l with comment := true }
  else if c = '\\' ∧ next.head? = some '\n' then
    .ok (((l.push c).breakLine false).passing 1)
  else if c = '\n' then .ok l.continueLine
  else if c = '(' ∨ c = '[' ∨ c = '\x7b' then .ok ((l.enter (.bracket c line)).push c)
  else if c = ')' ∨ c = ']' ∨ c = '\x7d' then
    match closeBracket line c l.frames with
    | .ok frames => .ok ({ l with frames := frames }.push c)
    | .error e => .error e
  else if c = '\x27' ∨ c = '\x22' then
    if next.take 2 = [c, c] then
      .ok (((((l.enter (.string c true l.opensFormat line)).push c).push c).push c).passing 2)
    else .ok ((l.enter (.string c false l.opensFormat line)).push c)
  -- the colon of an assignment expression ends no header
  else if c = ':' ∧ l.frames = [] ∧ next.head? ≠ some '=' then
    .ok ({ l with colons := l.offset :: l.colons }.push c)
  else if c = ';' ∧ l.frames = [] then
    .ok ({ l with semicolons := l.offset :: l.semicolons }.push c)
  else .ok (l.push c)

/-- Where the reader stands. -/
inductive Mode where
  /-- In the blanks that a physical line begins with, outside any logical line. -/
  | margin (column : Nat)
  /-- In a comment outside any logical line. -/
  | remark
  /-- Inside a logical line. -/
  | inside (line : OpenLine)
  deriving DecidableEq, Repr

/-- One step inside a logical line: the line if it ends here, and where the reader stands then. -/
def stepInside (l : OpenLine) (line : Nat) (c : Char) (next : List Char) :
    Except SyntaxError (Option LogicalLine × Mode) :=
  match l.skip with
  | k + 1 => .ok (none, .inside (l.passing k))
  | 0 =>
    match l.frames with
    | .string quote triple format opened :: _ =>
      match stepString l quote triple format opened c next with
      | .ok l => .ok (none, .inside l)
      | .error e => .error e
    | frames =>
      -- a comment ends at the line feed, which is still to be dealt with
      if l.comment = true ∧ c ≠ '\n' then .ok (none, .inside l)
      else if c = '\n' ∧ frames = [] then .ok (some l.finish, .margin 0)
      else
        match stepCode { l with comment := false } line c next with
        | .ok l => .ok (none, .inside l)
        | .error e => .error e

/-- One step of the reader on a line with a number, at a character before others. -/
def step (m : Mode) (line : Nat) (c : Char) (next : List Char) :
    Except SyntaxError (Option LogicalLine × Mode) :=
  match m with
  | .margin column =>
    if c = ' ' then .ok (none, .margin (column + 1))
    else if c = '\t' then .ok (none, .margin ((column / 8 + 1) * 8))
    else if c = '\x0c' then .ok (none, .margin 0)
    else if c = '\n' then .ok (none, .margin 0)
    else if c = '#' then .ok (none, .remark)
    else stepInside (.start line column) line c next
  | .remark => if c = '\n' then .ok (none, .margin 0) else .ok (none, .remark)
  | .inside l => stepInside l line c next

/-- What the end of the source means where the reader stands. -/
def Mode.finish : Mode → Except SyntaxError (List LogicalLine)
  | .margin _ => .ok []
  | .remark => .ok []
  | .inside l =>
    match l.frames.findSome? OpenLine.unclosed? with
    | some e => .error e
    | none => .ok [l.finish]

/-- The logical lines of a source from some place on. -/
def lex (line : Nat) (m : Mode) : List Char → Except SyntaxError (List LogicalLine)
  | [] => m.finish
  | c :: next =>
    match step m line c next with
    | .error e => .error e
    | .ok (read, m) =>
      match lex (if c = '\n' then line + 1 else line) m next with
      | .error e => .error e
      | .ok lines => .ok (read.toList ++ lines)

/-- The logical lines of a source. -/
def tokenize (source : List Char) : Except SyntaxError (List LogicalLine) :=
  lex 1 (.margin 0) (Text.unifyBreaks source)

end StepTrace.Python
