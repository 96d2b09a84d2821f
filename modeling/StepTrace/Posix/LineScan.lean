import StepTrace.Text.Blank

/-!
# Scanning a line of a shell script

A machine that reads one line of a script one character at a time and follows quotes, parentheses
and the delimiters of here-documents. It stops at a comment. A step may look at the next two
characters and take them along; the machine then passes over them.
-/

set_option autoImplicit false

namespace StepTrace.Posix

/-- The quotes that a place in a script stands in. -/
inductive Quoting where
  | bare
  | single
  | double
  deriving DecidableEq, Repr, Inhabited

/-- The word that ends a here-document, and whether tabs before it are passed over. -/
structure Delimiter where
  word : List Char
  stripTabs : Bool
  deriving DecidableEq, Repr

/-- How far the delimiter of a here-document has been read. -/
inductive DelimiterPart where
  /-- A dash may follow. -/
  | dash
  /-- Blanks may follow. -/
  | blanks (stripTabs : Bool)
  /-- Part of the word has been read, the last character first. -/
  | word (stripTabs : Bool) (read : List Char)
  deriving DecidableEq, Repr

/-- The state of the scan within a line. -/
structure LineScan where
  quoting : Quoting
  parens : Nat
  heredocs : List Delimiter
  /-- The character before the next one. -/
  previous : Char
  /-- How many characters to pass over. -/
  skip : Nat
  /-- The delimiter that is being read. -/
  delimiter : Option DelimiterPart
  /-- Whether a comment has started. -/
  comment : Bool
  /-- Whether the line ended in a backslash that escapes. -/
  escaped : Bool
  deriving DecidableEq, Repr

namespace LineScan

/-- The scan at the start of a line. -/
def start (quoting : Quoting) (parens : Nat) (heredocs : List Delimiter) : LineScan :=
  ⟨quoting, parens, heredocs, ' ', 0, none, false, false⟩

/-- The scan after a character without further effect. -/
def past (s : LineScan) (c : Char) : LineScan := { s with previous := c }

/-- The scan after a backslash. -/
def escape (s : LineScan) (next : List Char) : LineScan :=
  match next with
  | [] => { s with escaped := true }
  | e :: _ => { s with skip := 1, previous := e }

/-- The scan with one more here-document, unless its delimiter is empty. -/
def expect (s : LineScan) (stripTabs : Bool) (read : List Char) : LineScan :=
  { s with
    delimiter := none
    previous := ' '
    heredocs := if read.isEmpty then s.heredocs else s.heredocs ++ [⟨read.reverse, stripTabs⟩] }

/-- A step outside quotes. -/
def stepBare (s : LineScan) (c : Char) (next : List Char) : LineScan :=
  if c = '\\' then s.escape next
  else if c = '\x27' then { s with quoting := .single }.past c
  else if c = '\x22' then { s with quoting := .double }.past c
  else if c = '#' ∧ (Text.isBlank s.previous = true ∨ s.previous = ';') then
    { s with comment := true }
  else if c = '(' then { s with parens := s.parens + 1 }.past c
  else if c = ')' then { s with parens := s.parens - 1 }.past c
  else if c = '<' ∧ next.head? = some '<' then
    -- three signs hand over a string, two open a here-document
    if next.tail.head? = some '<' then { s with skip := 2, previous := '<' }
    else { s with skip := 1, delimiter := some .dash }
  else s.past c

/-- A step within the quotes that the scan stands in. -/
def stepQuoted (s : LineScan) (c : Char) (next : List Char) : LineScan :=
  match s.quoting with
  | .bare => s.stepBare c next
  | .single => if c = '\x27' then { s with quoting := .bare }.past c else s.past c
  | .double =>
    if c = '\\' then s.escape next
    else if c = '\x22' then { s with quoting := .bare }.past c
    else s.past c

/-- Whether a character ends the word of a delimiter. -/
def endsDelimiter (c : Char) : Bool := Text.isBlank c || ";|&<>)".toList.contains c

/-- A step in the word of a delimiter. -/
def stepWord (s : LineScan) (stripTabs : Bool) (read : List Char) (c : Char)
    (next : List Char) : LineScan :=
  if c = '\x27' ∨ c = '\x22' ∨ c = '\\' then { s with delimiter := some (.word stripTabs read) }
  -- the character behind the word is code again
  else if endsDelimiter c then (s.expect stripTabs read).stepBare c next
  else { s with delimiter := some (.word stripTabs (c :: read)) }

/-- A step before the word of a delimiter. -/
def stepBlanks (s : LineScan) (stripTabs : Bool) (c : Char) (next : List Char) : LineScan :=
  if Text.isBlank c then { s with delimiter := some (.blanks stripTabs) }
  else s.stepWord stripTabs [] c next

/-- One step of the scan at a character before others. -/
def step (s : LineScan) (c : Char) (next : List Char) : LineScan :=
  if s.comment || s.escaped then s
  else
    match s.skip with
    | k + 1 => { s with skip := k }
    | 0 =>
      match s.delimiter with
      | none => s.stepQuoted c next
      | some .dash =>
        if c = '-' then { s with delimiter := some (.blanks true) } else s.stepBlanks false c next
      | some (.blanks stripTabs) => s.stepBlanks stripTabs c next
      | some (.word stripTabs read) => s.stepWord stripTabs read c next

/-- The scan at the end of a line. -/
def finish (s : LineScan) : LineScan :=
  match s.delimiter with
  | some (.word stripTabs read) => s.expect stripTabs read
  | some _ => { s with delimiter := none }
  | none => s

/-- The scan of a line. -/
def run (s : LineScan) : List Char → LineScan
  | [] => s.finish
  | c :: next => run (s.step c next) next

end LineScan

end StepTrace.Posix
