import StepTrace.Json.Reader

/-!
# Strings of TOML

Four kinds of strings: with escapes or literal, on one line or on several. Each reader takes what
follows the opening quotes and gives what the string holds and what follows it.
-/

set_option autoImplicit false

namespace StepTrace.Toml

/-- A character that may stand for itself within a line. -/
def isPrintable (c : Char) : Bool := c == '\t' || (0x20 ≤ c.toNat && c.toNat != 0x7F)

/-- The character with a number, unless it is a surrogate or too large. -/
def scalar? (n : Nat) : Option Char :=
  if n < 0xD800 ∨ (0xE000 ≤ n ∧ n < 0x110000) then some (Char.ofNat n) else none

/-- The character that some hexadecimal digits number. -/
def hexScalar? (ds : List Char) : Option Char := do
  let values ← ds.mapM Json.hexDigit?
  scalar? (values.foldl (fun n d => n * 16 + d) 0)

/-- The character that a letter stands for after a backslash. -/
def escape? (c : Char) : Option Char :=
  if c = 'e' then some '\x1b'
  else if c = '/' then none
  else Json.shortEscape? c

/-- How many digits follow a letter that introduces the number of a character. -/
def escapeWidth (c : Char) : Nat :=
  if c = 'x' then 2 else if c = 'u' then 4 else if c = 'U' then 8 else 0

/-- The character after a backslash, and how many characters describe it. -/
def readEscape : List Char → Option (Char × Nat)
  | [] => none
  | c :: r =>
    match escapeWidth c with
    | 0 => (escape? c).map fun e => (e, 1)
    | width + 1 =>
      let ds := r.take (width + 1)
      if ds.length = width + 1 then (hexScalar? ds).map fun e => (e, width + 2) else none

/-- The rest of a string on one line with escapes; `skip` characters of it are part of an escape
that has been read. -/
def readBasic (skip : Nat) : List Char → Option (List Char × List Char)
  | [] => none
  | c :: r =>
    match skip with
    | k + 1 => readBasic k r
    | 0 =>
      if c = '\x22' then some ([], r)
      else if c = '\\' then
        match readEscape r with
        | none => none
        | some (e, width) => (readBasic width r).map fun p => (e :: p.1, p.2)
      else if isPrintable c then (readBasic 0 r).map fun p => (c :: p.1, p.2)
      else none

/-- The rest of a literal string on one line. -/
def readLiteral : List Char → Option (List Char × List Char)
  | [] => none
  | c :: r =>
    if c = '\x27' then some ([], r)
    else if isPrintable c then (readLiteral r).map fun p => (c :: p.1, p.2)
    else none

/-- How many quotes a text begins with. -/
def quotes (quote : Char) (s : List Char) : Nat := (s.takeWhile (· == quote)).length

/-- The end of a string on several lines: of the quotes there the last three close it, but at most
two belong to it. -/
def closeLong (quote : Char) (s : List Char) : Option (List Char × List Char) :=
  let n := quotes quote s
  if n < 3 then none
  else
    let inside := min (n - 3) 2
    some (List.replicate inside quote, s.drop (inside + 3))

/-- Where the reader of a string on several lines stands. -/
inductive LongMode where
  /-- In the text. -/
  | plain
  /-- In an escape of which some characters are left. -/
  | passing (skip : Nat)
  /-- After a backslash at the end of a line. -/
  | lineEnd
  /-- In the white space that such a backslash removes. -/
  | trimming
  deriving DecidableEq, Repr

/-- Whether a text begins with blanks and then a line break. -/
def beginsBreak (s : List Char) : Bool :=
  let r := s.dropWhile fun c => c == ' ' || c == '\t'
  r.head? == some '\n' || "\r\n".toList.isPrefixOf r

/-- The rest of a string on several lines with escapes. -/
def readLongBasic (mode : LongMode) : List Char → Option (List Char × List Char)
  | [] => none
  | c :: r =>
    let white := c == ' ' || c == '\t' || c == '\n' || (c == '\r' && r.head? == some '\n')
    match mode with
    | .passing (k + 1) => readLongBasic (if k = 0 then .plain else .passing k) r
    | .lineEnd => readLongBasic (if c = '\n' then .trimming else .lineEnd) r
    | mode =>
      if mode = .trimming ∧ white = true then readLongBasic .trimming r
      else if quotes '\x22' (c :: r) ≥ 3 then closeLong '\x22' (c :: r)
      else if c = '\\' then
        if beginsBreak r then readLongBasic .lineEnd r
        else
          match readEscape r with
          | none => none
          | some (e, width) => (readLongBasic (.passing width) r).map fun p => (e :: p.1, p.2)
      else if isPrintable c || white then (readLongBasic .plain r).map fun p => (c :: p.1, p.2)
      else none

/-- The rest of a literal string on several lines. -/
def readLongLiteral : List Char → Option (List Char × List Char)
  | [] => none
  | c :: r =>
    if quotes '\x27' (c :: r) ≥ 3 then closeLong '\x27' (c :: r)
    else if isPrintable c || c == '\n' || (c == '\r' && r.head? == some '\n') then
      (readLongLiteral r).map fun p => (c :: p.1, p.2)
    else none

/-- A text without the line break that it begins with. -/
def dropBreak : List Char → List Char
  | '\n' :: r => r
  | '\r' :: '\n' :: r => r
  | r => r

/-- A string, if a text begins with one. -/
def readQuoted : List Char → Option (List Char × List Char)
  | '\x22' :: '\x22' :: '\x22' :: r => readLongBasic .plain (dropBreak r)
  | '\x27' :: '\x27' :: '\x27' :: r => readLongLiteral (dropBreak r)
  | '\x22' :: r => readBasic 0 r
  | '\x27' :: r => readLiteral r
  | _ => none

end StepTrace.Toml
