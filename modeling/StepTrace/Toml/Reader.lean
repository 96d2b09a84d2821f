import StepTrace.Text.Span
import StepTrace.Toml.Quoted
import StepTrace.Toml.Scalar
import StepTrace.Toml.Table

/-!
# Reading TOML

`Toml.parse?` reads a document as data. The readers carry fuel that the length of the input bounds:
every two calls consume a character.
-/

set_option autoImplicit false

namespace StepTrace.Toml

/-- How deep arrays and inline tables may nest. -/
def maxDepth : Nat := 80

/-- How many parts a dotted name may have. -/
def maxParts : Nat := 80

/-- A text without the blanks of a line that it begins with. -/
def skipBlanks (s : List Char) : List Char := s.dropWhile fun c => c == ' ' || c == '\t'

/-- Passes over a comment up to the line break after it. -/
def skipComment : List Char → Option (List Char)
  | [] => some []
  | c :: r =>
    if c = '\n' then some (c :: r)
    else if c = '\r' ∧ r.head? = some '\n' then some (c :: r)
    else if isPrintable c then skipComment r
    else none

/-- Passes over the end of a line: blanks, perhaps a comment, and a line break or the end of the
text. -/
def skipLineEnd (s : List Char) : Option (List Char) := do
  let s := skipBlanks s
  let s ← if s.head? = some '#' then skipComment s else some s
  match s with
  | [] => some []
  | '\n' :: r => some r
  | '\r' :: '\n' :: r => some r
  | _ => none

/-- Passes over blanks, comments and line breaks. -/
def skipSpace (inComment : Bool) : List Char → Option (List Char)
  | [] => some []
  | c :: r =>
    if c = '\n' then skipSpace false r
    else if c = '\r' then if r.head? = some '\n' then skipSpace inComment r else none
    else if inComment then if isPrintable c then skipSpace true r else none
    else if c = '#' then skipSpace true r
    else if c = ' ' ∨ c = '\t' then skipSpace false r
    else some (c :: r)

/-- A character of a name without quotes. -/
def isBare (c : Char) : Bool := c.isAlphanum || c == '_' || c == '-'

/-- One part of a name. -/
def readNamePart (s : List Char) : Option (String × List Char) :=
  match s with
  | '\x22' :: r => (readBasic 0 r).map fun p => (String.ofList p.1, p.2)
  | '\x27' :: r => (readLiteral r).map fun p => (String.ofList p.1, p.2)
  | s =>
    let (word, rest) := s.span isBare
    if word.isEmpty then none else some (String.ofList word, rest)

/-- A dotted name of at most so many parts: those before the last, and the last. -/
def readParts : Nat → List Char → Option ((List String × String) × List Char)
  | 0, _ => none
  | left + 1, s => do
    let (part, s) ← readNamePart (skipBlanks s)
    match skipBlanks s with
    | '.' :: r =>
      let ((path, last), s) ← readParts left r
      return ((part :: path, last), s)
    | s => return (([], part), s)

/-- A dotted name, and the blanks after it. -/
def readName (s : List Char) : Option ((List String × String) × List Char) := readParts maxParts s

mutual

/-- A value, with `depth` levels left. -/
def readValue : Nat → Nat → List Char → Option (Json × List Char)
  | 0, _, _ => none
  | fuel + 1, depth, s =>
    match s with
    | '[' :: r =>
      if depth = 0 then none
      else (readItems fuel (depth - 1) r).map fun p => (.array p.1, p.2)
    | '\x7b' :: r =>
      if depth = 0 then none
      else (readFields fuel (depth - 1) [] r).map fun p => (.object (membersToJson p.1), p.2)
    | c :: r =>
      if c = '\x22' ∨ c = '\x27' then
        (readQuoted (c :: r)).map fun p => (.string (String.ofList p.1), p.2)
      else
        let (word, rest) := spanScalar (c :: r)
        (readScalar word).map fun j => (j, rest)
    | [] => none

/-- The rest of an array. -/
def readItems : Nat → Nat → List Char → Option (List Json × List Char)
  | 0, _, _ => none
  | fuel + 1, depth, s => do
    match ← skipSpace false s with
    | ']' :: r => return ([], r)
    | s =>
      let (j, s) ← readValue fuel depth s
      match ← skipSpace false s with
      | ']' :: r => return ([j], r)
      | ',' :: r =>
        let (js, s) ← readItems fuel depth r
        return (j :: js, s)
      | _ => none

/-- The rest of an inline table after some members. -/
def readFields : Nat → Nat → Members → List Char → Option (Members × List Char)
  | 0, _, _, _ => none
  | fuel + 1, depth, members, s => do
    match ← skipSpace false s with
    | '\x7d' :: r => return (members, r)
    | s =>
      -- a line may end before and after the sign
      let ((path, name), s) ← readName s
      let '=' :: s ← skipSpace false s | none
      let (j, s) ← readValue fuel depth (← skipSpace false s)
      let members ← assign path name j members
      match ← skipSpace false s with
      | '\x7d' :: r => return (members, r)
      | ',' :: r => readFields fuel depth members r
      | _ => none

end

/-- A header with its closing brackets, and the end of its line. -/
def readHeader (closing : List Char) (s : List Char) :
    Option ((List String × String) × List Char) := do
  let (name, s) ← readName s
  let s ← Text.dropLeading? closing s
  return (name, ← skipLineEnd s)

/-- The lines of a document from somewhere on, below a header. -/
def readLines : Nat → List String → Members → List Char → Option Members
  | 0, _, _, _ => none
  | fuel + 1, header, root, s =>
    match skipBlanks s with
    | [] => some root
    | '[' :: '[' :: r => do
      let ((path, name), s) ← readHeader "]]".toList r
      readLines fuel (path ++ [name]) (← openArray path name root) s
    | '[' :: r => do
      let ((path, name), s) ← readHeader "]".toList r
      readLines fuel (path ++ [name]) (← openTable path name root) s
    | c :: r =>
      if c = '\n' ∨ c = '\r' ∨ c = '#' then (skipLineEnd (c :: r)).bind (readLines fuel header root)
      else do
        let ((path, name), s) ← readName (c :: r)
        let '=' :: s := s | none
        let (j, s) ← readValue (fuel + 1) maxDepth (skipBlanks s)
        let root ← within header (assign path name j) root
        readLines fuel header root (← skipLineEnd s)

/-- A text without a byte order mark at its start. -/
def dropMark : List Char → List Char
  | '\ufeff' :: r => r
  | r => r

/-- The data that a document describes. -/
def parse? (s : List Char) : Option Json :=
  let s := dropMark s
  (readLines (2 * s.length + 2) [] [] s).map fun members => .object (membersToJson members)

end StepTrace.Toml
