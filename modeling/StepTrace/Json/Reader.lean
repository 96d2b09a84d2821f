import StepTrace.Json.Basic

/-!
# Reading JSON

`Json.parse?` reads one document and nothing after it. A string holds no control character. It is
first split into units, the well-formed parts of its spelling, and then put together from them; only
the second step fails on half a surrogate pair, and makes the string unreadable instead of the whole
document. The reader carries fuel that the length of its input bounds: every two calls consume a
character.
-/

set_option autoImplicit false

namespace StepTrace.Json

/-- White space between the parts of a document. -/
def isSpace (c : Char) : Bool := c == ' ' || c == '\n' || c == '\t' || c == '\r'

/-- A text without the white space it begins with. -/
def skipSpace (s : List Char) : List Char := s.dropWhile isSpace

/-- The value of a hexadecimal digit. -/
def hexDigit? (c : Char) : Option Nat :=
  let n := c.toNat
  if 48 ≤ n ∧ n ≤ 57 then some (n - 48)
  else if 97 ≤ n ∧ n ≤ 102 then some (n - 87)
  else if 65 ≤ n ∧ n ≤ 70 then some (n - 55)
  else none

/-- The value of four hexadecimal digits. -/
def hex4? (a b c d : Char) : Option Nat := do
  let a ← hexDigit? a
  let b ← hexDigit? b
  let c ← hexDigit? c
  let d ← hexDigit? d
  return ((a * 16 + b) * 16 + c) * 16 + d

/-- The first of two surrogates. -/
def isHighSurrogate (n : Nat) : Bool := 0xD800 ≤ n && n < 0xDC00

/-- The second of two surrogates. -/
def isLowSurrogate (n : Nat) : Bool := 0xDC00 ≤ n && n < 0xE000

/-- The character that a letter stands for after a backslash. -/
def shortEscape? (c : Char) : Option Char :=
  if c = '\x22' then some '\x22'
  else if c = '\\' then some '\\'
  else if c = '/' then some '/'
  else if c = 'b' then some '\x08'
  else if c = 'f' then some '\x0c'
  else if c = 'n' then some '\n'
  else if c = 'r' then some '\r'
  else if c = 't' then some '\t'
  else none

/-- A part of the spelling of a string. -/
inductive StringUnit where
  /-- A character, as it is or by a letter after a backslash. -/
  | char (c : Char)
  /-- The number of a character or of half a surrogate pair. -/
  | code (n : Nat)
  deriving DecidableEq, Repr

/-- The rest of a string after its opening quote: its units, and what follows it. -/
def readUnits : List Char → Option (List StringUnit × List Char)
  | [] => none
  | c :: r =>
    if c = '\x22' then some ([], r)
    else if c = '\\' then
      match r with
      | 'u' :: a :: b :: c :: d :: r =>
        match hex4? a b c d with
        | none => none
        | some n => (readUnits r).map fun p => (.code n :: p.1, p.2)
      | e :: r =>
        match shortEscape? e with
        | none => none
        | some e => (readUnits r).map fun p => (.char e :: p.1, p.2)
      | [] => none
    else if c.toNat < 0x20 then none
    else (readUnits r).map fun p => (.char c :: p.1, p.2)

/-- The character that two surrogates stand for. -/
def ofSurrogates (high low : Nat) : Char :=
  Char.ofNat (0x10000 + (high - 0xD800) * 0x400 + (low - 0xDC00))

/-- The characters that units stand for, unless a surrogate has no partner. -/
def ofUnits? : List StringUnit → Option (List Char)
  | [] => some []
  | .char c :: r => (ofUnits? r).map (c :: ·)
  | .code n :: r =>
    if isLowSurrogate n then none
    else if isHighSurrogate n then
      match r with
      | .code m :: r => if isLowSurrogate m then (ofUnits? r).map (ofSurrogates n m :: ·) else none
      | _ => none
    else (ofUnits? r).map (Char.ofNat n :: ·)

/-- The text of a string after its opening quote, if it stands for one, and what follows it. -/
def readText (s : List Char) : Option (Option String × List Char) :=
  (readUnits s).map fun p => ((ofUnits? p.1).map String.ofList, p.2)

/-- The string with a text. -/
def ofText : Option String → Json
  | some text => .string text
  | none => .unreadable

/-- The object with some members, if each of them has a name. -/
def ofMembers (members : List (Option String × Json)) : Json :=
  match members.mapM fun m => m.1.map fun name => (name, m.2) with
  | some members => .object members
  | none => .unreadable

/-- The digits that a text begins with, and what follows them. -/
def spanDigits (s : List Char) : List Char × List Char := s.span Char.isDigit

/-- The fraction of a number: empty, or a point and at least one digit. -/
def readFraction : List Char → Option (List Char × List Char)
  | '.' :: r =>
    let (ds, r) := spanDigits r
    if ds.isEmpty then none else some ('.' :: ds, r)
  | r => some ([], r)

/-- The exponent of a number: empty, or a letter, perhaps a sign, and at least one digit. -/
def readExponent : List Char → Option (List Char × List Char)
  | [] => some ([], [])
  | e :: r =>
    if e = 'e' ∨ e = 'E' then
      let (sign, r) := match r with
        | '+' :: r => (['+'], r)
        | '-' :: r => (['-'], r)
        | r => ([], r)
      let (ds, r) := spanDigits r
      if ds.isEmpty then none else some (e :: sign ++ ds, r)
    else some ([], e :: r)

/-- A number, and what follows it. No digit may follow a zero that a number begins with. -/
def readNumber (s : List Char) : Option (Json × List Char) :=
  let (sign, r) := match s with
    | '-' :: r => (true, r)
    | r => (false, r)
  let (whole, r) := spanDigits r
  if whole.isEmpty || (whole.head? == some '0' && whole.length > 1) then none
  else do
    let (fraction, r) ← readFraction r
    let (exponent, r) ← readExponent r
    let n := Text.digitValue whole
    if fraction.isEmpty && exponent.isEmpty && !(sign && n == 0) then
      return (.integer (if sign then -(n : Int) else n), r)
    else
      return (.real (String.ofList (if sign then '-' :: whole ++ fraction ++ exponent
        else whole ++ fraction ++ exponent)), r)

mutual

/-- A value, and what follows it. -/
def readValue : Nat → List Char → Option (Json × List Char)
  | 0, _ => none
  | fuel + 1, s =>
    match skipSpace s with
    | 'n' :: 'u' :: 'l' :: 'l' :: r => some (.null, r)
    | 't' :: 'r' :: 'u' :: 'e' :: r => some (.bool true, r)
    | 'f' :: 'a' :: 'l' :: 's' :: 'e' :: r => some (.bool false, r)
    | c :: r =>
      if c = '\x22' then (readText r).map fun p => (ofText p.1, p.2)
      else if c = '[' then
        match skipSpace r with
        | ']' :: r => some (.array [], r)
        | r => (readItems fuel r).map fun p => (.array p.1, p.2)
      else if c = '\x7b' then
        match skipSpace r with
        | '\x7d' :: r => some (.object [], r)
        | r => (readMembers fuel r).map fun p => (ofMembers p.1, p.2)
      else readNumber (c :: r)
    | [] => none

/-- The items of an array that is not empty, up to its closing bracket. -/
def readItems : Nat → List Char → Option (List Json × List Char)
  | 0, _ => none
  | fuel + 1, s => do
    let (item, r) ← readValue fuel s
    match skipSpace r with
    | ',' :: r => (readItems fuel r).map fun p => (item :: p.1, p.2)
    | ']' :: r => some ([item], r)
    | _ => none

/-- The members of an object that is not empty, up to its closing brace. -/
def readMembers : Nat → List Char → Option (List (Option String × Json) × List Char)
  | 0, _ => none
  | fuel + 1, s =>
    match skipSpace s with
    | '\x22' :: r => do
      let (name, r) ← readText r
      match skipSpace r with
      | ':' :: r => do
        let (value, r) ← readValue fuel r
        match skipSpace r with
        | ',' :: r => (readMembers fuel r).map fun p => ((name, value) :: p.1, p.2)
        | '\x7d' :: r => some ([(name, value)], r)
        | _ => none
      | _ => none
    | _ => none

end

/-- The document that a text is. -/
def parse? (s : List Char) : Option Json :=
  match readValue (2 * s.length + 2) s with
  | some (j, r) => if (skipSpace r).isEmpty then some j else none
  | none => none

end StepTrace.Json
