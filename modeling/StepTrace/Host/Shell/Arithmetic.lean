import StepTrace.Text.Numeral

/-!
# Arithmetic of a shell

Expressions over signed words of 64 bits. A name stands for the number that its variable holds.
`Expression.read` reads a text, `Expression.value` computes; assignments are collected in the order
in which they happen. A place where the text is wrong is a part of the expression, so that it counts
only if nothing before it has failed.
-/

set_option autoImplicit false

namespace StepTrace.Host.Shell

/-- Why an expression has no value. -/
inductive Fault where
  | divisionByZero
  | illegalNumber (text : List Char)
  /-- What the text of the expression lacks at some place. -/
  | expecting (what : String)
  deriving DecidableEq, Repr, Inhabited

/-- An expression. -/
inductive Expression where
  | number (n : Int)
  | name (text : List Char)
  | unary (operator : String) (operand : Expression)
  | binary (operator : String) (left right : Expression)
  | choice (condition yes no : Expression)
  /-- Gives a name the value, after an operation on the old value if there is one. -/
  | assign (name : List Char) (operator : String) (value : Expression)
  /-- A place where the text is wrong. -/
  | wrong (fault : Fault)
  /-- An expression behind which the text is wrong. -/
  | spoiled (before : Expression) (fault : Fault)
  deriving Repr, Inhabited

namespace Expression

/-- A token of an expression. -/
inductive Symbol where
  | number (n : Int)
  | name (text : List Char)
  | operator (text : String)
  deriving DecidableEq, Repr, Inhabited

/-- The operators, longer ones first. -/
def operators : List String :=
  ["<<=", ">>=", "&&", "||", "<=", ">=", "==", "!=", "<<", ">>", "+=", "-=", "*=", "/=", "%=", "&=",
    "|=", "^=", "+", "-", "*", "/", "%", "(", ")", "<", ">", "!", "~", "&", "|", "^", "?", ":", "="]

/-- The digit of some base that a character is. -/
def digit? (base : Nat) (c : Char) : Option Nat :=
  let d :=
    if c.isDigit then c.toNat - 48
    else if c.isLower then c.toNat - 87
    else if c.isUpper then c.toNat - 55
    else base
  if d < base then some d else none

/-- The number that the digits of some base at the start of a text spell, and what follows them. -/
def readDigits (base n : Nat) : List Char → Nat × List Char
  | [] => (n, [])
  | c :: r =>
    match digit? base c with
    | some d => readDigits base (n * base + d) r
    | none => (n, c :: r)

/-- The number at the start of a text that begins with a digit, and what follows it: octal after a
zero, hexadecimal after a zero and an `x`. -/
def readNumeral (s : List Char) : Nat × List Char :=
  match s with
  | '0' :: x :: c :: r =>
    if (x = 'x' ∨ x = 'X') ∧ (digit? 16 c).isSome then readDigits 16 0 (c :: r)
    else readDigits 8 0 s
  | '0' :: _ => readDigits 8 0 s
  | s => readDigits 10 0 s

/-- The greatest signed word. -/
def greatest : Int := Nat.pow 2 63 - 1

/-- The signed word next to a number. -/
def clamp (n : Int) : Int := max (-greatest - 1) (min n greatest)

/-- Whether a character belongs to a name. -/
def isWordPart (c : Char) : Bool := c.isAlphanum || c == '_'

/-- The tokens of a text; a character that none can begin with stands for itself. -/
def symbols : Nat → List Char → List Symbol
  | 0, _ => []
  | _ + 1, [] => []
  | fuel + 1, c :: r =>
    if c = ' ' ∨ c = '\t' ∨ c = '\n' then symbols fuel r
    else if c.isDigit then
      let (n, rest) := readNumeral (c :: r)
      .number (clamp n) :: symbols fuel rest
    else if isWordPart c then
      let word := (c :: r).takeWhile isWordPart
      .name word :: symbols fuel ((c :: r).drop word.length)
    else
      match operators.find? fun op => op.toList.isPrefixOf (c :: r) with
      | some op => .operator op :: symbols fuel ((c :: r).drop op.length)
      | none => .operator (String.ofList [c]) :: symbols fuel r

/-- How strongly a binary operator binds. -/
def strength? (operator : String) : Option Nat :=
  match operator with
  | "||" => some 1
  | "&&" => some 2
  | "|" => some 3
  | "^" => some 4
  | "&" => some 5
  | "==" => some 6
  | "!=" => some 6
  | "<" => some 7
  | ">" => some 7
  | "<=" => some 7
  | ">=" => some 7
  | "<<" => some 8
  | ">>" => some 8
  | "+" => some 9
  | "-" => some 9
  | "*" => some 10
  | "/" => some 10
  | "%" => some 10
  | _ => none

/-- The operation that an assignment does on the old value. -/
def assignment? (operator : String) : Option String :=
  if operator = "=" then some ""
  else if ["<<=", ">>=", "+=", "-=", "*=", "/=", "%=", "&=", "|=", "^="].contains operator then
    some (String.ofList operator.toList.dropLast)
  else none

mutual

/-- An expression with its assignments and choices, and what follows. -/
def readFull : Nat → List Symbol → Expression × List Symbol
  | 0, _ => (.wrong (.expecting "primary"), [])
  | fuel + 1, s =>
    match s with
    | .name text :: .operator op :: r =>
      match assignment? op with
      | some op =>
        let (value, r) := readFull fuel r
        (.assign text op value, r)
      | none => readChoice fuel s
    | _ => readChoice fuel s

/-- An expression that may be a choice, and what follows. -/
def readChoice : Nat → List Symbol → Expression × List Symbol
  | 0, _ => (.wrong (.expecting "primary"), [])
  | fuel + 1, s =>
    let (left, r) := readUnary fuel s
    let (condition, r) := readBinary fuel 0 left r
    match r with
    | .operator "?" :: r =>
      let (yes, r) := readFull fuel r
      match r with
      | .operator ":" :: r =>
        let (no, r) := readChoice fuel r
        (.choice condition yes no, r)
      | _ => (.choice condition (.spoiled yes (.expecting "\x27:\x27")) (.number 0), [])
    | _ => (condition, r)

/-- The operations on a left operand that bind more strongly than some bound, and what follows. -/
def readBinary : Nat → Nat → Expression → List Symbol → Expression × List Symbol
  | 0, _, left, _ => (.spoiled left (.expecting "primary"), [])
  | fuel + 1, bound, left, s =>
    match s with
    | .operator op :: r =>
      match strength? op with
      | none => (left, s)
      | some strength =>
        if strength ≤ bound then (left, s)
        else
          let (right, r) := readUnary fuel r
          let (right, r) := readBinary fuel strength right r
          readBinary fuel bound (.binary op left right) r
    | _ => (left, s)

/-- An operand, and what follows. -/
def readUnary : Nat → List Symbol → Expression × List Symbol
  | 0, _ => (.wrong (.expecting "primary"), [])
  | fuel + 1, s =>
    match s with
    | .number n :: r => (.number n, r)
    | .name text :: r => (.name text, r)
    | .operator "(" :: r =>
      let (e, r) := readFull fuel r
      match r with
      | .operator ")" :: r => (e, r)
      | _ => (.spoiled e (.expecting "\x27)\x27"), [])
    | .operator op :: r =>
      if ["+", "-", "!", "~"].contains op then
        let (e, r) := readUnary fuel r
        (.unary op e, r)
      else (.wrong (.expecting "primary"), [])
    | [] => (.wrong (.expecting "primary"), [])

end

/-- The expression that a text spells. -/
def read (s : List Char) : Expression :=
  let tokens := symbols (s.length + 1) s
  match readFull (4 * tokens.length + 4) tokens with
  | (e, []) => e
  | (e, _) => .spoiled e (.expecting "EOF")

/-- A number as a signed word. -/
def wrap (n : Int) : Int := Int.bmod n (Nat.pow 2 64)

/-- A truth value as a number. -/
def ofBool (b : Bool) : Int := if b then 1 else 0

/-- The bits of a signed word. -/
def bits (n : Int) : Nat := (n % Nat.pow 2 64).toNat

/-- The outcome of a binary operation; none where it divides by zero. -/
def operate? (operator : String) (a b : Int) : Option Int :=
  match operator with
  | "+" => some (wrap (a + b))
  | "-" => some (wrap (a - b))
  | "*" => some (wrap (a * b))
  | "/" => if b = 0 then none else some (wrap (a.tdiv b))
  | "%" => if b = 0 then none else some (wrap (a.tmod b))
  | "==" => some (ofBool (a == b))
  | "!=" => some (ofBool (a != b))
  | "<" => some (ofBool (a < b))
  | ">" => some (ofBool (a > b))
  | "<=" => some (ofBool (a ≤ b))
  | ">=" => some (ofBool (a ≥ b))
  | "<<" => some (wrap (a * Nat.pow 2 (bits b % 64)))
  | ">>" => some (a.fdiv (Nat.pow 2 (bits b % 64)))
  | "&" => some (wrap (bits a &&& bits b))
  | "|" => some (wrap (bits a ||| bits b))
  | "^" => some (wrap (bits a ^^^ bits b))
  | _ => some b

/-- Variables and their numbers that have been assigned, the latest first. -/
abbrev Assigned := List (List Char × Int)

/-- White space around a number. -/
def isWhite (c : Char) : Bool := c == ' ' || ('\t' ≤ c && c ≤ '\x0d')

/-- The number that the value of a variable spells; a blank one spells zero. -/
def spelled (text : List Char) : Except Fault Int :=
  let body := text.dropWhile isWhite
  let (negative, digits) := match body with
    | '-' :: r => (true, r)
    | '+' :: r => (false, r)
    | s => (false, s)
  let (n, rest) := readNumeral digits
  let n : Int := if negative then -(n : Int) else n
  if body.isEmpty then .ok 0
  else if digits.head?.any Char.isDigit && rest.all isWhite && clamp n == n then .ok n
  else .error (.illegalNumber text)

/-- The number that a variable holds. -/
def numberOf? (lookup : List Char → List Char) (assigned : Assigned) (name : List Char) :
    Except Fault Int :=
  match assigned.find? fun a => a.1 == name with
  | some a => .ok a.2
  | none => spelled (lookup name)

/-- An operation that fails where it divides by zero. -/
def operate (operator : String) (a b : Int) : Except Fault Int :=
  match operate? operator a b with
  | some n => .ok n
  | none => .error .divisionByZero

/-- Whether the right operand has no part in the value once the left one is known. -/
def isDecided (operator : String) (left : Int) : Bool :=
  (operator == "&&" && left == 0) || (operator == "||" && left != 0)

/-- The value of an expression, and the assignments that were done. What is passed over does nothing
but has to be well formed. -/
def value (lookup : List Char → List Char) (skip : Bool) (assigned : Assigned) :
    Expression → Except Fault (Int × Assigned)
  | .number n => .ok (n, assigned)
  | .name text =>
    if skip then .ok (0, assigned)
    else (numberOf? lookup assigned text).map fun n => (n, assigned)
  | .unary op e => do
    let (n, assigned) ← e.value lookup skip assigned
    match op with
    | "-" => return (wrap (-n), assigned)
    | "!" => return (ofBool (n == 0), assigned)
    | "~" => return (-n - 1, assigned)
    | _ => return (n, assigned)
  | .binary op a b => do
    let (x, assigned) ← a.value lookup skip assigned
    let (y, assigned) ← b.value lookup (skip || isDecided op x) assigned
    if skip then return (y, assigned)
    if op = "&&" then return (ofBool (x != 0 && y != 0), assigned)
    if op = "||" then return (ofBool (x != 0 || y != 0), assigned)
    return (← operate op x y, assigned)
  | .choice c a b => do
    let (n, assigned) ← c.value lookup skip assigned
    let (yes, assigned) ← a.value lookup (skip || n == 0) assigned
    let (no, assigned) ← b.value lookup (skip || n != 0) assigned
    return (if n ≠ 0 then yes else no, assigned)
  | .assign target op e => do
    let (n, assigned) ← e.value lookup skip assigned
    if skip then return (n, assigned)
    let n ← if op.isEmpty then pure n else operate op (← numberOf? lookup assigned target) n
    return (n, (target, n) :: assigned)
  | .wrong fault => .error fault
  | .spoiled e fault => do
    let _ ← e.value lookup skip assigned
    throw fault

end Expression

end StepTrace.Host.Shell
