import StepTrace.Host.Shell.Tool

/-!
# Conditions

The conditions that `test` decides: of texts, numbers and files, joined by `-a` and `-o`. A
condition that is not well formed has a message instead of a truth value.
-/

set_option autoImplicit false

namespace StepTrace.Host.Shell.Condition

/-- What can be asked of files of kinds that no disk here has. -/
def kindsNotKept : List String :=
  ["-b", "-c", "-g", "-h", "-k", "-L", "-p", "-S", "-u"]

/-- What is asked of one operand; none if the operator is not known. -/
def unary? (m : Machine) (operator : String) (operand : List Char) : Option Bool :=
  let entry := m.disk.find? m.shell.directory (Bytes.string operand)
  match operator with
  | "-n" => some (!operand.isEmpty)
  | "-z" => some operand.isEmpty
  | "-e" => some entry.isSome
  | "-f" => some (match entry with
    | some (.file _ _) => true
    | _ => false)
  | "-d" => some (entry == some .directory)
  | "-r" => some entry.isSome
  | "-w" => some entry.isSome
  | "-x" => some (match entry with
    | some (.file _ executable) => executable
    | some .directory => true
    | none => false)
  | "-s" => some (match entry with
    | some (.file (.data bytes) _) => !bytes.isEmpty
    | some _ => true
    | none => false)
  | _ => if kindsNotKept.contains operator then some false else none

/-- How an operator compares two files, of which no times are kept. -/
def files? (m : Machine) (operator : String) (a b : List Char) : Option Bool :=
  let place := fun (path : List Char) =>
    (m.disk.locate m.shell.directory (Bytes.string path)).filter fun p => (m.disk.at? p).isSome
  match operator with
  | "-nt" => some ((place a).isSome && (place b).isNone)
  | "-ot" => some ((place a).isNone && (place b).isSome)
  | "-ef" => some ((place a).isSome && place a == place b)
  | _ => none

/-- How an operator compares numbers. -/
def numeric? (operator : String) : Option (Int → Int → Bool) :=
  match operator with
  | "-eq" => some fun a b => a == b
  | "-ne" => some fun a b => a != b
  | "-lt" => some fun a b => a < b
  | "-le" => some fun a b => a ≤ b
  | "-gt" => some fun a b => a > b
  | "-ge" => some fun a b => a ≥ b
  | _ => none

/-- A number with blanks around it. -/
def number (s : List Char) : Except String Int :=
  let blank := fun c => c == ' ' || c == '\t' || c == '\n'
  let t := ((s.dropWhile blank).reverse.dropWhile blank).reverse
  let t := match t with
    | '+' :: r => r
    | t => t
  match Tool.integer? t with
  | some n => .ok n
  | none => .error ("Illegal number: " ++ Bytes.string s)

/-- What is asked of two operands; none if the operator is not known. -/
def binary? (m : Machine) (operator : String) (a b : List Char) : Option (Except String Bool) :=
  match operator with
  | "=" => some (.ok (a == b))
  | "!=" => some (.ok (a != b))
  | "<" => some (.ok (a < b))
  | ">" => some (.ok (b < a))
  | _ =>
    match files? m operator a b with
    | some value => some (.ok value)
    | none =>
      (numeric? operator).map fun compare => do
        let x ← number a
        let y ← number b
        return compare x y

/-- The message about a condition that goes on after some words. -/
def unexpected (words : List (List Char)) : String :=
  Bytes.string (words.getLast?.getD []) ++ ": unexpected operator"

mutual

/-- A condition whose parts are joined by `-o`. -/
def readEither (m : Machine) : Nat → List (List Char) → Except String (Bool × List (List Char))
  | 0, _ => .error "too deep"
  | fuel + 1, s => do
    let (a, r) ← readBoth m fuel s
    match r with
    | ['-', 'o'] :: r =>
      let (b, r) ← readEither m fuel r
      return (a || b, r)
    | _ => return (a, r)

/-- A condition whose parts are joined by `-a`. -/
def readBoth (m : Machine) : Nat → List (List Char) → Except String (Bool × List (List Char))
  | 0, _ => .error "too deep"
  | fuel + 1, s => do
    let (a, r) ← readOne m fuel s
    match r with
    | ['-', 'a'] :: r =>
      let (b, r) ← readBoth m fuel r
      return (a && b, r)
    | _ => return (a, r)

/-- A condition without such parts. -/
def readOne (m : Machine) : Nat → List (List Char) → Except String (Bool × List (List Char))
  | 0, _ => .error "too deep"
  | fuel + 1, s => do
    match s with
    | [] => return (false, [])
    | [a] => return (!a.isEmpty, [])
    | a :: op :: rest =>
      match rest with
      | b :: r =>
        match binary? m (Bytes.string op) a b with
        | some result => return (← result, r)
        | none => readPlain m fuel a op rest
      | [] =>
        if (binary? m (Bytes.string op) a a).isSome then
          .error (Bytes.string op ++ ": argument expected")
        else readPlain m fuel a op rest

/-- A condition that does not compare. -/
def readPlain (m : Machine) : Nat → List Char → List Char → List (List Char) →
    Except String (Bool × List (List Char))
  | 0, _, _, _ => .error "too deep"
  | fuel + 1, a, b, rest => do
    if a = ['!'] then
      let (value, r) ← readOne m fuel (b :: rest)
      return (!value, r)
    else if a = ['('] then
      let (value, r) ← readEither m fuel (b :: rest)
      match r with
      | [')'] :: r => return (value, r)
      | _ => .error "closing paren expected"
    else if a = ['-', 't'] then
      -- no descriptor leads to a terminal
      let _ ← number b
      return (false, rest)
    else
      match unary? m (Bytes.string a) b with
      | some value => return (value, rest)
      | none => return (!a.isEmpty, b :: rest)

end

/-- Whether a condition holds. -/
def holds (m : Machine) (s : List (List Char)) : Except String Bool := do
  if s.isEmpty then return false
  match ← readEither m (4 * s.length + 4) s with
  | (value, []) => return value
  | (_, extra) => .error (unexpected (s.take (s.length - extra.length)))

/-- The status of `test` for a condition. -/
def test (s : List (List Char)) : Action Nat := do
  match holds (← get) s with
  | .ok true => return 0
  | .ok false => return 1
  | .error message => fail message

end StepTrace.Host.Shell.Condition
