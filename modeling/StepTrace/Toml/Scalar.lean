import StepTrace.Json.Basic
import StepTrace.Moment

/-!
# Numbers and dates of TOML

What a word without quotes means: a truth value, an integer in one of four bases, a real number, or
a date with or without a time of day. Digits may be set apart by single low lines. A date is an
object with one member, which holds its text (`dateMember`).
-/

set_option autoImplicit false

namespace StepTrace.Toml

/-- Digits of some kind without the low lines between them. -/
def readGroups (isDigit : Char → Bool) (afterDigit : Bool) : List Char → Option (List Char)
  | [] => if afterDigit then some [] else none
  | c :: r =>
    if c = '_' then if afterDigit then readGroups isDigit false r else none
    else if isDigit c then (readGroups isDigit true r).map (c :: ·)
    else none

/-- The value of a digit in any base up to sixteen. -/
def digitOf (c : Char) : Nat :=
  let n := c.toNat
  if n < 58 then n - 48 else if n < 71 then n - 55 else n - 87

/-- Whether a character is a digit of a base. -/
def isDigitOf (base : Nat) (c : Char) : Bool :=
  let n := c.toNat
  ((48 ≤ n && n ≤ 57) || (65 ≤ n && n ≤ 70) || (97 ≤ n && n ≤ 102)) && digitOf c < base

/-- The number that digits make in a base. -/
def valueOf (base : Nat) (ds : List Char) : Nat :=
  ds.foldl (fun n d => n * base + digitOf d) 0

/-- A number in a base other than ten. -/
def readBased (base : Nat) (s : List Char) : Option Int :=
  (readGroups (isDigitOf base) false s).map fun ds => (valueOf base ds : Int)

/-- Decimal digits that do not begin with a superfluous zero. -/
def readPlain (s : List Char) : Option (List Char) := do
  let ds ← readGroups Char.isDigit false s
  -- a zero stands alone
  if ds.head? = some '0' ∧ ds.length > 1 then none
  return ds

/-- A sign at the start of a word: whether it is a minus, and what follows. -/
def readSign : List Char → Bool × List Char
  | '-' :: r => (true, r)
  | '+' :: r => (false, r)
  | r => (false, r)

/-- Decimal digits with or without a sign before them. Right after a sign a low line may stand, and
then zeros may begin the digits. -/
def readSigned : List Char → Option (List Char)
  | '-' :: '_' :: r => readGroups Char.isDigit false r
  | '+' :: '_' :: r => readGroups Char.isDigit false r
  | s => readPlain (readSign s).2

/-- An integer of any size. -/
def readNumber : List Char → Option Int
  | '0' :: 'x' :: r => readBased 16 r
  | '0' :: 'o' :: r => readBased 8 r
  | '0' :: 'b' :: r => readBased 2 r
  | s =>
    (readSigned s).map fun ds =>
      if (readSign s).1 then -(valueOf 10 ds : Int) else valueOf 10 ds

/-- The bounds of integers. -/
def integerBounds : Int × Int := (-Nat.pow 2 127, Nat.pow 2 128)

/-- Whether a number is within the bounds of integers. -/
def isInteger (n : Int) : Bool := integerBounds.1 ≤ n && n < integerBounds.2

/-- An integer. -/
def readInteger (s : List Char) : Option Int := (readNumber s).filter isInteger

/-- The least number that is too large for a real number. -/
def realBound : Nat := Nat.pow 2 1024 - Nat.pow 2 970

/-- Whether a real number with these digits and this exponent of ten is too large. -/
def overflows (digits : Nat) (exponent : Int) : Bool :=
  if digits = 0 then false
  else if exponent > 400 then true
  else if exponent ≥ 0 then realBound ≤ digits * Nat.pow 10 exponent.toNat
  else realBound * Nat.pow 10 (min exponent.natAbs (Nat.log2 digits)) ≤ digits

/-- The exponent of a real number. -/
def readExponent (s : List Char) : Option Int := do
  let (minus, r) := readSign s
  let n : Int := valueOf 10 (← readGroups Char.isDigit false r)
  return if minus then -n else n

/-- What stands before and after the first character of a kind. -/
def splitAtFirst (p : Char → Bool) (s : List Char) : List Char × Option (List Char) :=
  match s.span fun c => !p c with
  | (before, []) => (before, none)
  | (before, _ :: after) => (before, some after)

/-- Whether a word is a real number. -/
def isReal (s : List Char) : Bool :=
  (readSign s).2 == "inf".toList || (readSign s).2 == "nan".toList ||
    ((do
      let (mantissa, exponent) := splitAtFirst (fun c => c == 'e' || c == 'E') s
      let (whole, fraction) := splitAtFirst (· == '.') mantissa
      let whole ← readSigned whole
      let part ← match fraction with
        | some f => readGroups Char.isDigit false f
        | none => some []
      let power ← match exponent with
        | some e => readExponent e
        | none => some 0
      let shifted := power - part.length
      return (fraction.isSome || exponent.isSome) &&
        !overflows (valueOf 10 (whole ++ part)) shifted).getD false)

/-- The member under which the text of a date stands. -/
def dateMember : String := "$__toml_private_datetime"

/-- A number of exactly `width` digits up to a bound at the start of a word. -/
def readDigits (width low high : Nat) (s : List Char) : Option (List Char × List Char) :=
  let ds := s.take width
  let n := valueOf 10 ds
  if ds.length = width ∧ ds.all Char.isDigit = true ∧ low ≤ n ∧ n ≤ high then
    some (ds, s.drop width)
  else none

/-- A date at the start of a word. -/
def readDate (s : List Char) : Option (List Char × List Char) := do
  let (year, s) ← readDigits 4 0 9999 s
  let '-' :: s := s | none
  let (month, s) ← readDigits 2 1 12 s
  let '-' :: s := s | none
  let (day, s) ← readDigits 2 1 (Moment.monthLength (valueOf 10 year) (valueOf 10 month)) s
  return (year ++ '-' :: month ++ '-' :: day, s)

/-- Digits without the zeros at their end. -/
def dropFinalZeros (ds : List Char) : List Char := (ds.reverse.dropWhile (· == '0')).reverse

/-- The seconds of a time of day, if any are given. -/
def readSeconds : List Char → Option (List Char × List Char)
  | ':' :: s => do
    let (second, s) ← readDigits 2 0 60 s
    match s with
    | '.' :: s =>
      let ds := s.takeWhile Char.isDigit
      if ds.isEmpty then none
      let kept := dropFinalZeros (ds.take 9)
      return (':' :: second ++ '.' :: (if kept.isEmpty then ['0'] else kept), s.drop ds.length)
    | s => return (':' :: second, s)
  | s => some ([], s)

/-- A time of day at the start of a word. -/
def readTime (s : List Char) : Option (List Char × List Char) := do
  let (hour, s) ← readDigits 2 0 23 s
  let ':' :: s := s | none
  let (minute, s) ← readDigits 2 0 59 s
  let (second, s) ← readSeconds s
  return (hour ++ ':' :: minute ++ second, s)

/-- An offset from universal time, or nothing, that ends a word. -/
def readOffset : List Char → Option (List Char)
  | [] => some []
  | ['Z'] => some ['Z']
  | ['z'] => some ['Z']
  | sign :: s => do
    if sign != '+' && sign != '-' then none
    let (hour, s) ← readDigits 2 0 23 s
    let ':' :: s := s | none
    let (minute, s) ← readDigits 2 0 59 s
    if !s.isEmpty then none
    -- no offset at all has a plus sign
    let zero := hour ++ minute == "0000".toList
    return (if zero then '+' else sign) :: hour ++ ':' :: minute

/-- The text of the date, the time of day or both that a word is. -/
def readDateTime (s : List Char) : Option (List Char) :=
  match readDate s with
  | some (date, []) => some date
  | some (date, c :: r) => do
    if c != 'T' && c != 't' && c != ' ' then none
    let (time, r) ← readTime r
    return date ++ 'T' :: time ++ (← readOffset r)
  | none =>
    match readTime s with
    | some (time, []) => some time
    | _ => none

/-- What a word without quotes means. -/
def readScalar (s : List Char) : Option Json :=
  if s = "true".toList then some (.bool true)
  else if s = "false".toList then some (.bool false)
  else
    match readInteger s with
    | some n => some (.integer n)
    | none =>
      if isReal s then some (.real (String.ofList s))
      else (readDateTime s).map fun t => .object [(dateMember, .string (String.ofList t))]

/-- A character that a word without quotes can hold. -/
def isScalarChar (c : Char) : Bool :=
  c.isAlphanum || c == '_' || c == '+' || c == '-' || c == '.' || c == ':'

/-- The word at the start of a text and what follows; a date may be followed by a blank and a time
of day. -/
def spanScalar (s : List Char) : List Char × List Char :=
  let (word, rest) := s.span isScalarChar
  match readDate word, rest with
  | some (_, []), ' ' :: c :: r =>
    if c.isDigit then
      let (time, rest) := (c :: r).span isScalarChar
      (word ++ ' ' :: time, rest)
    else (word, rest)
  | _, _ => (word, rest)

end StepTrace.Toml
