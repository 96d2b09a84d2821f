import StepTrace.Text.Numeral

/-!
# Real numbers in formats

Real numbers of 53 binary digits, and how `printf` writes them in decimal. A number is a whole
number times a power of two, so that every rounding is one division of whole numbers.
-/

set_option autoImplicit false

namespace StepTrace.Host.Shell

/-- A real number as an argument gives it. -/
inductive BinaryReal where
  /-- The significand times a power of two. -/
  | finite (negative : Bool) (significand : Nat) (exponent : Int)
  | infinite (negative : Bool)
  | notNumber (negative : Bool)
  deriving DecidableEq, Repr, Inhabited

namespace BinaryReal

/-- A quotient rounded to the nearest whole number, from the middle to the even one. -/
def roundDiv (n d : Nat) : Nat :=
  let q := n / d
  let twice := 2 * (n % d)
  if twice > d ∨ (twice = d ∧ q % 2 = 1) then q + 1 else q

/-- A fraction divided by a power of two. -/
def scale (n d : Nat) (exponent : Int) : Nat × Nat :=
  (n * Nat.pow 2 (-exponent).toNat, d * Nat.pow 2 exponent.toNat)

/-- The least power of two that counts. -/
def leastExponent : Int := -1074

/-- The real number nearest to a fraction, and whether it is out of range. -/
def nearest (negative : Bool) (n d : Nat) : BinaryReal × Bool :=
  if n = 0 then (.finite negative 0 0, false)
  else
    let guess : Int := max leastExponent (n.log2 - d.log2 - 53)
    let (a, b) := scale n d guess
    -- one binary digit too many
    let exponent := if a / b ≥ Nat.pow 2 53 then guess + 1 else guess
    let (a, b) := scale n d exponent
    let significand := roundDiv a b
    if exponent > 971 ∨ (exponent = 971 ∧ significand ≥ Nat.pow 2 53) then
      (.infinite negative, true)
    else (.finite negative significand exponent, significand < Nat.pow 2 52 && a % b != 0)

/-- The digits of a number with a point among them at the start of a text: their value, how many
there are, how many of them stand behind the point, and what follows. -/
def readPoint (isDigit : Char → Bool) (value : List Char → Nat) (s : List Char) :
    Nat × Nat × Nat × List Char :=
  let whole := s.takeWhile isDigit
  let r := s.drop whole.length
  match r with
  | '.' :: r' =>
    let part := r'.takeWhile isDigit
    if whole.isEmpty && part.isEmpty then (0, 0, 0, s)
    else (value (whole ++ part), whole.length + part.length, part.length, r'.drop part.length)
  | _ => (value whole, whole.length, 0, r)

/-- An exponent behind its letter, and what follows; without digits there is none. -/
def readExponent (letter : Char) (s : List Char) : Int × List Char :=
  match s with
  | c :: r =>
    if c.toLower != letter then (0, s)
    else
      let (minus, r) := match r with
        | '-' :: r => (true, r)
        | '+' :: r => (false, r)
        | r => (false, r)
      let ds := r.takeWhile Char.isDigit
      let n : Int := Text.digitValue ds
      if ds.isEmpty then (0, s) else (if minus then -n else n, r.drop ds.length)
  | [] => (0, s)

/-- A number without a sign at the start of a text: a fraction, and what follows. -/
def readFraction (s : List Char) : Option (Nat × Nat × List Char) :=
  let isHex := fun (c : Char) => c.isDigit || ('a' ≤ c.toLower && c.toLower ≤ 'f')
  let hexValue := fun (ds : List Char) => ds.foldl (fun n c =>
    n * 16 + (if c.isDigit then c.toNat - 48 else c.toLower.toNat - 87)) 0
  let hex := match s with
    | '0' :: x :: r =>
      let (n, count, places, rest) := readPoint isHex hexValue r
      if x.toLower = 'x' ∧ count > 0 then
        let (power, rest) := readExponent 'p' rest
        let power := power - 4 * places
        some (n * Nat.pow 2 power.toNat, Nat.pow 2 (-power).toNat, rest)
      else none
    | _ => none
  hex.orElse fun _ =>
    let (n, count, places, rest) := readPoint Char.isDigit Text.digitValue s
    if count = 0 then none
    else
      let (power, rest) := readExponent 'e' rest
      -- numbers far out of range stay so
      let power := max (-2000 - (count : Int)) (min 2000 power) - places
      some (n * Nat.pow 10 power.toNat, Nat.pow 10 (-power).toNat, rest)

/-- The real number at the start of a text, whether it is out of range, and what follows it. -/
def read (s : List Char) : Option (BinaryReal × Bool × List Char) :=
  let (negative, body) := match s with
    | '-' :: r => (true, r)
    | '+' :: r => (false, r)
    | s => (false, s)
  let lower := body.map Char.toLower
  if "infinity".toList.isPrefixOf lower then some (.infinite negative, false, body.drop 8)
  else if "inf".toList.isPrefixOf lower then some (.infinite negative, false, body.drop 3)
  else if "nan".toList.isPrefixOf lower then some (.notNumber negative, false, body.drop 3)
  else
    (readFraction body).map fun (n, d, rest) =>
      let (x, outOfRange) := nearest negative n d
      (x, outOfRange, rest)

/-- Digits with a point before the last of them; a point that nothing follows is left out unless it
is wanted. -/
def withPoint (wanted : Bool) (places n : Nat) : List Char :=
  let ds := Text.digits n
  let ds := List.replicate (places + 1 - ds.length) '0' ++ ds
  let whole := ds.take (ds.length - places)
  let part := ds.drop (ds.length - places)
  whole ++ (if part.isEmpty && !wanted then [] else '.' :: part)

/-- A fraction with some decimal places. -/
def fixed (wanted : Bool) (places n d : Nat) : List Char :=
  withPoint wanted places (roundDiv (n * Nat.pow 10 places) d)

/-- The first digits of a fraction, one and `places` more, as a number, and the power of ten of the
first one. -/
def leading (places n d : Nat) : Nat × Int :=
  if n = 0 then (0, 0)
  else
    let rounded := fun (e : Int) =>
      let shift := (places : Int) - e
      roundDiv (n * Nat.pow 10 shift.toNat) (d * Nat.pow 10 (-shift).toNat)
    let guess : Int := (Text.digits n).length - (Text.digits d).length
    let reaches :=
      if guess ≥ 0 then Nat.pow 10 guess.toNat * d ≤ n else d ≤ n * Nat.pow 10 (-guess).toNat
    let e := if reaches then guess else guess - 1
    -- rounding may lead to the next power of ten
    if rounded e ≥ Nat.pow 10 (places + 1) then (rounded (e + 1), e + 1) else (rounded e, e)

/-- A fraction as one digit, a point, some more digits and a power of ten. -/
def scientific (wanted : Bool) (places n d : Nat) : List Char :=
  let (ds, e) := leading places n d
  let size := Text.digits e.natAbs
  withPoint wanted places ds ++ 'e' :: (if e < 0 then '-' else '+') ::
    List.replicate (2 - size.length) '0' ++ size

/-- A text without the zeros at the end of its decimal places. -/
def dropZeros (s : List Char) : List Char :=
  let mantissa := s.takeWhile (· != 'e')
  if mantissa.contains '.' then
    let kept := (mantissa.reverse.dropWhile (· == '0')).dropWhile (· == '.')
    kept.reverse ++ s.drop mantissa.length
  else s

/-- A fraction in the shorter of both ways, with some digits that count. -/
def general (wanted : Bool) (precision n d : Nat) : List Char :=
  let count := max precision 1
  let (_, e) := leading (count - 1) n d
  let s :=
    if -4 ≤ e ∧ e < count then fixed wanted ((count : Int) - 1 - e).toNat n d
    else scientific wanted (count - 1) n d
  if wanted then s else dropZeros s

/-- Whether a number has a minus sign, and its digits as a conversion writes them; `wanted` says
that the point always stands. -/
def digits (kind : Char) (wanted : Bool) (precision : Nat) : BinaryReal → Bool × List Char
  | .infinite negative => (negative, "inf".toList)
  | .notNumber negative => (negative, "nan".toList)
  | .finite negative significand exponent =>
    let n := significand * Nat.pow 2 exponent.toNat
    let d := Nat.pow 2 (-exponent).toNat
    (negative, match kind with
      | 'e' => scientific wanted precision n d
      | 'g' => general wanted precision n d
      | _ => fixed wanted precision n d)

/-- Whether a number is finite. -/
def isFinite : BinaryReal → Bool
  | .finite _ _ _ => true
  | _ => false

end BinaryReal

end StepTrace.Host.Shell
