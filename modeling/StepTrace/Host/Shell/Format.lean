import StepTrace.Host.Bytes
import StepTrace.Host.Shell.BinaryReal
import StepTrace.Text.Numeral

/-!
# Formatted output

Escapes with a backslash, and the formats that `printf` fills with its arguments. A format is read
into pieces; `Format.write` fills them in, again and again while arguments are left that it can use.
-/

set_option autoImplicit false

namespace StepTrace.Host.Shell

/-- The character that a letter after a backslash stands for. -/
def escapeLetter? (c : Char) : Option Char :=
  match c with
  | 'a' => some '\x07'
  | 'b' => some '\x08'
  | 'e' => some '\x1b'
  | 'f' => some '\x0c'
  | 'n' => some '\n'
  | 'r' => some '\x0d'
  | 't' => some '\t'
  | 'v' => some '\x0b'
  | '\\' => some '\\'
  | _ => none

/-- An octal digit. -/
def isOctalDigit (c : Char) : Bool := '0' ≤ c && c ≤ '7'

/-- The byte that octal digits spell. -/
def octalByte (ds : List Char) : Char := Char.ofNat (Nat.ofDigitChars 8 ds 0 % 256)

/-- The octal digits at the start of a text, no more than some number of them. -/
def octalDigits (most : Nat) (s : List Char) : List Char := (s.take most).takeWhile isOctalDigit

/-- A text with its escapes replaced, and whether an escape ended it early. With `zeroed` a zero may
stand before the three digits of an octal number. -/
def unescape (zeroed : Bool) : Nat → List Char → List Char × Bool
  | 0, _ => ([], false)
  | _ + 1, [] => ([], false)
  | fuel + 1, '\\' :: c :: r =>
    if c = 'c' then ([], true)
    else
      match escapeLetter? c with
      | some e =>
        let (rest, stopped) := unescape zeroed fuel r
        (e :: rest, stopped)
      | none =>
        if isOctalDigit c then
          let number := if zeroed && c == '0' then r else c :: r
          let ds := octalDigits 3 number
          let after := number.drop ds.length
          let (rest, stopped) := unescape zeroed fuel after
          (octalByte ds :: rest, stopped)
        else
          let (rest, stopped) := unescape zeroed fuel r
          ('\\' :: c :: rest, stopped)
  | fuel + 1, c :: r =>
    let (rest, stopped) := unescape zeroed fuel r
    (c :: rest, stopped)

/-- A number in a format: given, or taken from the arguments. -/
inductive Measure where
  | given (n : Nat)
  | fromArgument
  deriving DecidableEq, Repr, Inhabited

/-- How an argument is written. -/
structure Conversion where
  flags : List Char
  width : Option Measure
  precision : Option Measure
  kind : Char
  deriving DecidableEq, Repr, Inhabited

/-- A piece of a format. -/
inductive FormatPiece where
  | text (bytes : List Char)
  | conversion (c : Conversion)
  /-- A percent sign without a conversion behind it. -/
  | lacking
  deriving DecidableEq, Repr, Inhabited

namespace Format

/-- A width or precision at the start of a text. -/
def readMeasure (s : List Char) : Option Measure × List Char :=
  match s with
  | '*' :: r => (some .fromArgument, r)
  | s =>
    let ds := s.takeWhile Char.isDigit
    (if ds.isEmpty then none else some (.given (Text.digitValue ds)), s.drop ds.length)

/-- A conversion after its percent sign. -/
def readConversion (s : List Char) : Option (Conversion × List Char) :=
  let flags := s.takeWhile fun c => "-+ 0#".toList.contains c
  let (width, r) := readMeasure (s.drop flags.length)
  let (precision, r) := match r with
    | '.' :: r =>
      let (precision, r) := readMeasure r
      (some (precision.getD (.given 0)), r)
    | r => (none, r)
  match r with
  | kind :: r => some (⟨flags, width, precision, kind⟩, r)
  | [] => none

/-- The pieces of a format whose escapes have been replaced. -/
def read : Nat → List Char → List FormatPiece
  | 0, _ => []
  | _ + 1, [] => []
  | fuel + 1, '%' :: '%' :: r => .text ['%'] :: read fuel r
  | fuel + 1, '%' :: r =>
    match readConversion r with
    | some (c, rest) => .conversion c :: read fuel rest
    | none => [.lacking]
  | fuel + 1, c :: r =>
    let run := (c :: r).takeWhile (· != '%')
    .text run :: read fuel ((c :: r).drop run.length)

/-- The number that digits of some base at the start of a text spell, and what follows them. -/
def spanNumber (isDigit : Char → Bool) (base : Nat) (s : List Char) : Nat × List Char :=
  let ds := s.takeWhile isDigit
  (ds.foldl (fun n c =>
    n * base +
      (if c.isDigit then c.toNat - 48 else if c.isLower then c.toNat - 87 else c.toNat - 55)) 0,
    s.drop ds.length)

/-- A hexadecimal digit. -/
def isHexDigit (c : Char) : Bool :=
  c.isDigit || ('a' ≤ c && c ≤ 'f') || ('A' ≤ c && c ≤ 'F')

/-- The number without a sign at the start of a text, and what follows it. -/
def readMagnitude (s : List Char) : Nat × List Char :=
  match s with
  | '0' :: x :: d :: r =>
    if (x = 'x' ∨ x = 'X') ∧ isHexDigit d then spanNumber isHexDigit 16 (d :: r)
    else spanNumber isOctalDigit 8 s
  | '0' :: _ => spanNumber isOctalDigit 8 s
  | s => spanNumber Char.isDigit 10 s

/-- A text without the white space that it begins with. -/
def dropWhite (s : List Char) : List Char :=
  s.dropWhile fun c => c == ' ' || ('\t' ≤ c && c ≤ '\x0d')

/-- What is wrong with an argument that should be a number and of which something is left. -/
def remainder? (body rest : List Char) (outOfRange : Bool) : Option String :=
  if outOfRange then some "Numerical result out of range"
  else if rest.isEmpty then none
  else if rest.length = body.length then some "expected numeric value"
  else some "not completely converted"

/-- The number that an argument spells, as far as it is in range, and what is wrong with it. -/
def readNumber (signed : Bool) (arg : List Char) : Int × Option String :=
  match arg with
  | '\x27' :: r => ((r.headD '\x00').toNat, none)
  | '\x22' :: r => ((r.headD '\x00').toNat, none)
  | _ =>
    let s := dropWhite arg
    let (negative, body) := match s with
      | '-' :: r => (true, r)
      | '+' :: r => (false, r)
      | s => (false, s)
    let (n, rest) := readMagnitude body
    let value : Int := if negative then -(n : Int) else n
    let clamped : Int :=
      if signed then max (-Nat.pow 2 63) (min (Nat.pow 2 63 - 1) value)
      else if n < Nat.pow 2 64 then value
      else Nat.pow 2 64 - 1
    (clamped, remainder? body rest (clamped != value))

/-- The real number that an argument spells, and what is wrong with it. -/
def readReal (arg : List Char) : BinaryReal × Option String :=
  let whole := fun (n : Nat) => (BinaryReal.nearest false n 1).1
  match arg with
  | '\x27' :: r => (whole (r.headD '\x00').toNat, none)
  | '\x22' :: r => (whole (r.headD '\x00').toNat, none)
  | [] => (whole 0, none)
  | _ =>
    match BinaryReal.read (dropWhite arg) with
    | some (x, outOfRange, rest) => (x, remainder? [] rest outOfRange)
    | none => (whole 0, some "expected numeric value")

/-- The digits of a number in the base of a conversion. -/
def digitsOf (kind : Char) (n : Nat) : List Char :=
  if kind = 'x' then Nat.toDigits 16 n
  else if kind = 'X' then (Nat.toDigits 16 n).map Char.toUpper
  else if kind = 'o' then Nat.toDigits 8 n
  else Text.digits n

/-- What stands before the digits of a number in another base. -/
def baseMark (c : Conversion) (n : Nat) : List Char :=
  if !c.flags.contains '#' || n = 0 then []
  else if c.kind = 'x' then ['0', 'x']
  else if c.kind = 'X' then ['0', 'X']
  else if c.kind = 'o' then ['0']
  else []

/-- Text in a field of some width, with blanks before it, or after it if `left` says so. -/
def pad (left : Bool) (width : Nat) (s : List Char) : List Char :=
  let blanks := List.replicate (width - s.length) ' '
  if left then s ++ blanks else blanks ++ s

/-- A sign as a conversion writes it. -/
def signOf (c : Conversion) (negative : Bool) : List Char :=
  if negative then ['-']
  else if c.flags.contains '+' then ['+']
  else if c.flags.contains ' ' then [' ']
  else []

/-- A real number as a conversion writes it. -/
def writeReal (c : Conversion) (left : Bool) (width : Nat) (precision : Option Nat)
    (x : BinaryReal) : List Char :=
  let (negative, ds) :=
    x.digits c.kind.toLower (c.flags.contains '#') (precision.getD 6)
  let ds := if c.kind.isUpper then ds.map Char.toUpper else ds
  let sign := signOf c negative
  let zeros :=
    if c.flags.contains '0' && !left && x.isFinite then width - sign.length - ds.length else 0
  pad left width (sign ++ List.replicate zeros '0' ++ ds)

/-- A number as a conversion writes it. -/
def writeNumber (c : Conversion) (left : Bool) (width : Nat) (precision : Option Nat) (n : Int) :
    List Char :=
  let signed := c.kind = 'd' ∨ c.kind = 'i'
  let magnitude := if signed then n.natAbs else (n % Nat.pow 2 64).toNat
  let sign := if signed then signOf c (n < 0) else []
  let mark := sign ++ baseMark c magnitude
  let ds := digitsOf c.kind magnitude
  let ds := match precision with
    | some p => List.replicate (p - ds.length) '0' ++ ds
    | none =>
      if c.flags.contains '0' && !left then
        List.replicate (width - mark.length - ds.length) '0' ++ ds
      else ds
  pad left width (mark ++ ds)

/-- What has been written, which arguments are left, what was wrong with some, and whether an
escape ended the output. -/
structure Progress where
  output : List Char
  args : List (List Char)
  faults : List String
  /-- The status that goes with what was wrong. -/
  status : Nat
  stopped : Bool
  used : Bool
  deriving Inhabited

/-- Takes the next argument; a missing one is empty. -/
def Progress.take (p : Progress) : List Char × Progress :=
  match p.args with
  | a :: rest => (a, { p with args := rest, used := true })
  | [] => ([], { p with used := true })

/-- A width or precision, and the progress after it was found. -/
def measure (p : Progress) : Option Measure → Option Int × Progress
  | none => (none, p)
  | some (.given n) => (some n, p)
  | some .fromArgument =>
    let (arg, p) := p.take
    (some (readNumber true arg).1, p)

/-- A complaint about an argument. -/
def complaint (arg : List Char) (reason : String) : String := Bytes.string arg ++ ": " ++ reason

/-- A number in a format as it is written there. -/
def measureText : Option Measure → List Char
  | none => []
  | some (.given n) => Text.digits n
  | some .fromArgument => ['*']

/-- A conversion as it is written in a format. -/
def conversionText (c : Conversion) : List Char :=
  let precision := if c.precision.isSome then '.' :: measureText c.precision else []
  '%' :: c.flags ++ measureText c.width ++ precision ++ [c.kind]

/-- The progress after a piece of the format that cannot be filled in, which ends the output. -/
def Progress.refuse (p : Progress) (reason : String) : Progress :=
  { p with faults := p.faults ++ [reason], status := 2, stopped := true }

/-- The progress after an argument of which something may be wrong. -/
def Progress.put (p : Progress) (text arg : List Char) (fault : Option String) : Progress :=
  { p with
    output := p.output ++ text
    faults := p.faults ++ (fault.map (complaint arg)).toList
    status := if fault.isSome then 1 else p.status }

/-- The progress after a conversion. -/
def convert (p : Progress) (c : Conversion) : Progress :=
  let (width, p) := measure p c.width
  let (precision, p) := measure p c.precision
  let left := c.flags.contains '-' || width.any (· < 0)
  let width := (width.getD 0).natAbs
  let precision := precision.bind fun n => if n < 0 then none else some n.toNat
  if c.kind = 's' ∨ c.kind = 'c' ∨ c.kind = 'b' then
    let (arg, p) := p.take
    let (text, stopped) :=
      if c.kind = 'b' then unescape true (arg.length + 1) arg
      else if c.kind = 'c' then ([arg.headD '\x00'], false)
      else (arg, false)
    let text := match precision with
      | some n => text.take n
      | none => text
    { p with output := p.output ++ pad left width text, stopped := stopped }
  else if "diuoxX".toList.contains c.kind then
    let (arg, p) := p.take
    let (n, fault) := readNumber (c.kind == 'd' || c.kind == 'i') arg
    p.put (writeNumber c left width precision n) arg fault
  else if "eEfFgG".toList.contains c.kind then
    let (arg, p) := p.take
    let (x, fault) := readReal arg
    p.put (writeReal c left width precision x) arg fault
  else p.refuse (Bytes.string (conversionText c) ++ ": invalid directive")

/-- The progress after a piece. -/
def fill (p : Progress) : FormatPiece → Progress
  | .text bytes => if p.stopped then p else { p with output := p.output ++ bytes }
  | .conversion c => if p.stopped then p else convert p c
  | .lacking => if p.stopped then p else p.refuse "missing format character"

/-- The progress after the format is filled in as often as the arguments ask for. -/
def fillAll (pieces : List FormatPiece) : Nat → Progress → Progress
  | 0, p => p
  | fuel + 1, p =>
    let p := pieces.foldl fill { p with used := false }
    if p.stopped || p.args.isEmpty || !p.used then p else fillAll pieces fuel p

/-- What a format gives with some arguments, the complaints about them, and the status for that. -/
def write (format : List Char) (args : List (List Char)) : List Char × List String × Nat :=
  let (text, stopped) := unescape false (format.length + 1) format
  let p := fillAll (read (text.length + 1) text) (args.length + 1) ⟨[], args, [], 0, stopped, false⟩
  (p.output, p.faults, p.status)

end Format

end StepTrace.Host.Shell
