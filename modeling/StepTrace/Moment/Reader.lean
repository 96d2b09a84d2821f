import StepTrace.Moment
import StepTrace.Text.Blank

/-!
# Reading moments

`Moment.parse?` reads a date, a time of day and an offset from universal time. Blanks may stand
before every number and every mark between two numbers, and around the offset.
-/

set_option autoImplicit false

namespace StepTrace.Moment

/-- The number that at most `width` digits at the start of a text make, and what follows. -/
def readNumber (width : Nat) (s : List Char) : Option (Nat × List Char) :=
  let ds := (s.take width).takeWhile Char.isDigit
  if ds.isEmpty then none else some (Text.digitValue ds, s.drop ds.length)

/-- A number after blanks. -/
def readField (width : Nat) (s : List Char) : Option (Nat × List Char) :=
  readNumber width (Text.trimStart s)

/-- A year: four digits at most, or any number of them after a sign. -/
def readYear (s : List Char) : Option (Int × List Char) :=
  match Text.trimStart s with
  | '-' :: r => (readNumber r.length r).map fun p => (-(p.1 : Int), p.2)
  | '+' :: r => (readNumber r.length r).map fun p => ((p.1 : Int), p.2)
  | r => (readNumber 4 r).map fun p => ((p.1 : Int), p.2)

/-- A mark after blanks. -/
def readMark (mark : Char) (s : List Char) : Option (List Char) :=
  match Text.trimStart s with
  | c :: r => if c = mark then some r else none
  | [] => none

/-- The fraction of a second in nanoseconds; digits after the ninth do not count. -/
def readFraction : List Char → Option (Nat × List Char)
  | '.' :: r =>
    let ds := r.takeWhile Char.isDigit
    if ds.isEmpty then none
    else
      let used := ds.take 9
      some (Text.digitValue used * Nat.pow 10 (9 - used.length), r.drop ds.length)
  | r => some (0, r)

/-- The first and the last year of the calendar. -/
def yearBounds : Int × Int := (-262143, 262142)

/-- A date, if there is one with these numbers. -/
def date? (year : Int) (month day : Nat) : Option Date :=
  if yearBounds.1 ≤ year ∧ year ≤ yearBounds.2 ∧ 1 ≤ month ∧ month ≤ 12 ∧ 1 ≤ day ∧
      day ≤ monthLength year month then
    some ⟨year, month, day⟩
  else none

/-- A date at the start of a text. -/
def readDate (s : List Char) : Option (Date × List Char) := do
  let (year, s) ← readYear s
  let s ← readMark '-' s
  let (month, s) ← readField 2 s
  let s ← readMark '-' s
  let (day, s) ← readField 2 s
  return (← date? year month day, s)

/-- A time of day at the start of a text, in seconds and nanoseconds. The sixtieth second of a
minute is its last one prolonged. -/
def readTime (s : List Char) : Option ((Nat × Nat) × List Char) := do
  let (hour, s) ← readField 2 s
  let s ← readMark ':' s
  let (minute, s) ← readField 2 s
  let s ← readMark ':' s
  let (second, s) ← readField 2 s
  let (nano, s) ← readFraction s
  if hour < 24 ∧ minute < 60 ∧ second ≤ 60 then
    let start := hour * 3600 + minute * 60
    if second = 60 then return ((start + 59, nanosPerSecond + nano), s)
    return ((start + second, nano), s)
  else none

/-- Exactly two digits at the start of a text. -/
def readPair (s : List Char) : Option (Nat × List Char) :=
  match s with
  | a :: b :: r =>
    if a.isDigit && b.isDigit then some (Text.digitValue [a, b], r) else none
  | _ => none

/-- An offset in seconds with its sign before it: hours and minutes, with colons or blanks between
them perhaps. -/
def readSignedOffset : List Char → Option (Int × List Char)
  | [] => none
  | sign :: r => do
    if sign != '+' && sign != '-' && sign != '\u2212' then none
    let (hours, r) ← readPair r
    let (minutes, r) ← readPair (r.dropWhile fun c => c == ':' || Text.isBlank c)
    if 60 ≤ minutes ∨ 24 ≤ hours then none
    let seconds : Int := hours * 3600 + minutes * 60
    return (if sign = '+' then seconds else -seconds, r)

/-- An offset at the start of a text: a letter or a name for none, or hours and minutes. -/
def readOffset (s : List Char) : Option (Int × List Char) :=
  if ((s.take 3).map Char.toUpper) = "UTC".toList then some (0, s.drop 3)
  else
    match s with
    | 'Z' :: r => some (0, r)
    | 'z' :: r => some (0, r)
    | _ => readSignedOffset s

/-- The moment of a local date and time at some offset from universal time. -/
def ofLocal? (date : Date) (second nano : Nat) (offset : Int) : Option Moment :=
  let clock := (second : Int) - offset
  let day := date.toDay + clock / 86400
  let year := (Date.ofDay day).year
  if yearBounds.1 ≤ year ∧ year ≤ yearBounds.2 then some ⟨day, (clock % 86400).toNat, nano⟩
  else none

/-- The moment that a text describes. -/
def parse? (s : List Char) : Option Moment := do
  let (date, s) ← readDate s
  let s ← match s with
    | c :: r => if c = 'T' ∨ c = 't' ∨ c = ' ' then some r else none
    | [] => none
  let ((second, nano), s) ← readTime s
  let (offset, s) ← readOffset (Text.trimStart s)
  if !Text.allBlank s then none
  ofLocal? date second nano offset

end StepTrace.Moment
