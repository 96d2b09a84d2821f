import StepTrace.Text.Numeral

/-!
# Moments

A moment is a point of universal time with nanoseconds, in the calendar that is extended backwards
without a change of rules. A leap second is the last second of its minute with a count of
nanoseconds beyond one second. `Moment.text` is its written form.
-/

set_option autoImplicit false

namespace StepTrace

/-- A point in time. -/
structure Moment where
  /-- Days since the first of January 1970. -/
  day : Int
  /-- Seconds since the start of the day. -/
  second : Nat
  /-- Nanoseconds since the start of the second. -/
  nano : Nat
  deriving DecidableEq, Repr, Inhabited

namespace Moment

/-- A date of the calendar. -/
structure Date where
  year : Int
  month : Nat
  day : Nat
  deriving DecidableEq, Repr

/-- Whether a year has a day more than others. -/
def isLeapYear (year : Int) : Bool := year % 4 = 0 && (year % 100 != 0 || year % 400 = 0)

/-- The number of days of a month. -/
def monthLength (year : Int) (month : Nat) : Nat :=
  if month = 2 then if isLeapYear year then 29 else 28
  else if month = 4 ∨ month = 6 ∨ month = 9 ∨ month = 11 then 30
  else 31

/-- Days from the first of March of the year 0 to 1970. -/
def epochDay : Int := 719468

/-- Days in four hundred years. -/
def eraDays : Int := 146097

/-- The day number of a date. Years are counted from March, so that a leap day ends its year. -/
def Date.toDay (d : Date) : Int :=
  let year := if d.month ≤ 2 then d.year - 1 else d.year
  let era := year / 400
  let yearOfEra := year - era * 400
  let monthOfYear : Int := if d.month > 2 then d.month - 3 else d.month + 9
  let dayOfYear := (153 * monthOfYear + 2) / 5 + d.day - 1
  let dayOfEra := yearOfEra * 365 + yearOfEra / 4 - yearOfEra / 100 + dayOfYear
  era * eraDays + dayOfEra - epochDay

/-- The date of a day number. -/
def Date.ofDay (day : Int) : Date :=
  let shifted := day + epochDay
  let era := shifted / eraDays
  let dayOfEra := shifted - era * eraDays
  let yearOfEra :=
    (dayOfEra - dayOfEra / 1460 + dayOfEra / 36524 - dayOfEra / 146096) / 365
  let dayOfYear := dayOfEra - (365 * yearOfEra + yearOfEra / 4 - yearOfEra / 100)
  let monthOfYear := (5 * dayOfYear + 2) / 153
  let dayOfMonth := dayOfYear - (153 * monthOfYear + 2) / 5 + 1
  let month := if monthOfYear < 10 then monthOfYear + 3 else monthOfYear - 9
  let year := yearOfEra + era * 400
  ⟨if month ≤ 2 then year + 1 else year, month.toNat, dayOfMonth.toNat⟩

/-- Digits of a number, with zeros before them up to a width. -/
def padded (width n : Nat) : List Char :=
  let ds := Text.digits n
  List.replicate (width - ds.length) '0' ++ ds

/-- A year has four digits; outside of these years a sign stands before them. -/
def yearText (year : Int) : List Char :=
  if 0 ≤ year ∧ year ≤ 9999 then padded 4 year.toNat
  else (if year < 0 then '-' else '+') :: padded 4 year.natAbs

/-- The fraction of a second, in as few groups of three digits as it needs. -/
def fractionText (nano : Nat) : List Char :=
  if nano = 0 then []
  else if nano % 1000000 = 0 then '.' :: padded 3 (nano / 1000000)
  else if nano % 1000 = 0 then '.' :: padded 6 (nano / 1000)
  else '.' :: padded 9 nano

/-- Nanoseconds in a second. -/
def nanosPerSecond : Nat := 1000000000

/-- A moment in words: date and time of day in universal time. -/
def text (m : Moment) : List Char :=
  let date := Date.ofDay m.day
  let leap := nanosPerSecond ≤ m.nano
  let second := if leap then m.second % 60 + 1 else m.second % 60
  let nano := if leap then m.nano - nanosPerSecond else m.nano
  yearText date.year ++ '-' :: padded 2 date.month ++ '-' :: padded 2 date.day ++
    'T' :: padded 2 (m.second / 3600) ++ ':' :: padded 2 (m.second / 60 % 60) ++
    ':' :: padded 2 second ++ fractionText nano ++ ['Z']

/-- Nanoseconds since the first of January 1970. -/
def sinceEpoch (m : Moment) : Int :=
  (m.day * 86400 + m.second) * nanosPerSecond + m.nano

/-- The nanoseconds from one moment to a later one; none to an earlier one. -/
def elapsed (start stop : Moment) : Nat := (stop.sinceEpoch - start.sinceEpoch).toNat

end Moment

end StepTrace
