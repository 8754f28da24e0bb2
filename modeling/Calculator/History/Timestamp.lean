import Calculator.Text

/-!
# Instants

An instant is a date and a time of day in universal time, to the nanosecond. A minute may end in a
leap second. Later instants are larger in the order of their fields.
-/

namespace Calculator

/-- Whether a year has a 29th of February. -/
def isLeapYear (year : Int) : Bool :=
  year % 4 == 0 && (year % 100 != 0 || year % 400 == 0)

/-- The number of days of a month. -/
def daysInMonth (year : Int) (month : Nat) : Nat :=
  if month = 2 then (if isLeapYear year then 29 else 28)
  else if month = 4 ∨ month = 6 ∨ month = 9 ∨ month = 11 then 30
  else 31

/-- A date of the proleptic Gregorian calendar, with astronomical years. -/
structure Date where
  /-- The year, where zero is the year before the first. -/
  year : Int
  /-- The month, from one. -/
  month : Nat
  /-- The day of the month, from one. -/
  day : Nat
  deriving DecidableEq, Repr

namespace Date

/-- Whether the fields are those of a day. Years are limited to about 262000 either way. -/
def isValid (d : Date) : Bool :=
  decide (-262143 ≤ d.year) && decide (d.year ≤ 262142) &&
    decide (1 ≤ d.month) && decide (d.month ≤ 12) &&
    decide (1 ≤ d.day) && decide (d.day ≤ daysInMonth d.year d.month)

/-- The day after. -/
def next (d : Date) : Date :=
  if d.day < daysInMonth d.year d.month then { d with day := d.day + 1 }
  else if d.month < 12 then { d with month := d.month + 1, day := 1 }
  else ⟨d.year + 1, 1, 1⟩

/-- The day before. -/
def previous (d : Date) : Date :=
  if 1 < d.day then { d with day := d.day - 1 }
  else if 1 < d.month then
    { d with month := d.month - 1, day := daysInMonth d.year (d.month - 1) }
  else ⟨d.year - 1, 12, 31⟩

end Date

/-- The fields of an instant before they are known to be valid. -/
structure Clock where
  /-- The day. -/
  date : Date
  /-- The hour of the day. -/
  hour : Nat
  /-- The minute of the hour. -/
  minute : Nat
  /-- The second of the minute; 60 is a leap second. -/
  second : Nat
  /-- The nanosecond of the second. -/
  nanosecond : Nat
  deriving DecidableEq, Repr

namespace Clock

/-- Whether the fields are those of an instant. -/
def isValid (c : Clock) : Bool :=
  c.date.isValid && decide (c.hour < 24) && decide (c.minute < 60) && decide (c.second ≤ 60) &&
    decide (c.nanosecond < 1000000000)

/-- The fields a number of minutes earlier, at most a day of them. -/
def back (minutes : Int) (c : Clock) : Clock :=
  let total := (c.hour * 60 + c.minute : Nat) - minutes
  let (date, total) :=
    if total < 0 then (c.date.previous, total + 1440)
    else if 1440 ≤ total then (c.date.next, total - 1440)
    else (c.date, total)
  { c with date, hour := total.toNat / 60, minute := total.toNat % 60 }

end Clock

/-- An instant in universal time. -/
structure Timestamp extends Clock where
  /-- The fields are in range. -/
  valid : toClock.isValid = true
  deriving DecidableEq, Repr

namespace Timestamp

/-- The instant with the given fields, if there is one. -/
def ofClock? (c : Clock) : Option Timestamp :=
  if h : c.isValid = true then some ⟨c, h⟩ else none

/-- The fields as one number, in which later fields weigh less. -/
def rank (t : Timestamp) : Int :=
  ((((((t.date.year * 13 + t.date.month) * 32 + t.date.day) * 24 + t.hour) * 60 + t.minute) * 61
    + t.second) * 1000000000) + t.nanosecond

instance : LE Timestamp := ⟨fun t u => t.rank ≤ u.rank⟩

instance (t u : Timestamp) : Decidable (t ≤ u) := inferInstanceAs (Decidable (t.rank ≤ u.rank))

end Timestamp

end Calculator
