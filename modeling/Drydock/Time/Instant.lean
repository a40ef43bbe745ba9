import Drydock.Text.Basic

/-! Points in time and their calendar dates. The calendar is the Gregorian one,
extended in both directions; every day has 86400 seconds, and a leap second is
told by a fraction of a second or more. -/
namespace Drydock

structure Instant where
  /-- Whole seconds since the start of 1970, universal time. -/
  seconds : Int
  /-- Nanoseconds after that second; from 10⁹ on they fall into a leap
  second. -/
  nanos : Nat
  deriving DecidableEq, Repr

structure Date where
  year : Int
  month : Nat
  day : Nat
  deriving DecidableEq, Repr

namespace Date

def isLeap (year : Int) : Bool :=
  year % 4 == 0 && (year % 100 != 0 || year % 400 == 0)

def monthLengths (year : Int) : List Nat :=
  [31, if isLeap year then 29 else 28, 31, 30, 31, 30, 31, 31, 30, 31, 30, 31]

/-- The number of days from the first day of year 1 to the first day of a
year. -/
def daysBeforeYear (year : Int) : Int :=
  365 * (year - 1) + (year - 1) / 4 - (year - 1) / 100 + (year - 1) / 400

/-- The year that a day falls into, counted from the first day of year 1. Four
hundred years have 146097 days, so the estimate is right or one year early. -/
def yearOfDay (n : Int) : Int :=
  let guess := 400 * n / 146097 + 1
  if daysBeforeYear (guess + 1) ≤ n then guess + 1 else guess

/-- The month, counted from `month`, and the day, counted from one, of the day
after `daysGone` further days. -/
def monthAndDay (month : Nat) : List Nat → Nat → Nat × Nat
  | [], daysGone => (month, daysGone + 1)
  | length :: rest, daysGone =>
    if daysGone < length then (month, daysGone + 1)
    else monthAndDay (month + 1) rest (daysGone - length)

/-- The day with a given number, counted from the first day of year 1. -/
def ofDay (n : Int) : Date :=
  let year := yearOfDay n
  let (month, day) := monthAndDay 1 (monthLengths year) (n - daysBeforeYear year).toNat
  { year, month, day }

def isValid (d : Date) : Bool :=
  1 ≤ d.month && 1 ≤ d.day &&
    ((monthLengths d.year)[d.month - 1]?).any (fun length => d.day ≤ length)

def daysBeforeMonth (year : Int) (month : Nat) : Nat :=
  ((monthLengths year).take (month - 1)).foldr (· + ·) 0

/-- The number of a day, counted from the first day of year 1. -/
def toDay (d : Date) : Int :=
  daysBeforeYear d.year + daysBeforeMonth d.year d.month + d.day - 1

end Date

namespace Instant

/-- The number of the first day of 1970, counted from the first day of year
1. -/
def epochDay : Int := 719162

/-- The date of an instant in universal time. -/
def date (t : Instant) : Date :=
  Date.ofDay (t.seconds / 86400 + epochDay)

def secondOfDay (t : Instant) : Nat :=
  (t.seconds % 86400).toNat

end Instant

end Drydock
