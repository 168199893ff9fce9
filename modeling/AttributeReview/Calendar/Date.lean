/-!
# Calendar dates

Dates of the proleptic Gregorian calendar in a fixed range of years, their day numbers, weekdays
and weeks. Day 0 is Monday, the first of January of the year 1.
-/

namespace AttributeReview

/-- The first year that has dates here. -/
def firstYear : Int := -262143

def lastYear : Int := 262142

def isLeap (year : Int) : Bool := year % 4 == 0 && (year % 100 != 0 || year % 400 == 0)

def monthLengths (leap : Bool) : List Nat :=
  [31, if leap then 29 else 28, 31, 30, 31, 30, 31, 31, 30, 31, 30, 31]

def monthLength (leap : Bool) (month : Nat) : Nat := (monthLengths leap).getD (month - 1) 0

/-- There is such a date, in the range of years. -/
def IsDate (year : Int) (month day : Nat) : Prop :=
  firstYear ≤ year ∧ year ≤ lastYear ∧ 1 ≤ month ∧ month ≤ 12 ∧ 1 ≤ day ∧
    day ≤ monthLength (isLeap year) month

instance (year : Int) (month day : Nat) : Decidable (IsDate year month day) :=
  inferInstanceAs (Decidable (_ ∧ _ ∧ _ ∧ _ ∧ _ ∧ _))

/-- A date that there is. -/
structure Date where
  year : Int
  month : Nat
  day : Nat
  isDate : IsDate year month day
deriving DecidableEq

namespace Date

def of? (year : Int) (month day : Nat) : Option Date :=
  if h : IsDate year month day then some ⟨year, month, day, h⟩ else none

/-- The day number of the first of January, negative before the year 1. -/
def daysBeforeYear (year : Int) : Int :=
  let past := year - 1
  365 * past + past / 4 - past / 100 + past / 400

/-- The days of the year before the month starts. -/
def daysBeforeMonth (leap : Bool) (month : Nat) : Nat :=
  ((monthLengths leap).take (month - 1)).foldr (· + ·) 0

/-- The day of the year, from 1. -/
def dayOfYear (d : Date) : Nat := daysBeforeMonth (isLeap d.year) d.month + d.day

/-- The days from the first of January of the year 1 to the date. -/
def dayNumber (d : Date) : Int := daysBeforeYear d.year + d.dayOfYear - 1

/-- The year that a day number lies in. -/
def yearOf (n : Int) : Int :=
  -- The mean length of a year, 146097 days in 400, is off by one year at most.
  let year := n * 400 / 146097 + 1
  if n < daysBeforeYear year then year - 1
  else if daysBeforeYear (year + 1) ≤ n then year + 1
  else year

/-- The month and the day of the month, given the days of the year before it. -/
def monthAndDay (month : Nat) (before : Nat) : List Nat → Nat × Nat
  | [] => (month, before + 1)
  | length :: rest =>
    if before < length then (month, before + 1) else monthAndDay (month + 1) (before - length) rest

/-- The date with a day number; none outside of the range of years. -/
def ofDayNumber? (n : Int) : Option Date :=
  let year := yearOf n
  let (month, day) := monthAndDay 1 (n - daysBeforeYear year).toNat (monthLengths (isLeap year))
  of? year month day

/-- The day number of the first of January 1970. -/
def epochDay : Int := 719162

/-- The day, in universal time, some milliseconds after the start of 1970. -/
def ofEpochMillis? (millis : Int) : Option Date := ofDayNumber? (epochDay + millis / 86400000)

def sinceMonday (d : Date) : Nat := (d.dayNumber % 7).toNat

def sinceSunday (d : Date) : Nat := (d.sinceMonday + 1) % 7

/-- The number of the week in the year, where weeks start on the day that `since` counts from. -/
def weekOfYear (d : Date) (since : Nat) : Nat := (d.dayOfYear + 6 - since) / 7

/-- The Thursday of the week, which decides the year that the week belongs to. -/
def thursday (d : Date) : Int := d.dayNumber - d.sinceMonday + 3

/-- The year that the week of a date belongs to. -/
def weekYear (d : Date) : Int := yearOf d.thursday

/-- The number of that week in its year. -/
def week (d : Date) : Nat := ((d.thursday - daysBeforeYear d.weekYear) / 7 + 1).toNat

end Date

end AttributeReview
