import AttributeReview.Calendar.Date
import AttributeReview.Calendar.Pattern

/-!
# Dates as text

The text of a date in a pattern. A date has no time of day, so a pattern that asks for one has no
text.
-/

namespace AttributeReview.Calendar

def weekdayNames : List String :=
  ["Monday", "Tuesday", "Wednesday", "Thursday", "Friday", "Saturday", "Sunday"]

def monthNames : List String :=
  ["January", "February", "March", "April", "May", "June", "July", "August", "September",
    "October", "November", "December"]

def nameText (short : Bool) (name : String) : List Char :=
  if short then name.toList.take 3 else name.toList

def padLeft (fill : Char) (width : Nat) (digits : List Char) : List Char :=
  List.replicate (width - digits.length) fill ++ digits

/-- A number of some digits, after its sign, at the given width. -/
def padNumber (padding : Padding) (width : Nat) (sign : List Char) (n : Nat) : List Char :=
  let digits := Nat.toDigits 10 n
  match padding with
  | .none => sign ++ digits
  | .zero => sign ++ padLeft '0' (width - sign.length) digits
  | .space => padLeft ' ' width (sign ++ digits)

/-- A year has four digits; outside of 0 to 9999 it has a sign before them. -/
def yearText (padding : Padding) (year : Int) : List Char :=
  if 1000 ≤ year ∧ year ≤ 9999 then Nat.toDigits 10 year.toNat
  else if 0 ≤ year ∧ year ≤ 9999 then padNumber padding 4 [] year.toNat
  else padNumber padding 5 [if year < 0 then '-' else '+'] year.natAbs

/-- The character `n` places after the digit zero. -/
def placeChar (n : Nat) : Char := Char.ofNat (48 + n)

/-- A number of two places, the first of which may be more than nine. -/
def twoPlaces (padding : Padding) (n : Nat) : List Char :=
  let tens :=
    if n / 10 = 0 then
      match padding with
      | .none => []
      | .zero => ['0']
      | .space => [' ']
    else [placeChar (n / 10)]
  tens ++ [placeChar (n % 10)]

/-- The text of a number of a date. The numbers of the time of day have none. -/
def fieldText (d : Date) (padding : Padding) : Field → Option (List Char)
  | .year => some (yearText padding d.year)
  | .century => some (twoPlaces padding (d.year / 100 % 256).toNat)
  | .yearOfCentury => some (twoPlaces padding (d.year % 100).toNat)
  | .weekYear => some (yearText padding d.weekYear)
  | .weekYearOfCentury => some (twoPlaces padding (d.weekYear % 100).toNat)
  | .quarter => some [placeChar ((d.month - 1) / 3 + 1)]
  | .month => some (twoPlaces padding d.month)
  | .day => some (twoPlaces padding d.day)
  | .dayOfYear => some (padNumber padding 3 [] d.dayOfYear)
  | .sundayWeek => some (twoPlaces padding (d.weekOfYear d.sinceSunday))
  | .mondayWeek => some (twoPlaces padding (d.weekOfYear d.sinceMonday))
  | .week => some (twoPlaces padding d.week)
  | .sinceSunday => some [placeChar d.sinceSunday]
  | .weekday => some [placeChar (d.sinceMonday + 1)]
  | .hour | .halfDayHour | .minute | .second | .nanosecond | .timestamp => none

/-- The text of one item; none where the item asks for a time of day. -/
def itemText (d : Date) : Item → Option (List Char)
  | .char c | .blank c => some [c]
  | .number field padding => fieldText d padding field
  | .weekdayName short => some (nameText short (weekdayNames.getD d.sinceMonday ""))
  | .monthName short => some (nameText short (monthNames.getD (d.month - 1) ""))
  | .fraction | .clock => none

/-- The text of a date in a pattern, if each of its items has one. -/
def render (d : Date) : List Item → Option (List Char)
  | [] => some []
  | item :: rest => do
    let text ← itemText d item
    let after ← render d rest
    return text ++ after

def dashedText (d : Date) : List Char :=
  yearText .zero d.year ++ '-' :: twoPlaces .zero d.month ++ '-' :: twoPlaces .zero d.day

end AttributeReview.Calendar
