import AttributeReview.Calendar.Date
import AttributeReview.Calendar.Pattern

/-!
# Dates in texts

The date that a text names: an internet timestamp, or a text of one of a few patterns. A timestamp
counts for the date that is written in it, whatever its time of day and offset.
-/

namespace AttributeReview.Calendar

def isDigit (c : Char) : Bool := '0' ≤ c && c ≤ '9'

/-- The digits at the start of a text, at most `width` of them, as a number. -/
def takeDigits (width : Nat) (cs : List Char) : Option (Nat × List Char) :=
  let digits := (cs.take width).takeWhile isDigit
  if digits.isEmpty then none
  else some (Nat.ofDigitChars 10 digits 0, cs.drop digits.length)

def takeAllDigits (cs : List Char) : Option (Nat × List Char) := takeDigits cs.length cs

/-- A number of a date or time: at most two digits, of a year four, or any number of them after
a sign. -/
def takeField (field : Field) (cs : List Char) : Option (Int × List Char) :=
  match field, cs with
  | .year, '-' :: rest => (takeAllDigits rest).map fun (n, rest) => (-n, rest)
  | .year, '+' :: rest => (takeAllDigits rest).map fun (n, rest) => (n, rest)
  | .year, cs => (takeDigits 4 cs).map fun (n, rest) => (n, rest)
  | _, cs => (takeDigits 2 cs).map fun (n, rest) => (n, rest)

/-- A fraction of a second: nothing, or a point and at least one digit. -/
def takeFraction : List Char → Option (List Char)
  | '.' :: rest => (takeAllDigits rest).map (·.2)
  | rest => some rest

/-- The numbers that a text holds where the pattern asks for them, if all of it fits. -/
def takeItems : List Item → List Char → Option (List (Field × Int))
  | [], [] => some []
  | [], _ :: _ => none
  | .char _ :: _, [] => none
  | .char c :: items, d :: rest => if c = d then takeItems items rest else none
  | .blank _ :: items, cs => takeItems items (Text.trimStart cs)
  | .number field _ :: items, cs => do
    let (n, rest) ← takeField field (Text.trimStart cs)
    let fields ← takeItems items rest
    return (field, n) :: fields
  | .fraction :: items, cs => do
    let rest ← takeFraction cs
    takeItems items rest
  | _ :: _, _ => none

/-- There is such a time of day; a minute may have a leap second. -/
def isTimeOfDay (hour minute second : Int) : Bool := hour ≤ 23 && minute ≤ 59 && second ≤ 60

/-- The date that some numbers make up. A time of day with them has to be one. -/
def dateOfFields (fields : List (Field × Int)) : Option Date := do
  let year ← fields.lookup .year
  let month ← fields.lookup .month
  let day ← fields.lookup .day
  let time (field : Field) := (fields.lookup field).getD 0
  if isTimeOfDay (time .hour) (time .minute) (time .second) then
    Date.of? year month.toNat day.toNat
  else none

/-- The date that a text of a pattern names. -/
def readPattern (items : List Item) (cs : List Char) : Option Date :=
  (takeItems items cs).bind dateOfFields

/-- A number of exactly `width` digits at the start of a text. -/
def takeExactly (width : Nat) (cs : List Char) : Option (Nat × List Char) :=
  let digits := cs.take width
  if digits.length = width ∧ digits.all isDigit then
    some (Nat.ofDigitChars 10 digits 0, cs.drop width)
  else none

/-- What follows one of the accepted characters. -/
def takeChar (accepted : List Char) : List Char → Option (List Char)
  | c :: rest => if accepted.contains c then some rest else none
  | [] => none

/-- The offset of a timestamp: a letter that stands for universal time, or a sign, hours and
minutes. The sign may be the minus sign proper. -/
def isOffset : List Char → Bool
  | ['Z'] | ['z'] => true
  | sign :: rest =>
    ['+', '-', '\u2212'].contains sign &&
      (do
        let (hour, rest) ← takeExactly 2 rest
        let rest ← takeChar [':'] rest
        let (minute, rest) ← takeExactly 2 rest
        return (hour ≤ 23 && minute ≤ 59 && rest.isEmpty : Bool)) == some true
  | [] => false

/-- The date written in an internet timestamp. -/
def readTimestamp (cs : List Char) : Option Date := do
  let (year, cs) ← takeExactly 4 cs
  let cs ← takeChar ['-'] cs
  let (month, cs) ← takeExactly 2 cs
  let cs ← takeChar ['-'] cs
  let (day, cs) ← takeExactly 2 cs
  let cs ← takeChar ['T', 't', ' '] cs
  let (hour, cs) ← takeExactly 2 cs
  let cs ← takeChar [':'] cs
  let (minute, cs) ← takeExactly 2 cs
  let cs ← takeChar [':'] cs
  let (second, cs) ← takeExactly 2 cs
  let cs ← takeFraction cs
  if isTimeOfDay hour minute second && isOffset cs then Date.of? year month day else none

/-- The patterns that a date in a text may have, besides a timestamp. -/
def inputPatterns : List (List Item) := [
  Pattern.dashed ++ [.char 'T'] ++ Pattern.timeOfDay ++ [.fraction],
  Pattern.dashed ++ [.char 'T'] ++ Pattern.timeOfDay,
  Pattern.dashed ++ [.blank ' '] ++ Pattern.timeOfDay ++ [.fraction],
  Pattern.dashed ++ [.blank ' '] ++ Pattern.timeOfDay,
  Pattern.dashed ++ [.char 'T'] ++ Pattern.hourMinute,
  Pattern.dashed,
  Pattern.slashed .year]

/-- All that can read a date, in the order in which they are asked. -/
def readers : List (List Char → Option Date) := readTimestamp :: inputPatterns.map readPattern

/-- The date that a text names, blanks around it aside. -/
def readDate (s : String) : Option Date :=
  let cs := Text.trim s.toList
  readers.findSome? (· cs)

end AttributeReview.Calendar
