import AttributeReview.Text.Blank

/-!
# Date patterns

A pattern for dates and times is a list of items. It is spelled as a text in which a percent sign
starts a specifier; a text with a malformed specifier spells no pattern.
-/

namespace AttributeReview.Calendar

/-- What fills up a number that is too short. -/
inductive Padding where
  | none
  | zero
  | space
deriving DecidableEq

/-- What a number in a pattern stands for. -/
inductive Field where
  | year
  | century
  | yearOfCentury
  | weekYear
  | weekYearOfCentury
  | quarter
  | month
  | day
  | dayOfYear
  | sundayWeek
  | mondayWeek
  | week
  | sinceSunday
  | weekday
  | hour
  | halfDayHour
  | minute
  | second
  | nanosecond
  | timestamp
deriving DecidableEq

/-- An item of a pattern. In a reading a blank stands for any blanks, or none. -/
inductive Item where
  | char (c : Char)
  | blank (c : Char)
  | number (field : Field) (padding : Padding)
  | weekdayName (short : Bool)
  | monthName (short : Bool)
  /-- A fraction of a second, with its point. -/
  | fraction
  /-- Anything else that needs a time of day or an offset. -/
  | clock
deriving DecidableEq

namespace Pattern

def dashed : List Item :=
  [.number .year .zero, .char '-', .number .month .zero, .char '-', .number .day .zero]

def slashed (yearField : Field) : List Item :=
  [.number .month .zero, .char '/', .number .day .zero, .char '/', .number yearField .zero]

def hourMinute : List Item := [.number .hour .zero, .char ':', .number .minute .zero]

def timeOfDay : List Item := hourMinute ++ [.char ':', .number .second .zero]

def dayMonthYear : List Item :=
  [.number .day .space, .char '-', .monthName true, .char '-', .number .year .zero]

def halfDayTime : List Item :=
  [.number .halfDayHour .zero, .char ':', .number .minute .zero, .char ':',
    .number .second .zero, .blank ' ', .clock]

def fullTimestamp : List Item :=
  [.weekdayName true, .blank ' ', .monthName true, .blank ' ', .number .day .space, .blank ' '] ++
    timeOfDay ++ [.blank ' ', .number .year .zero]

/-- The items that a single letter after a percent sign stands for. -/
def letter? : Char → Option (List Item)
  | 'Y' => some [.number .year .zero]
  | 'C' => some [.number .century .zero]
  | 'y' => some [.number .yearOfCentury .zero]
  | 'G' => some [.number .weekYear .zero]
  | 'g' => some [.number .weekYearOfCentury .zero]
  | 'q' => some [.number .quarter .none]
  | 'm' => some [.number .month .zero]
  | 'd' => some [.number .day .zero]
  | 'e' => some [.number .day .space]
  | 'j' => some [.number .dayOfYear .zero]
  | 'U' => some [.number .sundayWeek .zero]
  | 'W' => some [.number .mondayWeek .zero]
  | 'V' => some [.number .week .zero]
  | 'w' => some [.number .sinceSunday .none]
  | 'u' => some [.number .weekday .none]
  | 'H' => some [.number .hour .zero]
  | 'k' => some [.number .hour .space]
  | 'I' => some [.number .halfDayHour .zero]
  | 'l' => some [.number .halfDayHour .space]
  | 'M' => some [.number .minute .zero]
  | 'S' => some [.number .second .zero]
  | 'f' => some [.number .nanosecond .zero]
  | 's' => some [.number .timestamp .none]
  | 'A' => some [.weekdayName false]
  | 'a' => some [.weekdayName true]
  | 'B' => some [.monthName false]
  | 'b' | 'h' => some [.monthName true]
  | 'D' | 'x' => some (slashed .yearOfCentury)
  | 'F' => some dashed
  | 'v' => some dayMonthYear
  | 'R' => some hourMinute
  | 'T' | 'X' => some timeOfDay
  | 'r' => some halfDayTime
  | 'c' => some fullTimestamp
  | 'p' | 'P' | 'Z' | 'z' | '+' => some [.clock]
  | 'n' => some [.blank '\n']
  | 't' => some [.blank '\t']
  | '%' => some [.char '%']
  | _ => none

/-- A padding goes with a letter that stands for a single number. -/
def padded? (padding : Padding) (c : Char) : Option (List Item) :=
  match letter? c with
  | some [.number field _] => some [.number field padding]
  | _ => none

/-- The items of the specifier after a percent sign, and how many characters it takes. -/
def specifier? : List Char → Option (List Item × Nat)
  | '-' :: c :: _ => (padded? .none c).map (·, 2)
  | '0' :: c :: _ => (padded? .zero c).map (·, 2)
  | '_' :: c :: _ => (padded? .space c).map (·, 2)
  | '#' :: 'z' :: _ => some ([.clock], 2)
  | ':' :: 'z' :: _ => some ([.clock], 2)
  | ':' :: ':' :: 'z' :: _ => some ([.clock], 3)
  | ':' :: ':' :: ':' :: 'z' :: _ => some ([.clock], 4)
  | '.' :: 'f' :: _ => some ([.fraction], 2)
  | '.' :: c :: 'f' :: _ => if c = '3' ∨ c = '6' ∨ c = '9' then some ([.clock], 3) else none
  | c :: rest =>
    if c = '3' ∨ c = '6' ∨ c = '9' then
      if rest.head? = some 'f' then some ([.clock], 2) else none
    else (letter? c).map (·, 1)
  | [] => none

/-- The pattern that a text spells; none if one of its specifiers is malformed. -/
def ofChars? : List Char → Option (List Item)
  | [] => some []
  | c :: rest =>
    if c = '%' then
      match specifier? rest with
      | some (items, taken) => (ofChars? (rest.drop taken)).map (items ++ ·)
      | none => none
    else (ofChars? rest).map ((if Text.isBlank c then Item.blank c else Item.char c) :: ·)
termination_by cs => cs.length

end Pattern

end AttributeReview.Calendar
