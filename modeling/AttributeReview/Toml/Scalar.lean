import AttributeReview.Attribute.Id
import AttributeReview.Calendar.Reading

/-!
# Numbers and dates of a TOML file

Which words of a file are a boolean, a number, a date or a time. Their values are of no interest
here.
-/

namespace AttributeReview.Toml

/-- The least natural number that is no integer of a file, 2^63. -/
def int64Bound : Nat := 0x8000000000000000

/-- The character may stand in a word. -/
def isWordChar (c : Char) : Bool :=
  c.isAlphanum || c == '+' || c == '-' || c == '_' || c == '.' || c == ':'

/-- The digits of a text that is made of digits, with single underscores between them. -/
def plainDigits? (isDigit : Char → Bool) : List Char → Option (List Char)
  | [] => none
  | [c] => if isDigit c then some [c] else none
  | c :: '_' :: rest => if isDigit c then (plainDigits? isDigit rest).map (c :: ·) else none
  | c :: rest => if isDigit c then (plainDigits? isDigit rest).map (c :: ·) else none

def dropSign : List Char → List Char
  | '+' :: rest => rest
  | '-' :: rest => rest
  | rest => rest

/-- The digits of a decimal integer without its sign; a zero leads no other digit. -/
def wholeDigits? (cs : List Char) : Option (List Char) :=
  match plainDigits? Literal.isDigit cs with
  | some ('0' :: _ :: _) => none
  | digits => digits

/-- A decimal integer of 64 bits. -/
def isDecimal (word : List Char) : Bool :=
  match wholeDigits? (dropSign word) with
  | some digits =>
    let n := Nat.ofDigitChars 10 digits 0
    if word.head? = some '-' then n ≤ int64Bound else n < int64Bound
  | none => false

/-- An integer in another base, whose mark has been read. -/
def isBased (base : Nat) (cs : List Char) : Bool :=
  let value? (c : Char) : Option Nat :=
    if '0' ≤ c ∧ c ≤ '9' then some (c.toNat - 48)
    else if 'a' ≤ c ∧ c ≤ 'f' then some (c.toNat - 87)
    else if 'A' ≤ c ∧ c ≤ 'F' then some (c.toNat - 55)
    else none
  match plainDigits? (fun c => (value? c).any (· < base)) cs with
  | some digits => digits.foldl (fun n c => n * base + (value? c).getD 0) 0 < int64Bound
  | none => false

def isInteger : List Char → Bool
  | '0' :: 'x' :: rest => isBased 16 rest
  | '0' :: 'o' :: rest => isBased 8 rest
  | '0' :: 'b' :: rest => isBased 2 rest
  | word => isDecimal word

def isExponentMark (c : Char) : Bool := c == 'e' || c == 'E'

/-- A number with a fraction or an exponent; not one past the greatest binary64 number. -/
def isFloat (word : List Char) : Bool :=
  let unsigned := dropSign word
  if unsigned = ['i', 'n', 'f'] ∨ unsigned = ['n', 'a', 'n'] then true
  else
    let mantissa := unsigned.takeWhile (!isExponentMark ·)
    let exponent := unsigned.drop mantissa.length
    let whole := mantissa.takeWhile (· != '.')
    let fraction := mantissa.drop whole.length
    (!fraction.isEmpty || !exponent.isEmpty) &&
      (wholeDigits? whole).isSome &&
      (fraction.isEmpty || (plainDigits? Literal.isDigit (fraction.drop 1)).isSome) &&
      (exponent.isEmpty ||
        (plainDigits? Literal.isDigit (dropSign (exponent.drop 1))).isSome) &&
      -- A negative number past the range is minus infinity, which is accepted.
      (word.head? = some '-' ||
        ((Literal.ofChars? (word.filter (· != '_'))).bind Literal.nearest?).isSome)

def takeDate (cs : List Char) : Option (List Char) := do
  let (year, cs) ← Calendar.takeExactly 4 cs
  let cs ← Calendar.takeChar ['-'] cs
  let (month, cs) ← Calendar.takeExactly 2 cs
  let cs ← Calendar.takeChar ['-'] cs
  let (day, cs) ← Calendar.takeExactly 2 cs
  let _ ← Date.of? year month day
  return cs

/-- Takes a time of day, with seconds. -/
def takeTime (cs : List Char) : Option (List Char) := do
  let (hour, cs) ← Calendar.takeExactly 2 cs
  let cs ← Calendar.takeChar [':'] cs
  let (minute, cs) ← Calendar.takeExactly 2 cs
  let cs ← Calendar.takeChar [':'] cs
  let (second, cs) ← Calendar.takeExactly 2 cs
  let cs ← Calendar.takeFraction cs
  if Calendar.isTimeOfDay hour minute second then some cs else none

/-- A time of day and, perhaps, an offset that is written with ASCII signs. -/
def isZonedTime (cs : List Char) : Bool :=
  match takeTime cs with
  | some rest => rest.isEmpty || (rest.head? != some '\u2212' && Calendar.isOffset rest)
  | none => false

/-- A date, a date with a time, or a time. -/
def isDateTime (word : List Char) : Bool :=
  match takeDate word with
  | some [] => true
  | some (c :: rest) => (c == 'T' || c == 't') && isZonedTime rest
  | none => takeTime word == some []

/-- Takes a boolean, a number, a date or a time. A time may follow its date after a space. -/
def takeScalar (cs : List Char) : Option (List Char) :=
  let word := cs.takeWhile isWordChar
  let rest := cs.drop word.length
  if word = "true".toList ∨ word = "false".toList ∨ isInteger word ∨ isFloat word then some rest
  else if takeDate word = some [] then
    match rest with
    | ' ' :: d :: _ =>
      if Literal.isDigit d then
        let time := (rest.drop 1).takeWhile isWordChar
        if isZonedTime time then some (rest.drop (time.length + 1)) else none
      else some rest
    | _ => some rest
  else if isDateTime word then some rest
  else none

end AttributeReview.Toml
