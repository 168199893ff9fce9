import AttributeReview.Binary64.Rounding
import AttributeReview.Text.Blank

/-!
# Attribute ids

An attribute id is a natural number of 64 bits. In a proposal it is spelled as a text: as an
integer, or as any decimal literal whose nearest binary64 number is one.
-/

namespace AttributeReview

/-- A decimal literal: a sign, digits around the point, and a power of ten. -/
structure Literal where
  negative : Bool
  whole : List Char
  fraction : List Char
  exponent : Int
deriving DecidableEq

namespace Literal

def isDigit (c : Char) : Bool := '0' ≤ c && c ≤ '9'

/-- A text without the sign that it starts with, and whether that is a minus. -/
def takeSign : List Char → Bool × List Char
  | '-' :: rest => (true, rest)
  | '+' :: rest => (false, rest)
  | rest => (false, rest)

/-- The exponent after the mark: a sign and at least one digit, to the end of the text. -/
def exponent? (cs : List Char) : Option Int :=
  let (negative, digits) := takeSign cs
  if digits.isEmpty || !digits.all isDigit then none
  else
    let e : Int := Nat.ofDigitChars 10 digits 0
    some (if negative then -e else e)

/-- The digits after a point, if the text starts with one, and what is left. -/
def takeFraction : List Char → List Char × List Char
  | '.' :: rest => (rest.takeWhile isDigit, rest.dropWhile isDigit)
  | rest => ([], rest)

/-- The literal that a text spells: a sign, digits with at most one point among them, and
an exponent, of which sign, point and exponent may be missing. -/
def ofChars? (cs : List Char) : Option Literal :=
  let (negative, cs) := takeSign cs
  let whole := cs.takeWhile isDigit
  let (fraction, rest) := takeFraction (cs.dropWhile isDigit)
  if whole.isEmpty && fraction.isEmpty then none
  else
    match rest with
    | [] => some ⟨negative, whole, fraction, 0⟩
    | mark :: rest =>
      if mark = 'e' ∨ mark = 'E' then
        (exponent? rest).map fun e => ⟨negative, whole, fraction, e⟩
      else none

/-- The integer that the digits spell when the point is left out. -/
def digits (l : Literal) : Nat := Nat.ofDigitChars 10 (l.whole ++ l.fraction) 0

/-- The power of ten by which `digits` is multiplied. -/
def power (l : Literal) : Int := l.exponent - l.fraction.length

/-- The binary64 number nearest to the literal; none past the largest one. Literals far outside
the range of the format are told by the number of their digits. -/
def nearest? (l : Literal) : Option Binary64 :=
  let places : Int := (Nat.toDigits 10 l.digits).length + l.power
  if l.digits = 0 ∨ places < -400 then some (Binary64.zero l.negative)
  else if 400 < places then none
  else Binary64.ofRatio l.negative (l.digits * Nat.pow 10 l.power.toNat)
    (Nat.pow 10 (-l.power).toNat)

end Literal

namespace Attribute

/-- The id that an integer literal spells: an optional plus sign and digits. -/
def idOfInteger? (cs : List Char) : Option UInt64 :=
  let digits :=
    match cs with
    | '+' :: rest => rest
    | _ => cs
  if digits.isEmpty || !digits.all Literal.isDigit then none
  else
    let n := Nat.ofDigitChars 10 digits 0
    if n < UInt64.size then some (UInt64.ofNat n) else none

/-- The id that a binary64 number is: an integer from 0 to 2^64, of which the last stands for the
greatest id. -/
def idOfNumber? (x : Binary64) : Option UInt64 :=
  if x.isIntegral && (x.isZero || !x.negative) && x.truncated ≤ UInt64.size then
    some (UInt64.ofNat (min x.truncated.toNat (UInt64.size - 1)))
  else none

/-- The id that a key spells, blanks around it aside. -/
def idOfKey? (key : String) : Option UInt64 :=
  let cs := Text.trim key.toList
  match idOfInteger? cs with
  | some id => some id
  | none => ((Literal.ofChars? cs).bind Literal.nearest?).bind idOfNumber?

/-- The canonical spelling of an id, which a key that is written has. -/
def keyOfId (id : UInt64) : String := String.ofList (Nat.toDigits 10 id.toNat)

end Attribute

end AttributeReview
