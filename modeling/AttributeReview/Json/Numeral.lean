import AttributeReview.Json.Fault

/-!
# Numerals

A numeral as it stands in a document, and the number it is read as. An integer of 64 bits is kept.
Of any other numeral the leading digits that fit 64 bits are taken and scaled by a power of ten,
each step rounded; so the number is near to the numeral and not always the nearest.
-/

namespace AttributeReview.Json

/-- A numeral by its parts. No digit is lost, however many there are. -/
structure Numeral where
  negative : Bool
  whole : List Char
  fraction : Option (List Char)
  /-- The sign and the digits of the exponent. -/
  exponent : Option (Bool × List Char)
deriving DecidableEq

namespace Numeral

def digitValue (d : Char) : Nat := d.toNat - 48

/-- The integer of some digits, read on from `n` as far as it fits 64 bits, and the digits left. -/
def absorb (n : Nat) : List Char → Nat × List Char
  | [] => (n, [])
  | d :: rest =>
    let next := n * 10 + digitValue d
    if next < UInt64.size then absorb next rest else (n, d :: rest)

/-- A power of ten, rounded. -/
def powerOfTen (k : Nat) : Option Binary64 := Binary64.ofRatio false (Nat.pow 10 k) 1

/-- Divides by a power of ten, by at most 10^308 at a time. -/
def scaleDown (x : Binary64) (k : Nat) : Option Binary64 :=
  if k ≤ 308 then (powerOfTen k).bind x.div
  else if x.isZero then some x
  else ((powerOfTen 308).bind x.div).bind fun y => scaleDown y (k - 308)
termination_by k

/-- Multiplies by a power of ten. Past 10^308 only a zero has a product. -/
def scaleUp (x : Binary64) (k : Nat) : Option Binary64 :=
  if k ≤ 308 then (powerOfTen k).bind x.mul
  else if x.isZero then some x
  else none

/-- The number read for `significand * 10 ^ exponent`; none where it is out of range. -/
def scaled (negative : Bool) (significand : Nat) (exponent : Int) : Option Number := do
  let start ← Binary64.ofRatio false significand 1
  let x ←
    if exponent < 0 then scaleDown start exponent.natAbs else scaleUp start exponent.natAbs
  return .float (if negative then x.neg else x)

/-- The number that a numeral without fraction and exponent is read as. Minus zero, and what is
below the least integer of 64 bits, is read as a binary64 number. -/
def integer (negative : Bool) (n : Nat) : Option Number :=
  if negative then
    if h : 0 < n ∧ n ≤ 0x8000000000000000 then some (.negative ⟨n - 1, by omega⟩)
    else scaled true n 0
  else some (.natural (UInt64.ofNat n))

def exponentValue (n : Numeral) : Int :=
  match n.exponent with
  | none => 0
  | some (negative, digits) =>
    let e : Int := Nat.ofDigitChars 10 digits 0
    if negative then -e else e

/-- The number that the numeral is read as; none where it is out of range. -/
def number? (n : Numeral) : Option Number :=
  let (whole, extra) := absorb 0 n.whole
  if n.fraction.isNone && n.exponent.isNone && extra.isEmpty then integer n.negative whole
  else
    let fraction := n.fraction.getD []
    let (significand, left) := absorb whole fraction
    scaled n.negative significand
      (extra.length - (fraction.length - left.length : Nat) + n.exponentValue)

end Numeral

end AttributeReview.Json
