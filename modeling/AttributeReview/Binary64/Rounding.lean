import AttributeReview.Binary64.Basic

/-!
# Rounding to binary64

The number nearest to an exact ratio, and products and quotients rounded that way. Where two
numbers are equally near, the one with the even significand is taken; what rounds past the largest
number has no result.
-/

namespace AttributeReview.Binary64

/-- The integer nearest to a ratio; of two equally near the even one. -/
def nearest (num den : Nat) : Nat :=
  let q := num / den
  let r := num % den
  if 2 * r < den ∨ (2 * r = den ∧ q % 2 = 0) then q else q + 1

/-- The rank nearest to a ratio, not bounded above. -/
def rankOf (num den : Nat) : Nat :=
  -- The leading bit fixes the scale at which 53 bits are left for the significand.
  let s := (num * unitsPerOne / den).log2 - 52
  s * perBinade + nearest (num * unitsPerOne) (den <<< s)

/-- The number nearest to a ratio with the given sign. -/
def ofRatio (negative : Bool) (num den : Nat) : Option Binary64 :=
  if h : rankOf num den < ranks then some ⟨negative, rankOf num den, h⟩ else none

def mul (x y : Binary64) : Option Binary64 :=
  ofRatio (x.negative != y.negative) (x.units * y.units) (unitsPerOne * unitsPerOne)

/-- The quotient; a quotient by zero has no result. -/
def div (x y : Binary64) : Option Binary64 :=
  if y.isZero then none else ofRatio (x.negative != y.negative) x.units y.units

end AttributeReview.Binary64
