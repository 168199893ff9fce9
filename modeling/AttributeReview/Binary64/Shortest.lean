import AttributeReview.Binary64.Basic

/-!
# Shortest decimals

The shortest decimal that reads back as a given number. It is a point of the coarsest decimal grid
that has a point near enough to the number: nearer to it than to any other number of the format.
-/

namespace AttributeReview.Binary64

/-- A decimal number `digits * 10 ^ exponent`. -/
structure Decimal where
  digits : Nat
  exponent : Int
deriving DecidableEq

/-- The end of the interval that rounds to the magnitude of a rank, in halves of 2^-1074. -/
def upperEnd (rank : Nat) : Nat := unitsOf rank + unitsOf (rank + 1)

/-- The other end of that interval; for zero it is zero. -/
def lowerEnd (rank : Nat) : Nat := if rank = 0 then 0 else unitsOf (rank - 1) + unitsOf rank

/-- A ratio of halves of 2^-1074 rounds to the magnitude of the rank: the ends of the interval do
so only for an even significand. -/
def roundsTo (rank num den : Nat) : Bool :=
  if rank % 2 = 0 then lowerEnd rank * den ≤ num && num ≤ upperEnd rank * den
  else lowerEnd rank * den < num && num < upperEnd rank * den

/-- The point of the grid of multiples of `10 ^ exponent` that is nearest to the magnitude, of
those two next to it that round to it. -/
def gridPoint? (rank : Nat) (exponent : Int) : Option Decimal :=
  let up := Nat.pow 10 (-exponent).toNat
  let down := Nat.pow 10 exponent.toNat * unitsPerOne
  let below := unitsOf rank * up / down
  let gap := unitsOf rank * up - below * down
  let fits (n : Nat) : Bool := roundsTo rank (2 * n * down) up
  if fits below then
    -- Both round to it: the nearer one is taken, and of two equally near the even one.
    if fits (below + 1) && (down < 2 * gap || (2 * gap == down && below % 2 == 1)) then
      some ⟨below + 1, exponent⟩
    else some ⟨below, exponent⟩
  else if fits (below + 1) then some ⟨below + 1, exponent⟩
  else none

/-- The exponents of the grids that are tried, the coarsest first. -/
def gridExponents : List Int := (List.range 660).map (fun (n : Nat) => 309 - (n : Int))

/-- The shortest decimal that reads back as the magnitude of a rank. Some grid always has a point,
so the multiple of 2^-1074 is never what is taken. -/
def shortest (rank : Nat) : Decimal :=
  if rank = 0 then ⟨0, 0⟩
  else (gridExponents.findSome? (gridPoint? rank)).getD ⟨unitsOf rank, -1074⟩

end AttributeReview.Binary64
