/-!
# Finite binary64 numbers

A number is a sign and the rank of its magnitude: the magnitudes of the format in ascending order
are numbered from zero. `units` is the magnitude counted in the smallest positive number, 2^-1074,
of which every other is a multiple.
-/

namespace AttributeReview

/-- How many magnitudes there are from one power of two to the next: 2^52. -/
def Binary64.perBinade : Nat := 0x10000000000000

/-- How many finite magnitudes there are. -/
def Binary64.ranks : Nat := 2047 * perBinade

/-- A finite number. The ranks of magnitudes are in the order of the magnitudes, with zero first. -/
structure Binary64 where
  negative : Bool
  rank : Nat
  finite : rank < Binary64.ranks
deriving DecidableEq

namespace Binary64

/-- The significand of a magnitude. The rank leaves out its leading bit, which only the subnormal
numbers lack. -/
def significand (rank : Nat) : Nat :=
  if rank < perBinade then rank else perBinade + rank % perBinade

/-- The power of two that the significand counts, in multiples of 2^-1074. -/
def scale (rank : Nat) : Nat := rank / perBinade - 1

/-- The magnitude of a rank in multiples of 2^-1074. -/
def unitsOf (rank : Nat) : Nat := significand rank <<< scale rank

def units (x : Binary64) : Nat := unitsOf x.rank

/-- How many multiples of 2^-1074 make one. -/
def unitsPerOne : Nat := 1 <<< 1074

def zero (negative : Bool) : Binary64 := ⟨negative, 0, by decide⟩

def isZero (x : Binary64) : Bool := x.rank == 0

def neg (x : Binary64) : Binary64 := ⟨!x.negative, x.rank, x.finite⟩

/-- Equality of the numbers, for which the two zeros are one. -/
def same (x y : Binary64) : Bool :=
  (x.isZero && y.isZero) || (x.negative == y.negative && x.rank == y.rank)

/-- The number without its fraction. -/
def truncated (x : Binary64) : Int :=
  let whole : Int := x.units / unitsPerOne
  if x.negative then -whole else whole

def isIntegral (x : Binary64) : Bool := x.units % unitsPerOne == 0

end Binary64

end AttributeReview
