import AttributeReview.Proofs.Binary64.Rounding
import Mathlib.Order.Monotone.Basic

/-!
# The order of magnitudes

From each magnitude to the next it is one spacing, so a greater rank has a greater magnitude. Two
numbers are the same just if their values are equal.
-/

namespace AttributeReview.Binary64

variable {r : Nat}

/-! ## From one magnitude to the next -/

theorem unitsOf_eq (r : Nat) : unitsOf r = significand r * 2 ^ scale r := by
  rw [unitsOf, Nat.shiftLeft_eq]

theorem rank_eq (r : Nat) : r = scale r * perBinade + significand r := by
  have hdiv := Nat.div_add_mod' r perBinade
  unfold scale significand
  split
  next hlt => rw [Nat.div_eq_of_lt hlt]; simp
  next hge =>
    have hpos : 0 < r / perBinade := Nat.div_pos (Nat.not_lt.mp hge) perBinade_pos
    rw [Nat.sub_one_mul]
    have : perBinade ≤ r / perBinade * perBinade := Nat.le_mul_of_pos_left perBinade hpos
    omega

theorem significand_lt (r : Nat) : significand r < 2 * perBinade := by
  have hmod := Nat.mod_lt r perBinade_pos
  unfold significand
  split <;> omega

theorem scale_eq_zero_or (r : Nat) : scale r = 0 ∨ perBinade ≤ significand r := by
  unfold scale significand
  split
  next hlt => left; rw [Nat.div_eq_of_lt hlt]
  next => right; omega

theorem unitsOf_succ (r : Nat) : unitsOf (r + 1) = unitsOf r + 2 ^ scale r := by
  have hlt := significand_lt r
  have hnormal := scale_eq_zero_or r
  have hnext : unitsOf (r + 1) = (significand r + 1) * 2 ^ scale r := by
    conv_lhs => rw [rank_eq r, Nat.add_assoc]
    exact unitsOf_multiple (by omega) (by omega)
  rw [hnext, unitsOf_eq, Nat.add_mul, Nat.one_mul]

theorem unitsOf_strictMono : StrictMono unitsOf := by
  apply strictMono_nat_of_lt_succ
  intro r
  rw [unitsOf_succ]
  have := Nat.two_pow_pos (scale r)
  omega

theorem unitsOf_zero : unitsOf 0 = 0 := unitsOf_of_lt perBinade_pos

theorem unitsOf_eq_zero_iff : unitsOf r = 0 ↔ r = 0 := by
  conv_lhs => rw [← unitsOf_zero]
  exact unitsOf_strictMono.injective.eq_iff

/-! ## Values -/

/-- The number itself. -/
def value (x : Binary64) : ℚ :=
  (if x.negative then -(x.units : ℚ) else x.units) / unitsPerOne

theorem value_eq_iff {x y : Binary64} :
    x.value = y.value ↔
      (if x.negative then -(x.units : ℤ) else x.units) =
        if y.negative then -(y.units : ℤ) else y.units := by
  have hcast (z : Binary64) : z.value =
      ((if z.negative then -(z.units : ℤ) else z.units : ℤ) : ℚ) / unitsPerOne := by
    unfold value
    split <;> push_cast <;> rfl
  rw [hcast, hcast, div_left_inj' cast_unitsPerOne_pos.ne', Int.cast_inj]

theorem units_inj {x y : Binary64} : x.units = y.units ↔ x.rank = y.rank :=
  unitsOf_strictMono.injective.eq_iff

theorem units_eq_zero_iff {x : Binary64} : x.units = 0 ↔ x.rank = 0 := unitsOf_eq_zero_iff

theorem same_iff {x y : Binary64} : x.same y = true ↔ x.value = y.value := by
  have hx := units_eq_zero_iff (x := x)
  have hy := units_eq_zero_iff (x := y)
  have hxy := units_inj (x := x) (y := y)
  rw [value_eq_iff]
  unfold same isZero
  simp only [Bool.or_eq_true, Bool.and_eq_true, beq_iff_eq]
  cases x.negative <;> cases y.negative <;> simp <;> omega

end AttributeReview.Binary64
