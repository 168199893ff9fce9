import AttributeReview.Proofs.Attribute.Literal
import AttributeReview.Proofs.Binary64.Exact

/-!
# Literals of small ids

A literal whose number is an integer up to 2^53 goes through binary64 without an error, however
many digits it has and however far its exponent moves the point. So the id read for it is its
number.
-/

namespace AttributeReview

open Attribute (idOfNumber?)
open Binary64 (unitsPerOne)

/-! ## The places of a literal -/

namespace Literal

variable {l : Literal} {k : ℕ}

theorem le_magnitude (h : l.digits ≠ 0) :
    (10 : ℚ) ^ ((Nat.toDigits 10 l.digits).length + l.power - 1) ≤ l.magnitude := by
  have hdigits : 10 ^ ((Nat.toDigits 10 l.digits).length - 1) ≤ l.digits := by
    rcases Nat.eq_zero_or_pos ((Nat.toDigits 10 l.digits).length - 1) with hzero | hpos
    · rw [hzero, Nat.pow_zero]
      exact Nat.pos_of_ne_zero h
    · by_contra hlt
      have hle := (Nat.length_toDigits_le_iff (by decide) hpos).mpr (Nat.not_le.mp hlt)
      omega
  have hcast : (10 : ℚ) ^ ((Nat.toDigits 10 l.digits).length - 1) ≤ l.digits := by
    exact_mod_cast hdigits
  have hlength : 0 < (Nat.toDigits 10 l.digits).length := Nat.length_toDigits_pos
  have hexponent : ((Nat.toDigits 10 l.digits).length + l.power - 1 : ℤ) =
      ((Nat.toDigits 10 l.digits).length - 1 : ℕ) + l.power := by omega
  rw [magnitude, hexponent, zpow_add₀ (by norm_num), zpow_natCast]
  exact mul_le_mul_of_nonneg_right hcast (zpow_nonneg (by norm_num) _)

theorem places_bounds (h : l.digits ≠ 0) (hmagnitude : l.magnitude = k) (hpos : 0 < k)
    (hk : k ≤ 2 ^ 53) : 0 < (Nat.toDigits 10 l.digits).length + l.power ∧
      (Nat.toDigits 10 l.digits).length + l.power < 17 := by
  -- A small integer has few places, so it is far from the ends of the format.
  have hone : (1 : ℚ) ≤ k := by exact_mod_cast hpos
  have hle : (k : ℚ) ≤ 2 ^ 53 := by exact_mod_cast hk
  have hupper := l.magnitude_lt
  have hlower := le_magnitude h
  rw [hmagnitude] at hupper hlower
  constructor
  · exact (one_lt_zpow_iff_right₀ (by norm_num)).mp (lt_of_le_of_lt hone hupper)
  · have hlt : (10 : ℚ) ^ ((Nat.toDigits 10 l.digits).length + l.power - 1) < 10 ^ (16 : ℤ) :=
      lt_of_le_of_lt (hlower.trans hle) (by norm_num)
    have hplaces := (zpow_lt_zpow_iff_right₀ (by norm_num)).mp hlt
    omega

/-! ## The nearest number -/

theorem nearest?_zero (h : l.digits = 0) : l.nearest? = some (.zero l.negative) := by
  unfold nearest?
  exact if_pos (Or.inl h)

theorem nearest?_integer (h : l.digits ≠ 0) (hvalue : l.value = k) (hk : k ≤ 2 ^ 53) :
    ∃ x, l.nearest? = some x ∧ x.negative = false ∧ x.units = k * unitsPerOne := by
  have hmagnitude : l.magnitude = k := by
    rw [← abs_value, hvalue, Nat.abs_cast]
  have hpos : (0 : ℚ) < k := by
    rw [← hmagnitude]
    exact lt_of_lt_of_le (zpow_pos (by norm_num) _) (le_magnitude h)
  have hsign : l.negative = false := by
    cases hnegative : l.negative with
    | false => rfl
    | true =>
      rw [value, if_pos hnegative, hmagnitude] at hvalue
      linarith
  obtain ⟨hlow, hhigh⟩ := places_bounds h hmagnitude (by exact_mod_cast hpos) hk
  have hratio : l.digits * Nat.pow 10 l.power.toNat = k * Nat.pow 10 (-l.power).toNat := by
    have hcast := l.magnitude_mul
    rw [hmagnitude] at hcast
    exact_mod_cast hcast.symm
  have hden : 0 < Nat.pow 10 (-l.power).toNat := Nat.pow_pos (by decide)
  obtain ⟨x, hx, hnegative, hunits⟩ := Binary64.ofRatio_integer hden hratio hk l.negative
  refine ⟨x, ?_, hnegative.trans hsign, hunits⟩
  unfold nearest?
  simp only
  rw [if_neg (by omega), if_neg (by omega), hx]

end Literal

/-! ## The id -/

namespace Attribute

theorem idOfNumber?_zero (negative : Bool) : idOfNumber? (.zero negative) = some 0 := by
  cases negative with
  | false => decide +kernel
  | true => decide +kernel

theorem idOfNumber?_integer {x : Binary64} {id : UInt64} (hsign : x.negative = false)
    (hunits : x.units = id.toNat * unitsPerOne) : idOfNumber? x = some id := by
  have htruncated := truncated_of_units hunits (Or.inr hsign)
  have hintegral : x.isIntegral = true := by
    rw [Binary64.isIntegral, hunits, Nat.mul_mod_left, beq_self_eq_true]
  have hlt := id.toNat_lt
  have hle : id.toNat ≤ UInt64.size - 1 := Nat.le_pred_of_lt hlt
  have hbound : (id.toNat : Int) ≤ UInt64.size := by exact_mod_cast Nat.le_of_lt hlt
  unfold idOfNumber?
  simp only [htruncated, hintegral, hsign, hbound, Bool.not_false, Bool.or_true, Bool.and_self,
    decide_true, if_true]
  rw [Int.toNat_natCast, Nat.min_eq_left hle, UInt64.ofNat_toNat]

/-- **Small ids.** The id read for a literal of an integer up to 2^53 is this integer. -/
theorem idOfNumber?_nearest? {l : Literal} {id : UInt64} (h : l.value = id.toNat)
    (hid : id.toNat ≤ 2 ^ 53) : l.nearest?.bind idOfNumber? = some id := by
  by_cases hdigits : l.digits = 0
  · have hzero : id = 0 := by
      have hvalue : |l.value| = 0 := by
        rw [Literal.abs_value, Literal.magnitude, hdigits, Nat.cast_zero, zero_mul]
      rw [h, Nat.abs_cast, Nat.cast_eq_zero] at hvalue
      exact UInt64.toNat_inj.mp hvalue
    rw [Literal.nearest?_zero hdigits, Option.bind_some, idOfNumber?_zero, hzero]
  · obtain ⟨x, hx, hsign, hunits⟩ := Literal.nearest?_integer hdigits h hid
    rw [hx, Option.bind_some, idOfNumber?_integer hsign hunits]

end Attribute

end AttributeReview
