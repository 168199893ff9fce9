import AttributeReview.Binary64.Rounding
import Mathlib.Algebra.Order.Field.Rat
import Mathlib.Tactic.GCongr
import Mathlib.Tactic.Linarith
import Mathlib.Tactic.Ring

/-!
# The error of rounding

The magnitudes of one binade are spaced evenly, and rounding to a magnitude is rounding to a
multiple of the spacing. So it is off by at most half a spacing: by half a unit among the least
magnitudes, and else by one part in 2^53.
-/

namespace AttributeReview.Binary64

variable {num den : Nat}

/-! ## The unit -/

theorem unitsPerOne_eq : unitsPerOne = 2 ^ 1074 := by decide +kernel

theorem two_pow_le_unitsPerOne {k : Nat} (h : k ≤ 1074) : 2 ^ k ≤ unitsPerOne :=
  calc 2 ^ k ≤ 2 ^ 1074 := pow_le_pow_right₀ (by decide) h
    _ = unitsPerOne := unitsPerOne_eq.symm

theorem unitsPerOne_pos : 0 < unitsPerOne :=
  (Nat.two_pow_pos 0).trans_le (two_pow_le_unitsPerOne (Nat.zero_le _))

theorem cast_unitsPerOne_pos : (0 : ℚ) < unitsPerOne := Nat.cast_pos.mpr unitsPerOne_pos

/-! ## Magnitudes -/

theorem perBinade_pos : 0 < perBinade := by decide

theorem unitsOf_of_lt {r : Nat} (h : r < perBinade) : unitsOf r = r := by
  have hscale : scale r = 0 := by rw [scale, Nat.div_eq_of_lt h]
  rw [unitsOf, significand, if_pos h, hscale, Nat.shiftLeft_zero]

theorem units_zero (negative : Bool) : (zero negative).units = 0 :=
  unitsOf_of_lt perBinade_pos

theorem units_of_isZero {x : Binary64} (h : x.isZero) : x.units = 0 := by
  rw [units, beq_iff_eq.mp h]
  exact unitsOf_of_lt perBinade_pos

theorem isZero_eq_false {x : Binary64} (h : 0 < x.units) : x.isZero = false := by
  rw [← Bool.not_eq_true]
  intro hzero
  rw [units_of_isZero hzero] at h
  cases h

theorem unitsOf_binade {s r : Nat} (h : r < perBinade) :
    unitsOf ((s + 1) * perBinade + r) = (perBinade + r) * 2 ^ s := by
  have hdiv : ((s + 1) * perBinade + r) / perBinade = s + 1 := by
    rw [Nat.mul_comm, Nat.mul_add_div perBinade_pos, Nat.div_eq_of_lt h, Nat.add_zero]
  have hmod : ((s + 1) * perBinade + r) % perBinade = r := by
    rw [Nat.mul_comm, Nat.mul_add_mod, Nat.mod_eq_of_lt h]
  have hge : perBinade ≤ (s + 1) * perBinade + r :=
    Nat.le_add_right_of_le (Nat.le_mul_of_pos_left perBinade (Nat.succ_pos s))
  rw [unitsOf, significand, if_neg (Nat.not_lt.mpr hge), scale, hdiv, hmod, Nat.shiftLeft_eq,
    Nat.add_sub_cancel]

theorem unitsOf_multiple {s q : Nat} (hq : q ≤ 2 * perBinade) (hs : s = 0 ∨ perBinade ≤ q) :
    unitsOf (s * perBinade + q) = q * 2 ^ s := by
  rcases Nat.lt_or_ge q perBinade with hlt | hge
  · obtain rfl : s = 0 := by omega
    rw [Nat.zero_mul, Nat.zero_add, unitsOf_of_lt hlt, Nat.pow_zero, Nat.mul_one]
  · obtain ⟨r, rfl⟩ := Nat.exists_eq_add_of_le hge
    have hr : r ≤ perBinade := by omega
    rcases Nat.lt_or_eq_of_le hr with hlt | rfl
    · rw [← unitsOf_binade hlt, Nat.succ_mul, Nat.add_assoc]
    · -- The end of a binade is the start of the next one.
      have hnext : s * perBinade + (perBinade + perBinade) = (s + 1 + 1) * perBinade + 0 := by
        rw [Nat.succ_mul, Nat.succ_mul, Nat.add_zero, Nat.add_assoc]
      rw [hnext, unitsOf_binade perBinade_pos, Nat.pow_succ]
      ring

/-! ## The nearest integer -/

theorem nearest_cases (num den : Nat) :
    nearest num den = num / den ∧ 2 * (num % den) ≤ den ∨
      nearest num den = num / den + 1 ∧ den ≤ 2 * (num % den) := by
  rw [nearest]
  split
  next hdown => exact Or.inl ⟨rfl, by omega⟩
  next hup => exact Or.inr ⟨rfl, by omega⟩

theorem nearest_error (num : Nat) (h : 0 < den) :
    2 * (nearest num den * den) ≤ 2 * num + den ∧
      2 * num ≤ 2 * (nearest num den * den) + den := by
  have hnum : num / den * den + num % den = num := by
    rw [Nat.mul_comm]
    exact Nat.div_add_mod num den
  have hmod : num % den < den := Nat.mod_lt num h
  rcases nearest_cases num den with ⟨heq, hle⟩ | ⟨heq, hle⟩
  · rw [heq]
    omega
  · rw [heq, Nat.add_mul, Nat.one_mul]
    omega

/-! ## The nearest magnitude -/

def wholeUnits (num den : Nat) : Nat := num * unitsPerOne / den

/-- The exponent of the spacing of the magnitudes around a ratio. -/
def spacing (num den : Nat) : Nat := (wholeUnits num den).log2 - 52

/-- The multiple of the spacing that is nearest to a ratio. -/
def multiple (num den : Nat) : Nat :=
  nearest (num * unitsPerOne) (den * 2 ^ spacing num den)

theorem rankOf_eq (num den : Nat) :
    rankOf num den = spacing num den * perBinade + multiple num den := by
  rw [rankOf, Nat.shiftLeft_eq]
  rfl

theorem multiple_cases (num den : Nat) :
    multiple num den = wholeUnits num den / 2 ^ spacing num den ∨
      multiple num den = wholeUnits num den / 2 ^ spacing num den + 1 := by
  rw [wholeUnits, Nat.div_div_eq_div_mul]
  rcases nearest_cases (num * unitsPerOne) (den * 2 ^ spacing num den) with h | h
  · exact Or.inl h.1
  · exact Or.inr h.1

theorem multiple_le (num den : Nat) : multiple num den ≤ 2 * perBinade := by
  have hlt : wholeUnits num den / 2 ^ spacing num den < 2 * perBinade := by
    rw [Nat.div_lt_iff_lt_mul (Nat.two_pow_pos _)]
    calc wholeUnits num den < 2 ^ ((wholeUnits num den).log2 + 1) := Nat.lt_log2_self
      _ ≤ 2 ^ (53 + spacing num den) := Nat.pow_le_pow_right (by decide) (by rw [spacing]; omega)
      _ = 2 * perBinade * 2 ^ spacing num den := by rw [Nat.pow_add]; rfl
  rcases multiple_cases num den with h | h
  · omega
  · omega

theorem le_multiple (h : spacing num den ≠ 0) : perBinade ≤ multiple num den := by
  have hlog : (wholeUnits num den).log2 = 52 + spacing num den := by
    rw [spacing] at h ⊢
    omega
  have hne : wholeUnits num den ≠ 0 := by
    intro hzero
    rw [hzero, Nat.log2_zero] at hlog
    omega
  have hle : perBinade ≤ wholeUnits num den / 2 ^ spacing num den := by
    rw [Nat.le_div_iff_mul_le (Nat.two_pow_pos _)]
    calc perBinade * 2 ^ spacing num den = 2 ^ (wholeUnits num den).log2 := by
          rw [hlog, Nat.pow_add]; rfl
      _ ≤ wholeUnits num den := Nat.log2_self_le hne
  rcases multiple_cases num den with h | h
  · omega
  · omega

theorem unitsOf_rankOf (num den : Nat) :
    unitsOf (rankOf num den) = multiple num den * 2 ^ spacing num den := by
  rw [rankOf_eq]
  refine unitsOf_multiple (multiple_le num den) ?_
  rcases Nat.eq_zero_or_pos (spacing num den) with h | h
  · exact Or.inl h
  · exact Or.inr (le_multiple (Nat.ne_of_gt h))

theorem unitsOf_rankOf_error {r : ℚ} (h : 0 < den) (hr : r * den = num) :
    2 * |unitsOf (rankOf num den) - r * unitsPerOne| ≤ 2 ^ spacing num den := by
  have hden : (0 : ℚ) < den := by exact_mod_cast h
  have hunits : nearest (num * unitsPerOne) (den * 2 ^ spacing num den) *
      (den * 2 ^ spacing num den) = unitsOf (rankOf num den) * den := by
    rw [unitsOf_rankOf, multiple]
    ring
  obtain ⟨hle, hge⟩ := nearest_error (num * unitsPerOne)
    (Nat.mul_pos h (Nat.two_pow_pos (spacing num den)))
  rw [hunits] at hle hge
  have hle' : (2 * (unitsOf (rankOf num den) * den) : ℚ) ≤
      2 * (num * unitsPerOne) + den * 2 ^ spacing num den := by exact_mod_cast hle
  have hge' : (2 * (num * unitsPerOne) : ℚ) ≤
      2 * (unitsOf (rankOf num den) * den) + den * 2 ^ spacing num den := by exact_mod_cast hge
  rw [← hr] at hle' hge'
  have hover : 2 * (unitsOf (rankOf num den) - r * unitsPerOne) ≤ 2 ^ spacing num den := by
    apply le_of_mul_le_mul_right _ hden
    linarith
  have hunder : 2 * (r * unitsPerOne - unitsOf (rankOf num den)) ≤ 2 ^ spacing num den := by
    apply le_of_mul_le_mul_right _ hden
    linarith
  rcases abs_cases (unitsOf (rankOf num den) - r * unitsPerOne) with ⟨heq, -⟩ | ⟨heq, -⟩
  · rw [heq]
    exact hover
  · rw [heq, neg_sub]
    exact hunder

/-- The magnitude is off from the number by at most half a unit, or by at most one part in
2^53. -/
def Near (units : ℕ) (r : ℚ) : Prop :=
  2 * |units - r * unitsPerOne| ≤ 1 ∨ 2 ^ 53 * |units - r * unitsPerOne| ≤ units

theorem near_unitsOf_rankOf {r : ℚ} (h : 0 < den) (hr : r * den = num) :
    Near (unitsOf (rankOf num den)) r := by
  have herror := unitsOf_rankOf_error h hr
  rcases Nat.eq_zero_or_pos (spacing num den) with hzero | hpos
  · left
    rwa [hzero, pow_zero] at herror
  · right
    have hmultiple : (2 ^ 52 : ℚ) ≤ multiple num den := by
      exact_mod_cast le_multiple (Nat.ne_of_gt hpos)
    have hunits : (unitsOf (rankOf num den) : ℚ) =
        multiple num den * 2 ^ spacing num den := by
      exact_mod_cast unitsOf_rankOf num den
    calc 2 ^ 53 * |unitsOf (rankOf num den) - r * unitsPerOne|
        = 2 ^ 52 * (2 * |unitsOf (rankOf num den) - r * unitsPerOne|) := by ring
      _ ≤ 2 ^ 52 * 2 ^ spacing num den := by gcongr
      _ ≤ multiple num den * 2 ^ spacing num den := by gcongr
      _ = unitsOf (rankOf num den) := hunits.symm

theorem near_ofRatio {negative : Bool} {x : Binary64} {r : ℚ} (h : 0 < den) (hr : r * den = num)
    (hx : ofRatio negative num den = some x) : x.negative = negative ∧ Near x.units r := by
  rw [ofRatio] at hx
  split at hx
  · cases hx
    exact ⟨rfl, near_unitsOf_rankOf h hr⟩
  · cases hx

end AttributeReview.Binary64
