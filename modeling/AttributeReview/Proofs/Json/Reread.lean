import AttributeReview.Proofs.Json.Fraction
import AttributeReview.Proofs.Json.Scaled

/-!
# Numbers with a fraction that are read back

The text of a number rounds to the number, but it is read with a rounding for each step. So what is
read back is the number itself where the steps before the last one are exact, and else a number very
near to it.
-/

namespace AttributeReview

open Json.Numeral (powerOfTen scaled scaleDown scaleUp)

namespace Binary64

variable {x : Binary64} {k n : ℕ} {e : ℤ}

/-! ## Exact steps -/

theorem powerOfTen_exact (hk : k ≤ 22) :
    ∃ t, powerOfTen k = some t ∧ t.negative = false ∧ t.units = 10 ^ k * unitsPerOne := by
  have hall : ∀ k ≤ 22, (powerOfTen k).map (fun t => (t.negative, t.units)) =
      some (false, 10 ^ k * unitsPerOne) := by decide +kernel
  obtain ⟨t, ht, heq⟩ := Option.map_eq_some_iff.mp (hall k hk)
  rw [Prod.mk.injEq] at heq
  exact ⟨t, ht, heq.1, heq.2⟩

section Exact

variable {a : Binary64} (hpositive : a.negative = false) (ha : a.units = n * unitsPerOne)
include hpositive ha

theorem scaleDown_exact (hk : k ≤ 22)
    (hx : roundsTo x.rank (2 * (n * unitsPerOne)) (10 ^ k) = true) :
    scaleDown a k = some ⟨false, x.rank, x.finite⟩ := by
  have hten : 0 < 10 ^ k := Nat.pow_pos (by decide)
  have hden : 0 < 10 ^ k * unitsPerOne := Nat.mul_pos hten unitsPerOne_pos
  obtain ⟨t, ht, htpositive, htunits⟩ := powerOfTen_exact hk
  have hnonzero : t.isZero = false := isZero_eq_false (htunits ▸ hden)
  rw [scaleDown, if_pos (by omega), ht, Option.bind_some, div, hnonzero,
    if_neg Bool.false_ne_true, hpositive, htpositive, ha, htunits]
  apply ofRatio_of_roundsTo hden
  refine roundsTo_congr hten hden ?_ hx
  ring

theorem scaleUp_exact (hk : k ≤ 22)
    (hx : roundsTo x.rank (2 * (n * 10 ^ k * unitsPerOne)) 1 = true) :
    scaleUp a k = some ⟨false, x.rank, x.finite⟩ := by
  have hden : 0 < unitsPerOne * unitsPerOne := Nat.mul_pos unitsPerOne_pos unitsPerOne_pos
  obtain ⟨t, ht, htpositive, htunits⟩ := powerOfTen_exact hk
  rw [scaleUp, if_pos (by omega), ht, Option.bind_some, mul, hpositive, htpositive, ha, htunits]
  apply ofRatio_of_roundsTo hden
  refine roundsTo_congr Nat.one_pos hden ?_ hx
  ring

end Exact

theorem scaled_exact (hn : n ≤ 2 ^ 53) (he : e.natAbs ≤ 22)
    (hx : roundsTo x.rank (2 * (n * 10 ^ e.toNat * unitsPerOne)) (10 ^ (-e).toNat) = true) :
    scaled x.negative n e = some (.float x) := by
  -- Both operands are exact, so the product or the quotient is the only thing rounded.
  obtain ⟨a, ha, hpositive, haunits⟩ :=
    ofRatio_integer Nat.one_pos (Nat.mul_one n).symm hn false
  have hstep : (if e < 0 then scaleDown a e.natAbs else scaleUp a e.natAbs) =
      some ⟨false, x.rank, x.finite⟩ := by
    split
    next hdown =>
      have hzero : e.toNat = 0 := by omega
      have hpower : (-e).toNat = e.natAbs := by omega
      rw [hzero, hpower, Nat.pow_zero, Nat.mul_one] at hx
      exact scaleDown_exact hpositive haunits he hx
    next hup =>
      have hzero : (-e).toNat = 0 := by omega
      have hpower : e.toNat = e.natAbs := by omega
      rw [hzero, hpower, Nat.pow_zero] at hx
      exact scaleUp_exact hpositive haunits he hx
  rw [Json.Numeral.scaled_of_step ha hstep]
  obtain ⟨negative, rank, hrank⟩ := x
  cases negative <;> rfl

/-! ## Steps with an error -/

theorem off_numeral (h : x.rank ≠ 0) :
    Off roundingShare (1 / 2)
      (x.numeral.significand * 10 ^ x.numeral.power * unitsPerOne) x.units := by
  have hden : 0 < 10 ^ (-x.numeral.power).toNat := Nat.pow_pos (by decide)
  have hratio : (x.numeral.significand * 10 ^ x.numeral.power : ℚ) *
      (10 ^ (-x.numeral.power).toNat : ℕ) =
        (x.numeral.significand * 10 ^ x.numeral.power.toNat : ℕ) := by
    have hpower : x.numeral.power + ((-x.numeral.power).toNat : ℤ) = x.numeral.power.toNat := by
      omega
    push_cast
    rw [mul_assoc, ← zpow_natCast (10 : ℚ) (-x.numeral.power).toNat,
      ← zpow_add₀ (by norm_num), hpower, zpow_natCast]
  have hnear := near_unitsOf_rankOf hden hratio
  rw [rankOf_eq_of_roundsTo hden (roundsTo_numeral h)] at hnear
  exact off_of_near (mul_nonneg (Nat.cast_nonneg _) (zpow_nonneg (by norm_num) _)) hnear

/-- The product that is rounded for the number's text is in range. -/
def productInRange (x : Binary64) : Bool :=
  (ofRatio false x.numeral.significand 1).all fun a =>
    (powerOfTen x.numeral.power.toNat).all fun t =>
      2 * (a.units * t.units) < lowerEnd ranks * unitsPerOne

/-- The greatest number, the one before it and the one before that. -/
def greatest (negative : Bool) (i : Fin 3) : Binary64 :=
  ⟨negative, ranks - 1 - i, Nat.lt_of_le_of_lt (Nat.sub_le _ _) (by decide)⟩

theorem productInRange_greatest :
    ∀ negative i, productInRange (greatest negative i) = true := by decide +kernel

theorem product_of_numeral {a t : Binary64} (h : x.rank ≠ 0) (hpower : 0 ≤ x.numeral.power)
    (ha : ofRatio false x.numeral.significand 1 = some a)
    (ht : powerOfTen x.numeral.power.toNat = some t) :
    2 * (a.units * t.units) < lowerEnd ranks * unitsPerOne := by
  by_cases hgreat : ranks ≤ x.rank + 3
  · have hx : x = greatest x.negative ⟨ranks - 1 - x.rank, by omega⟩ := by
      have hfinite := x.finite
      obtain ⟨negative, rank, hrank⟩ := x
      simp only [greatest, mk.injEq, true_and] at hgreat hfinite ⊢
      omega
    have hrange := productInRange_greatest x.negative ⟨ranks - 1 - x.rank, by omega⟩
    rw [← hx, productInRange, ha, Option.all_some, ht, Option.all_some, decide_eq_true_eq]
      at hrange
    exact hrange
  · have hexact := (roundsTo_iff.mp (roundsTo_numeral h)).2.1
    have hden : (-x.numeral.power).toNat = 0 := by omega
    rw [hden, Nat.pow_zero, Nat.mul_one, ← lowerEnd_succ] at hexact
    have hends : lowerEnd (x.rank + 1) ≤ lowerEnd (ranks - 3) :=
      lowerEnd_strictMono.monotone (by omega)
    exact Json.Numeral.product_lt (significand_pos h) ha ht (hexact.trans hends)

/-! ## Reading back -/

theorem numeral_of_zero (h : x.rank = 0) :
    x.numeral.significand = 0 ∧ x.numeral.power = -1 := by
  rw [numeral, if_pos h]
  exact ⟨rfl, rfl⟩

theorem number?_numeral_exact (hn : x.numeral.significand ≤ 2 ^ 53)
    (he : x.numeral.power.natAbs ≤ 22) : x.numeral.number? = some (.float x) := by
  rw [number?_numeral x (significand_lt_size x)]
  apply scaled_exact hn he
  by_cases h : x.rank = 0
  · obtain ⟨hsignificand, hpower⟩ := numeral_of_zero h
    rw [hsignificand, hpower, h]
    decide
  · exact roundsTo_numeral h

theorem number?_numeral_near (x : Binary64) :
    ∃ y, x.numeral.number? = some (.float y) ∧ y.negative = x.negative ∧
      2 ^ 50 * |(y.units : ℤ) - x.units| ≤ x.units + 2 ^ 51 := by
  by_cases h : x.rank = 0
  · obtain ⟨hsignificand, hpower⟩ := numeral_of_zero h
    have hread := number?_numeral_exact (x := x) (by rw [hsignificand]; decide)
      (by rw [hpower]; decide)
    refine ⟨x, hread, rfl, ?_⟩
    rw [sub_self, abs_zero, mul_zero]
    omega
  · obtain ⟨hlow, hhigh⟩ := power_bounds h
    obtain ⟨y, hy, hsign, hoff⟩ := Json.Numeral.exists_scaled (significand_pos h)
      (significand_lt_size x) (by omega) hhigh
      (fun hpower a t ha ht => product_of_numeral h hpower ha ht) x.negative
    refine ⟨y, ?_, hsign, ?_⟩
    · rw [number?_numeral x (significand_lt_size x), hy]
    · have hnear : (2 ^ 50 * |(y.units : ℚ) - x.units|) ≤ x.units + 2 ^ 51 := by
        obtain ⟨hyLow, hyHigh⟩ := hoff
        obtain ⟨hxLow, hxHigh⟩ := off_numeral h
        have hunits : (0 : ℚ) ≤ x.units := Nat.cast_nonneg _
        norm_num [Json.Numeral.scalingShare, roundingShare] at hyLow hyHigh hxLow hxHigh
        rcases abs_cases ((y.units : ℚ) - x.units) with ⟨heq, -⟩ | ⟨heq, -⟩
        · rw [heq]
          linarith
        · rw [heq]
          linarith
      exact_mod_cast hnear

end Binary64

end AttributeReview
