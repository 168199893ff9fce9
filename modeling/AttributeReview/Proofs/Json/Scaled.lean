import AttributeReview.Json.Numeral
import AttributeReview.Proofs.Binary64.Error
import AttributeReview.Proofs.Binary64.Shortest

/-!
# The error of scaling

An integer is scaled by a power of ten in steps that are rounded each: the integer, the power, and
their product or quotient. Where the power is out of the format it is divided twice. What comes of
it is off by the errors of these steps and not more.
-/

namespace AttributeReview

namespace Binary64

variable {num den : Nat} {r : ℚ} {x y : Binary64}

/-! ## Numbers in range -/

theorem rankOf_lt_ranks (h : 0 < den)
    (hlt : 2 * (num * unitsPerOne) < lowerEnd ranks * den) : rankOf num den < ranks := by
  obtain ⟨hlower, -⟩ := roundsTo_iff.mp (roundsTo_rankOf num h)
  exact lowerEnd_strictMono.lt_iff_lt.mp (Nat.lt_of_mul_lt_mul_right (hlower.trans_lt hlt))

/-- The ratio lies before the end of the last interval. -/
def InRange (r : ℚ) : Prop := 2 * (r * unitsPerOne) < lowerEnd ranks

theorem exists_ofRatio (h : 0 < den) (hr : r * den = num) (hrange : InRange r)
    (negative : Bool) :
    ∃ x, ofRatio negative num den = some x ∧ x.negative = negative ∧ Near x.units r := by
  have hden : (0 : ℚ) < den := by exact_mod_cast h
  have hlt : 2 * (num * unitsPerOne) < lowerEnd ranks * den := by
    have hscaled := mul_lt_mul_of_pos_right hrange hden
    have hnum : 2 * (r * unitsPerOne) * den = 2 * (num * unitsPerOne) := by
      rw [← hr]
      ring
    rw [hnum] at hscaled
    exact_mod_cast hscaled
  have hrank := rankOf_lt_ranks h hlt
  exact ⟨⟨negative, _, hrank⟩, dif_pos hrank, rfl, near_unitsOf_rankOf h hr⟩

theorem exists_mul (hrange : InRange (x.units * y.units / (unitsPerOne * unitsPerOne))) :
    ∃ z, x.mul y = some z ∧ z.negative = (x.negative != y.negative) ∧
      Near z.units (x.units * y.units / (unitsPerOne * unitsPerOne)) := by
  have hpos := cast_unitsPerOne_pos
  have hden := unitsPerOne_pos
  have hratio : (x.units * y.units / (unitsPerOne * unitsPerOne) : ℚ) *
      (unitsPerOne * unitsPerOne : ℕ) = (x.units * y.units : ℕ) := by
    push_cast
    exact div_mul_cancel₀ _ (mul_pos hpos hpos).ne'
  exact exists_ofRatio (Nat.mul_pos hden hden) hratio hrange (x.negative != y.negative)

theorem exists_div (hy : 0 < y.units) (hrange : InRange (x.units / y.units)) :
    ∃ z, x.div y = some z ∧ z.negative = (x.negative != y.negative) ∧
      Near z.units (x.units / y.units) := by
  have hzero := isZero_eq_false hy
  have hcast : (y.units : ℚ) ≠ 0 := by exact_mod_cast hy.ne'
  obtain ⟨z, hz, hnegative, hnear⟩ := exists_ofRatio hy (div_mul_cancel₀ _ hcast) hrange
    (x.negative != y.negative)
  refine ⟨z, ?_, hnegative, hnear⟩
  rw [div, hzero, if_neg Bool.false_ne_true]
  exact hz

theorem off_integer {n : ℕ} (hn : 0 < n) (hx : ofRatio false n 1 = some x) :
    x.negative = false ∧ Off roundingShare 0 (n * unitsPerOne) x.units := by
  have hle : (2 ^ 60 : ℚ) ≤ n * unitsPerOne := by
    have hnat : 2 ^ 60 ≤ unitsPerOne := two_pow_le_unitsPerOne (by decide)
    exact_mod_cast hnat.trans (Nat.le_mul_of_pos_left _ hn)
  obtain ⟨hnegative, hnear⟩ := near_ofRatio Nat.one_pos (by rw [Nat.cast_one, mul_one]) hx
  exact ⟨hnegative, off_of_near_of_le hle hnear⟩

theorem exists_integer {n : ℕ} (hn : 0 < n) (hrange : InRange n) :
    ∃ x, ofRatio false n 1 = some x ∧ x.negative = false ∧
      Off roundingShare 0 (n * unitsPerOne) x.units := by
  have hratio : (n : ℚ) * (1 : ℕ) = n := by rw [Nat.cast_one, mul_one]
  obtain ⟨x, hx, -⟩ := exists_ofRatio Nat.one_pos hratio hrange false
  exact ⟨x, hx, off_integer hn hx⟩

end Binary64

namespace Json.Numeral

open Binary64 (InRange Off roundingShare unitsPerOne cast_unitsPerOne_pos)

variable {x : Binary64} {k : ℕ}

theorem inRange_of_le_down {v : ℚ} (h : v * unitsPerOne ≤ Binary64.down 308) : InRange v := by
  have hnat : 2 * Binary64.down 308 < Binary64.lowerEnd Binary64.ranks := by decide +kernel
  have hend : ((2 * Binary64.down 308 : ℕ) : ℚ) < Binary64.lowerEnd Binary64.ranks :=
    Nat.cast_lt.mpr hnat
  rw [Nat.cast_mul, Nat.cast_ofNat] at hend
  unfold InRange
  linarith only [h, hend]

theorem inRange_of_le {v : ℚ} (h : v * unitsPerOne ≤ 2 ^ 80 * unitsPerOne) : InRange v := by
  have hnat : 2 ^ 80 * unitsPerOne ≤ Binary64.down 308 :=
    calc 2 ^ 80 * unitsPerOne ≤ Binary64.down 80 :=
          Nat.mul_le_mul_right _ (Nat.pow_le_pow_left (by decide) 80)
      _ ≤ Binary64.down 308 := Binary64.down_mono (by decide)
  have hcast : (2 ^ 80 * unitsPerOne : ℚ) ≤ Binary64.down 308 := by exact_mod_cast hnat
  exact inRange_of_le_down (h.trans hcast)

theorem off_powerOfTen {t : Binary64} (ht : powerOfTen k = some t) :
    t.negative = false ∧ Off roundingShare 0 (10 ^ k * unitsPerOne) t.units := by
  have hoff := Binary64.off_integer (Nat.pow_pos (by decide)) ht
  rwa [Nat.cast_pow] at hoff

theorem exists_powerOfTen (hk : k ≤ 308) : ∃ t, powerOfTen k = some t ∧ t.negative = false ∧
    Off roundingShare 0 (10 ^ k * unitsPerOne) t.units := by
  have hrange : InRange ((10 ^ k : ℕ) : ℚ) := by
    have hle : Binary64.down k ≤ Binary64.down 308 := Binary64.down_mono (by omega)
    apply inRange_of_le_down
    exact_mod_cast hle
  obtain ⟨t, ht, -⟩ := Binary64.exists_integer (Nat.pow_pos (by decide)) hrange
  exact ⟨t, ht, off_powerOfTen ht⟩

theorem div_power_le {v : ℚ} (k : ℕ) (hv : 0 ≤ v) : v / 10 ^ k ≤ v := by
  rw [div_le_iff₀ (pow_pos (by norm_num) k)]
  exact le_mul_of_one_le_right hv (one_le_pow₀ (by norm_num))

theorem div_powers (v : ℚ) {i j : ℕ} (h : i + j = k) : v / 10 ^ i / 10 ^ j = v / 10 ^ k := by
  rw [div_div, ← pow_add, h]

/-- The error of one step: a power of ten, a product or quotient and its rounding. -/
def stepShare : ℚ := 260 / 2 ^ 60

theorem exists_div_power (hk : k ≤ 308) (hx : (x.units : ℚ) ≤ 2 ^ 70 * unitsPerOne) :
    ∃ y, (powerOfTen k).bind x.div = some y ∧ y.negative = x.negative ∧
      Off stepShare (1 / 2) (x.units / 10 ^ k) y.units := by
  obtain ⟨t, ht, hnegative, hoff⟩ := exists_powerOfTen hk
  have hpow : (0 : ℚ) < 10 ^ k := by positivity
  have hunits := cast_unitsPerOne_pos
  have hnonneg : (0 : ℚ) ≤ x.units := Nat.cast_nonneg _
  have htpos : (0 : ℚ) < t.units :=
    hoff.pos (mul_pos hpow hunits) (by norm_num [roundingShare])
  -- The quotient, in units, before it is rounded.
  have hquotient : Off (130 / 2 ^ 60) 0 (x.units / 10 ^ k) (x.units / t.units * unitsPerOne) := by
    have hdiv := (Off.refl (x.units : ℚ)).div hoff hnonneg (mul_pos hpow hunits)
      (f := 130 / 2 ^ 60) (by norm_num [roundingShare]) (by norm_num [roundingShare])
      (by norm_num [roundingShare]) (by norm_num) (by norm_num)
    have hscaled := hdiv.div_const (inv_pos.mpr hunits)
    rw [zero_div, div_inv_eq_mul, div_inv_eq_mul, ← div_div, div_mul_cancel₀ _ hunits.ne']
      at hscaled
    exact hscaled
  have hrange : InRange (x.units / t.units) := by
    apply inRange_of_le
    have hle := div_power_le k hnonneg
    have hhigh := hquotient.2
    linarith
  obtain ⟨y, hy, hsign, hnear⟩ := Binary64.exists_div (by exact_mod_cast htpos) hrange
  refine ⟨y, ?_, ?_, ?_⟩
  · rw [ht, Option.bind_some, hy]
  · rw [hsign, hnegative, Bool.bne_false]
  · have hrounded := Binary64.off_of_near (div_nonneg hnonneg htpos.le) hnear
    have htotal := hquotient.trans hrounded (div_nonneg hnonneg hpow.le) (le_refl 0)
      (f := stepShare) (by norm_num) (by norm_num [roundingShare]) (by norm_num [roundingShare])
      (by norm_num [roundingShare, stepShare])
    rwa [mul_zero, zero_add] at htotal

variable {t : Binary64}

theorem product_units : (x.units * t.units / (unitsPerOne * unitsPerOne) * unitsPerOne : ℚ) =
    x.units * t.units / unitsPerOne := by
  rw [← div_div, div_mul_cancel₀ _ cast_unitsPerOne_pos.ne']

theorem off_product (h : Off roundingShare 0 (10 ^ k * unitsPerOne) t.units) :
    Off roundingShare 0 (x.units * 10 ^ k)
      (x.units * t.units / (unitsPerOne * unitsPerOne) * unitsPerOne) := by
  have hunits := cast_unitsPerOne_pos
  have hmul := (Off.refl (x.units : ℚ)).mul h (Nat.cast_nonneg _)
    (mul_pos (by positivity) hunits).le (f := roundingShare) (le_refl 0) zero_le_one
    (by norm_num [roundingShare]) (by norm_num [roundingShare]) (by norm_num)
  have hscaled := hmul.div_const hunits
  rw [zero_div, ← mul_assoc, mul_div_cancel_right₀ _ hunits.ne'] at hscaled
  rw [product_units]
  exact hscaled

theorem inRange_product
    (h : 2 * (x.units * t.units) < Binary64.lowerEnd Binary64.ranks * unitsPerOne) :
    InRange (x.units * t.units / (unitsPerOne * unitsPerOne)) := by
  have hlt : (2 * (x.units * t.units) : ℚ) < Binary64.lowerEnd Binary64.ranks * unitsPerOne := by
    exact_mod_cast h
  unfold InRange
  rw [product_units, ← mul_div_assoc, div_lt_iff₀ cast_unitsPerOne_pos]
  exact hlt

theorem exists_mul_power (hk : k ≤ 308)
    (hrange : ∀ t, powerOfTen k = some t →
      2 * (x.units * t.units) < Binary64.lowerEnd Binary64.ranks * unitsPerOne) :
    ∃ y, (powerOfTen k).bind x.mul = some y ∧ y.negative = x.negative ∧
      Off stepShare (1 / 2) (x.units * 10 ^ k) y.units := by
  obtain ⟨t, ht, hnegative, hoff⟩ := exists_powerOfTen hk
  obtain ⟨y, hy, hsign, hnear⟩ := Binary64.exists_mul (inRange_product (hrange t ht))
  have hnonneg : (0 : ℚ) ≤ x.units := Nat.cast_nonneg _
  refine ⟨y, ?_, ?_, ?_⟩
  · rw [ht, Option.bind_some, hy]
  · rw [hsign, hnegative, Bool.bne_false]
  · have hrounded := Binary64.off_of_near (div_nonneg (mul_nonneg hnonneg (Nat.cast_nonneg _))
      (mul_pos cast_unitsPerOne_pos cast_unitsPerOne_pos).le) hnear
    have htotal := (off_product hoff).trans hrounded (mul_nonneg hnonneg (by positivity))
      (le_refl 0) (f := stepShare) (by norm_num [roundingShare]) (by norm_num [roundingShare])
      (by norm_num [roundingShare]) (by norm_num [roundingShare, stepShare])
    rwa [mul_zero, zero_add] at htotal

/-! ## Scaling -/

/-- The error of an integer and all the steps by which it is scaled. -/
def scalingShare : ℚ := 660 / 2 ^ 60

variable {n : ℕ}

/-- The error of an integer and one division. -/
def quotientShare : ℚ := 390 / 2 ^ 60

theorem size_le (hsize : n < 2 ^ 64) : (n * unitsPerOne : ℚ) ≤ 2 ^ 64 * unitsPerOne := by
  have hcast : (n : ℚ) ≤ 2 ^ 64 := by exact_mod_cast hsize.le
  exact mul_le_mul_of_nonneg_right hcast cast_unitsPerOne_pos.le

theorem exists_div_integer (hx : Off roundingShare 0 (n * unitsPerOne) x.units)
    (hsize : n < 2 ^ 64) (hk : k ≤ 308) :
    ∃ y, (powerOfTen k).bind x.div = some y ∧ y.negative = x.negative ∧
      Off quotientShare (1 / 2) (n * unitsPerOne / 10 ^ k) y.units := by
  have hunits := cast_unitsPerOne_pos
  have hlarge : (x.units : ℚ) ≤ 2 ^ 70 * unitsPerOne := by
    have hn := size_le hsize
    have hhigh := hx.2
    norm_num [roundingShare] at hhigh
    linarith
  obtain ⟨y, hy, hsign, hstep⟩ := exists_div_power hk hlarge
  have hpow : (0 : ℚ) < 10 ^ k := pow_pos (by norm_num) k
  have hstart := hx.div_const hpow
  rw [zero_div] at hstart
  have htotal := hstart.trans hstep
    (div_nonneg (mul_nonneg (Nat.cast_nonneg n) hunits.le) hpow.le) (le_refl 0)
    (f := quotientShare) (by norm_num [roundingShare]) (by norm_num [stepShare])
    (by norm_num [stepShare]) (by norm_num [roundingShare, stepShare, quotientShare])
  rw [mul_zero, zero_add] at htotal
  exact ⟨y, hy, hsign, htotal⟩

theorem exists_div_again {v : ℚ} (hx : Off quotientShare (1 / 2) v x.units) (hv : 0 ≤ v)
    (hlarge : v ≤ 2 ^ 64 * unitsPerOne) (hpos : 0 < k) (hk : k ≤ 308) :
    ∃ y, (powerOfTen k).bind x.div = some y ∧ y.negative = x.negative ∧
      Off scalingShare 1 (v / 10 ^ k) y.units := by
  -- A second division. Of what the first one is off besides its share, a tenth is left.
  have hxlarge : (x.units : ℚ) ≤ 2 ^ 70 * unitsPerOne := by
    have hone : (1 : ℚ) ≤ unitsPerOne := by exact_mod_cast Binary64.unitsPerOne_pos
    have hhigh := hx.2
    norm_num [quotientShare] at hhigh
    linarith
  obtain ⟨y, hy, hsign, hstep⟩ := exists_div_power hk hxlarge
  have hpow : (0 : ℚ) < 10 ^ k := pow_pos (by norm_num) k
  have hslack : (1 / 2 / 10 ^ k : ℚ) ≤ 1 / 20 := by
    have hten : (10 : ℚ) ^ 1 ≤ 10 ^ k := pow_le_pow_right₀ (by norm_num) hpos
    rw [div_le_iff₀ hpow]
    linarith
  have hvalue : 0 ≤ v / 10 ^ k := div_nonneg hv hpow.le
  have hstart := (hx.div_const hpow).weaken hvalue (le_refl _) hslack
  have htotal := hstart.trans hstep hvalue (by norm_num) (f := scalingShare)
    (by norm_num [quotientShare]) (by norm_num [stepShare]) (by norm_num [stepShare])
    (by norm_num [quotientShare, stepShare, scalingShare])
  exact ⟨y, hy, hsign, htotal.weaken hvalue (le_refl _) (by norm_num)⟩

theorem exists_scaleDown (hx : Off roundingShare 0 (n * unitsPerOne) x.units) (hn : 0 < n)
    (hsize : n < 2 ^ 64) (hk : k ≤ 616) :
    ∃ y, scaleDown x k = some y ∧ y.negative = x.negative ∧
      Off scalingShare 1 (n * unitsPerOne / 10 ^ k) y.units := by
  have hunits := cast_unitsPerOne_pos
  have hvalue (j : ℕ) : (0 : ℚ) ≤ n * unitsPerOne / 10 ^ j :=
    div_nonneg (mul_nonneg (Nat.cast_nonneg n) hunits.le) (pow_nonneg (by norm_num) j)
  have hless (j : ℕ) : (n * unitsPerOne / 10 ^ j : ℚ) ≤ 2 ^ 64 * unitsPerOne :=
    (div_power_le j (mul_nonneg (Nat.cast_nonneg n) hunits.le)).trans (size_le hsize)
  rw [scaleDown]
  split
  next hsmall =>
    obtain ⟨y, hy, hsign, hoff⟩ := exists_div_integer hx hsize hsmall
    exact ⟨y, hy, hsign,
      hoff.weaken (hvalue k) (by norm_num [quotientShare, scalingShare]) (by norm_num)⟩
  next hfar =>
    have hnonzero : x.isZero = false := by
      apply Binary64.isZero_eq_false
      have hpos : (0 : ℚ) < x.units :=
        hx.pos (mul_pos (by exact_mod_cast hn) hunits) (by norm_num [roundingShare])
      exact_mod_cast hpos
    obtain ⟨y, hy, hsign, hoff⟩ := exists_div_integer hx hsize (le_refl 308)
    have hrest : k - 308 ≤ 308 := by omega
    obtain ⟨z, hz, hsign', hoff'⟩ :=
      exists_div_again hoff (hvalue 308) (hless 308) (by omega) hrest
    rw [div_powers _ (show 308 + (k - 308) = k by omega)] at hoff'
    refine ⟨z, ?_, hsign'.trans hsign, hoff'⟩
    rw [hnonzero, if_neg Bool.false_ne_true, hy, Option.bind_some, scaleDown, if_pos hrest, hz]

theorem exists_scaleUp (hx : Off roundingShare 0 (n * unitsPerOne) x.units) (hk : k ≤ 308)
    (hrange : ∀ t, powerOfTen k = some t →
      2 * (x.units * t.units) < Binary64.lowerEnd Binary64.ranks * unitsPerOne) :
    ∃ y, scaleUp x k = some y ∧ y.negative = x.negative ∧
      Off scalingShare 1 (n * unitsPerOne * 10 ^ k) y.units := by
  obtain ⟨y, hy, hsign, hstep⟩ := exists_mul_power hk hrange
  have hten : (0 : ℚ) < (10 ^ k)⁻¹ := inv_pos.mpr (pow_pos (by norm_num) k)
  have hvalue : (0 : ℚ) ≤ n * unitsPerOne :=
    mul_nonneg (Nat.cast_nonneg n) cast_unitsPerOne_pos.le
  have hstart := hx.div_const hten
  rw [zero_div, div_inv_eq_mul, div_inv_eq_mul] at hstart
  have htotal := hstart.trans hstep (mul_nonneg hvalue (pow_nonneg (by norm_num) k)) (le_refl 0)
    (f := scalingShare) (by norm_num [roundingShare]) (by norm_num [stepShare])
    (by norm_num [stepShare]) (by norm_num [roundingShare, stepShare, scalingShare])
  refine ⟨y, ?_, hsign, ?_⟩
  · rw [scaleUp, if_pos hk, hy]
  · exact htotal.weaken (mul_nonneg hvalue (pow_nonneg (by norm_num) k)) (le_refl _) (by norm_num)

theorem product_lt (hn : 0 < n) (hx : Binary64.ofRatio false n 1 = some x)
    (ht : powerOfTen k = some t)
    (hle : 2 * (n * 10 ^ k * unitsPerOne) ≤ Binary64.lowerEnd (Binary64.ranks - 3)) :
    2 * (x.units * t.units) < Binary64.lowerEnd Binary64.ranks * unitsPerOne := by
  have hunits := cast_unitsPerOne_pos
  have hten : (0 : ℚ) ≤ 10 ^ k := pow_nonneg (by norm_num) k
  have hvalue : (0 : ℚ) ≤ n * unitsPerOne := mul_nonneg (Nat.cast_nonneg n) hunits.le
  have hproduct := ((Binary64.off_integer hn hx).2.mul (off_powerOfTen ht).2 hvalue
    (mul_nonneg hten hunits.le) (f := 259 / 2 ^ 60)
    (by norm_num [roundingShare]) (by norm_num [roundingShare]) (by norm_num [roundingShare])
    (by norm_num [roundingShare]) (by norm_num [roundingShare])).2
  have hends : ((2 ^ 60 + 259) * Binary64.lowerEnd (Binary64.ranks - 3) : ℚ) <
      2 ^ 60 * Binary64.lowerEnd Binary64.ranks := by
    have hnat : (2 ^ 60 + 259) * Binary64.lowerEnd (Binary64.ranks - 3) <
        2 ^ 60 * Binary64.lowerEnd Binary64.ranks := by decide +kernel
    exact_mod_cast hnat
  have hexact : (2 * (n * 10 ^ k * unitsPerOne) : ℚ) ≤
      Binary64.lowerEnd (Binary64.ranks - 3) := by exact_mod_cast hle
  have hlt : (2 * (x.units * t.units) : ℚ) < Binary64.lowerEnd Binary64.ranks * unitsPerOne := by
    rw [sub_zero] at hproduct
    calc (2 * (x.units * t.units) : ℚ)
        ≤ (1 + 259 / 2 ^ 60) * (2 * (n * 10 ^ k * unitsPerOne)) * unitsPerOne := by
          linarith only [hproduct]
      _ ≤ (1 + 259 / 2 ^ 60) * Binary64.lowerEnd (Binary64.ranks - 3) * unitsPerOne :=
          mul_le_mul_of_nonneg_right (mul_le_mul_of_nonneg_left hexact (by norm_num)) hunits.le
      _ < Binary64.lowerEnd Binary64.ranks * unitsPerOne :=
          mul_lt_mul_of_pos_right (by linarith only [hends]) hunits
  exact_mod_cast hlt

theorem scaled_of_step {y : Binary64} {e : ℤ} (hx : Binary64.ofRatio false n 1 = some x)
    (hy : (if e < 0 then scaleDown x e.natAbs else scaleUp x e.natAbs) = some y)
    (negative : Bool) :
    scaled negative n e = some (.float (if negative then y.neg else y)) := by
  unfold scaled
  rw [hx]
  split at hy
  next hdown => simp only [Option.bind_eq_bind, Option.bind_some, if_pos hdown, hy]; rfl
  next hup => simp only [Option.bind_eq_bind, Option.bind_some, if_neg hup, hy]; rfl

/-- What is read for an integer and a power of ten is off by the errors of the steps only. -/
theorem exists_scaled (hn : 0 < n) (hsize : n < 2 ^ 64) {e : ℤ} (hlow : -616 ≤ e) (hhigh : e ≤ 308)
    (hrange : 0 ≤ e → ∀ x t, Binary64.ofRatio false n 1 = some x → powerOfTen e.toNat = some t →
      2 * (x.units * t.units) < Binary64.lowerEnd Binary64.ranks * unitsPerOne)
    (negative : Bool) :
    ∃ y, scaled negative n e = some (.float y) ∧ y.negative = negative ∧
      Off scalingShare 1 (n * 10 ^ e * unitsPerOne) y.units := by
  have hlarge : (n * unitsPerOne : ℚ) ≤ 2 ^ 80 * unitsPerOne := by
    have hunits := cast_unitsPerOne_pos
    linarith [size_le hsize]
  obtain ⟨x, hx, hpositive, hoff⟩ := Binary64.exists_integer hn (inRange_of_le hlarge)
  obtain ⟨y, hy, hsign, hscaled⟩ : ∃ y,
      (if e < 0 then scaleDown x e.natAbs else scaleUp x e.natAbs) = some y ∧
        y.negative = x.negative ∧ Off scalingShare 1 (n * 10 ^ e * unitsPerOne) y.units := by
    split
    next hdown =>
      obtain ⟨k, hk⟩ : ∃ k : ℕ, e = -k := ⟨e.natAbs, by omega⟩
      obtain ⟨y, hy, hsign, hscaled⟩ := exists_scaleDown hoff hn hsize (k := k) (by omega)
      refine ⟨y, ?_, hsign, ?_⟩
      · rw [hk, Int.natAbs_neg, Int.natAbs_natCast, hy]
      · rw [hk, zpow_neg, zpow_natCast, mul_right_comm, ← div_eq_mul_inv]
        exact hscaled
    next hup =>
      obtain ⟨k, rfl⟩ : ∃ k : ℕ, e = k := ⟨e.natAbs, by omega⟩
      obtain ⟨y, hy, hsign, hscaled⟩ := exists_scaleUp hoff (k := k) (by omega)
        fun t ht => hrange (by omega) x t hx ht
      refine ⟨y, ?_, hsign, ?_⟩
      · rw [Int.natAbs_natCast, hy]
      · rw [zpow_natCast, mul_right_comm]
        exact hscaled
  refine ⟨if negative then y.neg else y, scaled_of_step hx hy negative, ?_, ?_⟩
  · cases negative <;> simp [Binary64.neg, hsign, hpositive]
  · cases negative <;> exact hscaled

end Json.Numeral

end AttributeReview
