import AttributeReview.Proofs.Attribute.Spelling
import AttributeReview.Proofs.Binary64.Rounding
import Mathlib.Algebra.Order.Ring.Abs
import Mathlib.Data.List.TakeWhile
import Mathlib.Data.Nat.Digits.Defs
import Mathlib.Tactic.NormNum

/-!
# The numbers that keys spell

A key spells an id by way of a decimal literal. An integer literal is taken as it is. Any other
literal goes through a binary64 number, so the id is the number of the literal up to the error of
rounding, and the number of the literal itself where ids are small.
-/

namespace AttributeReview

open Binary64 (Near unitsPerOne)

/-! ## Literals -/

namespace Literal

variable {l : Literal} {x : Binary64}

def magnitude (l : Literal) : ℚ := l.digits * 10 ^ l.power

def value (l : Literal) : ℚ := if l.negative then -l.magnitude else l.magnitude

theorem magnitude_nonneg (l : Literal) : 0 ≤ l.magnitude :=
  mul_nonneg (Nat.cast_nonneg _) (zpow_nonneg (by norm_num) _)

theorem abs_value (l : Literal) : |l.value| = l.magnitude := by
  unfold value
  split
  · rw [abs_neg, abs_of_nonneg l.magnitude_nonneg]
  · exact abs_of_nonneg l.magnitude_nonneg

theorem magnitude_mul (l : Literal) :
    l.magnitude * (Nat.pow 10 (-l.power).toNat : ℕ) =
      (l.digits * Nat.pow 10 l.power.toNat : ℕ) := by
  have hpow : (10 : ℚ) ^ l.power * 10 ^ (-l.power).toNat = 10 ^ l.power.toNat := by
    rw [← zpow_natCast, ← zpow_natCast, ← zpow_add₀ (by norm_num)]
    congr 1
    omega
  rw [magnitude, Nat.pow_eq, Nat.pow_eq, Nat.cast_mul, Nat.cast_pow, Nat.cast_pow, mul_assoc]
  exact congrArg _ hpow

theorem magnitude_lt (l : Literal) :
    l.magnitude < 10 ^ ((Nat.toDigits 10 l.digits).length + l.power) := by
  have hdigits : l.digits < 10 ^ (Nat.toDigits 10 l.digits).length :=
    (Nat.length_toDigits_le_iff (by decide) Nat.length_toDigits_pos).mp (Nat.le_refl _)
  rw [magnitude, zpow_add₀ (by norm_num), zpow_natCast]
  have hcast : (l.digits : ℚ) < 10 ^ (Nat.toDigits 10 l.digits).length := by
    exact_mod_cast hdigits
  exact mul_lt_mul_of_pos_right hcast (zpow_pos (by norm_num) _)

theorem near_zero_of_places_lt (h : (Nat.toDigits 10 l.digits).length + l.power < -400) :
    Near 0 l.magnitude := by
  -- A literal with so few places is much nearer to zero than half a unit.
  have hunits : (2 * unitsPerOne : ℚ) ≤ 10 ^ 401 := by
    have hnat : 2 * unitsPerOne ≤ 10 ^ 401 := by decide +kernel
    exact_mod_cast hnat
  have hsmall : l.magnitude ≤ 10 ^ (-401 : ℤ) :=
    l.magnitude_lt.le.trans (zpow_le_zpow_right₀ (by norm_num) (by omega))
  left
  rw [Nat.cast_zero, zero_sub, abs_neg,
    abs_of_nonneg (mul_nonneg l.magnitude_nonneg (Nat.cast_nonneg _))]
  calc 2 * (l.magnitude * unitsPerOne) = l.magnitude * (2 * unitsPerOne) := by ring
    _ ≤ 10 ^ (-401 : ℤ) * 10 ^ 401 :=
        mul_le_mul hsmall hunits (by positivity) (zpow_nonneg (by norm_num) _)
    _ = 1 := by
        rw [← zpow_natCast, ← zpow_add₀ (by norm_num)]
        rfl

theorem near_zero_of_digits (h : l.digits = 0) : Near 0 l.magnitude := by
  left
  rw [magnitude, h, Nat.cast_zero, zero_mul, zero_mul, sub_zero, abs_zero, mul_zero]
  exact zero_le_one

theorem nearest?_near (h : l.nearest? = some x) :
    x.negative = l.negative ∧ Near x.units l.magnitude := by
  rw [nearest?] at h
  by_cases hzero : l.digits = 0 ∨ (Nat.toDigits 10 l.digits).length + l.power < -400
  · rw [if_pos hzero] at h
    obtain rfl := Option.some.inj h
    refine ⟨rfl, ?_⟩
    rw [Binary64.units_zero]
    exact hzero.elim near_zero_of_digits near_zero_of_places_lt
  · rw [if_neg hzero] at h
    split at h
    · cases h
    · exact Binary64.near_ofRatio (Nat.pow_pos (by decide)) l.magnitude_mul h

end Literal

/-! ## Rounding to an id -/

/-- The natural number is the number, up to the error of rounding to binary64. -/
def RoundsTo (v : ℚ) (k : ℕ) : Prop := 2 ^ 53 * |k - v| ≤ k ∨ k = 0 ∧ 2 * unitsPerOne * |v| ≤ 1

theorem two_pow_le_two_mul_unitsPerOne : (2 ^ 53 : ℚ) ≤ 2 * unitsPerOne := by
  have hnat : 2 ^ 53 ≤ unitsPerOne := Binary64.two_pow_le_unitsPerOne (by decide)
  have hcast : (2 ^ 53 : ℚ) ≤ unitsPerOne := by exact_mod_cast hnat
  linarith

theorem abs_mul_sub_mul (k : ℕ) (v : ℚ) :
    |((k * unitsPerOne : ℕ) : ℚ) - v * unitsPerOne| = |k - v| * unitsPerOne := by
  rw [Nat.cast_mul, ← sub_mul, abs_mul, abs_of_pos Binary64.cast_unitsPerOne_pos]

theorem roundsTo_of_near {k : ℕ} {v : ℚ} (h : Near (k * unitsPerOne) v) : RoundsTo v k := by
  have hpos := Binary64.cast_unitsPerOne_pos
  rw [Near, abs_mul_sub_mul] at h
  rcases h with hhalf | hpart
  · rcases Nat.eq_zero_or_pos k with rfl | hk
    · right
      rw [Nat.cast_zero, zero_sub, abs_neg] at hhalf
      refine ⟨rfl, ?_⟩
      linarith
    · left
      have hone : (1 : ℚ) ≤ k := by exact_mod_cast hk
      calc 2 ^ 53 * |k - v| ≤ 2 * unitsPerOne * |k - v| :=
            mul_le_mul_of_nonneg_right two_pow_le_two_mul_unitsPerOne (abs_nonneg _)
        _ = 2 * (|k - v| * unitsPerOne) := by ring
        _ ≤ k := hhalf.trans hone
  · left
    rw [← mul_assoc, Nat.cast_mul] at hpart
    exact le_of_mul_le_mul_right hpart hpos

theorem RoundsTo.eq_of_lt {k : ℕ} {n : ℤ} (h : RoundsTo n k) (hk : k < 2 ^ 53) : n = k := by
  have hlt : |(k : ℚ) - n| < 1 := by
    rcases h with hpart | ⟨rfl, hhalf⟩
    · have hk' : (k : ℚ) < 2 ^ 53 := by exact_mod_cast hk
      linarith
    · have hone : (1 : ℚ) < 2 * unitsPerOne :=
        lt_of_lt_of_le (by norm_num) two_pow_le_two_mul_unitsPerOne
      rw [Nat.cast_zero, zero_sub, abs_neg]
      by_contra hge
      have hle := mul_le_mul_of_nonneg_left (not_lt.mp hge) (zero_le_one.trans hone.le)
      linarith
  have habs : |(k : ℤ) - n| < 1 := by exact_mod_cast hlt
  have hzero := Int.abs_lt_one_iff.mp habs
  omega

namespace Attribute

theorem truncated_of_units {x : Binary64} {k : ℕ} (h : x.units = k * unitsPerOne)
    (hsign : k = 0 ∨ x.negative = false) : x.truncated = k := by
  have hdiv : (x.units : Int) / unitsPerOne = k := by
    have hnat : x.units / unitsPerOne = k := by
      rw [h]
      exact Nat.mul_div_cancel k Binary64.unitsPerOne_pos
    exact_mod_cast hnat
  rw [Binary64.truncated, hdiv]
  rcases hsign with rfl | hpositive
  · rw [Nat.cast_zero, neg_zero, ite_self]
  · rw [hpositive, if_neg Bool.false_ne_true]

theorem idOfNumber?_eq_some {x : Binary64} {id : UInt64} (h : idOfNumber? x = some id) :
    ∃ k : ℕ, x.units = k * unitsPerOne ∧ (k = 0 ∨ x.negative = false) ∧ k ≤ UInt64.size ∧
      id.toNat = min k (UInt64.size - 1) := by
  unfold idOfNumber? at h
  split at h
  next hguard =>
    simp only [Bool.and_eq_true, Binary64.isIntegral, beq_iff_eq, decide_eq_true_eq,
      Bool.or_eq_true, Bool.not_eq_true'] at hguard
    obtain ⟨⟨hintegral, hsign⟩, hle⟩ := hguard
    obtain ⟨k, hk⟩ := Nat.dvd_of_mod_eq_zero hintegral
    rw [Nat.mul_comm] at hk
    have hzero : k = 0 ∨ x.negative = false := by
      refine hsign.imp_left fun hrank => ?_
      rw [Binary64.units_of_isZero hrank] at hk
      exact (Nat.mul_eq_zero.mp hk.symm).resolve_right Binary64.unitsPerOne_pos.ne'
    rw [truncated_of_units hk hzero] at h hle
    refine ⟨k, hk, hzero, by exact_mod_cast hle, ?_⟩
    obtain rfl := Option.some.inj h
    have hlt : min k (UInt64.size - 1) < UInt64.size := by
      have hsize : 0 < UInt64.size := by decide
      omega
    rw [Int.toNat_natCast]
    exact UInt64.toNat_ofNat_of_lt hlt
  · cases h

/-! ## Integers -/

theorem takeSign_digits {ds : List Char} (h : ∀ c ∈ ds, Literal.isDigit c = true) :
    Literal.takeSign ds = (false, ds) := by
  unfold Literal.takeSign
  split
  next => cases h '-' List.mem_cons_self
  next => cases h '+' List.mem_cons_self
  · rfl

theorem eq_some_of_digits {ds : List Char} {id : UInt64}
    (h : (if ds.isEmpty || !ds.all Literal.isDigit then none
      else if Nat.ofDigitChars 10 ds 0 < UInt64.size then
        some (UInt64.ofNat (Nat.ofDigitChars 10 ds 0))
      else none) = some id) :
    ds.isEmpty = false ∧ (∀ c ∈ ds, Literal.isDigit c = true) ∧
      Nat.ofDigitChars 10 ds 0 = id.toNat := by
  by_cases hbad : (ds.isEmpty || !ds.all Literal.isDigit) = true
  · rw [if_pos hbad] at h
    cases h
  · rw [if_neg hbad] at h
    split at h
    next hlt =>
      obtain rfl := Option.some.inj h
      simp only [Bool.or_eq_true, Bool.not_eq_true', not_or, Bool.not_eq_true,
        Bool.not_eq_false, List.all_eq_true] at hbad
      exact ⟨hbad.1, hbad.2, (UInt64.toNat_ofNat_of_lt hlt).symm⟩
    · cases h

theorem idOfInteger?_eq_some {cs : List Char} {id : UInt64} (h : idOfInteger? cs = some id) :
    ∃ ds, Literal.takeSign cs = (false, ds) ∧ ds.isEmpty = false ∧
      (∀ c ∈ ds, Literal.isDigit c = true) ∧ Nat.ofDigitChars 10 ds 0 = id.toNat := by
  unfold idOfInteger? at h
  split at h
  next rest => exact ⟨rest, rfl, eq_some_of_digits h⟩
  · obtain ⟨hne, hall, hid⟩ := eq_some_of_digits h
    exact ⟨cs, takeSign_digits hall, hne, hall, hid⟩

theorem ofChars?_integer {cs : List Char} {id : UInt64} (h : idOfInteger? cs = some id) :
    ∃ l, Literal.ofChars? cs = some l ∧ l.value = id.toNat := by
  obtain ⟨ds, hsign, hne, hall, hid⟩ := idOfInteger?_eq_some h
  have htake : ds.takeWhile Literal.isDigit = ds := List.takeWhile_eq_self_iff.mpr hall
  have hdrop : ds.dropWhile Literal.isDigit = [] := List.dropWhile_eq_nil_iff.mpr hall
  refine ⟨⟨false, ds, [], 0⟩, ?_, ?_⟩
  · unfold Literal.ofChars?
    simp only [hsign, htake, hdrop, Literal.takeFraction, hne, Bool.false_and]
    rfl
  · rw [Literal.value, if_neg Bool.false_ne_true, Literal.magnitude, Literal.digits,
      Literal.power, List.append_nil, hid]
    simp only [List.length_nil, Nat.cast_zero, sub_zero, zpow_zero, mul_one]

/-! ## Keys -/

theorem roundsTo_of_nearest? {l : Literal} {x : Binary64} {id : UInt64}
    (hx : l.nearest? = some x) (hid : idOfNumber? x = some id) :
    ∃ k, RoundsTo l.value k ∧ k ≤ UInt64.size ∧ id.toNat = min k (UInt64.size - 1) := by
  obtain ⟨hnegative, hnear⟩ := Literal.nearest?_near hx
  obtain ⟨k, hunits, hsign, hle, heq⟩ := idOfNumber?_eq_some hid
  rw [hunits] at hnear
  have hrounds := roundsTo_of_near hnear
  refine ⟨k, ?_, hle, heq⟩
  rcases hsign with rfl | hpositive
  · -- The literal may be negative, if it is as near to zero as this.
    rw [RoundsTo, Nat.cast_zero, zero_sub, abs_neg] at hrounds ⊢
    rwa [Literal.abs_value, ← abs_of_nonneg l.magnitude_nonneg]
  · rw [hnegative] at hpositive
    rwa [Literal.value, hpositive, if_neg Bool.false_ne_true]

theorem RoundsTo.refl (k : ℕ) : RoundsTo k k := by
  left
  rw [sub_self, abs_zero, mul_zero]
  exact Nat.cast_nonneg k

theorem eq_of_rounded_integer {l : Literal} {k : ℕ} {id : UInt64} (h : RoundsTo l.value k)
    (hid : id.toNat = min k (UInt64.size - 1)) {n : ℤ} (hn : l.value = n)
    (hlt : id.toNat < 2 ^ 53) : n = id.toNat := by
  have hsize : UInt64.size = 2 ^ 64 := rfl
  obtain rfl : k = id.toNat := by omega
  rw [hn] at h
  exact h.eq_of_lt hlt

/-- **What a key of an id spells.** Blanks aside the key is a decimal literal whose number rounds to
the id, where what rounds to 2^64 counts as the greatest id. An integer literal stands for the very
id, and so does any literal of an integer if the id is small. -/
theorem idOfKey?_rounds {key : String} {id : UInt64} (h : idOfKey? key = some id) :
    ∃ l k, Literal.ofChars? (Text.trim key.toList) = some l ∧ RoundsTo l.value k ∧
      k ≤ UInt64.size ∧ id.toNat = min k (UInt64.size - 1) ∧
      (idOfInteger? (Text.trim key.toList) = some id → l.value = id.toNat) ∧
      ∀ n : ℤ, l.value = n → id.toNat < 2 ^ 53 → n = id.toNat := by
  unfold idOfKey? at h
  simp only at h
  cases hinteger : idOfInteger? (Text.trim key.toList) with
  | some integer =>
    rw [hinteger] at h
    obtain rfl := Option.some.inj h
    obtain ⟨l, hl, hvalue⟩ := ofChars?_integer hinteger
    have hrounds : RoundsTo l.value integer.toNat := hvalue ▸ RoundsTo.refl integer.toNat
    have hlt := integer.toNat_lt
    have hmin : integer.toNat = min integer.toNat (UInt64.size - 1) := by
      rw [Nat.min_eq_left]
      exact Nat.le_pred_of_lt hlt
    exact ⟨l, integer.toNat, hl, hrounds, Nat.le_of_lt hlt, hmin, fun _ => hvalue,
      fun n hn hsmall => eq_of_rounded_integer hrounds hmin hn hsmall⟩
  | none =>
    rw [hinteger] at h
    obtain ⟨x, hx, hid⟩ := Option.bind_eq_some_iff.mp h
    obtain ⟨l, hl, hnearest⟩ := Option.bind_eq_some_iff.mp hx
    obtain ⟨k, hrounds, hle, hmin⟩ := roundsTo_of_nearest? hnearest hid
    exact ⟨l, k, hl, hrounds, hle, hmin, nofun,
      fun n hn hsmall => eq_of_rounded_integer hrounds hmin hn hsmall⟩

theorem idOfKey?_rounds_fraction :
    ∃ l, Literal.ofChars? (Text.trim " 12.0".toList) = some l ∧ RoundsTo l.value 12 := by
  have hid : idOfKey? " 12.0" = some 12 := by decide +kernel
  obtain ⟨l, k, hl, hrounds, -, hmin, -⟩ := idOfKey?_rounds hid
  have hk : k = 12 := by
    have htwelve : UInt64.toNat 12 = 12 := rfl
    have hsize : UInt64.size = 2 ^ 64 := rfl
    omega
  exact ⟨l, hl, hk ▸ hrounds⟩

def pastGreatest : Literal := ⟨false, "18446744073709551616".toList, [], 0⟩

theorem value_pastGreatest : pastGreatest.value = 2 ^ 64 := by
  have hdigits : pastGreatest.digits = 2 ^ 64 := by decide +kernel
  have hpower : pastGreatest.power = 0 := rfl
  rw [Literal.value, if_neg (by decide), Literal.magnitude, hdigits, hpower, zpow_zero, mul_one]
  norm_num

/-- The key of an integer past the greatest id is one of the greatest id. -/
theorem pastGreatest_taken_as_greatest :
    Literal.ofChars? (Text.trim "18446744073709551616".toList) = some pastGreatest ∧
      pastGreatest.value = 2 ^ 64 ∧
      idOfKey? "18446744073709551616" = some 18446744073709551615 :=
  ⟨by decide +kernel, value_pastGreatest, by decide +kernel⟩

end Attribute

end AttributeReview
