import AttributeReview.Proofs.Binary64.Shortest

/-!
# Numerals with a fraction or an exponent

What is read of such a numeral depends on its digits as one integer and on a power of ten. Written
out, the shortest decimal of a number keeps its value, with a zero or two more behind its digits
where it is a whole number.
-/

namespace AttributeReview

open Json (Digits Numeral)

namespace Json.Numeral

/-- All the digits of the numeral as one integer. -/
def significand (n : Numeral) : Nat := Nat.ofDigitChars 10 (n.whole ++ n.fraction.getD []) 0

/-- The power of ten that goes with the digits as one integer. -/
def power (n : Numeral) : Int := n.exponentValue - (n.fraction.getD []).length

theorem number?_eq_scaled {n : Numeral} (hform : n.fraction ≠ none ∨ n.exponent ≠ none)
    (hlt : n.significand < UInt64.size) :
    n.number? = scaled n.negative n.significand n.power := by
  unfold significand at hlt ⊢
  rw [Nat.ofDigitChars_append] at hlt ⊢
  have hwhole := Number.absorb_eq (Nat.lt_of_le_of_lt (Number.le_ofDigitChars _ _) hlt)
  have hfraction := Number.absorb_eq hlt
  have hinteger : (n.fraction.isNone && n.exponent.isNone) = false := by
    simp only [Bool.and_eq_false_iff, Option.isNone_eq_false_iff, Option.isSome_iff_ne_none]
    exact hform
  unfold number? power
  simp only [hwhole, hfraction, hinteger, Bool.false_and, Bool.false_eq_true, if_false,
    List.length_nil]
  congr 1
  omega

end Json.Numeral

namespace Binary64

/-! ## Decimals as numerals -/

variable {negative : Bool} {digits : List Char} {point : Int}

theorem form_layOutNumeral : (layOutNumeral negative digits point).fraction ≠ none ∨
    (layOutNumeral negative digits point).exponent ≠ none := by
  unfold layOutNumeral
  split
  · split <;> simp
  · split <;> simp

theorem exponentValue_eq {n : Numeral} {e : Int}
    (h : n.exponent = some (decide (e < 0), Nat.toDigits 10 e.natAbs)) : n.exponentValue = e := by
  unfold Numeral.exponentValue
  simp only [h, Nat.ofDigitChars_ten_toDigits, decide_eq_true_eq]
  split <;> omega

theorem layOutNumeral_cases (negative : Bool) (point : Int) (hdigits : digits ≠ []) :
    ((layOutNumeral negative digits point).significand = Nat.ofDigitChars 10 digits 0 ∧
      (layOutNumeral negative digits point).power = point - digits.length) ∨
    (digits.length ≤ point ∧ point ≤ 16 ∧
      (layOutNumeral negative digits point).significand =
        10 ^ (point - digits.length + 1).toNat * Nat.ofDigitChars 10 digits 0 ∧
      (layOutNumeral negative digits point).power = -1) := by
  have hlength : 0 < digits.length := List.length_pos_iff.mpr hdigits
  unfold layOutNumeral Numeral.significand Numeral.power
  split
  next hpoint =>
    split
    next hwhole =>
      right
      refine ⟨by omega, hpoint.2, ?_, rfl⟩
      have hzeros : (point - digits.length + 1).toNat = point.toNat - digits.length + 1 := by omega
      rw [Option.getD_some, List.append_assoc, ← List.replicate_succ', Nat.ofDigitChars_append,
        Nat.ofDigitChars_replicate_zero, hzeros]
    next hwhole =>
      left
      simp only [Option.getD_some, List.take_append_drop, Numeral.exponentValue, List.length_drop,
        true_and]
      omega
  next =>
    split
    next hpoint =>
      left
      simp [Numeral.exponentValue, Nat.ofDigitChars_cons, Nat.ofDigitChars_append]
      omega
    next =>
      left
      have hfraction : (if digits.length ≤ 1 then none else some (digits.drop 1)).getD [] =
          digits.drop 1 := by
        split
        next hshort => exact (List.drop_of_length_le hshort).symm
        next => rfl
      rw [exponentValue_eq (e := point - 1) rfl, hfraction, List.take_append_drop,
        List.length_drop]
      omega

/-! ## The numeral of a number -/

variable {x : Binary64}

theorem number?_numeral (x : Binary64) (hlt : x.numeral.significand < UInt64.size) :
    x.numeral.number? = Numeral.scaled x.negative x.numeral.significand x.numeral.power := by
  have hform : x.numeral.fraction ≠ none ∨ x.numeral.exponent ≠ none := by
    unfold numeral
    split
    · exact Or.inl (by simp)
    · exact form_layOutNumeral
  have hnegative : x.numeral.negative = x.negative := by
    unfold numeral
    split
    · rfl
    · exact negative_layOutNumeral
  rw [Numeral.number?_eq_scaled hform hlt, hnegative]

theorem numeral_cases (h : x.rank ≠ 0) :
    (x.numeral.significand = (shortest x.rank).digits ∧
      x.numeral.power = (shortest x.rank).exponent) ∨
    (0 ≤ (shortest x.rank).exponent ∧
      x.numeral.significand =
        10 ^ ((shortest x.rank).exponent + 1).toNat * (shortest x.rank).digits ∧
      x.numeral.significand < 10 ^ 17 ∧ x.numeral.power = -1) := by
  -- Zeros are written out, one of them as a fraction, where the exponent is not negative.
  have hnumeral : x.numeral = layOutNumeral x.negative (Nat.toDigits 10 (shortest x.rank).digits)
      ((Nat.toDigits 10 (shortest x.rank).digits).length + (shortest x.rank).exponent) := by
    rw [numeral, if_neg h]
  rw [hnumeral]
  generalize (shortest x.rank).exponent = e
  generalize hn : (shortest x.rank).digits = n
  have hvalue : Nat.ofDigitChars 10 (Nat.toDigits 10 n) 0 = n := Nat.ofDigitChars_ten_toDigits
  have hlength : 0 < (Nat.toDigits 10 n).length := Nat.length_toDigits_pos
  have hlt : n < 10 ^ (Nat.toDigits 10 n).length :=
    (Nat.length_toDigits_le_iff (by decide) hlength).mp (Nat.le_refl _)
  rcases layOutNumeral_cases x.negative ((Nat.toDigits 10 n).length + e)
    Nat.toDigits_ne_nil with
    ⟨hsignificand, hpower⟩ | ⟨hwhole, hpoint, hsignificand, hpower⟩
  · left
    rw [hsignificand, hpower, hvalue]
    omega
  · right
    have hexponent : ((Nat.toDigits 10 n).length + e - (Nat.toDigits 10 n).length + 1 : Int) =
        e + 1 := by omega
    rw [hvalue, hexponent] at hsignificand
    refine ⟨by omega, hsignificand, ?_, hpower⟩
    rw [hsignificand]
    calc 10 ^ (e + 1).toNat * n < 10 ^ (e + 1).toNat * 10 ^ (Nat.toDigits 10 n).length :=
          Nat.mul_lt_mul_of_pos_left hlt (Nat.pow_pos (by decide))
      _ = 10 ^ ((e + 1).toNat + (Nat.toDigits 10 n).length) := (Nat.pow_add ..).symm
      _ ≤ 10 ^ 17 := Nat.pow_le_pow_right (by decide) (by omega)

theorem significand_pos (h : x.rank ≠ 0) : 0 < x.numeral.significand := by
  have hdigits := shortest_digits_pos (Nat.pos_of_ne_zero h)
  rcases numeral_cases h with ⟨heq, -⟩ | ⟨-, heq, -⟩
  · rw [heq]
    exact hdigits
  · rw [heq]
    exact Nat.mul_pos (Nat.pow_pos (by decide)) hdigits

theorem significand_lt_size (x : Binary64) : x.numeral.significand < UInt64.size := by
  have hsize : UInt64.size = 2 ^ 64 := rfl
  by_cases h : x.rank = 0
  · have hzero : x.numeral.significand = 0 := by rw [numeral, if_pos h]; rfl
    rw [hzero]
    decide
  · have hdigits := shortest_digits_le (Nat.pos_of_ne_zero h) x.finite
    rcases numeral_cases h with ⟨heq, -⟩ | ⟨-, -, hlt, -⟩ <;> omega

theorem power_bounds (h : x.rank ≠ 0) : -350 ≤ x.numeral.power ∧ x.numeral.power ≤ 308 := by
  have hlow := le_shortest_exponent (Nat.pos_of_ne_zero h)
  have hhigh := shortest_exponent_le (Nat.pos_of_ne_zero h) x.finite
  rcases numeral_cases h with ⟨-, heq⟩ | ⟨-, -, -, heq⟩ <;> omega

theorem roundsTo_numeral (h : x.rank ≠ 0) :
    roundsTo x.rank
      (2 * (x.numeral.significand * 10 ^ x.numeral.power.toNat * unitsPerOne))
      (10 ^ (-x.numeral.power).toNat) = true := by
  have hden : 0 < 10 ^ (-x.numeral.power).toNat := Nat.pow_pos (by decide)
  refine roundsTo_congr (Decimal.den_pos _) hden ?_ (roundsTo_shortest (Nat.pos_of_ne_zero h))
  unfold Decimal.num Decimal.den
  rcases numeral_cases h with ⟨hsignificand, hpower⟩ | ⟨hwhole, hsignificand, -, hpower⟩
  · rw [hsignificand, hpower, Nat.pow_eq, Nat.pow_eq]
  · have hzero : (-(shortest x.rank).exponent).toNat = 0 := by omega
    have hsucc : ((shortest x.rank).exponent + 1).toNat =
        (shortest x.rank).exponent.toNat + 1 := by omega
    rw [hsignificand, hpower, hzero, hsucc, Nat.pow_eq, Nat.pow_eq, Nat.pow_succ]
    simp only [Int.neg_neg, Int.reduceToNat, Nat.pow_zero, Nat.pow_one, Int.reduceNeg]
    ring

end Binary64

end AttributeReview
