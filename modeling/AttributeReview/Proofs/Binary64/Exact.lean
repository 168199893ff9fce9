import AttributeReview.Proofs.Binary64.Rounding

/-!
# Numbers that rounding keeps

A magnitude that is a multiple of the spacing around it is rounded to itself. The integers up to
2^53 are such magnitudes, so a ratio that is one of them is taken exactly.
-/

namespace AttributeReview.Binary64

variable {num den n : Nat}

theorem nearest_mul (h : 0 < den) : nearest (n * den) den = n := by
  have hmod : n * den % den = 0 := Nat.mul_mod_left n den
  unfold nearest
  simp only [hmod, Nat.mul_div_cancel n h]
  rw [if_pos (Or.inl (by omega))]

/-! ## Multiples of the spacing -/

theorem wholeUnits_eq (h : 0 < den) (hn : num * unitsPerOne = n * den) :
    wholeUnits num den = n := by
  rw [wholeUnits, hn, Nat.mul_div_cancel n h]

theorem unitsOf_rankOf_eq (h : 0 < den) (hn : num * unitsPerOne = n * den)
    (hspacing : 2 ^ spacing num den ∣ n) : unitsOf (rankOf num den) = n := by
  obtain ⟨q, hq⟩ := hspacing
  have hmultiple : multiple num den = q := by
    have hratio : num * unitsPerOne = q * (den * 2 ^ spacing num den) := by
      rw [hn, hq]
      ring
    rw [multiple, hratio, nearest_mul (Nat.mul_pos h (Nat.two_pow_pos _))]
  rw [unitsOf_rankOf, hmultiple, hq, Nat.mul_comm]

theorem rankOf_lt (h : spacing num den + 2 < 2047) : rankOf num den < ranks := by
  have hle := multiple_le num den
  calc rankOf num den = spacing num den * perBinade + multiple num den := rankOf_eq num den
    _ ≤ (spacing num den + 2) * perBinade := by
        rw [Nat.add_mul]
        omega
    _ < 2047 * perBinade := Nat.mul_lt_mul_of_pos_right h perBinade_pos

/-! ## Integers -/

theorem two_pow_dvd_of_le {k : Nat} (h : k ≤ 2 ^ 53) (m : Nat) :
    (k * 2 ^ m).log2 - 52 ≤ m + 1 ∧ 2 ^ ((k * 2 ^ m).log2 - 52) ∣ k * 2 ^ m := by
  -- The spacing around a small integer, counted in units of `2 ^ -m`, divides it. Only at 2^53
  -- is the spacing more than one.
  rcases Nat.lt_or_eq_of_le h with hlt | rfl
  · rcases Nat.eq_zero_or_pos k with rfl | hpos
    · simp
    · have hscaled : k * 2 ^ m < 2 ^ (53 + m) := by
        rw [Nat.pow_add]
        exact Nat.mul_lt_mul_of_pos_right hlt (Nat.two_pow_pos m)
      have hne : k * 2 ^ m ≠ 0 := Nat.ne_of_gt (Nat.mul_pos hpos (Nat.two_pow_pos m))
      have hlog := (Nat.log2_lt hne).mpr hscaled
      have hle : (k * 2 ^ m).log2 - 52 ≤ m := by omega
      exact ⟨by omega, Dvd.dvd.mul_left (Nat.pow_dvd_pow 2 hle) k⟩
  · rw [← Nat.pow_add, Nat.log2_two_pow]
    exact ⟨by omega, Nat.pow_dvd_pow 2 (by omega)⟩

theorem ofRatio_integer {k : Nat} (h : 0 < den) (hnum : num = k * den) (hk : k ≤ 2 ^ 53)
    (negative : Bool) :
    ∃ x, ofRatio negative num den = some x ∧ x.negative = negative ∧
      x.units = k * unitsPerOne := by
  have hn : num * unitsPerOne = k * unitsPerOne * den := by
    rw [hnum]
    ring
  have hspacing : spacing num den = (k * 2 ^ 1074).log2 - 52 := by
    rw [spacing, wholeUnits_eq h hn, unitsPerOne_eq]
  obtain ⟨hle, hdvd⟩ := two_pow_dvd_of_le hk 1074
  rw [← hspacing] at hle hdvd
  rw [← unitsPerOne_eq] at hdvd
  have hlt : rankOf num den < ranks := rankOf_lt (by omega)
  exact ⟨⟨negative, rankOf num den, hlt⟩, dif_pos hlt, rfl, unitsOf_rankOf_eq h hn hdvd⟩

end AttributeReview.Binary64
