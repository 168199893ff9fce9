import AttributeReview.Binary64.Shortest
import AttributeReview.Proofs.Binary64.Exact
import AttributeReview.Proofs.Binary64.Order

/-!
# The one magnitude that a ratio rounds to

The intervals that round to the magnitudes meet at their ends, and an end belongs to the even one
of two ranks. So each ratio rounds to one rank, and that is the rank it is given.
-/

namespace AttributeReview.Binary64

variable {num den r : Nat}

/-! ## Ends of intervals -/

theorem lowerEnd_succ (r : Nat) : lowerEnd (r + 1) = upperEnd r := by
  rw [lowerEnd, if_neg (Nat.succ_ne_zero r), Nat.add_sub_cancel, upperEnd]

theorem upperEnd_eq (r : Nat) : upperEnd r = 2 * unitsOf r + 2 ^ scale r := by
  rw [upperEnd, unitsOf_succ]
  omega

theorem lowerEnd_succ_eq (r : Nat) : lowerEnd (r + 1) + 2 ^ scale r = 2 * unitsOf (r + 1) := by
  rw [lowerEnd_succ, upperEnd, unitsOf_succ]
  omega

theorem lowerEnd_strictMono : StrictMono lowerEnd := by
  apply strictMono_nat_of_lt_succ
  intro r
  cases r with
  | zero => decide
  | succ r =>
    have hlow : unitsOf r < unitsOf (r + 1) := unitsOf_strictMono (Nat.lt_succ_self r)
    have hhigh : unitsOf (r + 1) < unitsOf (r + 1 + 1) :=
      unitsOf_strictMono (Nat.lt_succ_self (r + 1))
    rw [lowerEnd_succ, lowerEnd_succ, upperEnd, upperEnd]
    omega

theorem roundsTo_iff {t : Nat} : roundsTo r t den = true ↔
    lowerEnd r * den ≤ t ∧ t ≤ upperEnd r * den ∧
      (r % 2 = 1 → lowerEnd r * den < t ∧ t < upperEnd r * den) := by
  unfold roundsTo
  split
  next heven => simp [heven]
  next hodd =>
    have hone : r % 2 = 1 := by omega
    simp only [Bool.and_eq_true, decide_eq_true_eq, hone, true_implies]
    omega

theorem eq_of_roundsTo {r r' t : Nat} (h : 0 < den) (hr : roundsTo r t den = true)
    (hr' : roundsTo r' t den = true) : r = r' := by
  -- Of two ranks the greater one would start where the other one ends, and both would be even.
  have hnot {a b : Nat} (ha : roundsTo a t den = true) (hb : roundsTo b t den = true) :
      ¬ a < b := by
    intro hab
    obtain ⟨-, hupper, hodd⟩ := roundsTo_iff.mp ha
    obtain ⟨hlower, -, hodd'⟩ := roundsTo_iff.mp hb
    rw [← lowerEnd_succ] at hupper hodd
    have hends : lowerEnd (a + 1) ≤ lowerEnd b := lowerEnd_strictMono.monotone hab
    have hle : lowerEnd b ≤ lowerEnd (a + 1) := Nat.le_of_mul_le_mul_right (hlower.trans hupper) h
    have hnext : b = a + 1 := lowerEnd_strictMono.injective (Nat.le_antisymm hle hends)
    subst hnext
    omega
  have h₁ := hnot hr hr'
  have h₂ := hnot hr' hr
  omega

theorem roundsTo_congr {t t' den' : Nat} (h : 0 < den) (h' : 0 < den')
    (hratio : t * den' = t' * den) (hr : roundsTo r t den = true) : roundsTo r t' den' = true := by
  have hle {a : Nat} : a * den ≤ t ↔ a * den' ≤ t' := by
    rw [← Nat.mul_le_mul_right_iff h', hratio, Nat.mul_right_comm, Nat.mul_le_mul_right_iff h]
  have hge {a : Nat} : t ≤ a * den ↔ t' ≤ a * den' := by
    rw [← Nat.mul_le_mul_right_iff h', hratio, Nat.mul_right_comm, Nat.mul_le_mul_right_iff h]
  rw [roundsTo_iff] at hr ⊢
  have hlt {a : Nat} : a * den < t ↔ a * den' < t' := by
    rw [← Nat.not_le, ← Nat.not_le, hge]
  have hgt {a : Nat} : t < a * den ↔ t' < a * den' := by
    rw [← Nat.not_le, ← Nat.not_le, hle]
  rwa [hle, hge, hlt, hgt] at hr

/-! ## The rank of a ratio -/

theorem nearest_odd (num : Nat) (h : 0 < den) (hodd : nearest num den % 2 = 1) :
    2 * (nearest num den * den) < 2 * num + den ∧ 2 * num < 2 * (nearest num den * den) + den := by
  -- An odd number is the nearest one only to what is nearer to it than one half.
  have hnum : num / den * den + num % den = num := Nat.div_add_mod' num den
  have hmod : num % den < den := Nat.mod_lt num h
  unfold nearest at hodd ⊢
  simp only at hodd ⊢
  split at hodd
  next hdown =>
    rw [if_pos hdown]
    omega
  next hup =>
    rw [if_neg hup, Nat.add_mul, Nat.one_mul]
    omega

theorem spacing_le_scale (num den : Nat) : spacing num den ≤ scale (rankOf num den) := by
  rcases Nat.eq_zero_or_pos (spacing num den) with hzero | hpos
  · rw [hzero]
    exact Nat.zero_le _
  · have hle := le_multiple (Nat.ne_of_gt hpos)
    have hdiv : spacing num den + 1 ≤ rankOf num den / perBinade := by
      rw [Nat.le_div_iff_mul_le perBinade_pos, rankOf_eq, Nat.add_mul]
      omega
    unfold scale
    omega

theorem rankOf_mod_two (num den : Nat) : rankOf num den % 2 = multiple num den % 2 := by
  have heven : perBinade % 2 = 0 := by decide
  rw [rankOf_eq, Nat.add_mod, Nat.mul_mod, heven]
  simp

theorem le_num_of_scale_lt (h : 0 < den) {r : Nat} (hr : rankOf num den = r + 1)
    (hscale : scale r < spacing num den) : unitsOf (r + 1) * den ≤ num * unitsPerOne := by
  -- At the start of a binade, below which the spacing is finer, a ratio has been rounded down.
  have hle := le_multiple (Nat.ne_zero_of_lt hscale)
  have hrank := rankOf_eq num den
  have hdiv : r / perBinade < spacing num den + 1 := by
    unfold scale at hscale
    omega
  have hlt := (Nat.div_lt_iff_lt_mul perBinade_pos).mp hdiv
  rw [Nat.add_mul, Nat.one_mul] at hlt
  have hmultiple : multiple num den = perBinade := by omega
  have hlog : (wholeUnits num den).log2 = 52 + spacing num den := by
    unfold spacing at hscale ⊢
    omega
  have hne : wholeUnits num den ≠ 0 := by
    intro hzero
    rw [hzero, Nat.log2_zero] at hlog
    omega
  have hwhole : perBinade * 2 ^ spacing num den ≤ wholeUnits num den := by
    have hpow := Nat.log2_self_le hne
    rwa [hlog, Nat.pow_add] at hpow
  rw [← hr, unitsOf_rankOf, hmultiple]
  exact (Nat.le_div_iff_mul_le h).mp hwhole

/-- **Rounding to nearest.** A ratio rounds to the rank it is given. -/
theorem roundsTo_rankOf (num : Nat) (h : 0 < den) :
    roundsTo (rankOf num den) (2 * (num * unitsPerOne)) den = true := by
  have hpos : 0 < den * 2 ^ spacing num den := Nat.mul_pos h (Nat.two_pow_pos _)
  have hunits : multiple num den * (den * 2 ^ spacing num den) =
      unitsOf (rankOf num den) * den := by
    rw [unitsOf_rankOf]
    ring
  obtain ⟨hover, hunder⟩ := nearest_error (num * unitsPerOne) hpos
  have hodd := nearest_odd (num * unitsPerOne) hpos
  change 2 * (multiple num den * _) ≤ _ at hover
  change _ ≤ 2 * (multiple num den * _) + _ at hunder
  change multiple num den % 2 = 1 → 2 * (multiple num den * _) < _ ∧
    _ < 2 * (multiple num den * _) + _ at hodd
  rw [hunits] at hover hunder hodd
  rw [← rankOf_mod_two] at hodd
  have hupper : 2 * (unitsOf (rankOf num den) * den) + den * 2 ^ spacing num den ≤
      upperEnd (rankOf num den) * den := by
    rw [upperEnd_eq, Nat.add_mul, Nat.mul_assoc, Nat.mul_comm den]
    gcongr
    · decide
    · exact spacing_le_scale num den
  have hlower : lowerEnd (rankOf num den) * den + den * 2 ^ spacing num den ≤
      2 * (unitsOf (rankOf num den) * den) ∨
        lowerEnd (rankOf num den) * den < 2 * (num * unitsPerOne) ∨
          lowerEnd (rankOf num den) * den = 0 ∧ rankOf num den % 2 = 0 := by
    cases hr : rankOf num den with
    | zero => exact Or.inr (Or.inr ⟨by simp [lowerEnd], rfl⟩)
    | succ r =>
      have hends := lowerEnd_succ_eq r
      by_cases hscale : scale r < spacing num den
      · right
        left
        have hle := le_num_of_scale_lt h hr hscale
        have hlt : lowerEnd (r + 1) < 2 * unitsOf (r + 1) := by
          have := Nat.two_pow_pos (scale r)
          omega
        have := Nat.mul_lt_mul_of_pos_right hlt h
        rw [Nat.mul_assoc] at this
        omega
      · left
        rw [← Nat.mul_assoc, ← hends, Nat.add_mul, Nat.mul_comm den]
        gcongr
        · decide
        · omega
  rw [roundsTo_iff]
  omega

theorem rankOf_eq_of_roundsTo (h : 0 < den)
    (hr : roundsTo r (2 * (num * unitsPerOne)) den = true) : rankOf num den = r :=
  eq_of_roundsTo h (roundsTo_rankOf num h) hr

theorem ofRatio_of_roundsTo {x : Binary64} (h : 0 < den)
    (hr : roundsTo x.rank (2 * (num * unitsPerOne)) den = true) (negative : Bool) :
    ofRatio negative num den = some ⟨negative, x.rank, x.finite⟩ := by
  unfold ofRatio
  simp only [rankOf_eq_of_roundsTo h hr, dif_pos x.finite]

end AttributeReview.Binary64
