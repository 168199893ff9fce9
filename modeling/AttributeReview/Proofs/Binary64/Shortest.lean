import AttributeReview.Proofs.Binary64.Nearest
import AttributeReview.Proofs.Json.Number

/-!
# The shortest decimal rounds to its number

The grids of decimals are tried from the coarsest one on. A grid that is fine enough has a point
that rounds to a given number, and the last one always is. So the decimal found does round to the
number, and it has few digits, for else a coarser grid would have done.
-/

namespace AttributeReview.Binary64

variable {rank : Nat} {e : Int} {d : Decimal}

/-! ## Points of a grid -/

namespace Decimal

/-- The decimal as a ratio. -/
def num (d : Decimal) : Nat := d.digits * Nat.pow 10 d.exponent.toNat

def den (d : Decimal) : Nat := Nat.pow 10 (-d.exponent).toNat

theorem den_pos (d : Decimal) : 0 < d.den := Nat.pow_pos (by decide)

end Decimal

/-- The distance of two neighbours on a grid is `down e / up e` units. -/
def up (e : Int) : Nat := Nat.pow 10 (-e).toNat

def down (e : Int) : Nat := Nat.pow 10 e.toNat * unitsPerOne

theorem up_pos (e : Int) : 0 < up e := Nat.pow_pos (by decide)

theorem down_pos (e : Int) : 0 < down e := Nat.mul_pos (Nat.pow_pos (by decide)) unitsPerOne_pos

theorem down_mono {e' : Int} (h : e' ≤ e) : down e' ≤ down e :=
  Nat.mul_le_mul_right _ (Nat.pow_le_pow_right (by decide) (Int.toNat_le_toNat h))

theorem down_succ_mul_up (e : Int) : down (e + 1) * up e = 10 * down e * up (e + 1) := by
  have hpow : 10 ^ (e + 1).toNat * 10 ^ (-e).toNat =
      10 ^ (e.toNat + 1) * 10 ^ (-(e + 1)).toNat := by
    rw [← Nat.pow_add, ← Nat.pow_add]
    congr 1
    omega
  have hten : (10 : Nat) ^ (e.toNat + 1) = 10 * 10 ^ e.toNat := by
    rw [Nat.pow_succ, Nat.mul_comm]
  rw [hten] at hpow
  unfold down up
  simp only [Nat.pow_eq]
  calc 10 ^ (e + 1).toNat * unitsPerOne * 10 ^ (-e).toNat
      = 10 ^ (e + 1).toNat * 10 ^ (-e).toNat * unitsPerOne := by ring
    _ = 10 * 10 ^ e.toNat * 10 ^ (-(e + 1)).toNat * unitsPerOne := by rw [hpow]
    _ = 10 * (10 ^ e.toNat * unitsPerOne) * 10 ^ (-(e + 1)).toNat := by ring

theorem gridPoint?_spec (h : gridPoint? rank e = some d) :
    d.exponent = e ∧ d.digits * down e ≤ unitsOf rank * up e + down e ∧
      roundsTo rank (2 * (d.num * unitsPerOne)) d.den = true := by
  have hbelow : unitsOf rank * up e / down e * down e ≤ unitsOf rank * up e :=
    Nat.div_mul_le_self _ _
  have hpoint (n : Nat) (hn : n * down e ≤ unitsOf rank * up e + down e)
      (hfits : roundsTo rank (2 * n * down e) (up e) = true) (hd : d = ⟨n, e⟩) :
      d.exponent = e ∧ d.digits * down e ≤ unitsOf rank * up e + down e ∧
        roundsTo rank (2 * (d.num * unitsPerOne)) d.den = true := by
    subst hd
    refine ⟨rfl, hn, ?_⟩
    rw [Nat.mul_assoc] at hfits
    unfold Decimal.num
    rw [Nat.mul_assoc n]
    exact hfits
  have hnext : (unitsOf rank * up e / down e + 1) * down e ≤ unitsOf rank * up e + down e := by
    rw [Nat.add_mul, Nat.one_mul]
    omega
  unfold gridPoint? at h
  simp only at h
  split at h
  next hfits =>
    split at h
    next hnextfits =>
      rw [Bool.and_eq_true] at hnextfits
      exact hpoint _ hnext hnextfits.1 (Option.some.inj h).symm
    next => exact hpoint _ (Nat.le_add_right_of_le hbelow) hfits (Option.some.inj h).symm
  next =>
    split at h
    next hnextfits => exact hpoint _ hnext hnextfits (Option.some.inj h).symm
    next => cases h

/-- A grid with two steps to the distance from the magnitude below has a point that rounds to the
magnitude. -/
theorem gridPoint?_ne_none {r : Nat} (h : 2 * down e ≤ 2 ^ scale r * up e) :
    gridPoint? (r + 1) e ≠ none := by
  have hfits : roundsTo (r + 1) (2 * (unitsOf (r + 1) * up e / down e) * down e) (up e) = true := by
    have hbelow : unitsOf (r + 1) * up e / down e * down e ≤ unitsOf (r + 1) * up e :=
      Nat.div_mul_le_self _ _
    have hnext : unitsOf (r + 1) * up e < (unitsOf (r + 1) * up e / down e) * down e + down e :=
      Nat.lt_div_mul_add (down_pos e)
    have hlower : lowerEnd (r + 1) * up e + 2 ^ scale r * up e = 2 * (unitsOf (r + 1) * up e) := by
      rw [← Nat.add_mul, lowerEnd_succ_eq, Nat.mul_assoc]
    have hupper : 2 * (unitsOf (r + 1) * up e) < upperEnd (r + 1) * up e := by
      rw [upperEnd_eq, Nat.add_mul, Nat.mul_assoc]
      have := Nat.mul_pos (Nat.two_pow_pos (scale (r + 1))) (up_pos e)
      omega
    rw [roundsTo_iff, Nat.mul_assoc]
    omega
  unfold up down at hfits
  unfold gridPoint?
  simp only
  rw [if_pos hfits]
  split <;> rintro ⟨⟩

/-! ## The coarsest grid with a point -/

theorem mem_gridExponents : e ∈ gridExponents ↔ -350 ≤ e ∧ e ≤ 309 := by
  unfold gridExponents
  rw [List.mem_map]
  constructor
  · rintro ⟨n, hn, rfl⟩
    rw [List.mem_range] at hn
    omega
  · rintro ⟨hlow, hhigh⟩
    exact ⟨(309 - e).toNat, List.mem_range.mpr (by omega), by omega⟩

theorem gridExponents_descending : gridExponents.Pairwise (· > ·) := by
  unfold gridExponents
  rw [List.pairwise_map]
  exact List.pairwise_lt_range.imp fun h => by omega

theorem shortest_eq (h : 0 < rank) :
    gridPoint? rank (shortest rank).exponent = some (shortest rank) ∧
      (shortest rank).exponent ∈ gridExponents ∧
      ∀ e ∈ gridExponents, (shortest rank).exponent < e → gridPoint? rank e = none := by
  obtain ⟨r, rfl⟩ := Nat.exists_eq_succ_of_ne_zero (Nat.ne_of_gt h)
  have hfinest : 2 * down (-350) ≤ 2 ^ scale r * up (-350) := by
    have hone : 2 * down (-350) ≤ 1 * up (-350) := by decide +kernel
    exact hone.trans (Nat.mul_le_mul_right _ (Nat.two_pow_pos _))
  rw [shortest, if_neg (Nat.succ_ne_zero r)]
  cases hfind : gridExponents.findSome? (gridPoint? (r + 1)) with
  | none =>
    have hnone := List.findSome?_eq_none_iff.mp hfind (-350) (mem_gridExponents.mpr (by decide))
    exact absurd hnone (gridPoint?_ne_none hfinest)
  | some d =>
    rw [Option.getD_some]
    obtain ⟨before, e, after, hsplit, hd, hbefore⟩ := List.findSome?_eq_some_iff.mp hfind
    obtain ⟨rfl, -, -⟩ := gridPoint?_spec hd
    refine ⟨hd, ?_, fun e' he' hlt => ?_⟩
    · rw [hsplit]
      simp
    · have hdescending := gridExponents_descending
      rw [hsplit] at he' hdescending
      rcases List.mem_append.mp he' with hmem | hmem
      · exact hbefore e' hmem
      · have hrest := (List.pairwise_append.mp hdescending).2.1
        rw [List.pairwise_cons] at hrest
        rcases List.mem_cons.mp hmem with rfl | hmem
        · exact absurd hlt (Int.lt_irrefl _)
        · have := hrest.1 e' hmem
          omega

theorem roundsTo_shortest (h : 0 < rank) :
    roundsTo rank (2 * ((shortest rank).num * unitsPerOne)) (shortest rank).den = true :=
  (gridPoint?_spec (shortest_eq h).1).2.2

/-! ## Its size -/

theorem le_shortest_exponent (h : 0 < rank) : -350 ≤ (shortest rank).exponent :=
  (mem_gridExponents.mp (shortest_eq h).2.1).1

theorem shortest_exponent_le (h : 0 < rank) (hfinite : rank < ranks) :
    (shortest rank).exponent ≤ 308 := by
  by_contra hlarge
  obtain ⟨-, hupper, -⟩ := roundsTo_iff.mp (roundsTo_shortest h)
  have hend : upperEnd rank ≤ lowerEnd ranks := by
    rw [← lowerEnd_succ]
    exact lowerEnd_strictMono.monotone hfinite
  have hlast : lowerEnd ranks < 2 * down 309 := by decide +kernel
  have hden : (shortest rank).den = 1 := by
    have hzero : (-(shortest rank).exponent).toNat = 0 := by omega
    rw [Decimal.den, hzero, Nat.pow_eq, Nat.pow_zero]
  have hnum : down 309 ≤ (shortest rank).num * unitsPerOne := by
    calc down 309 ≤ down (shortest rank).exponent := down_mono (by omega)
      _ ≤ (shortest rank).digits * down (shortest rank).exponent :=
          Nat.le_mul_of_pos_left _ (shortest_digits_pos h)
      _ = (shortest rank).num * unitsPerOne := by rw [Decimal.num, down, Nat.mul_assoc]
  rw [hden, Nat.mul_one] at hupper
  omega

theorem unitsOf_succ_le (r : Nat) : unitsOf (r + 1) ≤ 2 ^ 53 * 2 ^ scale r := by
  have hlt := significand_lt r
  have hbinade : 2 * perBinade = 2 ^ 53 := by decide
  rw [unitsOf_succ, unitsOf_eq, ← Nat.succ_mul]
  exact Nat.mul_le_mul_right _ (by omega)

theorem shortest_digits_le (h : 0 < rank) (hfinite : rank < ranks) :
    (shortest rank).digits ≤ 20 * 2 ^ 53 := by
  obtain ⟨hpoint, hmem, hcoarser⟩ := shortest_eq h
  have hexponent := shortest_exponent_le h hfinite
  have hlow := le_shortest_exponent h
  obtain ⟨-, hnear, -⟩ := gridPoint?_spec hpoint
  generalize (shortest rank).exponent = e at *
  generalize (shortest rank).digits = n at *
  obtain ⟨r, rfl⟩ := Nat.exists_eq_succ_of_ne_zero (Nat.ne_of_gt h)
  have hnone := hcoarser (e + 1) (mem_gridExponents.mpr (by omega)) (by omega)
  have hcoarse : 2 ^ scale r * up (e + 1) < 2 * down (e + 1) := by
    rw [← Nat.not_le]
    intro hfine
    exact gridPoint?_ne_none hfine hnone
  have hstep : 2 ^ scale r * up e < 20 * down e := by
    apply Nat.lt_of_mul_lt_mul_right (a := up (e + 1))
    calc 2 ^ scale r * up e * up (e + 1) = 2 ^ scale r * up (e + 1) * up e := by ring
      _ < 2 * down (e + 1) * up e := Nat.mul_lt_mul_of_pos_right hcoarse (up_pos e)
      _ = 2 * (down (e + 1) * up e) := by ring
      _ = 20 * down e * up (e + 1) := by
          rw [down_succ_mul_up]
          ring
  have hlt : n * down e < (20 * 2 ^ 53 + 1) * down e := by
    calc n * down e ≤ unitsOf (r + 1) * up e + down e := hnear
      _ ≤ 2 ^ 53 * 2 ^ scale r * up e + down e := by
          gcongr
          exact unitsOf_succ_le r
      _ = 2 ^ 53 * (2 ^ scale r * up e) + down e := by ring
      _ < 2 ^ 53 * (20 * down e) + down e := by gcongr
      _ = (20 * 2 ^ 53 + 1) * down e := by ring
  have := Nat.lt_of_mul_lt_mul_right hlt
  omega

end AttributeReview.Binary64
