import AttributeReview.Proofs.Binary64.Rounding
import Mathlib.Tactic.NormNum

/-!
# The error of several roundings

Each rounding is off by one part in 2^53 of what is rounded or, among the least magnitudes, by half
a unit. Products, quotients and further roundings add these errors up, and a little more.
-/

namespace AttributeReview.Binary64

/-- The number `w` is off from `v` by at most the share `e` of it, and by `c` besides. -/
def Off (e c v w : ℚ) : Prop := (1 - e) * v ≤ w + c ∧ w - c ≤ (1 + e) * v

namespace Off

variable {c c' e e' f v v' w w' z : ℚ}

theorem refl (v : ℚ) : Off 0 0 v v := by
  constructor <;> linarith

theorem weaken (h : Off e c v w) (hv : 0 ≤ v) (he : e ≤ f) (hc : c ≤ c') : Off f c' v w := by
  obtain ⟨hlow, hhigh⟩ := h
  have hshare := mul_le_mul_of_nonneg_right he hv
  constructor <;> linarith

theorem pos (h : Off e 0 v w) (hv : 0 < v) (he : e < 1) : 0 < w := by
  have hlow := h.1
  have := mul_pos (sub_pos.mpr he) hv
  linarith

theorem trans (h : Off e c v w) (h' : Off e' c' w z) (hv : 0 ≤ v) (hc : 0 ≤ c) (he : 0 ≤ e)
    (he' : 0 ≤ e') (he₁' : e' ≤ 1) (hf : e + e' + e * e' ≤ f) : Off f (2 * c + c') v z := by
  obtain ⟨hlow, hhigh⟩ := h
  obtain ⟨hlow', hhigh'⟩ := h'
  have hshare := mul_le_mul_of_nonneg_right hf hv
  constructor
  · have hstep : (1 - e') * ((1 - e) * v) ≤ (1 - e') * (w + c) :=
      mul_le_mul_of_nonneg_left hlow (by linarith)
    have hslack : 0 ≤ e' * c := mul_nonneg he' hc
    have hboth : 0 ≤ e * e' * v := mul_nonneg (mul_nonneg he he') hv
    linarith
  · have hstep : (1 + e') * (w - c) ≤ (1 + e') * ((1 + e) * v) :=
      mul_le_mul_of_nonneg_left hhigh (by linarith)
    have hslack : e' * c ≤ 1 * c := mul_le_mul_of_nonneg_right he₁' hc
    linarith

theorem mul (h : Off e 0 v w) (h' : Off e' 0 v' w') (hv : 0 ≤ v) (hv' : 0 ≤ v') (he : 0 ≤ e)
    (he₁ : e ≤ 1) (he' : 0 ≤ e') (he₁' : e' ≤ 1) (hf : e + e' + e * e' ≤ f) :
    Off f 0 (v * v') (w * w') := by
  obtain ⟨hlow, hhigh⟩ := h
  obtain ⟨hlow', hhigh'⟩ := h'
  simp only [add_zero, sub_zero] at hlow hhigh hlow' hhigh'
  have hshare := mul_le_mul_of_nonneg_right hf (mul_nonneg hv hv')
  have hw' : 0 ≤ w' := le_trans (mul_nonneg (by linarith) hv') hlow'
  have hprod := mul_le_mul hlow hlow' (mul_nonneg (by linarith) hv')
    (le_trans (mul_nonneg (by linarith) hv) hlow)
  have hprod' := mul_le_mul hhigh hhigh' hw' (mul_nonneg (by linarith) hv)
  have hboth : 0 ≤ e * e' * (v * v') := by positivity
  constructor <;> linarith

theorem div (h : Off e 0 v w) (h' : Off e' 0 v' w') (hv : 0 ≤ v) (hv' : 0 < v') (he' : e' < 1)
    (hf : 1 + e ≤ (1 + f) * (1 - e')) (hf' : (1 - f) * (1 + e') ≤ 1 - e) (hf₀ : 0 ≤ f)
    (hf₁ : f ≤ 1) : Off f 0 (v / v') (w / w') := by
  have hw' := h'.pos hv' he'
  obtain ⟨hlow, hhigh⟩ := h
  obtain ⟨hlow', hhigh'⟩ := h'
  simp only [add_zero, sub_zero] at hlow hhigh hlow' hhigh'
  unfold Off
  rw [add_zero, sub_zero, ← mul_div_assoc, ← mul_div_assoc, div_le_div_iff₀ hv' hw',
    div_le_div_iff₀ hw' hv']
  constructor
  · calc (1 - f) * v * w' ≤ (1 - f) * v * ((1 + e') * v') :=
          mul_le_mul_of_nonneg_left hhigh' (mul_nonneg (by linarith) hv)
      _ = (1 - f) * (1 + e') * (v * v') := by ring
      _ ≤ (1 - e) * (v * v') := mul_le_mul_of_nonneg_right hf' (mul_nonneg hv hv'.le)
      _ = (1 - e) * v * v' := by ring
      _ ≤ w * v' := mul_le_mul_of_nonneg_right hlow hv'.le
  · calc w * v' ≤ (1 + e) * v * v' := mul_le_mul_of_nonneg_right hhigh hv'.le
      _ = (1 + e) * (v * v') := by ring
      _ ≤ (1 + f) * (1 - e') * (v * v') := mul_le_mul_of_nonneg_right hf (mul_nonneg hv hv'.le)
      _ = (1 + f) * v * ((1 - e') * v') := by ring
      _ ≤ (1 + f) * v * w' := mul_le_mul_of_nonneg_left hlow' (mul_nonneg (by linarith) hv)

theorem div_const (h : Off e c v w) {d : ℚ} (hd : 0 < d) : Off e (c / d) (v / d) (w / d) := by
  obtain ⟨hlow, hhigh⟩ := h
  constructor
  · rw [← mul_div_assoc, ← add_div]
    exact div_le_div_of_nonneg_right hlow hd.le
  · rw [← mul_div_assoc, ← sub_div]
    exact div_le_div_of_nonneg_right hhigh hd.le

end Off

/-! ## One rounding -/

variable {a : ℕ} {r : ℚ}

/-- A little more than one part in 2^53. -/
def roundingShare : ℚ := 129 / 2 ^ 60

theorem off_of_near (hr : 0 ≤ r) (h : Near a r) :
    Off roundingShare (1 / 2) (r * unitsPerOne) a := by
  have hunits : 0 ≤ r * unitsPerOne := mul_nonneg hr (Nat.cast_nonneg _)
  obtain ⟨hlow, hhigh⟩ := abs_le.mp (le_refl |(a : ℚ) - r * unitsPerOne|)
  unfold Off roundingShare
  rcases h with hhalf | hpart
  · constructor <;> linarith
  · constructor <;> linarith

theorem off_of_near_of_le (hr : 2 ^ 60 ≤ r * unitsPerOne) (h : Near a r) :
    Off roundingShare 0 (r * unitsPerOne) a := by
  obtain ⟨hlow, hhigh⟩ := abs_le.mp (le_refl |(a : ℚ) - r * unitsPerOne|)
  unfold Off roundingShare
  rcases h with hhalf | hpart
  · constructor <;> linarith
  · constructor <;> linarith

end AttributeReview.Binary64
