import AttributeReview.Proofs.Json.Reread
import AttributeReview.Proofs.Review.Inputs

/-!
# Values with a fraction that are written and read

A value that is a number with a fraction comes back very near to what it was, and as itself where
its digits and the power of ten with them are exact. In general it does not come back as itself.
-/

namespace AttributeReview.Attribute.Value

open Json (Document Written)

theorem read_text_of_number {m n : Number} {bytes : List UInt8} (h : n.numeral.number? = some m)
    (hbytes : (number n).written.IsTextOf bytes) :
    (Document.ofBytes bytes).read read = .ok (number m) := by
  rw [Written.ofBytes_of_isTextOf hbytes]
  exact Document.whole_eq_ok_iff.mpr ⟨read_number h, rfl⟩

/-- **Numbers with a fraction.** From its own text a number with a fraction is always read, with
its sign, and what is read is off by at most one part in 2^50 and twice the smallest positive
number. From digits up to 2^53, scaled by at most 10^22 up or down, the number itself is read. -/
theorem fraction_read_near (x : Binary64) :
    ∃ y : Binary64,
      (∀ bytes, (number (.float x)).written.IsTextOf bytes →
        (Document.ofBytes bytes).read read = .ok (number (.float y))) ∧
      y.negative = x.negative ∧
      2 ^ 50 * |(y.units : ℤ) - x.units| ≤ x.units + 2 ^ 51 ∧
      (x.numeral.significand ≤ 2 ^ 53 → x.numeral.power.natAbs ≤ 22 → y = x) := by
  obtain ⟨y, hy, hsign, hnear⟩ := Binary64.number?_numeral_near x
  have hread : (Number.float x).numeral.number? = some (.float y) := hy
  refine ⟨y, fun bytes hbytes => read_text_of_number hread hbytes, hsign, hnear, fun hn he => ?_⟩
  rw [Binary64.number?_numeral_exact hn he] at hy
  cases hy
  rfl

/-- The number 0.1. -/
def tenth : Binary64 := ⟨false, 0x3FB999999999999A, by decide⟩

theorem tenth_read_back :
    tenth.numeral.significand ≤ 2 ^ 53 ∧ tenth.numeral.power.natAbs ≤ 22 ∧
      (Document.ofBytes (Utf8.encode (number (.float tenth)).written.compact)).read read =
        .ok (number (.float tenth)) := by
  have hn : tenth.numeral.significand ≤ 2 ^ 53 := by decide +kernel
  have he : tenth.numeral.power.natAbs ≤ 22 := by decide +kernel
  obtain ⟨y, hread, -, -, hexact⟩ := fraction_read_near tenth
  obtain rfl := hexact hn he
  exact ⟨hn, he, hread _ (Or.inl rfl)⟩

/-- The number 57.402273528956236. -/
def drifting : Binary64 := ⟨false, 0x404CB37DB2F174EF, by decide⟩

/-- The number 57.40227352895624. -/
def drifted : Binary64 := ⟨false, 0x404CB37DB2F174F0, by decide⟩

theorem fraction_read_changed :
    (number (.float drifting)).shown = "57.402273528956236" ∧
      (Document.ofBytes (Utf8.encode (number (.float drifting)).written.compact)).read read =
        .ok (number (.float drifted)) ∧
      (number (.float drifted)).shown = "57.40227352895624" ∧ drifted ≠ drifting := by
  refine ⟨by decide +kernel, ?_, by decide +kernel, by decide⟩
  apply read_text_of_number (n := .float drifting) _ (Or.inl rfl)
  decide +kernel

end AttributeReview.Attribute.Value
