import AttributeReview.Attribute.Id

/-!
# Spellings of ids

The canonical spelling of an id spells it.
-/

namespace AttributeReview.Attribute

/-! ## Digits -/

theorem isDigit_eq (c : Char) : Literal.isDigit c = c.isDigit := rfl

theorem isDigit_of_mem_toDigits {n : Nat} {c : Char} (h : c ∈ Nat.toDigits 10 n) :
    Literal.isDigit c = true := by
  rw [isDigit_eq]
  exact Nat.isDigit_of_mem_toDigits (by decide) (by decide) h

theorem not_blank_of_isDigit {c : Char} (h : Literal.isDigit c = true) :
    Text.isBlank c = false := by
  have h0 : '0'.toNat ≤ c.toNat := by
    simp [Literal.isDigit] at h; exact h.1
  have h9 : c.toNat ≤ '9'.toNat := by
    simp [Literal.isDigit] at h; exact h.2
  simp only [Char.reduceToNat] at h0 h9
  simp [Text.isBlank]
  omega

/-! ## Integers -/

theorem idOfInteger?_digits {cs : List Char} (hne : cs ≠ [])
    (hall : ∀ c ∈ cs, Literal.isDigit c = true) (hlt : Nat.ofDigitChars 10 cs 0 < UInt64.size) :
    idOfInteger? cs = some (UInt64.ofNat (Nat.ofDigitChars 10 cs 0)) := by
  have hplus : ∀ rest, cs ≠ '+' :: rest := by
    rintro rest rfl
    have := hall '+' List.mem_cons_self
    simp [Literal.isDigit] at this
  have hdigits : (cs.isEmpty || !cs.all Literal.isDigit) = false := by
    simpa [hne] using hall
  unfold idOfInteger?
  split
  · exact absurd rfl (hplus _)
  · simp only [hdigits, Bool.false_eq_true, if_false, if_pos hlt]

theorem idOfKey?_keyOfId (id : UInt64) : idOfKey? (keyOfId id) = some id := by
  have hall : ∀ c ∈ Nat.toDigits 10 id.toNat, Literal.isDigit c = true :=
    fun c hc => isDigit_of_mem_toDigits hc
  have htrim : Text.trim (keyOfId id).toList = Nat.toDigits 10 id.toNat := by
    rw [keyOfId, String.toList_ofList]
    exact Text.trim_of_no_blank fun c hc => not_blank_of_isDigit (hall c hc)
  have hint := idOfInteger?_digits Nat.toDigits_ne_nil hall
  rw [Nat.ofDigitChars_ten_toDigits, UInt64.ofNat_toNat] at hint
  rw [idOfKey?, htrim, hint id.toNat_lt]

end AttributeReview.Attribute
