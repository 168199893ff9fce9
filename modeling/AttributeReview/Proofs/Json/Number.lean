import AttributeReview.Number
import AttributeReview.Proofs.Json.Numeral

/-!
# Numbers in documents

Each number is written as a numeral. An integer is read back from it.
-/

namespace AttributeReview

open Json (Digits Numeral)

/-! ## Digits -/

theorem digits_toDigits (n : Nat) : Digits (Nat.toDigits 10 n) :=
  ⟨Nat.toDigits_ne_nil, fun _ hc => Nat.isDigit_of_mem_toDigits (by decide) (by decide) hc⟩

theorem Json.Digits.append {cs ds : List Char} (h : Digits cs) (h' : ∀ c ∈ ds, c.isDigit = true) :
    Digits (cs ++ ds) := by
  refine ⟨List.append_ne_nil_of_left_ne_nil h.1 ds, ?_⟩
  intro c hc
  rcases List.mem_append.mp hc with hc | hc
  · exact h.2 c hc
  · exact h' c hc

theorem digits_zero : Digits ['0'] := by
  refine ⟨List.cons_ne_nil _ _, fun c hc => ?_⟩
  rw [List.mem_singleton.mp hc]
  rfl

theorem isDigit_of_mem_zeros {k : Nat} : ∀ c ∈ List.replicate k '0', c.isDigit = true := by
  intro c hc
  rw [List.eq_of_mem_replicate hc]
  rfl

theorem Json.Digits.take {cs : List Char} (h : Digits cs) {k : Nat} (hk : 0 < k) :
    Digits (cs.take k) := by
  refine ⟨?_, fun c hc => h.2 c (List.mem_of_mem_take hc)⟩
  rw [Ne, List.take_eq_nil_iff]
  rintro (rfl | hnil)
  · exact Nat.lt_irrefl 0 hk
  · exact h.1 hnil

theorem Json.Digits.drop {cs : List Char} (h : Digits cs) {k : Nat} (hk : k < cs.length) :
    Digits (cs.drop k) := by
  refine ⟨?_, fun c hc => h.2 c (List.mem_of_mem_drop hc)⟩
  rw [Ne, List.drop_eq_nil_iff]
  omega

theorem head_toDigits {n : Nat} (h : 0 < n) : (Nat.toDigits 10 n).head? ≠ some '0' := by
  induction n using Nat.base_induction 10 (by decide) with
  | single m hm =>
    rw [Nat.toDigits_of_lt_base hm]
    intro hhead
    obtain hzero : m.digitChar = '0' := Option.some.inj hhead
    have hval := Nat.toNat_digitChar_sub_48_of_lt_ten hm
    rw [hzero] at hval
    simp only [Char.reduceToNat] at hval
    omega
  | digit m k hk hm ih =>
    rw [← Nat.toDigits_append_toDigits (by decide) hm hk]
    obtain ⟨d, ds, hcons⟩ := List.exists_cons_of_ne_nil (Nat.toDigits_ne_nil (n := m) (b := 10))
    rw [hcons] at ih ⊢
    exact ih hm

theorem no_zero_before_of_head {cs : List Char} (h : cs.head? ≠ some '0') (d : Char)
    (ds : List Char) : cs ≠ '0' :: d :: ds := by
  rintro rfl
  exact h rfl

theorem no_zero_before_toDigits (n : Nat) (d : Char) (ds : List Char) :
    Nat.toDigits 10 n ≠ '0' :: d :: ds := by
  rcases Nat.eq_zero_or_pos n with rfl | hn
  · simp
  · exact no_zero_before_of_head (head_toDigits hn) d ds

/-! ## Fractions -/

namespace Binary64

/-- The digits of a number as a numeral, with the decimal point after the first `point` of them. -/
def layOutNumeral (negative : Bool) (digits : List Char) (point : Int) : Numeral :=
  if 0 < point ∧ point ≤ 16 then
    if digits.length ≤ point.toNat then
      ⟨negative, digits ++ List.replicate (point.toNat - digits.length) '0', some ['0'], none⟩
    else ⟨negative, digits.take point.toNat, some (digits.drop point.toNat), none⟩
  else if -5 < point ∧ point ≤ 0 then
    ⟨negative, ['0'], some (List.replicate (-point).toNat '0' ++ digits), none⟩
  else
    ⟨negative, digits.take 1, if digits.length ≤ 1 then none else some (digits.drop 1),
      some (decide (point - 1 < 0), Nat.toDigits 10 (point - 1).natAbs)⟩

variable {negative : Bool} {digits : List Char} {point : Int}

theorem negative_layOutNumeral : (layOutNumeral negative digits point).negative = negative := by
  unfold layOutNumeral
  split
  · split <;> rfl
  · split <;> rfl

theorem layOut_eq_unsigned :
    layOut digits point = (layOutNumeral negative digits point).unsigned := by
  unfold layOut layOutNumeral
  split
  · split <;> simp [Numeral.unsigned, Numeral.fractionText, Numeral.exponentText, *]
  · split
    · simp [Numeral.unsigned, Numeral.fractionText, Numeral.exponentText]
    · by_cases h : digits.length ≤ 1 <;>
        simp [Numeral.unsigned, Numeral.fractionText, Numeral.exponentText, h]

theorem proper_layOutNumeral (h : Digits digits) (hhead : digits.head? ≠ some '0') :
    (layOutNumeral negative digits point).Proper := by
  have htake {k : Nat} (hk : 0 < k) : (digits.take k).head? ≠ some '0' := by
    rwa [List.head?_take, if_neg (by omega)]
  unfold layOutNumeral
  split
  next hpoint =>
    split
    next hlength =>
      refine ⟨h.append isDigit_of_mem_zeros, no_zero_before_of_head ?_, ?_, by rintro _ _ ⟨⟩⟩
      · obtain ⟨d, ds, hcons⟩ := List.exists_cons_of_ne_nil h.1
        rw [hcons] at hhead ⊢
        exact hhead
      · rintro _ ⟨⟩
        exact digits_zero
    next hlength =>
      refine ⟨h.take (by omega), no_zero_before_of_head (htake (by omega)), ?_, by rintro _ _ ⟨⟩⟩
      rintro _ ⟨⟩
      exact h.drop (by omega)
  next =>
    split
    next hpoint =>
      refine ⟨digits_zero, by rintro d ds ⟨⟩, ?_, by rintro _ _ ⟨⟩⟩
      rintro _ ⟨⟩
      exact ⟨List.append_ne_nil_of_right_ne_nil _ h.1,
        fun c hc => (List.mem_append.mp hc).elim (isDigit_of_mem_zeros c) (h.2 c)⟩
    next =>
      refine ⟨h.take (by omega), no_zero_before_of_head (htake (by omega)), ?_, ?_⟩
      · intro ds hds
        by_cases hlength : digits.length ≤ 1
        · rw [if_pos hlength] at hds
          cases hds
        · rw [if_neg hlength] at hds
          cases hds
          exact h.drop (by omega)
      · rintro _ _ ⟨⟩
        exact digits_toDigits _

theorem unitsOf_pos {rank : Nat} (h : 0 < rank) : 0 < unitsOf rank := by
  rw [unitsOf, Nat.shiftLeft_eq]
  refine Nat.mul_pos ?_ (Nat.two_pow_pos _)
  rw [significand]
  split
  · exact h
  · exact Nat.add_pos_left (by decide) _

theorem roundsTo_zero {rank den : Nat} (h : 0 < rank) (hden : 0 < den) :
    roundsTo rank 0 den = false := by
  have hlower : 0 < lowerEnd rank * den := by
    rw [lowerEnd, if_neg (Nat.ne_of_gt h)]
    exact Nat.mul_pos (Nat.add_pos_right _ (unitsOf_pos h)) hden
  unfold roundsTo
  split
  · rw [decide_eq_false (Nat.not_le.mpr hlower), Bool.false_and]
  · rw [decide_eq_false (Nat.not_lt_zero _), Bool.false_and]

theorem gridPoint?_digits_pos {rank : Nat} {exponent : Int} {d : Decimal} (h : 0 < rank)
    (hd : gridPoint? rank exponent = some d) : 0 < d.digits := by
  have hup : 0 < Nat.pow 10 (-exponent).toNat := Nat.pow_pos (by decide)
  unfold gridPoint? at hd
  simp only at hd
  split at hd
  next hfits =>
    split at hd
    · cases hd
      exact Nat.succ_pos _
    · cases hd
      refine Nat.pos_of_ne_zero fun hbelow => ?_
      simp only at hbelow
      rw [hbelow, Nat.mul_zero, Nat.zero_mul, roundsTo_zero h hup] at hfits
      cases hfits
  · split at hd
    · cases hd
      exact Nat.succ_pos _
    · cases hd

theorem shortest_digits_pos {rank : Nat} (h : 0 < rank) : 0 < (shortest rank).digits := by
  rw [shortest, if_neg (Nat.ne_of_gt h)]
  cases hfind : gridExponents.findSome? (gridPoint? rank) with
  | none => exact unitsOf_pos h
  | some d =>
    obtain ⟨exponent, -, hd⟩ := List.exists_of_findSome?_eq_some hfind
    exact gridPoint?_digits_pos h hd

def numeral (x : Binary64) : Numeral :=
  if x.rank = 0 then ⟨x.negative, ['0'], some ['0'], none⟩
  else
    let d := shortest x.rank
    let digits := Nat.toDigits 10 d.digits
    layOutNumeral x.negative digits (digits.length + d.exponent)

theorem text_numeral (x : Binary64) : x.numeral.text = x.text := by
  rw [numeral, text, magnitudeText, Numeral.text]
  split
  · rfl
  · rw [negative_layOutNumeral, ← layOut_eq_unsigned]

theorem proper_numeral (x : Binary64) : x.numeral.Proper := by
  rw [numeral]
  split
  · exact ⟨digits_zero, by rintro d ds ⟨⟩, by rintro _ ⟨⟩; exact digits_zero, by rintro _ _ ⟨⟩⟩
  next h =>
    exact proper_layOutNumeral (digits_toDigits _)
      (head_toDigits (shortest_digits_pos (Nat.pos_of_ne_zero h)))

end Binary64

/-! ## Numbers -/

namespace Number

def numeral : Number → Numeral
  | natural n => ⟨false, Nat.toDigits 10 n.toNat, none, none⟩
  | negative n => ⟨true, Nat.toDigits 10 (n + 1), none, none⟩
  | float x => x.numeral

theorem toList_text (n : Number) : n.text.toList = n.numeral.text := by
  cases n with
  | natural n =>
    simp [text, numeral, Numeral.text, Numeral.unsigned, Numeral.fractionText, Numeral.exponentText]
  | negative n =>
    simp [text, numeral, Numeral.text, Numeral.unsigned, Numeral.fractionText, Numeral.exponentText]
  | float x => rw [text, String.toList_ofList, numeral, Binary64.text_numeral]

theorem proper_numeral (n : Number) : n.numeral.Proper := by
  cases n with
  | natural n =>
    exact ⟨digits_toDigits _, no_zero_before_toDigits _, by rintro _ ⟨⟩, by rintro _ _ ⟨⟩⟩
  | negative n =>
    exact ⟨digits_toDigits _, no_zero_before_toDigits _, by rintro _ ⟨⟩, by rintro _ _ ⟨⟩⟩
  | float x => exact x.proper_numeral

/-! ## Reading an integer back -/

theorem le_ofDigitChars (cs : List Char) (n : Nat) : n ≤ Nat.ofDigitChars 10 cs n := by
  induction cs generalizing n with
  | nil => exact Nat.le_of_eq Nat.ofDigitChars_nil.symm
  | cons c cs ih =>
    rw [Nat.ofDigitChars_cons]
    have hle := ih (10 * n + (c.toNat - '0'.toNat))
    omega

theorem absorb_eq {cs : List Char} {n : Nat} (h : Nat.ofDigitChars 10 cs n < UInt64.size) :
    Numeral.absorb n cs = (Nat.ofDigitChars 10 cs n, []) := by
  induction cs generalizing n with
  | nil => rw [Nat.ofDigitChars_nil]; rfl
  | cons c cs ih =>
    rw [Nat.ofDigitChars_cons] at h ⊢
    have hstep : n * 10 + Numeral.digitValue c = 10 * n + (c.toNat - '0'.toNat) := by
      rw [Nat.mul_comm]; rfl
    have hlt := Nat.lt_of_le_of_lt (le_ofDigitChars cs _) h
    rw [Numeral.absorb]
    simp only [hstep, if_pos hlt]
    exact ih h

theorem absorb_toDigits {n : Nat} (h : n < UInt64.size) :
    Numeral.absorb 0 (Nat.toDigits 10 n) = (n, []) := by
  have hval : Nat.ofDigitChars 10 (Nat.toDigits 10 n) 0 = n := Nat.ofDigitChars_ten_toDigits
  rw [absorb_eq (hval.symm ▸ h), hval]

theorem integer_negative (n : Fin 0x8000000000000000) :
    Numeral.integer true (n + 1) = some (negative n) := by
  have hn := n.isLt
  rw [Numeral.integer, if_pos rfl, dif_pos (by omega)]
  simp only [Nat.add_sub_cancel]

theorem integer_natural (n : UInt64) : Numeral.integer false n.toNat = some (natural n) := by
  rw [Numeral.integer, if_neg Bool.false_ne_true, UInt64.ofNat_toNat]

theorem number?_numeral {n : Number} (h : ∀ x, n ≠ float x) : n.numeral.number? = some n := by
  cases n with
  | natural n =>
    rw [Numeral.number?, numeral]
    simp only [absorb_toDigits n.toNat_lt, Option.isNone_none, List.isEmpty_nil, Bool.and_self,
      if_true, integer_natural]
  | negative n =>
    have hn := n.isLt
    have hlt : (n : Nat) + 1 < UInt64.size := by
      have hsize : UInt64.size = 0x10000000000000000 := rfl
      omega
    rw [Numeral.number?, numeral]
    simp only [absorb_toDigits hlt, Option.isNone_none, List.isEmpty_nil, Bool.and_self, if_true,
      integer_negative]
  | float x => exact absurd rfl (h x)

end Number

end AttributeReview
