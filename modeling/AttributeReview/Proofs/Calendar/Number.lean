import AttributeReview.Calendar.Instant
import AttributeReview.Calendar.Reading
import AttributeReview.Proofs.Json.Number
import Mathlib.Algebra.Group.Nat.Defs

/-!
# Numbers in dates

A number at a fixed width is read back, whatever comes after it. A year that is written with its
sign is read back at any width.
-/

namespace AttributeReview.Calendar

open Json (Digits)
open Json.Token (digit_bounds)

variable {ds rest : List Char} {width n : Nat}

/-! ## Digits at the start of a text -/

theorem isDigit_eq (c : Char) : isDigit c = c.isDigit := rfl

/-- The text does not start with a digit. -/
def NoDigit (cs : List Char) : Prop := ∀ c, cs.head? = some c → c.isDigit = false

theorem noDigit_nil : NoDigit [] := nofun

theorem noDigit_cons {c : Char} (h : c.isDigit = false) : NoDigit (c :: rest) := by
  rintro _ ⟨⟩
  exact h

theorem takeWhile_noDigit (h : NoDigit rest) : rest.takeWhile isDigit = [] := by
  cases rest with
  | nil => rfl
  | cons c rest => rw [List.takeWhile_cons, isDigit_eq, h c rfl, if_neg Bool.false_ne_true]

theorem NoDigit.take (h : NoDigit rest) (k : Nat) : NoDigit (rest.take k) := by
  cases rest with
  | nil => simp [NoDigit]
  | cons c rest =>
    cases k with
    | zero => nofun
    | succ k => exact h

theorem takeDigits_append (h : Digits ds) (hwidth : 0 < width)
    (hrest : width ≤ ds.length ∨ NoDigit rest) :
    takeDigits width (ds ++ rest) =
      some (Nat.ofDigitChars 10 (ds.take width) 0, ds.drop width ++ rest) := by
  have hnone : (rest.take (width - ds.length)).takeWhile isDigit = [] := by
    rcases hrest with hle | hnot
    · rw [Nat.sub_eq_zero_of_le hle, List.take_zero, List.takeWhile_nil]
    · exact takeWhile_noDigit (hnot.take _)
  have htake : ((ds ++ rest).take width).takeWhile isDigit = ds.take width := by
    rw [List.take_append, List.takeWhile_append_of_pos (p := isDigit) (h.take hwidth).2, hnone,
      List.append_nil]
  have hdrop : (ds ++ rest).drop (ds.take width).length = ds.drop width ++ rest := by
    rw [List.drop_append_of_le_length (List.length_take_le' _ _), List.length_take]
    congr 1
    rcases Nat.le_total width ds.length with hle | hle
    · rw [Nat.min_eq_left hle]
    · rw [Nat.min_eq_right hle, List.drop_length, List.drop_eq_nil_of_le hle]
  have hempty : (ds.take width).isEmpty = false := by simpa using (h.take hwidth).1
  unfold takeDigits
  simp only [htake, hempty, Bool.false_eq_true, if_false, hdrop]

theorem takeDigits_noDigit (h : NoDigit rest) : takeDigits width rest = none := by
  unfold takeDigits
  simp only [takeWhile_noDigit (h.take width), List.isEmpty_nil, if_true]

theorem takeAllDigits_append (h : Digits ds) (hrest : NoDigit rest) :
    takeAllDigits (ds ++ rest) = some (Nat.ofDigitChars 10 ds 0, rest) := by
  have hpos : 0 < ds.length := List.length_pos_iff.mpr h.1
  have hle : ds.length ≤ (ds ++ rest).length := by simp
  rw [takeAllDigits, takeDigits_append h (by omega) (Or.inr hrest), List.take_of_length_le hle,
    List.drop_eq_nil_of_le hle, List.nil_append]

theorem takeExactly_append (h : Digits ds) (hwidth : width ≤ ds.length) :
    takeExactly width (ds ++ rest) =
      some (Nat.ofDigitChars 10 (ds.take width) 0, ds.drop width ++ rest) := by
  have hall : (ds.take width).all isDigit = true := by
    rw [List.all_eq_true]
    exact fun c hc => h.2 c (List.mem_of_mem_take hc)
  unfold takeExactly
  simp only [List.take_append_of_le_length hwidth, List.drop_append_of_le_length hwidth, hall,
    List.length_take, Nat.min_eq_left hwidth, and_self, if_true]

theorem takeExactly_short (hlength : ds.length < width) (hrest : NoDigit rest) :
    takeExactly width (ds ++ rest) = none := by
  unfold takeExactly
  rw [if_neg]
  rintro ⟨hwidth, hall⟩
  obtain ⟨k, hk⟩ := Nat.exists_eq_add_of_lt hlength
  cases rest with
  | nil =>
    rw [List.append_nil, List.length_take] at hwidth
    omega
  | cons c rest =>
    have hmem : c ∈ (ds ++ c :: rest).take width := by
      rw [hk, List.take_append, Nat.add_assoc, Nat.add_sub_cancel_left, List.take_succ_cons]
      exact List.mem_append_right _ List.mem_cons_self
    have hdigit : c.isDigit = true := List.all_eq_true.mp hall c hmem
    rw [hrest c rfl] at hdigit
    cases hdigit

/-! ## Numbers at a width -/

theorem digits_digitsOf (width n : Nat) : Digits (digitsOf width n) := by
  refine ⟨List.append_ne_nil_of_right_ne_nil _ Nat.toDigits_ne_nil, fun c hc => ?_⟩
  rcases List.mem_append.mp hc with hc | hc
  · exact isDigit_of_mem_zeros c hc
  · exact (digits_toDigits n).2 c hc

theorem length_digitsOf (hwidth : 0 < width) (h : n < 10 ^ width) :
    (digitsOf width n).length = width := by
  have hle := (Nat.length_toDigits_le_iff (by decide) hwidth).mpr h
  rw [digitsOf, padLeft, List.length_append, List.length_replicate]
  omega

theorem ofDigitChars_digitsOf (width n : Nat) : Nat.ofDigitChars 10 (digitsOf width n) 0 = n := by
  rw [digitsOf, padLeft, Nat.ofDigitChars_append, Nat.ofDigitChars_replicate_zero, Nat.mul_zero,
    Nat.ofDigitChars_ten_toDigits]

theorem takeDigits_digitsOf (hwidth : 0 < width) (h : n < 10 ^ width) (rest : List Char) :
    takeDigits width (digitsOf width n ++ rest) = some (n, rest) := by
  have hlength := length_digitsOf hwidth h
  have hle := Nat.le_of_eq hlength
  rw [takeDigits_append (digits_digitsOf width n) hwidth (Or.inl (Nat.le_of_eq hlength.symm)),
    List.take_of_length_le hle, ofDigitChars_digitsOf, List.drop_eq_nil_of_le hle, List.nil_append]

theorem takeExactly_digitsOf (hwidth : 0 < width) (h : n < 10 ^ width) (rest : List Char) :
    takeExactly width (digitsOf width n ++ rest) = some (n, rest) := by
  have hlength := length_digitsOf hwidth h
  have hle := Nat.le_of_eq hlength
  rw [takeExactly_append (digits_digitsOf width n) (Nat.le_of_eq hlength.symm),
    List.take_of_length_le hle, ofDigitChars_digitsOf, List.drop_eq_nil_of_le hle, List.nil_append]

/-! ## Digits at a fixed length -/

theorem ofDigitChars_inj {es : List Char} {m : Nat} (hlength : ds.length = es.length)
    (hds : ∀ c ∈ ds, c.isDigit = true) (hes : ∀ c ∈ es, c.isDigit = true)
    (h : Nat.ofDigitChars 10 ds m = Nat.ofDigitChars 10 es n) : m = n ∧ ds = es := by
  induction ds generalizing es m n with
  | nil =>
    obtain rfl := List.length_eq_zero_iff.mp hlength.symm
    exact ⟨h, rfl⟩
  | cons c ds ih =>
    obtain ⟨d, es, rfl⟩ := List.exists_cons_of_length_eq_add_one hlength.symm
    rw [Nat.ofDigitChars_cons, Nat.ofDigitChars_cons] at h
    obtain ⟨hnext, rfl⟩ := ih (Nat.succ.inj hlength) (fun x hx => hds x (List.mem_cons_of_mem c hx))
      (fun x hx => hes x (List.mem_cons_of_mem d hx)) h
    have hc := digit_bounds (hds c List.mem_cons_self)
    have hd := digit_bounds (hes d List.mem_cons_self)
    simp only [Char.reduceToNat] at hnext
    have hsame : c = d := Char.ext (UInt32.toNat_inj.mp (show c.toNat = d.toNat by omega))
    exact ⟨by omega, by rw [hsame]⟩

theorem ofDigitChars_lt (h : ∀ c ∈ ds, c.isDigit = true) (n : Nat) :
    Nat.ofDigitChars 10 ds n < (n + 1) * 10 ^ ds.length := by
  induction ds generalizing n with
  | nil => simp
  | cons c ds ih =>
    have hc := digit_bounds (h c List.mem_cons_self)
    have hnext := ih (fun x hx => h x (List.mem_cons_of_mem c hx)) (10 * n + (c.toNat - '0'.toNat))
    simp only [Char.reduceToNat] at hnext
    have hle : 10 * n + (c.toNat - 48) + 1 ≤ (n + 1) * 10 := by omega
    rw [Nat.ofDigitChars_cons, List.length_cons, Nat.pow_succ', ← Nat.mul_assoc]
    exact Nat.lt_of_lt_of_le hnext (Nat.mul_le_mul_right _ hle)

theorem digitsOf_ofDigitChars (h : Digits ds) :
    digitsOf ds.length (Nat.ofDigitChars 10 ds 0) = ds := by
  have hpos : 0 < ds.length := List.length_pos_iff.mpr h.1
  have hlt := ofDigitChars_lt h.2 0
  rw [Nat.zero_add, Nat.one_mul] at hlt
  exact (ofDigitChars_inj (length_digitsOf hpos hlt) (digits_digitsOf _ _).2 h.2
    (ofDigitChars_digitsOf _ _)).2

theorem takeExactly_eq_some {cs : List Char} (hwidth : 0 < width)
    (h : takeExactly width cs = some (n, rest)) :
    n < 10 ^ width ∧ cs = digitsOf width n ++ rest := by
  simp only [takeExactly, Option.ite_none_right_eq_some, Option.some.injEq, Prod.mk.injEq,
    List.all_eq_true] at h
  obtain ⟨⟨hlength, hall⟩, rfl, rfl⟩ := h
  have hne : cs.take width ≠ [] := by
    rw [← List.length_pos_iff, hlength]
    exact hwidth
  have hlt := ofDigitChars_lt hall 0
  have hback := digitsOf_ofDigitChars ⟨hne, hall⟩
  rw [hlength, Nat.zero_add, Nat.one_mul] at hlt
  rw [hlength] at hback
  exact ⟨hlt, by rw [hback, List.take_append_drop]⟩

/-! ## Numbers of a date -/

theorem twoPlaces_zero (h : n < 100) : twoPlaces .zero n = digitsOf 2 n := by
  have hall : ∀ n < 100, twoPlaces .zero n = digitsOf 2 n := by decide
  exact hall n h

theorem takeField_year_digits (h : Digits ds) :
    takeField .year (ds ++ rest) = (takeDigits 4 (ds ++ rest)).map fun (n, rest) => (n, rest) := by
  obtain ⟨c, ds', rfl⟩ := List.exists_cons_of_ne_nil h.1
  have hdigit := h.2 c List.mem_cons_self
  unfold takeField
  split
  next heq =>
    cases heq
    cases hdigit
  next heq =>
    cases heq
    cases hdigit
  next => rfl
  next hyear _ _ => exact absurd rfl hyear

theorem takeField_of_ne_year {field : Field} (h : field ≠ .year) (cs : List Char) :
    takeField field cs = (takeDigits 2 cs).map fun (n, rest) => (n, rest) := by
  cases field with
  | year => exact absurd rfl h
  | _ => rfl

theorem toDigits_eq_digitsOf (h : 1000 ≤ n) : Nat.toDigits 10 n = digitsOf 4 n := by
  have hlength : ¬ (Nat.toDigits 10 n).length ≤ 3 := by
    rw [Nat.length_toDigits_le_iff (by decide) (by decide)]
    omega
  rw [digitsOf, padLeft, Nat.sub_eq_zero_of_le (by omega), List.replicate_zero, List.nil_append]

theorem yearText_zero (year : Int) :
    yearText .zero year =
      if 0 ≤ year ∧ year ≤ 9999 then digitsOf 4 year.toNat
      else (if year < 0 then '-' else '+') :: digitsOf 4 year.natAbs := by
  unfold yearText
  split
  next hlong => rw [if_pos (by omega), toDigits_eq_digitsOf (by omega)]
  next =>
    split
    next => rfl
    next => rfl

theorem takeField_yearText (year : Int) :
    takeField .year (yearText .zero year) = some (year, []) := by
  rw [yearText_zero]
  split
  next hfour =>
    have hlt : year.toNat < 10 ^ 4 := by omega
    have htake := takeDigits_digitsOf (by decide) hlt []
    rw [← List.append_nil (digitsOf 4 _), takeField_year_digits (digits_digitsOf 4 _), htake]
    simp only [Option.map_some, Option.some.injEq, Prod.mk.injEq, and_true]
    omega
  next hsigned =>
    have hall := takeAllDigits_append (digits_digitsOf 4 year.natAbs) noDigit_nil
    rw [List.append_nil, ofDigitChars_digitsOf] at hall
    split
    next hneg =>
      unfold takeField
      simp only [hall, Option.map_some, Option.some.injEq, Prod.mk.injEq, and_true]
      omega
    next hpos =>
      unfold takeField
      simp only [hall, Option.map_some, Option.some.injEq, Prod.mk.injEq, and_true]
      omega

end AttributeReview.Calendar
