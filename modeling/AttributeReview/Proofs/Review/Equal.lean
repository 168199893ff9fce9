import AttributeReview.Proofs.Binary64.Order
import AttributeReview.Proofs.Review.Absent

/-!
# Equal inputs

Numbers are equal when they are of one kind and have one value, so the two zeros with a fraction
are equal, and their texts differ. Equal instances and equal changes have the same rows all the
same: the zeros are the only equal numbers that are not one, and neither counts as present.
-/

namespace AttributeReview

open Attribute (Value)
open Attribute.Value (Absent Interchangeable)

/-! ## Equal numbers -/

namespace Number

/-- Both are natural numbers, both are negative integers or both may have a fraction, and their
values are equal. -/
inductive Equal : Number → Number → Prop where
  | natural (n : UInt64) : Equal (.natural n) (.natural n)
  | negative (n : Fin 0x8000000000000000) : Equal (.negative n) (.negative n)
  | float {x y : Binary64} (h : x.value = y.value) : Equal (.float x) (.float y)

theorem same_iff {m n : Number} : m.same n = true ↔ m.Equal n := by
  constructor
  · intro h
    cases m <;> cases n <;> simp only [same, beq_iff_eq, Bool.false_eq_true] at h
    case natural => subst h; exact .natural _
    case negative => subst h; exact .negative _
    case float => exact .float (Binary64.same_iff.mp h)
  · rintro (n | n | h)
    · simp [same]
    · simp [same]
    · exact Binary64.same_iff.mpr h

theorem eq_or_isZero {m n : Number} (h : m.same n = true) :
    m = n ∨ m.isZero = true ∧ n.isZero = true := by
  cases m <;> cases n <;> simp only [same, beq_iff_eq, Bool.false_eq_true] at h
  case natural => exact Or.inl (by rw [h])
  case negative => exact Or.inl (by rw [h])
  case float x y =>
    unfold Binary64.same at h
    simp only [Bool.or_eq_true, Bool.and_eq_true, beq_iff_eq] at h
    rcases h with hzero | ⟨hsign, hrank⟩
    · exact Or.inr hzero
    · left
      cases x
      cases y
      simp_all

end Number

/-! ## Equal inputs -/

namespace CurrentValue

/-- Equality of values, with numbers compared as numbers. -/
def same (v w : CurrentValue) : Bool := v.id == w.id && (Change.mk v.value).same ⟨w.value⟩

end CurrentValue

namespace Instance

/-- Equality of instances, with numbers compared as numbers. -/
def same (i j : Instance) : Bool :=
  i.type == j.type && i.id == j.id && i.definitions == j.definitions &&
    (i.values.length == j.values.length && (i.values.zip j.values).all fun (v, w) => v.same w)

end Instance

section Same

variable {v w : Value} {a b : Option Value} {i j : Instance} {c d : Changes}

theorem absent_of_isZero {n : Number} (h : n.isZero = true) : Absent (some (.number n)) := by
  rw [Attribute.Value.absent_some_iff]
  simp [Value.isPresent, h]

theorem interchangeable_of_same (h : v.same w = true) : Interchangeable (some v) (some w) := by
  cases v <;> cases w <;> simp only [Value.same, beq_iff_eq, Bool.false_eq_true] at h
  case boolean => exact Or.inl (by rw [h])
  case text => exact Or.inl (by rw [h])
  case number m n =>
    rcases Number.eq_or_isZero h with rfl | ⟨hm, hn⟩
    · exact Or.inl rfl
    · exact Or.inr ⟨absent_of_isZero hm, absent_of_isZero hn⟩

theorem Change.interchangeable_of_same (h : (Change.mk a).same ⟨b⟩ = true) :
    Interchangeable a b := by
  cases a <;> cases b <;> simp only [Change.same, Bool.false_eq_true] at h
  case none => exact Or.inl rfl
  case some => exact AttributeReview.interchangeable_of_same h

theorem forall₂_of_zip_all {α : Type} (same : α → α → Bool) {xs ys : List α}
    (hlength : (xs.length == ys.length) = true)
    (hall : ((xs.zip ys).all fun (x, y) => same x y) = true) :
    List.Forall₂ (fun x y => same x y = true) xs ys := by
  rw [List.forall₂_iff_zip]
  refine ⟨beq_iff_eq.mp hlength, fun hmem => ?_⟩
  exact List.all_eq_true.mp hall _ hmem

theorem Instance.values_of_same (h : i.same j = true) :
    List.Forall₂ (fun v w => v.id = w.id ∧ Interchangeable v.value w.value) i.values j.values := by
  simp only [Instance.same, Bool.and_eq_true] at h
  obtain ⟨-, hlength, hall⟩ := h
  apply (forall₂_of_zip_all CurrentValue.same hlength hall).imp
  intro v w hvw
  simp only [CurrentValue.same, Bool.and_eq_true, beq_iff_eq] at hvw
  exact ⟨hvw.1, Change.interchangeable_of_same hvw.2⟩

theorem Instance.definitions_of_same (h : i.same j = true) : i.definitions = j.definitions := by
  simp only [Instance.same, Bool.and_eq_true, beq_iff_eq] at h
  exact h.1.2

theorem Ascending.find_related {κ α β : Type} [DecidableEq κ] {R : α → β → Prop}
    {es : List (κ × α)} {fs : List (κ × β)}
    (h : List.Forall₂ (fun e f => e.1 = f.1 ∧ R e.2 f.2) es fs) (key : κ) :
    Option.Rel R (find key es) (find key fs) := by
  induction h with
  | nil => exact .none
  | cons hef _ ih =>
    rw [find_cons, find_cons, hef.1]
    split
    · exact .some hef.2
    · exact ih

theorem Changes.get?_of_same (h : c.same d = true) (id : UInt64) :
    Option.Rel (fun a b => Interchangeable a.value b.value) (c.get? id) (d.get? id) := by
  simp only [Changes.same, Bool.and_eq_true] at h
  obtain ⟨hlength, hall⟩ := h
  apply Ascending.find_related
  apply (forall₂_of_zip_all (fun a b => a.1 == b.1 && a.2.same b.2) hlength hall).imp
  intro e f hef
  simp only [Bool.and_eq_true, beq_iff_eq] at hef
  exact ⟨hef.1, Change.interchangeable_of_same hef.2⟩

end Same

/-! ## Rows -/

/-- **Equal inputs have the same rows.** Numbers are equal just if they are of one kind and one
value, so that some equal numbers have different texts. Equal instances and equal changes have the
same rows with any options. -/
theorem Options.same_rows_for_equal_inputs (o : Options) :
    (∀ m n : Number, m.same n = true ↔ m.Equal n) ∧
    (∃ m n : Number, m.same n = true ∧ m.text ≠ n.text) ∧
    ∀ (i j : Instance) (c d : Changes), i.same j = true → c.same d = true →
      o.diff i c = o.diff j d := by
  refine ⟨fun _ _ => Number.same_iff, ?_, fun i j c d hi hc => ?_⟩
  · refine ⟨.float (.zero true), .float (.zero false), rfl, ?_⟩
    decide
  · apply rows_congr (Instance.definitions_of_same hi)
    · exact showAlike_of_replaced (Instance.values_of_same hi)
    · intro id
      exact related_imp (Changes.get?_of_same hc id) fun a b => showAlike_of_interchangeable

def Instance.rated (negative : Bool) : Instance :=
  ⟨"Risk", 3, [⟨1, "Score", .other "Text"⟩, ⟨2, "Due", .date⟩],
    [⟨1, some (.number (.float (.zero negative)))⟩, ⟨2, some (.text "2024-01-05")⟩]⟩

def Changes.rated (negative : Bool) : Changes :=
  ⟨[(1, ⟨some (.text "high")⟩), (2, ⟨some (.number (.float (.zero negative)))⟩)], by simp⟩

/-- A zero with a sign now and in the proposal, and the same without it. -/
theorem Options.same_rows_for_both_zeros :
    Instance.rated true ≠ Instance.rated false ∧
      standard.diff (.rated true) (.rated true) = standard.diff (.rated false) (.rated false) := by
  refine ⟨by decide, ?_⟩
  exact (same_rows_for_equal_inputs standard).2.2 (.rated true) (.rated false) (.rated true)
    (.rated false) (by decide) (by decide)

end AttributeReview
