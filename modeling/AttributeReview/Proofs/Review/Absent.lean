import AttributeReview.Proofs.Review.Alike
import Mathlib.Logic.Relation

/-!
# Values that do not count as present

No value, `false`, the zeros and the empty text all show as the text for no value, so any of them
may stand for any other. The rows do not even tell whether a current value of this sort is there.
-/

namespace AttributeReview

open Attribute (Kind Value)

namespace Attribute.Value

/-- What does not count as present. A literal too small for binary64 is a zero as well. -/
inductive Absent : Option Value → Prop where
  | missing : Absent none
  | unchecked : Absent (some (boolean false))
  | zero : Absent (some (number (.natural 0)))
  | floatZero (negative : Bool) : Absent (some (number (.float (.zero negative))))
  | empty : Absent (some (text ""))

theorem absent_some_iff {value : Value} : Absent (some value) ↔ value.isPresent = false := by
  constructor
  · intro h
    cases h with
    | unchecked => rfl
    | zero => rfl
    | floatZero => rfl
    | empty => rfl
  · intro h
    cases value with
    | boolean b =>
      obtain rfl : b = false := h
      exact .unchecked
    | number n =>
      have hzero : n.isZero = true := by simpa [isPresent] using h
      cases n with
      | natural n =>
        obtain rfl : n = 0 := beq_iff_eq.mp hzero
        exact .zero
      | negative n => cases hzero
      | float x =>
        obtain ⟨negative, rank, finite⟩ := x
        obtain rfl : rank = 0 := beq_iff_eq.mp hzero
        exact .floatZero negative
    | text s =>
      obtain rfl : s = "" := by simpa [isPresent] using h
      exact .empty

/-- The values are one value, or neither of them counts as present. -/
def Interchangeable (v w : Option Value) : Prop := v = w ∨ Absent v ∧ Absent w

end Attribute.Value

open Attribute.Value (Absent Interchangeable absent_some_iff)

variable {o : Options} {v w : Option Value}

theorem Options.display_absent (h : Absent v) (kind : Kind) : o.display kind v = o.emptyValue := by
  cases v with
  | none => rfl
  | some value =>
    rw [display, absent_some_iff.mp h, if_neg Bool.false_ne_true]

theorem Options.showAlike_of_interchangeable (h : Interchangeable v w) : o.ShowAlike v w := by
  intro kind
  rcases h with rfl | ⟨hv, hw⟩
  · rfl
  · rw [display_absent hv, display_absent hw]

/-! ## Current values -/

/-- One way to change some values without a trace: to replace values that do not count as present,
or to put in one for an id that has no other value. -/
inductive AbsentStep : List CurrentValue → List CurrentValue → Prop where
  | replace {vs ws : List CurrentValue} :
      List.Forall₂ (fun v w => v.id = w.id ∧ Interchangeable v.value w.value) vs ws →
      AbsentStep vs ws
  | putIn {before after : List CurrentValue} {v : CurrentValue} : Absent v.value →
      (∀ w ∈ before ++ after, w.id ≠ v.id) → AbsentStep (before ++ after) (before ++ v :: after)

variable {vs ws : List CurrentValue}

theorem showAlike_of_replaced
    (h : List.Forall₂ (fun v w => v.id = w.id ∧ Interchangeable v.value w.value) vs ws)
    (id : UInt64) : o.ShowAlike ((currentValue? vs id).bind (·.value))
      ((currentValue? ws id).bind (·.value)) := by
  have hfirst := find?_related (p := fun v : CurrentValue => v.id = id)
    (q := fun w : CurrentValue => w.id = id) h fun v w hvw => by rw [hvw.1]
  unfold currentValue?
  cases hv : vs.find? (fun v => v.id = id) with
  | none =>
    rw [hv] at hfirst
    rw [eq_none_of_related hfirst]
    exact fun _ => rfl
  | some v =>
    rw [hv] at hfirst
    obtain ⟨w, hw, hvw⟩ := eq_some_of_related hfirst
    rw [hw]
    exact Options.showAlike_of_interchangeable hvw.2

theorem currentValue?_putIn {before after : List CurrentValue} {v : CurrentValue} {id : UInt64}
    (h : v.id ≠ id) :
    currentValue? (before ++ v :: after) id = currentValue? (before ++ after) id := by
  unfold currentValue?
  simp [h]

theorem showAlike_of_putIn {before after : List CurrentValue} {v : CurrentValue}
    (hv : Absent v.value) (hothers : ∀ w ∈ before ++ after, w.id ≠ v.id) (id : UInt64) :
    o.ShowAlike ((currentValue? (before ++ after) id).bind (·.value))
      ((currentValue? (before ++ v :: after) id).bind (·.value)) := by
  by_cases hid : v.id = id
  · subst hid
    have hfirst : FirstOf (fun w => w.id = v.id) (before ++ v :: after) v :=
      ⟨rfl, before, after, rfl, fun w hw => hothers w (List.mem_append_left _ hw)⟩
    rw [currentValue?_eq_none_iff.mpr hothers, currentValue?_eq_some_iff.mpr hfirst]
    exact Options.showAlike_of_interchangeable (Or.inr ⟨.missing, hv⟩)
  · rw [currentValue?_putIn hid]
    exact fun _ => rfl

theorem AbsentStep.showAlike (h : AbsentStep vs ws) (id : UInt64) :
    o.ShowAlike ((currentValue? vs id).bind (·.value))
      ((currentValue? ws id).bind (·.value)) := by
  cases h with
  | replace hreplaced => exact showAlike_of_replaced hreplaced id
  | putIn hv hothers => exact showAlike_of_putIn hv hothers id

theorem showAlike_of_steps (h : Relation.EqvGen AbsentStep vs ws) (id : UInt64) :
    o.ShowAlike ((currentValue? vs id).bind (·.value))
      ((currentValue? ws id).bind (·.value)) := by
  induction h with
  | rel vs ws hstep => exact hstep.showAlike id
  | refl vs => exact fun _ => rfl
  | symm vs ws _ ih => exact fun kind => (ih kind).symm
  | trans vs us ws _ _ ih ih' => exact fun kind => (ih kind).trans (ih' kind)

/-! ## Rows -/

/-- **No trace of what is absent.** The values that do not count as present are those listed. The
rows stay the same, whatever the kinds of the attributes, when such values are replaced by others
of this sort, now or in the proposal, and when one is put in or taken out for an id that has no
other value. So they do when the entries of a proposal are replaced before its keys are read. -/
theorem Options.same_rows_for_absent_values (o : Options) {i j : Instance}
    (hdefinitions : i.definitions = j.definitions)
    (hvalues : Relation.EqvGen AbsentStep i.values j.values) :
    (∀ value : Value, Absent (some value) ↔ value.isPresent = false) ∧
    (∀ c d : Changes,
      (∀ id, Option.Rel (fun a b => Interchangeable a.value b.value) (c.get? id) (d.get? id)) →
      o.diff i c = o.diff j d) ∧
    (∀ es fs : Changes.Entries,
      List.Forall₂ (Changes.EntriesRelated fun a b => Interchangeable a.value b.value) es fs →
      o.diff i (.ofEntries es) = o.diff j (.ofEntries fs)) := by
  have hchanges : ∀ c d : Changes,
      (∀ id, Option.Rel (fun a b => Interchangeable a.value b.value) (c.get? id) (d.get? id)) →
      o.diff i c = o.diff j d := by
    intro c d hcd
    apply rows_congr hdefinitions (showAlike_of_steps hvalues)
    intro id
    exact related_imp (hcd id) fun a b hab => showAlike_of_interchangeable hab
  refine ⟨fun _ => absent_some_iff, hchanges, fun es fs hentries => ?_⟩
  exact hchanges _ _ (Changes.ofEntries_related hentries)

/-- The number that `-1e-400` is read as. -/
def tooSmall : Value := .number (.float (.zero true))

def Instance.unfilled : Instance :=
  ⟨"Contract", 5, [⟨1, "Due", .date⟩, ⟨2, "Signed", .checkbox⟩],
    [⟨1, some (.text "")⟩, ⟨2, some (.boolean true)⟩]⟩

def Instance.zeroed : Instance :=
  ⟨"Contract", 5, [⟨1, "Due", .date⟩, ⟨2, "Signed", .checkbox⟩], [⟨2, some (.boolean true)⟩]⟩

/-- An empty text gives way to a number too small for the format, which is taken out; a null entry
gives way to a zero. -/
theorem Options.same_rows_without_too_small_number :
    Json.Numeral.number? ⟨true, ['1'], none, some (true, ['4', '0', '0'])⟩ =
        some (.float (.zero true)) ∧
      standard.diff .unfilled (.ofEntries [("1.0", none), ("2", some ⟨some tooSmall⟩)]) =
        standard.diff .zeroed
          (.ofEntries [("1.0", some ⟨some (.number (.natural 0))⟩), ("2", some .cleared)]) := by
  have hreplaced : AbsentStep Instance.unfilled.values
      [⟨1, some tooSmall⟩, ⟨2, some (.boolean true)⟩] :=
    .replace (.cons ⟨rfl, Or.inr ⟨.empty, .floatZero true⟩⟩ (.cons ⟨rfl, Or.inl rfl⟩ .nil))
  have htaken : AbsentStep ([] ++ Instance.zeroed.values)
      ([] ++ ⟨1, some tooSmall⟩ :: Instance.zeroed.values) :=
    .putIn (.floatZero true) (by decide)
  obtain ⟨-, -, hentries⟩ := same_rows_for_absent_values standard (i := .unfilled) (j := .zeroed)
    rfl (.trans _ _ _ (.rel _ _ hreplaced) (.symm _ _ (.rel _ _ htaken)))
  refine ⟨by decide +kernel, hentries _ _ (.cons ⟨rfl, ?_⟩ (.cons ⟨rfl, ?_⟩ .nil))⟩
  · exact Or.inr ⟨.missing, .zero⟩
  · exact Or.inr ⟨.floatZero true, .missing⟩

end AttributeReview
