import AttributeReview.Proofs.Proposal
import AttributeReview.Proofs.Review.Rows
import Mathlib.Data.List.Forall2

/-!
# Inputs that show alike

The rows of an instance and a proposal depend on values only by what these show. So inputs with the
same definitions and the same ids, whose values show alike, have the same rows.
-/

namespace AttributeReview

open Attribute (Kind Value)

/-! ## Items that correspond -/

section Related

variable {α β : Type} {R : α → β → Prop}

theorem eq_none_of_related {b : Option β} (h : Option.Rel R none b) : b = none := by
  cases h
  rfl

theorem eq_some_of_related {a : α} {b : Option β} (h : Option.Rel R (some a) b) :
    ∃ b', b = some b' ∧ R a b' := by
  cases h with
  | some hab => exact ⟨_, rfl, hab⟩

theorem related_imp {S : α → β → Prop} {a : Option α} {b : Option β} (h : Option.Rel R a b)
    (himp : ∀ x y, R x y → S x y) : Option.Rel S a b := by
  cases h with
  | none => exact .none
  | some hab => exact .some (himp _ _ hab)

theorem find?_related {p : α → Bool} {q : β → Bool} {xs : List α} {ys : List β}
    (h : List.Forall₂ R xs ys) (htest : ∀ a b, R a b → p a = q b) :
    Option.Rel R (xs.find? p) (ys.find? q) := by
  induction h with
  | nil => exact .none
  | @cons a b xs ys hab _ ih =>
    rw [List.find?_cons, List.find?_cons, htest a b hab]
    cases q b with
    | true => exact .some hab
    | false => exact ih

end Related

/-! ## Entries of a proposal -/

namespace Changes

/-- The entries have one key, and what they propose is related. -/
def EntriesRelated (R : Change → Change → Prop) (e f : String × Option Change) : Prop :=
  e.1 = f.1 ∧ R (e.2.getD .cleared) (f.2.getD .cleared)

variable {R : Change → Change → Prop} {es fs : Entries}

theorem keysOf_related (h : List.Forall₂ (EntriesRelated R) es fs) : keysOf es = keysOf fs := by
  unfold keysOf
  induction h with
  | nil => rfl
  | cons hef _ ih => rw [List.map_cons, List.map_cons, hef.1, ih]

theorem LastUnder.related {key : String} {value : Option Change}
    (h : List.Forall₂ (EntriesRelated R) es fs) (hlast : LastUnder es key value) :
    ∃ other, LastUnder fs key other ∧ R (value.getD .cleared) (other.getD .cleared) := by
  have hfind := find?_related (p := fun e => e.1 = key) (q := fun f => f.1 = key)
    (List.rel_reverse h) fun e f hef => by rw [hef.1]
  rw [lastUnder_iff] at hlast
  obtain ⟨e, he, rfl⟩ := Option.map_eq_some_iff.mp hlast
  rw [he] at hfind
  obtain ⟨f, hf, hef⟩ := eq_some_of_related hfind
  exact ⟨f.2, lastUnder_iff.mpr (Option.map_eq_some_iff.mpr ⟨f, hf, rfl⟩), hef.2⟩

theorem ofEntries_related (h : List.Forall₂ (EntriesRelated R) es fs) (id : UInt64) :
    Option.Rel R ((ofEntries es).get? id) ((ofEntries fs).get? id) := by
  -- Which keys count is a matter of the keys alone.
  have hkeys := keysOf_related h
  cases hchange : (ofEntries es).get? id with
  | none =>
    have hnone : (ofEntries fs).get? id = none := by
      rw [ofEntries_get?_eq_none_iff] at hchange ⊢
      intro f hf
      have hmem : f.1 ∈ keysOf es := hkeys ▸ List.mem_map_of_mem hf
      obtain ⟨e, he, heq⟩ := List.mem_map.mp hmem
      exact heq ▸ hchange e he
    rw [hnone]
    exact .none
  | some change =>
    obtain ⟨key, value, hwins, hlast, rfl⟩ := ofEntries_get?_eq_some_iff.mp hchange
    obtain ⟨other, hother, hrelated⟩ := hlast.related h
    rw [ofEntries_get?_eq_some_iff.mpr ⟨key, other, hkeys ▸ hwins, hother, rfl⟩]
    exact .some hrelated

end Changes

/-! ## Rows -/

/-- The values show alike, whatever kind they are shown as. -/
def Options.ShowAlike (o : Options) (v w : Option Value) : Prop :=
  ∀ kind : Kind, o.display kind v = o.display kind w

variable {o : Options} {values others : List CurrentValue} {i j : Instance} {c d : Changes}

theorem Changes.keys_related {R : Change → Change → Prop}
    (h : ∀ id, Option.Rel R (c.get? id) (d.get? id)) : c.keys = d.keys := by
  apply Ascending.eq_of_mem_iff c.keys_ascending d.keys_ascending
  intro id
  have hid := h id
  rw [Ascending.mem_keys_iff, Ascending.mem_keys_iff]
  cases hc : c.get? id with
  | none =>
    rw [hc] at hid
    rw [eq_none_of_related hid]
  | some a =>
    rw [hc] at hid
    obtain ⟨b, hb, -⟩ := eq_some_of_related hid
    simp [hb]

theorem Options.rowOf?_congr {id : UInt64} (hdefinitions : i.definitions = j.definitions)
    (hvalues : o.ShowAlike ((currentValue? values id).bind (·.value))
      ((currentValue? others id).bind (·.value)))
    (hchanges : Option.Rel (fun a b => o.ShowAlike a.value b.value) (c.get? id) (d.get? id)) :
    o.rowOf? values i c id = o.rowOf? others j d id := by
  have hdefinition : i.definition? id = j.definition? id := by
    unfold Instance.definition?
    rw [hdefinitions]
  unfold rowOf?
  rw [hdefinition]
  cases hc : c.get? id with
  | none =>
    rw [hc] at hchanges
    rw [eq_none_of_related hchanges]
    rfl
  | some a =>
    rw [hc] at hchanges
    obtain ⟨b, hb, hab⟩ := eq_some_of_related hchanges
    cases j.definition? id with
    | none => rfl
    | some definition =>
      have hproposed : o.display definition.kind a.value = o.display definition.kind b.value :=
        hab definition.kind
      simp only [hb, Option.bind_some, Option.map_some, row, hvalues definition.kind, hproposed]

theorem Options.rows_congr (hdefinitions : i.definitions = j.definitions)
    (hvalues : ∀ id, o.ShowAlike ((currentValue? values id).bind (·.value))
      ((currentValue? others id).bind (·.value)))
    (hchanges : ∀ id, Option.Rel (fun a b => o.ShowAlike a.value b.value) (c.get? id) (d.get? id)) :
    o.rows values i c = o.rows others j d := by
  rw [rows_eq_filterMap_keys, rows_eq_filterMap_keys, Changes.keys_related hchanges]
  apply List.filterMap_congr
  intro id _
  exact rowOf?_congr hdefinitions (hvalues id) (hchanges id)

end AttributeReview
