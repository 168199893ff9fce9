import AttributeReview.Proofs.Ascending
import AttributeReview.Review.Panel
import Mathlib.Data.List.Basic

/-!
# What the rows are

`Listed` goes through the ids of a proposal one by one and says which row each of them has.
Rebuilding a table gives the rows that are listed, and no others.
-/

namespace AttributeReview

/-- The first of some items that has a property. -/
def FirstOf {α : Type} (p : α → Prop) (items : List α) (a : α) : Prop :=
  p a ∧ ∃ before after, items = before ++ a :: after ∧ ∀ b ∈ before, ¬ p b

theorem find?_eq_some_iff_firstOf {α : Type} {p : α → Prop} [DecidablePred p] {items : List α}
    {a : α} : items.find? (fun b => decide (p b)) = some a ↔ FirstOf p items a := by
  rw [List.find?_eq_some_iff_append, FirstOf]
  simp

/-! ## Definitions and values -/

theorem Instance.definition?_eq_some_iff {i : Instance} {id : UInt64} {d : Definition} :
    i.definition? id = some d ↔ FirstOf (fun d => d.id = id) i.definitions d :=
  find?_eq_some_iff_firstOf

theorem Instance.definition?_eq_none_iff {i : Instance} {id : UInt64} :
    i.definition? id = none ↔ ∀ d ∈ i.definitions, d.id ≠ id := by
  simp [definition?]

theorem currentValue?_eq_some_iff {values : List CurrentValue} {id : UInt64} {v : CurrentValue} :
    currentValue? values id = some v ↔ FirstOf (fun v => v.id = id) values v :=
  find?_eq_some_iff_firstOf

theorem currentValue?_eq_none_iff {values : List CurrentValue} {id : UInt64} :
    currentValue? values id = none ↔ ∀ v ∈ values, v.id ≠ id := by
  simp [currentValue?]

/-! ## One row -/

/-- The row of an attribute: its title, its value now, and the value proposed for it. -/
structure Row.Shows (r : Row) (o : Options) (values : List CurrentValue) (d : Definition)
    (change : Change) : Prop where
  title : r.title = d.title
  current : (∃ v, FirstOf (fun v => v.id = d.id) values v ∧
      r.current = [o.display d.kind v.value]) ∨
    (∀ v ∈ values, v.id ≠ d.id) ∧ r.current = [o.emptyValue]
  proposed : r.proposed = [o.display d.kind change.value]

variable {o : Options} {values : List CurrentValue} {i : Instance} {changes : Changes}

theorem Row.shows_iff {r : Row} {d : Definition} {change : Change} :
    r.Shows o values d change ↔ r = o.row d (currentValue? values d.id) (some change) := by
  constructor
  · rintro ⟨htitle, hcurrent, hproposed⟩
    obtain ⟨title, current, proposed⟩ := r
    simp only at htitle hcurrent hproposed
    rw [htitle, hproposed]
    rcases hcurrent with ⟨v, hfirst, hcurrent⟩ | ⟨hnone, hcurrent⟩
    · rw [currentValue?_eq_some_iff.mpr hfirst, hcurrent]
      rfl
    · rw [currentValue?_eq_none_iff.mpr hnone, hcurrent]
      rfl
  · rintro rfl
    refine ⟨rfl, ?_, rfl⟩
    cases hvalue : currentValue? values d.id with
    | none => exact Or.inr ⟨currentValue?_eq_none_iff.mp hvalue, rfl⟩
    | some v => exact Or.inl ⟨v, currentValue?_eq_some_iff.mp hvalue, rfl⟩

/-! ## The rows of some ids -/

/-- The rows of some ids, each by its first definition. An id that has none has no row. -/
inductive Listed (o : Options) (values : List CurrentValue) (i : Instance) (changes : Changes) :
    List UInt64 → List Row → Prop where
  | nil : Listed o values i changes [] []
  | undefined {id : UInt64} {ids : List UInt64} {rows : List Row} :
      (∀ d ∈ i.definitions, d.id ≠ id) → Listed o values i changes ids rows →
      Listed o values i changes (id :: ids) rows
  | defined {id : UInt64} {ids : List UInt64} {rows : List Row} {d : Definition} {change : Change}
      {row : Row} :
      FirstOf (fun d => d.id = id) i.definitions d → changes.get? id = some change →
      row.Shows o values d change → Listed o values i changes ids rows →
      Listed o values i changes (id :: ids) (row :: rows)

/-- The row of an id, if it has a definition and a change. -/
def Options.rowOf? (o : Options) (values : List CurrentValue) (i : Instance) (changes : Changes)
    (id : UInt64) : Option Row :=
  (i.definition? id).bind fun d =>
    (changes.get? id).map fun change => o.row d (currentValue? values id) (some change)

theorem Options.rows_eq_filterMap_keys :
    o.rows values i changes = changes.keys.filterMap (o.rowOf? values i changes) := by
  rw [rows, Ascending.keys, List.filterMap_map]
  apply List.filterMap_congr
  rintro ⟨id, change⟩ hmem
  have hget := Ascending.mem_entries_iff.mp hmem
  simp only [Function.comp_apply, rowOf?, hget, Option.map_some]
  cases i.definition? id <;> rfl

theorem Listed.rows_eq {ids : List UInt64} {rows : List Row}
    (h : Listed o values i changes ids rows) :
    rows = ids.filterMap (o.rowOf? values i changes) := by
  induction h with
  | nil => rfl
  | undefined hnone _ ih =>
    rw [List.filterMap_cons_none, ih]
    rw [Options.rowOf?, Instance.definition?_eq_none_iff.mpr hnone]
    rfl
  | @defined id ids rows d change row hfirst hchange hrow _ ih =>
    rw [List.filterMap_cons_some, ih]
    obtain rfl : d.id = id := hfirst.1
    rw [Options.rowOf?, Instance.definition?_eq_some_iff.mpr hfirst, hchange,
      Row.shows_iff.mp hrow]
    rfl

theorem listed_filterMap {ids : List UInt64} (h : ∀ id ∈ ids, changes.get? id ≠ none) :
    Listed o values i changes ids (ids.filterMap (o.rowOf? values i changes)) := by
  induction ids with
  | nil => exact .nil
  | cons id ids ih =>
    obtain ⟨change, hchange⟩ := Option.ne_none_iff_exists'.mp (h id List.mem_cons_self)
    have hrest := ih fun other hmem => h other (List.mem_cons_of_mem _ hmem)
    cases hd : i.definition? id with
    | none =>
      rw [List.filterMap_cons_none (by rw [Options.rowOf?, hd]; rfl)]
      exact .undefined (Instance.definition?_eq_none_iff.mp hd) hrest
    | some d =>
      have hfirst := Instance.definition?_eq_some_iff.mp hd
      obtain rfl : d.id = id := hfirst.1
      rw [List.filterMap_cons_some (by rw [Options.rowOf?, hd, hchange]; rfl)]
      exact .defined hfirst hchange (Row.shows_iff.mpr rfl) hrest

theorem Options.rows_eq_iff {rows : List Row} :
    o.rows values i changes = rows ↔
      ∃ ids : List UInt64, ids.Pairwise (· < ·) ∧ (∀ id, id ∈ ids ↔ changes.get? id ≠ none) ∧
        Listed o values i changes ids rows := by
  rw [rows_eq_filterMap_keys]
  constructor
  · rintro rfl
    refine ⟨changes.keys, changes.keys_ascending, fun id => Ascending.mem_keys_iff, ?_⟩
    exact listed_filterMap fun id hmem => Ascending.mem_keys_iff.mp hmem
  · rintro ⟨ids, hasc, hmem, hlisted⟩
    have hids : ids = changes.keys := by
      apply Ascending.eq_of_mem_iff hasc changes.keys_ascending
      intro id
      rw [hmem, Ascending.mem_keys_iff]
    rw [hlisted.rows_eq, hids]

/-! ## How many rows there are -/

theorem Options.isSome_rowOf? {id : UInt64} (h : id ∈ changes.keys) :
    (o.rowOf? values i changes id).isSome = decide (id ∈ i.definitions.map (·.id)) := by
  obtain ⟨change, hchange⟩ := Option.ne_none_iff_exists'.mp (Ascending.mem_keys_iff.mp h)
  rw [rowOf?, hchange]
  cases hd : i.definition? id with
  | none => simpa using Instance.definition?_eq_none_iff.mp hd
  | some d =>
    obtain ⟨hid, before, after, hsplit, -⟩ := Instance.definition?_eq_some_iff.mp hd
    simp [hsplit, hid]

theorem Options.length_rows :
    (o.rows values i changes).length =
      (changes.keys.filter fun id => id ∈ i.definitions.map (·.id)).length := by
  rw [rows_eq_filterMap_keys, List.length_filterMap_eq_countP, List.countP_eq_length_filter]
  congr 1
  apply List.filter_congr
  intro id hmem
  exact isSome_rowOf? hmem

/-- **What rebuilding does to a table.** The options stay. The rows are those listed for the ids
of the changes in ascending order, whatever rows were there before: one for each id that has a
definition. The rows of an instance are those of an empty table, with the instance's own values. -/
theorem Table.rebuild_lists_rows (t : Table) (values : List CurrentValue) (i : Instance)
    (changes : Changes) :
    (t.rebuild values i changes).options = t.options ∧
    (∀ rows, (t.rebuild values i changes).rows = rows ↔
      ∃ ids : List UInt64, ids.Pairwise (· < ·) ∧ (∀ id, id ∈ ids ↔ changes.get? id ≠ none) ∧
        Listed t.options values i changes ids rows) ∧
    (t.rebuild values i changes).rows.length =
      (changes.keys.filter fun id => id ∈ i.definitions.map (·.id)).length ∧
    t.options.diff i changes = ((Table.empty t.options).rebuild i.values i changes).rows :=
  ⟨rfl, fun _ => Options.rows_eq_iff, Options.length_rows, rfl⟩

end AttributeReview
