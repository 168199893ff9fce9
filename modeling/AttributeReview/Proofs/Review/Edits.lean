import AttributeReview.Proofs.Ascending.Around
import AttributeReview.Proofs.Review.Rows

/-!
# One change of a proposal

The rows of a proposal are those of the ids below an id, the row of this id if it has one, and
those of the ids above it. Setting a change of the id sets this one row.
-/

namespace AttributeReview

/-- The row of a change to an attribute of an instance, if the attribute has a definition. -/
def Options.changeRow? (o : Options) (values : List CurrentValue) (i : Instance) (id : UInt64)
    (change : Change) : Option Row :=
  (i.definition? id).map fun d => o.row d (currentValue? values id) (some change)

namespace Options

variable {o : Options} {values : List CurrentValue} {i : Instance} {c d : Changes} {id : UInt64}

theorem rows_eq_filterMap :
    o.rows values i c = c.entries.filterMap fun entry => o.changeRow? values i entry.1 entry.2 :=
  rfl

theorem rows_of_around {change : Option Change} (h : d.entries = c.around id change) :
    o.rows values i d = o.rows values i (c.below id) ++
      ((change.bind (o.changeRow? values i id)).toList ++ o.rows values i (c.above id)) := by
  rw [rows_eq_filterMap, h, Ascending.around, List.filterMap_append, List.filterMap_append]
  cases change with
  | none => rfl
  | some change =>
    cases hrow : o.changeRow? values i id change with
    | none => simp [rows_eq_filterMap, hrow]
    | some row => simp [rows_eq_filterMap, hrow]

theorem diff_insert (o : Options) (i : Instance) (c : Changes) (id : UInt64) (change : Change) :
    o.diff i (c.insert id change) = o.diff i (c.below id) ++
      ((o.changeRow? i.values i id change).toList ++ o.diff i (c.above id)) :=
  rows_of_around (c.entries_insert id change)

theorem diff_split (o : Options) (i : Instance) (c : Changes) (id : UInt64) :
    o.diff i c = o.diff i (c.below id) ++
      (((c.get? id).bind (o.changeRow? i.values i id)).toList ++ o.diff i (c.above id)) :=
  rows_of_around (c.entries_split id)

/-- **One change, one row.** Setting the change of an id gives back the change that it had, and
leaves those of all other ids as they are, with the ids in ascending order and one more of them if
the id had none. The rows below and above the id stay as they were, and between them stands the row
of the change, if the id has a definition; if it has none, all rows stay. -/
theorem exchange_touches_one_row (o : Options) (i : Instance) (c : Changes) (id : UInt64)
    (change : Change) :
    c.exchange id change = (c.get? id, c.insert id change) ∧
    (∀ other, (c.insert id change).get? other =
      if other = id then some change else c.get? other) ∧
    (c.insert id change).keys.Pairwise (· < ·) ∧
    (c.insert id change).size = c.size + (if c.get? id = none then 1 else 0) ∧
    o.diff i (c.insert id change) = o.diff i (c.below id) ++
      ((o.changeRow? i.values i id change).toList ++ o.diff i (c.above id)) ∧
    o.diff i c = o.diff i (c.below id) ++
      (((c.get? id).bind (o.changeRow? i.values i id)).toList ++ o.diff i (c.above id)) ∧
    (i.definition? id = none → o.diff i (c.insert id change) = o.diff i c) := by
  refine ⟨c.exchange_eq id change, ?_, (c.insert id change).keys_ascending,
    c.size_insert id change, o.diff_insert i c id change, o.diff_split i c id, ?_⟩
  · intro other
    rw [Ascending.get?_insert]
    simp only [eq_comm]
  · intro hundefined
    have hnone : o.changeRow? i.values i id = fun _ => none := by
      funext change
      rw [changeRow?, hundefined, Option.map_none]
    rw [o.diff_insert i c id change, o.diff_split i c id, hnone]
    simp

end Options

end AttributeReview
