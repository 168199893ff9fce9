import AttributeReview.Proofs.Review.Edits

/-!
# Proposals that have been applied

An instance that has taken over the changes of a proposal has nothing left to review: its rows show
on both sides what the proposal gives.
-/

namespace AttributeReview

/-- The values that some changes give to the attributes they change. -/
def Changes.given (c : Changes) : List CurrentValue :=
  c.entries.map fun entry => ⟨entry.1, entry.2.value⟩

/-- The instance with some values put before its own. -/
def Instance.prepend (i : Instance) (values : List CurrentValue) : Instance :=
  { i with values := values ++ i.values }

/-- The row with its proposed value taken over. -/
def Row.accepted (r : Row) : Row := { r with current := r.proposed }

theorem Row.not_changed_accepted (r : Row) : r.accepted.isChanged = false := by
  simp [accepted, isChanged]

/-! ## Values given by changes -/

variable {c : Changes} {front values : List CurrentValue} {id : UInt64} {change : Change}

theorem Changes.nodup_given (c : Changes) : (c.given.map (·.id)).Nodup := by
  have hkeys : c.given.map (·.id) = c.keys := by
    simp [given, Ascending.keys]
  rw [hkeys]
  exact c.keys_ascending.imp UInt64.ne_of_lt

theorem currentValue?_given (h : front.Perm c.given) (hmem : (id, change) ∈ c.entries) :
    currentValue? (front ++ values) id = some ⟨id, change.value⟩ := by
  have hnodup : (front.map (·.id)).Nodup := (h.map _).nodup_iff.mpr c.nodup_given
  have hgiven : (⟨id, change.value⟩ : CurrentValue) ∈ front :=
    h.mem_iff.mpr (List.mem_map.mpr ⟨(id, change), hmem, rfl⟩)
  have hfirst := (Ascending.find?_key_eq_some_iff hnodup).mpr ⟨hgiven, rfl⟩
  unfold currentValue?
  rw [List.find?_append, hfirst, Option.some_or]

/-! ## Rows of an instance that has taken over changes -/

variable {o : Options} {i : Instance}

theorem Options.changeRow?_given (h : front.Perm c.given) (hmem : (id, change) ∈ c.entries) :
    o.changeRow? (front ++ values) (i.prepend front) id change =
      (o.changeRow? values i id change).map Row.accepted := by
  unfold changeRow?
  rw [currentValue?_given h hmem, Option.map_map]
  rfl

theorem Options.diff_prepend (h : front.Perm c.given) :
    o.diff (i.prepend front) c = (o.diff i c).map Row.accepted := by
  rw [diff, diff, rows_eq_filterMap, rows_eq_filterMap, List.map_filterMap]
  apply List.filterMap_congr
  rintro ⟨id, change⟩ hmem
  exact changeRow?_given h hmem

/-- **Nothing is left to review.** Where the values that a proposal gives are put before the values
of an instance, in any order, the rows have the titles, the order and the proposed values that they
had before, and none of them is changed. -/
theorem Options.nothing_left_once_applied (o : Options) (i : Instance) {c : Changes}
    {front : List CurrentValue} (h : front.Perm c.given) :
    (o.diff (i.prepend front) c).map (·.title) = (o.diff i c).map (·.title) ∧
    (o.diff (i.prepend front) c).map (·.proposed) = (o.diff i c).map (·.proposed) ∧
    ∀ r ∈ o.diff (i.prepend front) c, r.isChanged = false := by
  rw [diff_prepend h]
  refine ⟨?_, ?_, ?_⟩
  · rw [List.map_map]
    rfl
  · rw [List.map_map]
    rfl
  · intro r hmem
    obtain ⟨before, -, rfl⟩ := List.mem_map.mp hmem
    exact before.not_changed_accepted

def Instance.unsigned : Instance :=
  ⟨"Contract", 5, [⟨1, "Due", .date⟩, ⟨2, "Signed", .checkbox⟩, ⟨3, "Owner", .other "Text"⟩],
    [⟨1, some (.text "2024-03-04")⟩, ⟨3, some (.text "Ann")⟩]⟩

/-- A date that is none, a box that is checked and a value that is taken away. -/
def Changes.signing : Changes :=
  .ofList [(3, .cleared), (1, ⟨some (.text "soon")⟩), (2, ⟨some (.boolean true)⟩)]

theorem Options.nothing_left_once_signed :
    (standard.diff .unsigned .signing).map (·.isChanged) = [true, true, true] ∧
      ∀ r ∈ standard.diff (Instance.unsigned.prepend Changes.signing.given.reverse) .signing,
        r.isChanged = false := by
  obtain ⟨-, -, hnone⟩ := nothing_left_once_applied standard .unsigned
    Changes.signing.given.reverse_perm
  exact ⟨by decide +kernel, hnone⟩

end AttributeReview
