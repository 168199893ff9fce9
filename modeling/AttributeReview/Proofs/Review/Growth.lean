import AttributeReview.Proofs.Review.Edits

/-!
# Instances that grow

A definition or a value that is added to an instance comes last, so it counts only where its id had
none before. There it counts for the one row of this id.
-/

namespace AttributeReview

/-! ## The first item of an id, and one that comes last -/

section Last

variable {α : Type} (key : α → UInt64) {items : List α} {a : α} {id : UInt64}

theorem find?_snoc_of_ne (h : key a ≠ id) :
    (items ++ [a]).find? (fun c => key c = id) = items.find? (fun c => key c = id) := by
  simp [h]

theorem find?_snoc_of_mem {b : α} (hmem : b ∈ items) (hkey : key b = key a) (id : UInt64) :
    (items ++ [a]).find? (fun c => key c = id) = items.find? (fun c => key c = id) := by
  -- An item whose id another one has before it is never the first of its id.
  by_cases heq : key a = id
  · have hfound : (items.find? fun c => key c = id).isSome := by
      rw [List.find?_isSome]
      exact ⟨b, hmem, by simpa using hkey.trans heq⟩
    obtain ⟨first, hfirst⟩ := Option.isSome_iff_exists.mp hfound
    rw [List.find?_append, hfirst, Option.some_or]
  · exact find?_snoc_of_ne key heq

theorem find?_snoc_of_fresh (h : ∀ b ∈ items, key b ≠ key a) :
    (items ++ [a]).find? (fun c => key c = key a) = some a := by
  have hnone : items.find? (fun c => key c = key a) = none := by
    rw [List.find?_eq_none]
    simpa using h
  simp [hnone]

end Last

/-! ## Rows of two instances -/

/-- The row with another text for the current value. -/
def Row.withCurrent (r : Row) (text : String) : Row := { r with current := [text] }

namespace Options

variable {o : Options} {i j : Instance} {c : Changes}

theorem changeRow?_congr {id : UInt64} (hdefinition : j.definition? id = i.definition? id)
    (hvalue : currentValue? j.values id = currentValue? i.values id) :
    o.changeRow? j.values j id = o.changeRow? i.values i id := by
  funext change
  rw [changeRow?, changeRow?, hdefinition, hvalue]

theorem diff_congr
    (h : ∀ entry ∈ c.entries, o.changeRow? j.values j entry.1 = o.changeRow? i.values i entry.1) :
    o.diff j c = o.diff i c := by
  rw [diff, diff, rows_eq_filterMap, rows_eq_filterMap]
  apply List.filterMap_congr
  intro entry hmem
  rw [h entry hmem]

theorem diff_eq_around {id : UInt64}
    (h : ∀ other ≠ id, o.changeRow? j.values j other = o.changeRow? i.values i other) :
    o.diff j c = o.diff i (c.below id) ++
      (((c.get? id).bind (o.changeRow? j.values j id)).toList ++ o.diff i (c.above id)) := by
  have hbelow : o.diff j (c.below id) = o.diff i (c.below id) := by
    apply diff_congr
    intro entry hmem
    exact h entry.1 (UInt64.ne_of_lt (Ascending.mem_below_iff.mp hmem).2)
  have habove : o.diff j (c.above id) = o.diff i (c.above id) := by
    apply diff_congr
    intro entry hmem
    exact h entry.1 (UInt64.ne_of_lt (Ascending.mem_above_iff.mp hmem).2).symm
  rw [o.diff_split j c id, hbelow, habove]

/-! ## One more definition -/

variable {d : Definition} {v : CurrentValue}

theorem diff_addDefinition_of_mem {e : Definition} (hmem : e ∈ i.definitions) (hid : e.id = d.id) :
    o.diff (i.addDefinition d) c = o.diff i c := by
  apply diff_congr
  intro entry _
  exact changeRow?_congr (find?_snoc_of_mem Definition.id hmem hid entry.1) rfl

theorem diff_of_undefined {id : UInt64} (h : ∀ e ∈ i.definitions, e.id ≠ id) :
    o.diff i c = o.diff i (c.below id) ++ o.diff i (c.above id) := by
  have hnone : o.changeRow? i.values i id = fun _ => none := by
    funext change
    rw [changeRow?, Instance.definition?_eq_none_iff.mpr h, Option.map_none]
  rw [o.diff_split i c id, hnone, Option.bind_fun_none]
  rfl

theorem diff_addDefinition_of_fresh (h : ∀ e ∈ i.definitions, e.id ≠ d.id) :
    o.diff (i.addDefinition d) c = o.diff i (c.below d.id) ++
      (((c.get? d.id).map fun change =>
          o.row d (currentValue? i.values d.id) (some change)).toList ++
        o.diff i (c.above d.id)) := by
  have hfirst : (i.addDefinition d).definition? d.id = some d :=
    find?_snoc_of_fresh Definition.id h
  have hrow : o.changeRow? (i.addDefinition d).values (i.addDefinition d) d.id =
      fun change => some (o.row d (currentValue? i.values d.id) (some change)) := by
    funext change
    rw [changeRow?, hfirst]
    rfl
  have hother : ∀ other ≠ d.id, o.changeRow? (i.addDefinition d).values (i.addDefinition d) other =
      o.changeRow? i.values i other :=
    fun other hne => changeRow?_congr (find?_snoc_of_ne Definition.id hne.symm) rfl
  rw [diff_eq_around hother, hrow, Option.map_eq_bind]
  rfl

/-! ## One more value -/

theorem diff_addValue_of_mem {w : CurrentValue} (hmem : w ∈ i.values) (hid : w.id = v.id) :
    o.diff (i.addValue v) c = o.diff i c := by
  apply diff_congr
  intro entry _
  exact changeRow?_congr rfl (find?_snoc_of_mem CurrentValue.id hmem hid entry.1)

theorem changeRow?_of_first (hdefinition : j.definition? v.id = i.definition? v.id)
    (hvalue : currentValue? j.values v.id = some v) :
    ∃ text, (∀ d, i.definition? v.id = some d → text = o.display d.kind v.value) ∧
      ∀ change, o.changeRow? j.values j v.id change =
        (o.changeRow? i.values i v.id change).map (·.withCurrent text) := by
  simp only [changeRow?, hdefinition, hvalue]
  cases i.definition? v.id with
  | none => exact ⟨"", by simp, fun _ => rfl⟩
  | some d => exact ⟨o.display d.kind v.value, by simp, fun _ => rfl⟩

theorem diff_addValue_of_fresh (h : ∀ w ∈ i.values, w.id ≠ v.id) :
    ∃ text, (∀ d, i.definition? v.id = some d → text = o.display d.kind v.value) ∧
      o.diff (i.addValue v) c = o.diff i (c.below v.id) ++
        ((((c.get? v.id).bind (o.changeRow? i.values i v.id)).map (·.withCurrent text)).toList ++
          o.diff i (c.above v.id)) := by
  obtain ⟨text, htext, hrow⟩ := changeRow?_of_first (o := o) (i := i) (j := i.addValue v) rfl
    (find?_snoc_of_fresh CurrentValue.id h)
  have hother : ∀ other ≠ v.id, o.changeRow? (i.addValue v).values (i.addValue v) other =
      o.changeRow? i.values i other :=
    fun other hne => changeRow?_congr rfl (find?_snoc_of_ne CurrentValue.id hne.symm)
  refine ⟨text, htext, ?_⟩
  rw [diff_eq_around hother, Option.map_bind, funext hrow]
  rfl

/-- **Growth touches one row.** A definition added to an instance changes nothing if its id has one.
If its id is new, all rows stay, and one row stands between those of the lesser and those of the
greater ids, if the id has a change. A value added to it changes nothing if its id has one. If its
id is new, it sets at most the current side of the one row that the id has. -/
theorem growth_touches_one_row (o : Options) (i : Instance) (c : Changes) :
    (∀ d : Definition, (∃ e ∈ i.definitions, e.id = d.id) →
      o.diff (i.addDefinition d) c = o.diff i c) ∧
    (∀ d : Definition, (∀ e ∈ i.definitions, e.id ≠ d.id) →
      o.diff i c = o.diff i (c.below d.id) ++ o.diff i (c.above d.id) ∧
      o.diff (i.addDefinition d) c = o.diff i (c.below d.id) ++
        (((c.get? d.id).map fun change =>
            o.row d (currentValue? i.values d.id) (some change)).toList ++
          o.diff i (c.above d.id))) ∧
    (∀ v : CurrentValue, (∃ w ∈ i.values, w.id = v.id) → o.diff (i.addValue v) c = o.diff i c) ∧
    ∀ v : CurrentValue, (∀ w ∈ i.values, w.id ≠ v.id) →
      ∃ (row : Option Row) (text : String), row = (c.get? v.id).bind (o.changeRow? i.values i v.id) ∧
        (∀ d, i.definition? v.id = some d → text = o.display d.kind v.value) ∧
        o.diff i c = o.diff i (c.below v.id) ++ (row.toList ++ o.diff i (c.above v.id)) ∧
        o.diff (i.addValue v) c = o.diff i (c.below v.id) ++
          ((row.map (·.withCurrent text)).toList ++ o.diff i (c.above v.id)) := by
  refine ⟨?_, fun d hfresh => ⟨diff_of_undefined hfresh, diff_addDefinition_of_fresh hfresh⟩, ?_, ?_⟩
  · rintro d ⟨e, hmem, hid⟩
    exact diff_addDefinition_of_mem hmem hid
  · rintro v ⟨w, hmem, hid⟩
    exact diff_addValue_of_mem hmem hid
  · intro v hfresh
    obtain ⟨text, htext, hrows⟩ := diff_addValue_of_fresh (o := o) (c := c) hfresh
    exact ⟨_, text, rfl, htext, o.diff_split i c v.id, hrows⟩

end Options

def Instance.halfFilled : Instance :=
  ⟨"Contract", 5, [⟨1, "Due", .date⟩, ⟨3, "Owner", .other "Text"⟩], [⟨3, some (.text "Ann")⟩]⟩

def Changes.filling : Changes :=
  .ofList [(3, .cleared), (2, ⟨some (.boolean true)⟩), (1, ⟨some (.text "2024-03-05")⟩)]

/-- A second definition and a second value of one id, a definition whose row goes between two
others, and a first value. -/
theorem Options.growth_of_half_filled :
    standard.diff (Instance.halfFilled.addDefinition ⟨3, "Holder", .date⟩) .filling =
        standard.diff .halfFilled .filling ∧
      standard.diff (Instance.halfFilled.addDefinition ⟨2, "Signed", .checkbox⟩) .filling =
        standard.diff .halfFilled (Changes.filling.below 2) ++
          (⟨"Signed", ["—"], ["✓"]⟩ :: standard.diff .halfFilled (Changes.filling.above 2)) ∧
      standard.diff (Instance.halfFilled.addValue ⟨3, none⟩) .filling =
        standard.diff .halfFilled .filling ∧
      standard.diff (Instance.halfFilled.addValue ⟨1, some (.text "2024-03-04")⟩) .filling =
        ⟨"Due", ["03/04/2024"], ["03/05/2024"]⟩ ::
          standard.diff .halfFilled (Changes.filling.above 1) := by
  obtain ⟨hagain, hfresh, hvalueAgain, hvalueFresh⟩ :=
    growth_touches_one_row standard .halfFilled .filling
  obtain ⟨row, text, hrow, htext, -, hrows⟩ :=
    hvalueFresh ⟨1, some (.text "2024-03-04")⟩ (by decide)
  refine ⟨hagain _ (by decide), ?_, hvalueAgain _ (by decide), ?_⟩
  · rw [(hfresh ⟨2, "Signed", .checkbox⟩ (by decide)).2]
    decide +kernel
  · rw [hrows, hrow, htext ⟨1, "Due", .date⟩ (by decide)]
    decide +kernel

end AttributeReview
