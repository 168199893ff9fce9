import AttributeReview.Proofs.Ascending

/-!
# The entries around a key

A key splits a map into the entries below it, its own entry if it has one, and the entries above
it. A map that differs from another under one key differs from it in this one entry.
-/

namespace AttributeReview.Ascending

variable {κ β : Type} [LT κ] [DecidableLT κ]

def below (m : Ascending κ β) (key : κ) : Ascending κ β :=
  ⟨m.entries.filter (·.1 < key), m.ascending.filter _⟩

def above (m : Ascending κ β) (key : κ) : Ascending κ β :=
  ⟨m.entries.filter (key < ·.1), m.ascending.filter _⟩

/-- The entries of a map around a key, with the given value under the key, if there is one. -/
def around (m : Ascending κ β) (key : κ) (value : Option β) : List (κ × β) :=
  (m.below key).entries ++ (value.toList.map (key, ·) ++ (m.above key).entries)

variable {m n : Ascending κ β} {key : κ} {value : Option β} {entry : κ × β}

theorem mem_below_iff : entry ∈ (m.below key).entries ↔ entry ∈ m.entries ∧ entry.1 < key := by
  simp [below]

theorem mem_above_iff : entry ∈ (m.above key).entries ↔ entry ∈ m.entries ∧ key < entry.1 := by
  simp [above]

omit [LT κ] [DecidableLT κ] in
theorem mem_entry_iff :
    entry ∈ value.toList.map (key, ·) ↔ entry.1 = key ∧ value = some entry.2 := by
  obtain ⟨k, v⟩ := entry
  cases value with
  | none => simp
  | some w => simp [eq_comm]

/-! ## What is around a key is a map -/

variable [LE κ] [Std.IsLinearOrder κ] [Std.LawfulOrderLT κ]

theorem ascending_around (m : Ascending κ β) (key : κ) (value : Option β) :
    (m.around key value).Pairwise (fun a b => a.1 < b.1) := by
  have hentry : (value.toList.map (key, ·)).Pairwise (fun a b => a.1 < b.1) := by
    cases value with
    | none => exact List.Pairwise.nil
    | some v => exact List.pairwise_singleton _ _
  rw [around, List.pairwise_append, List.pairwise_append]
  refine ⟨(m.below key).ascending, ⟨hentry, (m.above key).ascending, ?_⟩, ?_⟩
  · intro a ha b hb
    rw [(mem_entry_iff.mp ha).1]
    exact (mem_above_iff.mp hb).2
  · intro a ha b hb
    have hlt := (mem_below_iff.mp ha).2
    rcases List.mem_append.mp hb with hb | hb
    · rw [(mem_entry_iff.mp hb).1]
      exact hlt
    · exact Std.lt_trans hlt (mem_above_iff.mp hb).2

variable [DecidableEq κ]

theorem mem_around_iff : entry ∈ m.around key value ↔
    if entry.1 = key then value = some entry.2 else entry ∈ m.entries := by
  simp only [around, List.mem_append, mem_below_iff, mem_above_iff, mem_entry_iff]
  split
  next heq =>
    subst heq
    simp [Std.lt_irrefl]
  next hne =>
    have hside : entry.1 < key ∨ key < entry.1 := by
      by_contra hnot
      exact hne (eq_of_not_lt (not_or.mp hnot).1 (not_or.mp hnot).2)
    tauto

theorem entries_eq_around
    (h : ∀ other, n.get? other = if other = key then value else m.get? other) :
    n.entries = m.around key value := by
  apply eq_of_mem_iff n.ascending (ascending_around m key value)
  rintro ⟨k, v⟩
  rw [mem_entries_iff, mem_around_iff, h]
  split
  · rfl
  · exact mem_entries_iff.symm

theorem entries_split (m : Ascending κ β) (key : κ) :
    m.entries = m.around key (m.get? key) := by
  apply entries_eq_around
  intro other
  split
  next heq => rw [heq]
  next => rfl

/-! ## Insertions -/

theorem entries_insert (m : Ascending κ β) (key : κ) (v : β) :
    (m.insert key v).entries = m.around key (some v) := by
  apply entries_eq_around
  intro other
  rw [get?_insert]
  simp only [eq_comm]

theorem size_insert (m : Ascending κ β) (key : κ) (v : β) :
    (m.insert key v).size = m.size + (if m.get? key = none then 1 else 0) := by
  unfold size
  rw [entries_insert, entries_split m key]
  cases m.get? key with
  | none =>
    simp [around]
    omega
  | some w => simp [around]

theorem displaced_eq_find {entries : List (κ × β)}
    (h : entries.Pairwise (fun a b => a.1 < b.1)) : displaced key entries = find key entries := by
  induction entries with
  | nil => rfl
  | cons head rest ih =>
    obtain ⟨hhead, hrest⟩ := List.pairwise_cons.mp h
    unfold displaced
    rw [find_cons]
    split
    next hlt =>
      -- The walk stops at the first greater key, and all that follow are greater still.
      have hnone : find key rest = none := by
        rw [find_eq_none_iff, List.mem_map]
        rintro ⟨entry, hmem, rfl⟩
        exact Std.lt_irrefl (Std.lt_trans hlt (hhead entry hmem))
      rw [if_neg (fun heq => Std.lt_irrefl (heq ▸ hlt)), hnone]
    next hlt =>
      split
      next hgt =>
        rw [if_neg (fun heq => Std.lt_irrefl (heq ▸ hgt))]
        exact ih hrest
      next hgt => rw [if_pos (eq_of_not_lt hgt hlt)]

theorem exchange_eq (m : Ascending κ β) (key : κ) (v : β) :
    m.exchange key v = (m.get? key, m.insert key v) := by
  rw [exchange, displaced_eq_find m.ascending, get?]

end AttributeReview.Ascending
