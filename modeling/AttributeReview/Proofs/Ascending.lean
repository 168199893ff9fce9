import AttributeReview.Ascending
import Mathlib.Data.List.Nodup

/-!
# What an ascending map holds

A map is its entries, and its entries are its look-ups: two maps that answer every look-up alike
are equal. A map made of a list answers with the last entry of each key.
-/

namespace AttributeReview.Ascending

variable {κ β γ : Type} [DecidableEq κ]

/-! ## Looking up in a list -/

theorem find_nil (key : κ) : find key ([] : List (κ × β)) = none := rfl

theorem find_cons (key : κ) (entry : κ × β) (entries : List (κ × β)) :
    find key (entry :: entries) = if entry.1 = key then some entry.2 else find key entries := by
  unfold find
  by_cases h : entry.1 = key <;> simp [h]

theorem find_append (key : κ) (xs ys : List (κ × β)) :
    find key (xs ++ ys) = (find key xs).or (find key ys) := by
  induction xs with
  | nil => rfl
  | cons head rest ih =>
    rw [List.cons_append, find_cons, find_cons, ih]
    split <;> rfl

theorem find_eq_none_iff {key : κ} {entries : List (κ × β)} :
    find key entries = none ↔ key ∉ entries.map (·.1) := by
  rw [find, Option.map_eq_none_iff, List.find?_eq_none, List.mem_map]
  constructor
  · rintro h ⟨entry, hmem, hkey⟩
    exact h entry hmem (by simpa using hkey)
  · intro h entry hmem hkey
    exact h ⟨entry, hmem, by simpa using hkey⟩

theorem mem_of_find {key : κ} {value : β} {entries : List (κ × β)}
    (h : find key entries = some value) : (key, value) ∈ entries := by
  obtain ⟨entry, hfind, rfl⟩ := Option.map_eq_some_iff.mp h
  have hkey : entry.1 = key := by simpa using List.find?_some hfind
  rw [← hkey]
  exact List.mem_of_find?_eq_some hfind

theorem find_filter {key : κ} {p : κ × β → Bool} (hp : ∀ value, p (key, value) = true)
    (entries : List (κ × β)) : find key (entries.filter p) = find key entries := by
  induction entries with
  | nil => rfl
  | cons head rest ih =>
    by_cases hkey : head.1 = key
    · subst hkey
      rw [List.filter_cons_of_pos (hp head.2), find_cons, find_cons, if_pos rfl, if_pos rfl]
    · rw [find_cons, if_neg hkey, ← ih]
      by_cases hhead : p head = true
      · rw [List.filter_cons_of_pos hhead, find_cons, if_neg hkey]
      · rw [List.filter_cons_of_neg hhead]

/-! ## Entries in any order -/

theorem find?_key_eq_some_iff {α : Type} {key : α → κ} {items : List α}
    (hnodup : (items.map key).Nodup) {k : κ} {a : α} :
    items.find? (fun b => key b = k) = some a ↔ a ∈ items ∧ key a = k := by
  constructor
  · intro h
    have hkey : key a = k := by simpa using List.find?_some h
    exact ⟨List.mem_of_find?_eq_some h, hkey⟩
  · rintro ⟨hmem, hkey⟩
    cases hfind : items.find? (fun b => key b = k) with
    | none =>
      have hnot := List.find?_eq_none.mp hfind a hmem
      exact absurd hkey (by simpa using hnot)
    | some b =>
      have hb : key b = k := by simpa using List.find?_some hfind
      have hmemb := List.mem_of_find?_eq_some hfind
      rw [List.inj_on_of_nodup_map hnodup hmemb hmem (hb.trans hkey.symm)]

theorem find?_key_perm {α : Type} {key : α → κ} {xs ys : List α}
    (h : xs.Perm ys) (hnodup : (xs.map key).Nodup) (k : κ) :
    xs.find? (fun a => key a = k) = ys.find? (fun a => key a = k) := by
  have hnodup' : (ys.map key).Nodup := (h.map key).nodup_iff.mp hnodup
  apply Option.ext
  intro a
  rw [find?_key_eq_some_iff hnodup, find?_key_eq_some_iff hnodup', h.mem_iff]

theorem find_perm {xs ys : List (κ × β)} (h : xs.Perm ys) (hnodup : (xs.map (·.1)).Nodup)
    (key : κ) : find key xs = find key ys := by
  unfold find
  rw [find?_key_perm h hnodup]

/-! ## Looking up in a map -/

variable [LT κ]

theorem get?_empty (key : κ) : (empty : Ascending κ β).get? key = none := rfl

theorem mem_keys_iff {m : Ascending κ β} {key : κ} : key ∈ m.keys ↔ m.get? key ≠ none := by
  rw [ne_eq, get?, find_eq_none_iff, Decidable.not_not]
  rfl

theorem get?_mapValues (f : β → γ) (m : Ascending κ β) (key : κ) :
    (m.mapValues f).get? key = (m.get? key).map f := by
  simp [get?, find, mapValues, List.find?_map, Function.comp_def]

omit [DecidableEq κ] in
theorem keys_ascending (m : Ascending κ β) : m.keys.Pairwise (· < ·) :=
  List.pairwise_map.mpr m.ascending

variable [LE κ] [Std.IsLinearOrder κ] [Std.LawfulOrderLT κ]

omit [DecidableEq κ] in
theorem eq_of_mem_iff {α : Type} {key : α → κ} {xs ys : List α}
    (hxs : xs.Pairwise (fun a b => key a < key b)) (hys : ys.Pairwise (fun a b => key a < key b))
    (h : ∀ a, a ∈ xs ↔ a ∈ ys) : xs = ys := by
  have hne : ∀ {a b : α}, key a < key b → a ≠ b := fun hlt heq => Std.lt_irrefl (heq ▸ hlt)
  have hperm := (List.perm_ext_iff_of_nodup (hxs.imp hne) (hys.imp hne)).mpr h
  refine hperm.eq_of_pairwise (fun a b _ _ hab hba => ?_) hxs hys
  exact absurd (Std.lt_trans hab hba) Std.lt_irrefl

omit [Std.IsLinearOrder κ] in
theorem find_of_mem {key : κ} {value : β} {entries : List (κ × β)}
    (hasc : entries.Pairwise (fun a b => a.1 < b.1)) (h : (key, value) ∈ entries) :
    find key entries = some value := by
  induction entries with
  | nil => simp at h
  | cons head rest ih =>
    obtain ⟨hhead, hrest⟩ := List.pairwise_cons.mp hasc
    rw [find_cons]
    rcases List.mem_cons.mp h with rfl | hmem
    · simp
    · have hlt := hhead _ hmem
      rw [if_neg (fun heq => Std.lt_irrefl (heq ▸ hlt))]
      exact ih hrest hmem

omit [Std.IsLinearOrder κ] in
theorem mem_entries_iff {m : Ascending κ β} {key : κ} {value : β} :
    (key, value) ∈ m.entries ↔ m.get? key = some value :=
  ⟨find_of_mem m.ascending, mem_of_find⟩

theorem ext_get? {m n : Ascending κ β} (h : ∀ key, m.get? key = n.get? key) : m = n := by
  apply Ascending.ext
  apply eq_of_mem_iff m.ascending n.ascending
  rintro ⟨key, value⟩
  rw [mem_entries_iff, mem_entries_iff, h]

variable [DecidableLT κ]

theorem get?_ofList (entries : List (κ × β)) (key : κ) :
    (ofList entries).get? key = find key entries.reverse := by
  suffices h : ∀ m : Ascending κ β,
      (entries.foldl (fun m entry => m.insert entry.1 entry.2) m).get? key =
        (find key entries.reverse).or (m.get? key) by
    simpa [ofList, get?_empty] using h empty
  induction entries with
  | nil => intro m; rfl
  | cons head rest ih =>
    intro m
    rw [List.foldl_cons, ih, get?_insert, List.reverse_cons, find_append, find_cons, find_nil,
      Option.or_assoc]
    split <;> rfl

theorem ofList_perm {xs ys : List (κ × β)} (h : xs.Perm ys) (hnodup : (xs.map (·.1)).Nodup) :
    ofList xs = ofList ys := by
  have hreverse : (xs.reverse.map (·.1)).Nodup := by
    rw [List.map_reverse]
    exact List.nodup_reverse.mpr hnodup
  apply ext_get?
  intro key
  rw [get?_ofList, get?_ofList]
  apply find_perm _ hreverse
  exact (xs.reverse_perm.trans h).trans ys.reverse_perm.symm

theorem entries_ofList_perm {entries : List (κ × β)} (hnodup : (entries.map (·.1)).Nodup) :
    (ofList entries).entries.Perm entries := by
  have hne : ∀ {a b : κ × β}, a.1 < b.1 → a ≠ b := fun hlt heq => Std.lt_irrefl (heq ▸ hlt)
  have hmap : (ofList entries).entries.Nodup := (ofList entries).ascending.imp hne
  rw [List.perm_ext_iff_of_nodup hmap (List.Nodup.of_map _ hnodup)]
  rintro ⟨key, value⟩
  rw [mem_entries_iff, get?_ofList, ← find_perm entries.reverse_perm.symm hnodup]
  refine ⟨mem_of_find, fun hmem => ?_⟩
  rw [find, (find?_key_eq_some_iff hnodup).mpr ⟨hmem, rfl⟩, Option.map_some]

end AttributeReview.Ascending
