import AttributeReview.Proofs.Ascending
import AttributeReview.Proofs.Attribute.Spelling
import AttributeReview.Proofs.Text.Utf8
import AttributeReview.Proposal
import Mathlib.Data.List.Induction

/-!
# Which key of a proposal counts

Several keys of a proposal may spell one id. `Wins` says which of them counts, and the reader keeps
the last entry of that key, whatever the order of the entries.
-/

namespace AttributeReview.Changes

open Attribute (idOfKey? keyOfId idOfKey?_keyOfId)

/-! ## The winning key -/

/-- Of some keys, the one that counts for an id: the canonical spelling if it is among them, and
else the spelling with the least bytes. -/
structure Wins (keys : List String) (id : UInt64) (key : String) : Prop where
  mem : key ∈ keys
  spells : idOfKey? key = some id
  rank : key = keyOfId id ∨ keyOfId id ∉ keys ∧
    ∀ other ∈ keys, idOfKey? other = some id → Utf8.encode key ≤ Utf8.encode other

variable {keys : List String} {id : UInt64} {key : String}

theorem Wins.unique {other : String} (h : Wins keys id key) (h' : Wins keys id other) :
    key = other := by
  rcases h.rank with hc | ⟨hno, hle⟩ <;> rcases h'.rank with hc' | ⟨hno', hle'⟩
  · rw [hc, hc']
  · exact absurd (hc ▸ h.mem) hno'
  · exact absurd (hc' ▸ h'.mem) hno
  · have hko := hle other h'.mem h'.spells
    have hok := hle' key h.mem h.spells
    rw [Utf8.encode_le_encode_iff] at hko hok
    exact Std.le_antisymm hko hok

theorem Wins.of_mem_iff {keys' : List String}
    (h : ∀ k, idOfKey? k = some id → (k ∈ keys ↔ k ∈ keys')) (hwins : Wins keys id key) :
    Wins keys' id key := by
  obtain ⟨hmem, hspells, hrank⟩ := hwins
  refine ⟨(h key hspells).mp hmem, hspells, hrank.imp_right ?_⟩
  rintro ⟨hno, hle⟩
  refine ⟨fun hcanonical => hno ((h _ (idOfKey?_keyOfId id)).mpr hcanonical), ?_⟩
  intro other hother ho
  exact hle other ((h other ho).mpr hother) ho

theorem Wins.congr {keys' : List String}
    (h : ∀ k, idOfKey? k = some id → (k ∈ keys ↔ k ∈ keys')) :
    Wins keys id key ↔ Wins keys' id key :=
  ⟨Wins.of_mem_iff h, Wins.of_mem_iff fun k hk => (h k hk).symm⟩

theorem Wins.snoc {next : String} (h : Wins keys id key)
    (hnext : idOfKey? next = some id → key ≤ next ∧ (next = keyOfId id → key = keyOfId id)) :
    Wins (keys ++ [next]) id key := by
  refine ⟨List.mem_append_left _ h.mem, h.spells, ?_⟩
  by_cases hc : key = keyOfId id
  · exact Or.inl hc
  · obtain ⟨hno, hle⟩ := h.rank.resolve_left hc
    refine Or.inr ⟨?_, ?_⟩
    · rw [List.mem_append, List.mem_singleton, not_or]
      refine ⟨hno, fun heq => hc ?_⟩
      exact (hnext (heq ▸ idOfKey?_keyOfId id)).2 heq.symm
    · intro other hmem hspells
      rcases List.mem_append.mp hmem with hmem | hmem
      · exact hle other hmem hspells
      · rw [List.mem_singleton] at hmem
        subst hmem
        exact Utf8.encode_le_encode_iff.mpr (hnext hspells).1

theorem Wins.first (hnone : ∀ other ∈ keys, idOfKey? other ≠ some id)
    (hspells : idOfKey? key = some id) : Wins (keys ++ [key]) id key := by
  refine ⟨by simp, hspells, ?_⟩
  by_cases hc : key = keyOfId id
  · exact Or.inl hc
  · refine Or.inr ⟨?_, ?_⟩
    · rw [List.mem_append, List.mem_singleton, not_or]
      exact ⟨fun hmem => hnone _ hmem (idOfKey?_keyOfId id), fun heq => hc heq.symm⟩
    · intro other hmem ho
      rcases List.mem_append.mp hmem with hmem | hmem
      · exact absurd ho (hnone other hmem)
      · rw [List.mem_singleton.mp hmem]
        exact Utf8.encode_le_encode_iff.mpr (Std.le_refl key)

theorem Wins.canonical (hmem : keyOfId id ∈ keys) : Wins keys id (keyOfId id) :=
  ⟨hmem, idOfKey?_keyOfId id, Or.inl rfl⟩

/-! ## Gathering entries -/

def keysOf (entries : Entries) : List String := entries.map (·.1)

theorem keysOf_append (xs ys : Entries) : keysOf (xs ++ ys) = keysOf xs ++ keysOf ys :=
  List.map_append

/-- What has been kept is, for every id, the entry of the key that wins so far. -/
structure Gathered.Fits (g : Gathered) (entries : Entries) : Prop where
  missing : ∀ id, g.kept.get? id = none ↔ ∀ entry ∈ entries, idOfKey? entry.1 ≠ some id
  kept : ∀ id change canonical, g.kept.get? id = some (change, canonical) →
    ∃ entry ∈ entries, Wins (keysOf entries) id entry.1 ∧ change = entry.2.getD .cleared ∧
      (canonical = true ↔ entry.1 = keyOfId id)

theorem Gathered.fits_nil : Gathered.Fits ⟨Ascending.empty, []⟩ [] := by
  refine ⟨fun id => ?_, fun id change canonical h => ?_⟩
  · simp [Ascending.get?_empty]
  · rw [Ascending.get?_empty] at h
    cases h

variable {g : Gathered} {entries : Entries} {entry : String × Option Change}

theorem snoc_missing_iff {spelled : UInt64} (hspells : idOfKey? entry.1 = some spelled) :
    (∀ e ∈ entries ++ [entry], idOfKey? e.1 ≠ some id) ↔
      spelled ≠ id ∧ ∀ e ∈ entries, idOfKey? e.1 ≠ some id := by
  simp only [List.forall_mem_append, List.forall_mem_singleton, hspells, ne_eq, Option.some.injEq]
  exact and_comm

theorem Gathered.Fits.skip (h : g.Fits entries)
    (hlost : ∀ id key, Wins (keysOf entries) id key → idOfKey? entry.1 = some id →
      key ≤ entry.1 ∧ (entry.1 = keyOfId id → key = keyOfId id))
    (hseen : ∀ id, idOfKey? entry.1 = some id → g.kept.get? id ≠ none) (notices : List Notice) :
    Gathered.Fits ⟨g.kept, notices⟩ (entries ++ [entry]) := by
  refine ⟨fun id => ?_, fun id change canonical hget => ?_⟩
  · rw [h.missing id, List.forall_mem_append, List.forall_mem_singleton]
    refine ⟨fun hall => ⟨hall, fun hspells => ?_⟩, And.left⟩
    exact hseen id hspells ((h.missing id).mpr hall)
  · obtain ⟨kept, hmem, hwins, hchange, hcanonical⟩ := h.kept id change canonical hget
    refine ⟨kept, List.mem_append_left _ hmem, ?_, hchange, hcanonical⟩
    rw [keysOf_append]
    exact hwins.snoc (hlost id kept.1 hwins)

theorem Gathered.Fits.put {spelled : UInt64} (h : g.Fits entries)
    (hspells : idOfKey? entry.1 = some spelled)
    (hwins : Wins (keysOf (entries ++ [entry])) spelled entry.1) (notices : List Notice) :
    Gathered.Fits ⟨g.kept.insert spelled (entry.2.getD .cleared, entry.1 = keyOfId spelled),
      notices⟩ (entries ++ [entry]) := by
  refine ⟨fun id => ?_, fun id change canonical hget => ?_⟩
  · rw [snoc_missing_iff hspells, ← h.missing id, Ascending.get?_insert]
    by_cases heq : spelled = id <;> simp [heq]
  · rw [Ascending.get?_insert] at hget
    split at hget
    next heq =>
      subst heq
      cases hget
      exact ⟨entry, by simp, hwins, rfl, by simp⟩
    next hne =>
      obtain ⟨kept, hmem, hw, hchange, hcanonical⟩ := h.kept id change canonical hget
      refine ⟨kept, List.mem_append_left _ hmem, ?_, hchange, hcanonical⟩
      rw [keysOf_append]
      exact hw.snoc fun hid => absurd (Option.some.inj (hspells.symm.trans hid)) hne

/-- One step of the reader, over keys in ascending order. -/
theorem Gathered.Fits.gather (h : g.Fits entries) (hlt : ∀ e ∈ entries, e.1 < entry.1) :
    (gather g entry).Fits (entries ++ [entry]) := by
  have hle : ∀ {id key}, Wins (keysOf entries) id key → key ≤ entry.1 := by
    intro id key hw
    obtain ⟨e, hmem, rfl⟩ := List.mem_map.mp hw.mem
    exact Std.le_of_lt (hlt e hmem)
  unfold Changes.gather
  split
  next hnone =>
    exact h.skip (fun id key _ hid => by simp [hnone] at hid)
      (fun id hid => by simp [hnone] at hid) _
  next spelled hspells =>
    split
    next hget =>
      -- The first key that spells the id.
      refine h.put hspells ?_ _
      rw [keysOf_append]
      refine Wins.first (fun other hother => ?_) hspells
      obtain ⟨e, hmem, rfl⟩ := List.mem_map.mp hother
      exact (h.missing spelled).mp hget e hmem
    next kept canonical hget =>
      by_cases hreplace : (decide (entry.1 = keyOfId spelled) && !canonical) = true
      · -- The canonical key takes the place of another one.
        have hkey : entry.1 = keyOfId spelled := by simp_all
        simp only [hreplace, if_true]
        refine h.put hspells ?_ _
        rw [hkey]
        exact Wins.canonical (by simp [keysOf, hkey])
      · -- The key that was there stays.
        simp only [hreplace, Bool.false_eq_true, if_false]
        refine h.skip (fun id key hw hid => ⟨hle hw, fun hkey => ?_⟩) (fun id hid => ?_) _
        · obtain rfl := Option.some.inj (hspells.symm.trans hid)
          obtain ⟨e, -, hwe, -, hcanonical⟩ := h.kept spelled kept canonical hget
          rw [hw.unique hwe]
          exact hcanonical.mp (by simpa [hkey] using hreplace)
        · obtain rfl := Option.some.inj (hspells.symm.trans hid)
          simp [hget]

theorem Gathered.fits_foldl (hasc : entries.Pairwise (fun a b => a.1 < b.1)) :
    (entries.foldl Changes.gather ⟨Ascending.empty, []⟩).Fits entries := by
  induction entries using List.reverseRecOn with
  | nil => exact Gathered.fits_nil
  | append_singleton entries entry ih =>
    obtain ⟨hasc, -, hlt⟩ := List.pairwise_append.mp hasc
    rw [List.foldl_append]
    exact (ih hasc).gather fun e hmem => hlt e hmem entry (by simp)

theorem gatherAll_fits (entries : Entries) :
    (gatherAll entries).Fits (Ascending.ofList entries).entries :=
  Gathered.fits_foldl (Ascending.ofList entries).ascending

/-! ## Entries in any order, with keys that come back -/

/-- The last entry under a key. -/
def LastUnder (entries : Entries) (key : String) (value : Option Change) : Prop :=
  ∃ before after, entries = before ++ (key, value) :: after ∧ ∀ entry ∈ after, entry.1 ≠ key

theorem lastUnder_iff {value : Option Change} :
    LastUnder entries key value ↔ Ascending.find key entries.reverse = some value := by
  rw [Ascending.find, Option.map_eq_some_iff]
  constructor
  · rintro ⟨before, after, rfl, hall⟩
    refine ⟨(key, value), List.find?_eq_some_iff_append.mpr ⟨by simp, after.reverse,
      before.reverse, by simp, by simpa using hall⟩, rfl⟩
  · rintro ⟨⟨k, v⟩, hfind, rfl⟩
    obtain ⟨hk, before, after, hrev, hall⟩ := List.find?_eq_some_iff_append.mp hfind
    obtain rfl : k = key := by simpa using hk
    refine ⟨after.reverse, before.reverse, ?_, by simpa using hall⟩
    rw [← List.reverse_reverse entries, hrev]
    simp

theorem mem_ofList_iff {value : Option Change} :
    (key, value) ∈ (Ascending.ofList entries).entries ↔ LastUnder entries key value := by
  rw [Ascending.mem_entries_iff, Ascending.get?_ofList, lastUnder_iff]

theorem mem_keysOf_ofList_iff :
    key ∈ keysOf (Ascending.ofList entries).entries ↔ key ∈ keysOf entries := by
  change key ∈ (Ascending.ofList entries).keys ↔ _
  rw [Ascending.mem_keys_iff, Ascending.get?_ofList, ne_eq, Ascending.find_eq_none_iff, not_not]
  simp [keysOf]

theorem ofEntries_get?_eq_none_iff :
    (ofEntries entries).get? id = none ↔ ∀ entry ∈ entries, idOfKey? entry.1 ≠ some id := by
  rw [ofEntries, Ascending.get?_mapValues, Option.map_eq_none_iff, (gatherAll_fits entries).missing]
  have hkeys : ∀ es : Entries, (∀ entry ∈ es, idOfKey? entry.1 ≠ some id) ↔
      ∀ key ∈ keysOf es, idOfKey? key ≠ some id := by
    intro es
    simp [keysOf]
  rw [hkeys, hkeys]
  simp only [mem_keysOf_ofList_iff]

theorem ofEntries_get?_eq_some_iff {change : Change} :
    (ofEntries entries).get? id = some change ↔
      ∃ key value, Wins (keysOf entries) id key ∧ LastUnder entries key value ∧
        change = value.getD .cleared := by
  have hfits := gatherAll_fits entries
  have hwins : ∀ {key}, Wins (keysOf (Ascending.ofList entries).entries) id key ↔
      Wins (keysOf entries) id key :=
    Wins.congr fun _ _ => mem_keysOf_ofList_iff
  rw [ofEntries, Ascending.get?_mapValues, Option.map_eq_some_iff]
  constructor
  · rintro ⟨⟨kept, canonical⟩, hget, rfl⟩
    obtain ⟨⟨key, value⟩, hmem, hw, hchange, -⟩ := hfits.kept id kept canonical hget
    exact ⟨key, value, hwins.mp hw, mem_ofList_iff.mp hmem, hchange⟩
  · rintro ⟨key, value, hw, hlast, rfl⟩
    cases hget : (gatherAll entries).kept.get? id with
    | none =>
      have hnot := (hfits.missing id).mp hget (key, value) (mem_ofList_iff.mpr hlast)
      exact absurd hw.spells hnot
    | some found =>
      obtain ⟨kept, canonical⟩ := found
      obtain ⟨⟨key', value'⟩, hmem, hw', hchange, -⟩ := hfits.kept id kept canonical hget
      -- The key kept is the winning one, and its entry in the map is the last one.
      obtain rfl := (hwins.mp hw').unique hw
      have hkept := Ascending.mem_entries_iff.mp hmem
      have hvalue := Ascending.mem_entries_iff.mp (mem_ofList_iff.mpr hlast)
      obtain rfl := Option.some.inj (hkept.symm.trans hvalue)
      exact ⟨_, rfl, hchange⟩

/-! ## Keys that spell no id -/

def isNamed (entry : String × Option Change) : Bool := (idOfKey? entry.1).isSome

theorem wins_filter_iff :
    Wins (keysOf (entries.filter isNamed)) id key ↔ Wins (keysOf entries) id key :=
  Wins.congr fun k hk => by simp [keysOf, isNamed, hk]

theorem lastUnder_filter_iff {value : Option Change} (hspells : idOfKey? key = some id) :
    LastUnder (entries.filter isNamed) key value ↔ LastUnder entries key value := by
  rw [lastUnder_iff, lastUnder_iff, ← List.filter_reverse,
    Ascending.find_filter fun value => by simp [isNamed, hspells]]

theorem ofEntries_filter (entries : Entries) :
    ofEntries (entries.filter isNamed) = ofEntries entries := by
  apply Ascending.ext_get?
  intro id
  apply Option.ext
  intro change
  rw [ofEntries_get?_eq_some_iff, ofEntries_get?_eq_some_iff]
  simp only [wins_filter_iff]
  refine exists_congr fun key => exists_congr fun value => and_congr_right fun hwins => ?_
  exact and_congr_left' (lastUnder_filter_iff hwins.spells)

/-- **The changes that a map spells.** An id has no change if no key spells it, and else the change
in the last entry of the key that wins, where null takes the value away. Keys that spell no id
count for nothing. -/
theorem read_by_winning_keys :
    (∀ depth node, (Changes.read depth node).value = (readEntries depth node).map ofEntries) ∧
    ∀ entries : Entries,
      (∀ id, (ofEntries entries).get? id = none ↔
        ∀ entry ∈ entries, idOfKey? entry.1 ≠ some id) ∧
      (∀ id change, (ofEntries entries).get? id = some change ↔
        ∃ key value, Wins (keysOf entries) id key ∧ LastUnder entries key value ∧
          change = value.getD .cleared) ∧
      ofEntries (entries.filter isNamed) = ofEntries entries := by
  refine ⟨fun depth node => ?_, fun entries => ⟨fun id => ofEntries_get?_eq_none_iff,
    fun id change => ofEntries_get?_eq_some_iff, ofEntries_filter entries⟩⟩
  unfold Changes.read
  cases readEntries depth node <;> rfl

end AttributeReview.Changes
