/-!
# Lists in ascending order of their keys

A finite map kept as the list of its entries, least key first, each key once. Two maps with the
same entries are the same list. `get?_insert` says what an insertion does to every key.
-/

namespace AttributeReview

/-- Entries with strictly ascending keys. -/
structure Ascending (κ β : Type) [LT κ] where
  entries : List (κ × β)
  ascending : entries.Pairwise (fun a b => a.1 < b.1)

namespace Ascending

variable {κ β : Type} [LT κ]

/-- Another map with the same keys, each with what `f` makes of its value. -/
def mapValues (f : β → γ) (m : Ascending κ β) : Ascending κ γ :=
  ⟨m.entries.map fun entry => (entry.1, f entry.2), List.pairwise_map.mpr m.ascending⟩

variable [DecidableLT κ]

/-- Puts an entry at its place; an entry that has the key already gives way. -/
def place (key : κ) (value : β) : List (κ × β) → List (κ × β)
  | [] => [(key, value)]
  | entry :: rest =>
    if key < entry.1 then (key, value) :: entry :: rest
    else if entry.1 < key then entry :: place key value rest
    else (key, value) :: rest

/-- The value that gives way where an entry with the key is put at its place. -/
def displaced (key : κ) : List (κ × β) → Option β
  | [] => none
  | entry :: rest =>
    if key < entry.1 then none
    else if entry.1 < key then displaced key rest
    else some entry.2

theorem mem_place {key : κ} {value : β} {entry : κ × β} {entries : List (κ × β)}
    (h : entry ∈ place key value entries) : entry = (key, value) ∨ entry ∈ entries := by
  induction entries with
  | nil => simpa [place] using h
  | cons head rest ih =>
    unfold place at h
    split at h
    · simpa using h
    · split at h
      · rcases List.mem_cons.mp h with rfl | h
        · simp
        · rcases ih h with rfl | h <;> simp_all
      · rcases List.mem_cons.mp h with rfl | h <;> simp_all

variable [LE κ] [Std.IsLinearOrder κ] [Std.LawfulOrderLT κ]

omit [DecidableLT κ] in
theorem eq_of_not_lt {a b : κ} (hab : ¬ a < b) (hba : ¬ b < a) : a = b :=
  Std.le_antisymm (Std.not_lt.mp hba) (Std.not_lt.mp hab)

theorem ascending_place (key : κ) (value : β) {entries : List (κ × β)}
    (h : entries.Pairwise (fun a b => a.1 < b.1)) :
    (place key value entries).Pairwise (fun a b => a.1 < b.1) := by
  induction entries with
  | nil => simp [place]
  | cons head rest ih =>
    have hrest := List.pairwise_cons.mp h
    unfold place
    split
    next hlt =>
      refine List.pairwise_cons.mpr ⟨fun entry hmem => ?_, h⟩
      rcases List.mem_cons.mp hmem with rfl | hmem
      · exact hlt
      · exact Std.lt_trans hlt (hrest.1 entry hmem)
    next hlt =>
      split
      next hgt =>
        refine List.pairwise_cons.mpr ⟨fun entry hmem => ?_, ih hrest.2⟩
        rcases mem_place hmem with rfl | hmem
        · exact hgt
        · exact hrest.1 entry hmem
      next hgt =>
        have heq := eq_of_not_lt hlt hgt
        exact List.pairwise_cons.mpr ⟨fun entry hmem => heq ▸ hrest.1 entry hmem, hrest.2⟩

def empty : Ascending κ β := ⟨[], List.Pairwise.nil⟩

/-- The map with an entry more, or with another value for a key that it has. -/
def insert (m : Ascending κ β) (key : κ) (value : β) : Ascending κ β :=
  ⟨place key value m.entries, ascending_place key value m.ascending⟩

/-- Inserts an entry, and gives back the value that its key had before. -/
def exchange (m : Ascending κ β) (key : κ) (value : β) : Option β × Ascending κ β :=
  (displaced key m.entries, m.insert key value)

/-- The map of the given entries; of two with one key the later one stays. -/
def ofList (entries : List (κ × β)) : Ascending κ β :=
  entries.foldl (fun m entry => m.insert entry.1 entry.2) empty

omit [DecidableLT κ] [LE κ] [Std.IsLinearOrder κ] [Std.LawfulOrderLT κ] in
@[ext] theorem ext {m n : Ascending κ β} (h : m.entries = n.entries) : m = n := by
  cases m; cases n; congr

variable [DecidableEq κ]

/-- The value of the first entry that has the key. -/
def find (key : κ) (entries : List (κ × β)) : Option β :=
  (entries.find? (fun entry => entry.1 = key)).map (·.2)

def get? (m : Ascending κ β) (key : κ) : Option β := find key m.entries

def keys (m : Ascending κ β) : List κ := m.entries.map (·.1)

def size (m : Ascending κ β) : Nat := m.entries.length

theorem find_place (key other : κ) (value : β) (entries : List (κ × β)) :
    find other (place key value entries) =
      if key = other then some value else find other entries := by
  induction entries with
  | nil => by_cases h : key = other <;> simp [place, find, h]
  | cons head rest ih =>
    unfold place
    split
    · by_cases h : key = other <;> simp [find, h]
    next hlt =>
      split
      next hgt =>
        unfold find at ih ⊢
        by_cases hhead : head.1 = other
        · have hne : key ≠ other := fun h => by
            subst h; exact absurd (hhead ▸ hgt) (Std.lt_irrefl (a := key))
          simp [hhead, hne]
        · simp [hhead, ih]
      next hgt =>
        have heq := eq_of_not_lt hlt hgt
        by_cases h : key = other
        · simp [find, h]
        · have : head.1 ≠ other := fun hh => h (heq.trans hh)
          simp [find, h, this]

theorem get?_insert (m : Ascending κ β) (key other : κ) (value : β) :
    (m.insert key value).get? other = if key = other then some value else m.get? other :=
  find_place key other value m.entries

end Ascending

end AttributeReview
