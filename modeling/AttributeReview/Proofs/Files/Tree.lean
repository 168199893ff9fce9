import AttributeReview.Files.Tree
import AttributeReview.Proofs.Outcome

/-!
# What changes in a file tree

A file that was written is found under the path it was written to, and the rest of the tree stays as
it is. Where directories are made, new directories appear and nothing else changes.
-/

namespace AttributeReview.Files

variable {t made : Tree} {p : Path} {location here : Location} {names : List String}
  {place : Place} {content : List UInt8}

namespace Tree

theorem entry?_put (t : Tree) (h : location ≠ []) (entry : Entry) (other : Location) :
    entry? (t.put location entry) other =
      if other = location then some entry else t.entry? other := by
  unfold entry? put
  by_cases heq : other = location
  · subst heq
    simp [h]
  · have hother : (other == location) = false := by simpa using heq
    have hfilter : (t.entries.filter fun old => old.1 != location).lookup other =
        t.entries.lookup other := by
      induction t.entries with
      | nil => rfl
      | cons old rest ih =>
        by_cases hold : old.1 = location
        · rw [List.filter_cons_of_neg (by simp [hold]), ih, List.lookup_cons, hold, hother]
        · rw [List.filter_cons_of_pos (by simpa using hold), List.lookup_cons, List.lookup_cons, ih]
    rw [if_neg heq, List.lookup_cons, hother, hfilter]

end Tree

/-! ## Where a path leads -/

/-- What is said of a place is so: a file is there, or nothing is. -/
def Place.IsIn (t : Tree) : Place → Prop
  | taken _ .directory => True
  | taken location (.file content) => location ≠ [] ∧ t.entry? location = some (.file content)
  | free location => location ≠ [] ∧ t.entry? location = none

/-- A file can be written at the location: a file is there, or nothing. -/
inductive Place.Fits (location : Location) : Place → Prop where
  | file (content : List UInt8) : Fits location (.taken location (.file content))
  | free : Fits location (.free location)

theorem Place.Fits.entry?_ne (hfits : place.Fits location) (h : place.IsIn t) :
    location ≠ [] ∧ t.entry? location ≠ some .directory := by
  cases hfits with
  | file content => exact ⟨h.1, by rw [h.2]; simp⟩
  | free => exact ⟨h.1, by rw [h.2]; simp⟩

namespace Tree

theorem isIn_of_walk (h : t.walk here names = .ok place) : place.IsIn t := by
  fun_induction walk t here names with
  | case1 here => cases h; trivial
  | case2 here rest ih => exact ih h
  | case3 here rest hdot ih => exact ih h
  | case4 => cases h
  | case5 here name rest hdot hdots hlong hentry ih => exact ih h
  | case6 here name rest hdot hdots hlong content hentry hlast =>
    cases h
    exact ⟨by simp, hentry⟩
  | case7 => cases h
  | case8 here name rest hdot hdots hlong hentry hlast =>
    cases h
    exact ⟨by simp, hentry⟩
  | case9 => cases h

/-- Names that led to a place for a file lead to the file once it is there: no directory on the way
is at that place. -/
theorem walk_put (h : t.walk here names = .ok place) (hfits : place.Fits location) :
    (t.put location (.file content)).walk here names = .ok (.taken location (.file content)) := by
  obtain ⟨hroot, hdirectory⟩ := hfits.entry?_ne (isIn_of_walk h)
  fun_induction walk t here names with
  | case1 here => cases h; cases hfits
  | case2 here rest ih => rw [walk, if_pos rfl]; exact ih h
  | case3 here rest hdot ih => rw [walk, if_neg hdot, if_pos rfl]; exact ih h
  | case4 => cases h
  | case5 here name rest hdot hdots hlong hentry ih =>
    have hne : here ++ [name] ≠ location := by
      rintro rfl
      exact hdirectory hentry
    rw [walk, if_neg hdot, if_neg hdots, if_neg hlong, entry?_put t hroot, if_neg hne, hentry]
    exact ih h
  | case6 here name rest hdot hdots hlong old hentry hlast =>
    cases h
    cases hfits
    rw [walk, if_neg hdot, if_neg hdots, if_neg hlong, entry?_put t hroot, if_pos rfl]
    exact if_pos hlast
  | case7 => cases h
  | case8 here name rest hdot hdots hlong hentry hlast =>
    cases h
    cases hfits
    rw [walk, if_neg hdot, if_neg hdots, if_neg hlong, entry?_put t hroot, if_pos rfl]
    exact if_pos hlast
  | case9 => cases h

theorem isIn_of_follow (h : t.follow p = .ok place) : place.IsIn t := by
  unfold follow followNames at h
  split at h
  · cases h
  · split at h
    · cases h
    · split at h
      · cases h
      · exact isIn_of_walk h

theorem follow_put (h : t.follow p = .ok place) (hfits : place.Fits location) :
    (t.put location (.file content)).follow p = .ok (.taken location (.file content)) := by
  unfold follow followNames at h ⊢
  split at h
  · cases h
  next hzero =>
    split at h
    · cases h
    next hempty =>
      split at h
      · cases h
      next hlong =>
        rw [if_neg hzero, if_neg hempty, if_neg hlong]
        exact walk_put h hfits

/-! ## Writing a file -/

theorem target_eq_ok (h : t.target p = .ok location) :
    Path.endsInSlash p = false ∧ ∃ place, t.follow p = .ok place ∧ place.Fits location := by
  unfold target at h
  split at h
  · rw [bind_eq_ok_iff] at h
    obtain ⟨place, -, hplace⟩ := h
    split at hplace <;> cases hplace
  next hslash =>
    rw [bind_eq_ok_iff] at h
    obtain ⟨place, hfollow, hplace⟩ := h
    refine ⟨by simpa using hslash, place, hfollow, ?_⟩
    split at hplace
    · cases hplace
    · cases hplace; exact .file _
    · cases hplace; exact .free

/-- Outside the location everything is as it was, and in it is the file. -/
structure WritesAt (t : Tree) (location : Location) (content : List UInt8) (written : Tree) :
    Prop where
  here : written.entry? location = some (.file content)
  elsewhere : ∀ other, other ≠ location → written.entry? other = t.entry? other

theorem write_eq_ok {written : Tree} (h : t.write p content = .ok written) :
    ∃ location, written.find p = .ok (location, .file content) ∧
      t.WritesAt location content written := by
  unfold write at h
  rw [bind_eq_ok_iff] at h
  obtain ⟨location, htarget, ⟨⟩⟩ := h
  obtain ⟨hslash, place, hfollow, hfits⟩ := target_eq_ok htarget
  have hroot := (hfits.entry?_ne (isIn_of_follow hfollow)).1
  refine ⟨location, ?_, ?_, ?_⟩
  · unfold find
    rw [follow_put hfollow hfits]
    exact if_neg (by simp [hslash])
  · rw [entry?_put t hroot, if_pos rfl]
  · intro other hother
    rw [entry?_put t hroot, if_neg hother]

/-! ## Making directories -/

/-- The location is as it was, or a directory has been made there where nothing was. -/
def GrowsAt (t grown : Tree) (location : Location) : Prop :=
  grown.entry? location = t.entry? location ∨
    t.entry? location = none ∧ grown.entry? location = some .directory

/-- Directories have been made where nothing was, and nothing else has changed. -/
def Grows (t grown : Tree) : Prop := ∀ location, t.GrowsAt grown location

theorem Grows.refl (t : Tree) : t.Grows t := fun _ => Or.inl rfl

theorem Grows.trans {whole : Tree} (h : t.Grows made) (h' : made.Grows whole) : t.Grows whole := by
  intro location
  rcases h' location with hsame | ⟨hnone, hdirectory⟩
  · rw [GrowsAt, hsame]
    exact h location
  · rcases h location with hsame' | ⟨-, hmade⟩
    · exact Or.inr ⟨hsame' ▸ hnone, hdirectory⟩
    · rw [hnone] at hmade
      cases hmade

theorem grows_of_makeDirectory (h : t.makeDirectory p = .ok made) : t.Grows made := by
  unfold makeDirectory at h
  rw [bind_eq_ok_iff] at h
  obtain ⟨place, hfollow, hplace⟩ := h
  split at hplace
  · cases hplace
  next location =>
    cases hplace
    obtain ⟨hroot, hnone⟩ := isIn_of_follow hfollow
    intro other
    rw [GrowsAt, entry?_put t hroot]
    by_cases hother : other = location
    · exact Or.inr ⟨hother ▸ hnone, if_pos hother⟩
    · exact Or.inl (if_neg hother)

theorem grows_makeFirst (t : Tree) (ps : List Path) : t.Grows (t.makeFirst ps).1 := by
  induction ps generalizing t with
  | nil => exact .refl t
  | cons p outer ih =>
    unfold makeFirst
    split
    · exact .refl t
    · split
      next made hmade => exact grows_of_makeDirectory hmade
      next =>
        have houter := ih t
        split
        next made fault hfirst => rw [hfirst] at houter; exact houter
        next made hfirst =>
          rw [hfirst] at houter
          split
          next whole hwhole => exact houter.trans (grows_of_makeDirectory hwhole)
          next => exact houter
      next => exact .refl t

theorem grows_makeDirectories (t : Tree) (p : Path) : t.Grows (t.makeDirectories p).1 :=
  t.grows_makeFirst _

end Tree

end AttributeReview.Files
