import AttributeReview.Proofs.Files.Tree
import AttributeReview.Proofs.Review.Storage
import AttributeReview.Proofs.Review.Writing

/-!
# Reports in files

A report that was stored is loaded from the same path. One that cannot be stored leaves every file
as it was, since all that can go wrong goes wrong before the file is opened.
-/

namespace AttributeReview.Report

open Files (Path Tree)

variable {r : Report} {t made written : Tree} {p : Path} {fault : OutputFault}

theorem writeBuffered_unlimited (r : Report) :
    r.writeBuffered ⟨none, true, ""⟩ = .ok ⟨none, true, r.document⟩ := by
  -- Without a limit there is room for everything, and the flush cannot fail.
  rw [r.writeBuffered_of_room rfl, Sink.taking, String.empty_append]
  rfl

theorem grows_makeParent (t : Tree) (p : Path) : t.Grows (makeParent t p).1 := by
  unfold makeParent
  split
  · exact .refl t
  next parent hmissing => exact t.grows_makeDirectories parent

/-- The ways in which storing a report ends: with no more than new directories and a fault, or with
the document in a file besides. -/
inductive Stores (r : Report) (t : Tree) (p : Path) : Tree × Except OutputFault Unit → Prop where
  | failed {made : Tree} (fault : OutputFault) : t.Grows made → Stores r t p (made, .error fault)
  | stored {made written : Tree} : checkPath t p = .ok () → t.Grows made →
      made.write p (Utf8.encode r.document) = .ok written → Stores r t p (written, .ok ())

theorem store_stores (r : Report) (t : Tree) (p : Path) : r.Stores t p (r.store t p) := by
  have hparent := grows_makeParent t p
  unfold store
  split
  next fault hcheck => exact .failed fault (.refl t)
  next hcheck =>
    split
    next made fault hmade =>
      rw [hmade] at hparent
      exact .failed fault hparent
    next made hmade =>
      rw [hmade] at hparent
      split
      next fault hwrite => exact .failed _ hparent
      next written hwrite => exact .stored hcheck hparent hwrite

theorem grows_of_store_error (h : r.store t p = (made, .error fault)) : t.Grows made := by
  cases h ▸ r.store_stores t p with
  | failed fault hgrows => exact hgrows

/-- A report that was stored is in the file that its path leads to. Only directories have been made
besides. -/
theorem store_eq_ok (h : r.store t p = (written, .ok ())) :
    ∃ made location, t.Grows made ∧
      written.find p = .ok (location, .file (Utf8.encode r.document)) ∧
      made.WritesAt location (Utf8.encode r.document) written := by
  cases h ▸ r.store_stores t p with
  | @stored made _ hcheck hgrows hwrite =>
    obtain ⟨location, hfind, hwrites⟩ := Tree.write_eq_ok hwrite
    exact ⟨made, location, hgrows, hfind, hwrites⟩

theorem isEmpty_of_store_ok (h : r.store t p = (written, .ok ())) : p.isEmpty = false := by
  cases h ▸ r.store_stores t p with
  | stored hcheck hgrows hwrite =>
    unfold checkPath at hcheck
    split at hcheck
    · cases hcheck
    next hempty => simpa using hempty

theorem load_stored (h : r.store t p = (written, .ok ())) : (load written p).value = .ok r := by
  obtain ⟨made, location, -, hfind, -⟩ := store_eq_ok h
  exact Tree.read_value_eq_ok_iff.mpr ⟨_, ⟨location, hfind⟩, r.read_document⟩

end AttributeReview.Report
