import AttributeReview.Proofs.Ascending.Around
import AttributeReview.Proofs.Proposal
import AttributeReview.Proofs.Review.Order

/-!
# What is told of the keys of a proposal

No key of a proposal is lost in silence: each is kept, or a notice tells of it. Where several keys
spell one id, each notice says whether the key that is held from then on is the canonical one.
-/

namespace AttributeReview

open Attribute (idOfKey? keyOfId)

/-! ## What a notice says -/

/-- The notice says that the entry under the canonical key is kept. -/
def Notice.KeepsCanonical (n : Notice) : Prop :=
  ∃ before, n.line = before ++ "keeping the canonical entry"

theorem Notice.line_keysCollide (id : UInt64) (key : String) (canonicalKept : Bool) :
    ∃ before, (keysCollide id key canonicalKept).line =
      before ++ "keeping the " ++ (if canonicalKept then "canonical entry" else "first entry") := by
  have hcomma : "), keeping the " = "), " ++ "keeping the " := by decide
  have hcanonical : "canonical" ++ " entry" = "canonical entry" := by decide
  have hfirst : "first" ++ " entry" = "first entry" := by decide
  refine ⟨Level.warn.name ++ " " ++ ("Modified attribute keys collide on id " ++
    (Number.natural id).text ++ " (key " ++ Text.quote key ++ "), "), ?_⟩
  unfold line message
  cases canonicalKept <;>
    simp only [level, hcomma, String.append_assoc, if_true, Bool.false_eq_true, if_false,
      hcanonical, hfirst]

theorem Notice.keepsCanonical_keysCollide {id : UInt64} {key : String} {canonicalKept : Bool} :
    (keysCollide id key canonicalKept).KeepsCanonical ↔ canonicalKept = true := by
  obtain ⟨before, hline⟩ := line_keysCollide id key canonicalKept
  unfold KeepsCanonical
  rw [hline]
  cases canonicalKept with
  | true =>
    refine iff_of_true ⟨before, ?_⟩ rfl
    rw [if_pos rfl, String.append_assoc]
    rfl
  | false =>
    refine iff_of_false ?_ Bool.false_ne_true
    rw [if_neg Bool.false_ne_true]
    rintro ⟨other, hsame⟩
    -- One of the two ends would be the end of the other.
    have hsame := congrArg String.toList hsame
    simp only [String.toList_append] at hsame
    have hfirst : "first entry".toList <:+ other.toList ++ "keeping the canonical entry".toList :=
      ⟨_, hsame⟩
    have hend := List.suffix_of_suffix_length_le hfirst (List.suffix_append _ _) (by decide)
    exact absurd hend (by decide)

namespace Changes

/-! ## One entry -/

/-- The ways in which one more entry is gathered: its key spells no id, or one that no key has
spelled yet, or one that an entry is kept for. -/
inductive Gathered.Step (g : Gathered) (entry : String × Option Change) : Gathered → Prop where
  | dropped : idOfKey? entry.1 = none →
      Step g entry ⟨g.kept, g.notices ++ [.keyDropped entry.1]⟩
  | first {id : UInt64} : idOfKey? entry.1 = some id → g.kept.get? id = none →
      Step g entry
        ⟨g.kept.insert id (entry.2.getD .cleared, decide (entry.1 = keyOfId id)), g.notices⟩
  | collides {id : UInt64} {kept : Ascending UInt64 (Change × Bool)} {change : Change}
      {canonical : Bool} : idOfKey? entry.1 = some id → g.kept.get? id ≠ none →
      kept.size = g.kept.size → kept.get? id = some (change, canonical) →
      Step g entry ⟨kept, g.notices ++ [.keysCollide id entry.1 canonical]⟩

theorem gather_step (g : Gathered) (entry : String × Option Change) :
    g.Step entry (gather g entry) := by
  unfold gather
  split
  next hnone => exact .dropped hnone
  next id hspells =>
    split
    next hget => exact .first hspells hget
    next change keptCanonical hget =>
      have hkept : g.kept.get? id ≠ none := by simp [hget]
      by_cases hreplace : (decide (entry.1 = keyOfId id) && !keptCanonical) = true
      · -- The entry under the canonical key takes the place, and is marked as such.
        have hcanonical : decide (entry.1 = keyOfId id) = true := by simp_all
        have hsize := g.kept.size_insert id (entry.2.getD .cleared, true)
        rw [if_neg hkept, Nat.add_zero] at hsize
        have hput := g.kept.get?_insert id id (entry.2.getD .cleared, true)
        rw [if_pos rfl] at hput
        simp only [hreplace, if_true, Bool.true_or]
        rw [hcanonical]
        exact .collides hspells hkept hsize hput
      · simp only [hreplace, Bool.false_eq_true, if_false, Bool.false_or]
        exact .collides hspells hkept rfl hget

variable {g g' : Gathered} {entry : String × Option Change} {entries : Entries}

/-- Each entry is kept under an id of its own, or told of. -/
theorem Gathered.Step.size_add_length (h : g.Step entry g') :
    g'.kept.size + g'.notices.length = g.kept.size + g.notices.length + 1 := by
  cases h with
  | dropped hnone =>
    rw [List.length_append]
    exact (Nat.add_assoc ..).symm
  | first hspells hnone =>
    rw [Ascending.size_insert, if_pos hnone]
    exact Nat.add_right_comm ..
  | collides hspells hkept hsize hget =>
    rw [List.length_append, hsize]
    exact (Nat.add_assoc ..).symm

/-! ## All entries -/

/-- What has been kept and told once some entries have been gone through. -/
def gathered (entries : Entries) : Gathered := entries.foldl gather ⟨Ascending.empty, []⟩

theorem gathered_snoc (entries : Entries) (entry : String × Option Change) :
    gathered (entries ++ [entry]) = gather (gathered entries) entry :=
  List.foldl_concat ..

theorem size_add_length_gathered (entries : Entries) :
    (gathered entries).kept.size + (gathered entries).notices.length = entries.length := by
  induction entries using List.reverseRecOn with
  | nil => rfl
  | append_singleton entries entry ih =>
    rw [gathered_snoc, (gather_step _ entry).size_add_length, ih, List.length_append,
      List.length_singleton]

/-- What is told of some entries, first one first. -/
inductive Told : Entries → List Notice → Prop where
  | nil : Told [] []
  | dropped {before : Entries} {told : List Notice} {entry : String × Option Change} :
      Told before told → idOfKey? entry.1 = none →
      Told (before ++ [entry]) (told ++ [.keyDropped entry.1])
  /-- Nothing is told of the first key that spells an id. -/
  | first {before : Entries} {told : List Notice} {entry : String × Option Change} {id : UInt64} :
      Told before told → idOfKey? entry.1 = some id → (∀ e ∈ before, idOfKey? e.1 ≠ some id) →
      Told (before ++ [entry]) told
  /-- Of a further key it is told whether the entry that is now held has the canonical one. -/
  | collides {before : Entries} {told : List Notice} {entry earlier held : String × Option Change}
      {id : UInt64} {canonicalKept : Bool} :
      Told before told → idOfKey? entry.1 = some id → earlier ∈ before →
      idOfKey? earlier.1 = some id → held ∈ before ++ [entry] →
      Wins (keysOf (before ++ [entry])) id held.1 →
      (∃ mark, (gathered (before ++ [entry])).kept.get? id = some (held.2.getD .cleared, mark)) →
      ((Notice.keysCollide id entry.1 canonicalKept).KeepsCanonical ↔ held.1 = keyOfId id) →
      Told (before ++ [entry]) (told ++ [.keysCollide id entry.1 canonicalKept])

theorem Gathered.Step.told {before : Entries} (h : g.Step entry g') (hg : g.Fits before)
    (hg' : g'.Fits (before ++ [entry])) (hgathered : gathered (before ++ [entry]) = g')
    (htold : Told before g.notices) : Told (before ++ [entry]) g'.notices := by
  cases h with
  | dropped hnone => exact .dropped htold hnone
  | first hspells hnone => exact .first htold hspells ((hg.missing _).mp hnone)
  | @collides id kept change canonical hspells hkept hsize hget =>
    obtain ⟨earlier, hmem, hearlier⟩ : ∃ e ∈ before, idOfKey? e.1 = some id := by
      by_contra hnone
      exact hkept ((hg.missing id).mpr (by simpa using hnone))
    obtain ⟨held, hheld, hwins, rfl, hcanonical⟩ := hg'.kept id change canonical hget
    refine .collides htold hspells hmem hearlier hheld hwins ?_ ?_
    · rw [hgathered]
      exact ⟨canonical, hget⟩
    · rw [Notice.keepsCanonical_keysCollide, hcanonical]

theorem told_gathered {entries : Entries} (hasc : entries.Pairwise (fun a b => a.1 < b.1)) :
    Told entries (gathered entries).notices := by
  induction entries using List.reverseRecOn with
  | nil => exact .nil
  | append_singleton entries entry ih =>
    have hbefore := (List.pairwise_append.mp hasc).1
    have hstep := gather_step (gathered entries) entry
    rw [← gathered_snoc] at hstep
    exact hstep.told (Gathered.fits_foldl hbefore) (Gathered.fits_foldl hasc) rfl (ih hbefore)

theorem Told.level_eq_warn {told : List Notice} (h : Told entries told) :
    ∀ n ∈ told, n.level = .warn := by
  induction h with
  | nil => simp
  | dropped _ _ ih =>
    rw [List.forall_mem_append]
    exact ⟨ih, List.forall_mem_singleton.mpr rfl⟩
  | first _ _ _ ih => exact ih
  | collides _ _ _ _ _ _ _ _ ih =>
    rw [List.forall_mem_append]
    exact ⟨ih, List.forall_mem_singleton.mpr rfl⟩

theorem size_add_length_noticesOf {entries : Entries} (hdistinct : (keysOf entries).Nodup) :
    (ofEntries entries).size + (noticesOf entries).length = entries.length := by
  have hsize : (ofEntries entries).size = (gatherAll entries).kept.size := List.length_map ..
  rw [hsize, ← (Ascending.entries_ofList_perm hdistinct).length_eq]
  exact size_add_length_gathered _

/-- **No key is lost in silence.** Where no two keys are the same text, each key of a proposal
either has the change of an id of its own or is told of in a warning, so the changes and the
warnings are together as many as the keys. The keys are gone through in ascending order. One that
spells no id is told of, and so is one that spells the id of an earlier key: the line says that the
canonical entry is kept just if the entry that is held for the id from then on is the one of the
canonical key. -/
theorem every_key_kept_or_told {entries : Entries} (hdistinct : (keysOf entries).Nodup) :
    (∀ depth node, readEntries depth node = .ok entries →
      read depth node = ⟨.ok (ofEntries entries), noticesOf entries⟩) ∧
    (∀ depth node p, (Proposal.read depth node).value = .ok p →
      Proposal.entriesOf depth node = entries →
      p.changes = ofEntries entries ∧ (Proposal.read depth node).notices = noticesOf entries) ∧
    entries.length = (ofEntries entries).size +
      ((noticesOf entries).filter fun n => n.level = .warn).length ∧
    ∃ ascending : Entries, ascending.Perm entries ∧
      ascending.Pairwise (fun a b => a.1 < b.1) ∧ Told ascending (noticesOf entries) := by
  have hasc := (Ascending.ofList entries).ascending
  have htold : Told (Ascending.ofList entries).entries (noticesOf entries) := told_gathered hasc
  refine ⟨fun depth node hread => ?_, fun depth node p hread hentries => ?_, ?_,
    _, Ascending.entries_ofList_perm hdistinct, hasc, htold⟩
  · unfold read
    rw [hread]
  · obtain ⟨-, rfl⟩ := Proposal.read_eq_ok_iff.mp hread
    exact ⟨congrArg ofEntries hentries, congrArg noticesOf hentries⟩
  · rw [List.filter_eq_self.mpr fun n hmem => decide_eq_true (htold.level_eq_warn n hmem),
      size_add_length_noticesOf hdistinct]

/-- Three spellings of one id, of which the canonical one comes second, another id and a key that
spells none. -/
def colliding : Entries :=
  [("x", none), ("1.0", some ⟨some (.text "c")⟩), ("2", some .cleared),
    ("1", some ⟨some (.text "b")⟩), ("01", some ⟨some (.text "a")⟩)]

def collidingNode : Json.Node :=
  (Json.Written.record
    (colliding.map fun entry => (entry.1, entry.2.elim .null Change.written))).node

theorem colliding_keys_told :
    (keysOf colliding).Nodup ∧ readEntries 0 collidingNode = .ok colliding ∧
      (read 0 collidingNode).notices.map Notice.line = [
        "WARN Modified attribute keys collide on id 1 (key \"1\"), keeping the canonical entry",
        "WARN Modified attribute keys collide on id 1 (key \"1.0\"), keeping the canonical entry",
        "WARN Skipping modified attribute with non-numeric id \"x\""] ∧
      5 = (ofEntries colliding).size +
        ((noticesOf colliding).filter fun n => n.level = .warn).length := by
  have hdistinct : (keysOf colliding).Nodup := by decide
  have hentries : readEntries 0 collidingNode = .ok colliding :=
    toOption_eq_some_iff.mp (by decide +kernel)
  obtain ⟨hread, -, hlength, -⟩ := every_key_kept_or_told hdistinct
  refine ⟨hdistinct, hentries, ?_, hlength⟩
  rw [hread 0 collidingNode hentries]
  decide +kernel

end Changes

end AttributeReview
