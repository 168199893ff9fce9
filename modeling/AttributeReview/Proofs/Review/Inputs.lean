import AttributeReview.Proofs.Instance
import AttributeReview.Proofs.Json.Compact
import AttributeReview.Proofs.Proposal
import AttributeReview.Proofs.Review.Storage

/-!
# Documents of instances and proposals

A proposal is written under canonical keys, each of which wins for its own id, so its changes are
read back as they are. With that, instances and proposals are read back from their documents.
-/

namespace AttributeReview

open Attribute (Kind Value idOfKey? keyOfId idOfKey?_keyOfId)
open Json (Document Layout Node Written depthLimit)

variable {depth : Nat}

/-! ## Changes under canonical keys -/

theorem Attribute.keyOfId_injective : Function.Injective keyOfId := by
  intro id other h
  have hsome : some id = some other := by
    rw [← idOfKey?_keyOfId id, ← idOfKey?_keyOfId other, h]
  exact Option.some.inj hsome

namespace Changes

/-- The changes as the entries of a map, each under the canonical key of its id. -/
def toEntries (c : Changes) : Entries := c.entries.map fun e => (keyOfId e.1, some e.2)

theorem keysOf_toEntries (c : Changes) : keysOf c.toEntries = c.keys.map keyOfId := by
  simp [keysOf, toEntries, Ascending.keys]

theorem nodup_keysOf_toEntries (c : Changes) : (keysOf c.toEntries).Nodup := by
  have hkeys : c.keys.Nodup := c.keys_ascending.imp UInt64.ne_of_lt
  rw [keysOf_toEntries]
  exact hkeys.map Attribute.keyOfId_injective

theorem find_toEntries (c : Changes) (id : UInt64) :
    Ascending.find (keyOfId id) c.toEntries = (c.get? id).map some := by
  unfold toEntries Ascending.get?
  induction c.entries with
  | nil => rfl
  | cons e rest ih =>
    rw [List.map_cons, Ascending.find_cons, Ascending.find_cons, ih]
    by_cases h : e.1 = id
    · rw [if_pos (congrArg keyOfId h), if_pos h]
      rfl
    · rw [if_neg fun hkeys => h (Attribute.keyOfId_injective hkeys), if_neg h]

theorem lastUnder_toEntries {c : Changes} {id : UInt64} {value : Option Change} :
    LastUnder c.toEntries (keyOfId id) value ↔ (c.get? id).map some = some value := by
  have hperm := Ascending.find_perm c.toEntries.reverse_perm
    (by rw [List.map_reverse]; exact List.nodup_reverse.mpr c.nodup_keysOf_toEntries) (keyOfId id)
  rw [lastUnder_iff, hperm, find_toEntries]

theorem wins_toEntries_iff {c : Changes} {id : UInt64} {key : String} :
    Wins (keysOf c.toEntries) id key ↔ id ∈ c.keys ∧ key = keyOfId id := by
  rw [keysOf_toEntries]
  constructor
  · rintro ⟨hmem, hspells, -⟩
    obtain ⟨other, hother, rfl⟩ := List.mem_map.mp hmem
    obtain rfl : other = id := Option.some.inj ((idOfKey?_keyOfId other).symm.trans hspells)
    exact ⟨hother, rfl⟩
  · rintro ⟨hmem, rfl⟩
    exact Wins.canonical (List.mem_map_of_mem hmem)

theorem ofEntries_toEntries (c : Changes) : ofEntries c.toEntries = c := by
  apply Ascending.ext_get?
  intro id
  apply Option.ext
  intro change
  simp only [ofEntries_get?_eq_some_iff, wins_toEntries_iff]
  constructor
  · rintro ⟨_, value, ⟨-, rfl⟩, hlast, rfl⟩
    obtain ⟨change, hget, rfl⟩ := Option.map_eq_some_iff.mp (lastUnder_toEntries.mp hlast)
    exact hget
  · intro hget
    have hmem : id ∈ c.keys := Ascending.mem_keys_iff.mpr (by simp [hget])
    exact ⟨_, some change, ⟨hmem, rfl⟩, lastUnder_toEntries.mpr (by rw [hget]; rfl), rfl⟩

end Changes

/-! ## Proposals -/

namespace Change

/-- The value is read back exactly, if there is one. -/
def IsExact (c : Change) : Prop := ∀ value, c.value = some value → value.IsExact

def entries (c : Change) : List (Layout.Entry Part) := [
  ⟨"attribute_value", Value.writtenOption c.value, .value c.value⟩]

theorem reads_entries {c : Change} (h : c.IsExact) : ∀ e ∈ c.entries, e.Reads layout depth := by
  intro e he
  obtain rfl := List.mem_singleton.mp he
  exact Layout.Entry.reads_of rfl (Value.read_writtenOption h)

theorem read_written {c : Change} (h : c.IsExact) (hdepth : depth < depthLimit) :
    read depth c.written.node = .ok c := by
  have hparts := Layout.parts_record hdepth (reads_entries h) (by simp [entries])
  rw [read, show c.written = .record (c.entries.map fun e => (e.name, e.value)) from rfl, hparts]
  rfl

/-- What stands in a map for an entry: null for one without a change. -/
def writtenEntry : Option Change → Written
  | some c => c.written
  | none => .null

theorem read_writtenEntry {entry : Option Change} (h : ∀ c, entry = some c → c.IsExact)
    (hdepth : depth < depthLimit) :
    Node.optional read depth (writtenEntry entry).node = .ok entry := by
  cases entry with
  | none => rfl
  | some c =>
    have hpresent : Node.optional read depth c.written.node =
        (do let a ← read depth c.written.node; return some a) := rfl
    rw [writtenEntry, hpresent, read_written (h c rfl) hdepth]
    rfl

end Change

namespace Proposal

def IsExact (p : Proposal) : Prop := ∀ e ∈ p.changes.entries, e.2.IsExact

theorem readEntries_written {p : Proposal} (h : p.IsExact) (hdepth : depth + 1 < depthLimit) :
    Changes.readEntries depth p.changes.written.node = .ok p.changes.toEntries := by
  have hwritten : p.changes.written =
      .record (p.changes.toEntries.map fun e => (e.1, Change.writtenEntry e.2)) := by
    rw [Changes.written, Changes.toEntries, List.map_map]
    rfl
  have hentries : ∀ e ∈ p.changes.toEntries,
      Node.optional Change.read (depth + 1) (Change.writtenEntry e.2).node = .ok e.2 := by
    intro e he
    obtain ⟨entry, hmem, rfl⟩ := List.mem_map.mp he
    apply Change.read_writtenEntry _ hdepth
    rintro c ⟨⟩
    exact h entry hmem
  rw [hwritten]
  exact Written.read_map (Nat.lt_of_succ_lt hdepth) hentries

def entries (p : Proposal) : List (Layout.Entry Part) := [
  ⟨"custom_attribute_values", p.changes.written, .entries p.changes.toEntries⟩]

theorem reads_entries {p : Proposal} (h : p.IsExact) (hdepth : depth + 1 < depthLimit) :
    ∀ e ∈ p.entries, e.Reads layout depth := by
  intro e he
  obtain rfl := List.mem_singleton.mp he
  exact Layout.Entry.reads_of rfl (readEntries_written h hdepth)

theorem read_written {p : Proposal} (h : p.IsExact) (hdepth : depth + 2 < depthLimit) :
    (read depth p.written.node).value = .ok p := by
  have hparts := Layout.parts_record (by omega) (reads_entries h hdepth) (by simp [entries])
  have hread : (read depth p.written.node).value = .ok ⟨Changes.ofEntries p.changes.toEntries⟩ := by
    rw [read, show p.written = .record (p.entries.map fun e => (e.name, e.value)) from rfl, hparts]
    rfl
  rw [hread, Changes.ofEntries_toEntries]

end Proposal

/-! ## Documents -/

/-- The bytes are the text of a written value, in the compact form or with one item a line. -/
def Json.Written.IsTextOf (w : Written) (bytes : List UInt8) : Prop :=
  bytes = Utf8.encode w.compact ∨ bytes = Utf8.encode w.pretty

theorem Json.Written.ofBytes_of_isTextOf {w : Written} {bytes : List UInt8}
    (h : w.IsTextOf bytes) : Document.ofBytes bytes = ⟨w.node, false⟩ := by
  rcases h with rfl | rfl
  · exact w.ofBytes_compact
  · exact w.ofBytes_pretty

/-- **Round trip.** The document of an instance is read as that instance, and the document of a
proposal as that proposal: the definitions and values in their order, and under each id the same
change, also one that takes a value away. The values may be missing, booleans, texts of any
characters and integers of 64 bits with and without a sign. -/
theorem inputs_written_are_read :
    (∀ (i : Instance) (bytes : List UInt8), i.IsExact → i.written.IsTextOf bytes →
      (Document.ofBytes bytes).read Instance.read = .ok i) ∧
    ∀ (p : Proposal) (bytes : List UInt8), p.IsExact → p.written.IsTextOf bytes →
      Proposal.ofDocument (.ofBytes bytes) = .ok p := by
  refine ⟨fun i bytes hi hbytes => ?_, fun p bytes hp hbytes => ?_⟩
  · rw [Written.ofBytes_of_isTextOf hbytes]
    exact Document.whole_eq_ok_iff.mpr ⟨Instance.read_written hi (by decide), rfl⟩
  · rw [Written.ofBytes_of_isTextOf hbytes]
    exact Document.whole_eq_ok_iff.mpr ⟨Proposal.read_written hp (by decide), rfl⟩

/-- Two definitions of one id, the integers at both ends of their range, and values that count as
absent. -/
def Instance.atLimits : Instance :=
  ⟨"Risk \"7\"", 0xFFFFFFFFFFFFFFFF, [⟨0, "Due", .date⟩, ⟨0, "", .other "date"⟩],
    [⟨0, some (.number (.natural 0xFFFFFFFFFFFFFFFF))⟩,
      ⟨1, some (.number (.negative 0x7FFFFFFFFFFFFFFF))⟩, ⟨1, none⟩, ⟨2, some (.boolean false)⟩]⟩

/-- Ids whose keys come in another order than the ids do. -/
def Proposal.atLimits : Proposal :=
  ⟨⟨[(2, ⟨some (.number (.natural 0))⟩), (10, ⟨none⟩), (0xFFFFFFFFFFFFFFFF, ⟨some (.text "")⟩)],
    by decide⟩⟩

theorem inputs_at_limits_are_read :
    (Instance.atLimits.IsExact ∧
      (Document.ofBytes (Utf8.encode Instance.atLimits.written.compact)).read Instance.read =
        .ok Instance.atLimits) ∧
    Proposal.atLimits.IsExact ∧
      Proposal.ofDocument (.ofBytes (Utf8.encode Proposal.atLimits.written.compact)) =
        .ok Proposal.atLimits := by
  have hinstance : Instance.atLimits.IsExact := by
    refine ⟨?_, ?_⟩
    · simp [Instance.atLimits, Kind.IsNamed]
    · simp [Instance.atLimits, CurrentValue.IsExact, Value.IsExact]
  have hproposal : Proposal.atLimits.IsExact := by
    simp [Proposal.atLimits, Proposal.IsExact, Change.IsExact, Value.IsExact]
  exact ⟨⟨hinstance, inputs_written_are_read.1 _ _ hinstance (Or.inl rfl)⟩,
    hproposal, inputs_written_are_read.2 _ _ hproposal (Or.inl rfl)⟩

end AttributeReview
