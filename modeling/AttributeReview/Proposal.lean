import AttributeReview.Ascending
import AttributeReview.Attribute.Id
import AttributeReview.Notice

/-!
# Proposals

The values that a proposal gives to attributes, by attribute id. In a document the ids are the keys
of a map and may be spelled in several ways: the canonical spelling of an id wins over the others,
and of those the least one wins.
-/

namespace AttributeReview

open Attribute (Value)
open Json (Fault Layout Node Parts Written)

/-- What is proposed for one attribute: a value, or that it has none. -/
structure Change where
  value : Option Value
deriving DecidableEq

/-- The changes of a proposal by attribute id, in ascending order of the ids. -/
abbrev Changes := Ascending UInt64 Change

structure Proposal where
  changes : Changes

namespace Change

def cleared : Change := ⟨none⟩

inductive Part where
  | value (v : Option Value)

def layout : Layout Part where
  name := "ModifiedAttribute"
  fields := [
    ("attribute_value", fun depth node => Part.value <$> Node.optional Value.read depth node)]

def read (depth : Nat) (node : Node) : Except Fault Change := do
  let read := layout.parts depth node
  let _ ← read.ending
  return ⟨(read.parts.findSome? fun | .value v => some v).join⟩

def written (c : Change) : Written := .record [("attribute_value", Value.writtenOption c.value)]

def same (c d : Change) : Bool :=
  match c.value, d.value with
  | none, none => true
  | some v, some w => v.same w
  | _, _ => false

end Change

namespace Changes

/-- The entries of a map from ids as they stand in a document. A null entry takes the value
away. -/
abbrev Entries := List (String × Option Change)

def readEntries (depth : Nat) (node : Node) : Except Fault Entries :=
  Node.entries (Node.optional Change.read) depth node

/-- What has been kept of some entries: for each id the change, and whether its key was the
canonical one. -/
structure Gathered where
  kept : Ascending UInt64 (Change × Bool)
  notices : List Notice

/-- Takes one entry. A later entry for an id replaces the earlier one only if its key is canonical
and that of the earlier one is not. -/
def gather (g : Gathered) (entry : String × Option Change) : Gathered :=
  match Attribute.idOfKey? entry.1 with
  | none => ⟨g.kept, g.notices ++ [.keyDropped entry.1]⟩
  | some id =>
    let canonical : Bool := entry.1 = Attribute.keyOfId id
    let change := entry.2.getD .cleared
    match g.kept.get? id with
    | none => ⟨g.kept.insert id (change, canonical), g.notices⟩
    | some (_, keptCanonical) =>
      let replace := canonical && !keptCanonical
      ⟨if replace then g.kept.insert id (change, canonical) else g.kept,
        g.notices ++ [.keysCollide id entry.1 (replace || keptCanonical)]⟩

/-- Gathers some entries in ascending order of their keys; of two with one key the later one
counts. -/
def gatherAll (entries : Entries) : Gathered :=
  (Ascending.ofList entries).entries.foldl gather ⟨Ascending.empty, []⟩

/-- The changes that some entries come to. -/
def ofEntries (entries : Entries) : Changes :=
  (gatherAll entries).kept.mapValues (·.1)

def noticesOf (entries : Entries) : List Notice := (gatherAll entries).notices

/-- Reads the changes from a map by id, and tells which keys count for nothing. -/
def read (depth : Nat) (node : Node) : Noted (Except Fault Changes) :=
  match readEntries depth node with
  | .error fault => ⟨.error fault, []⟩
  | .ok entries => ⟨.ok (ofEntries entries), noticesOf entries⟩

def written (c : Changes) : Written :=
  .record (c.entries.map fun (id, change) => (Attribute.keyOfId id, change.written))

/-- Equality of maps, with numbers compared as numbers. -/
def same (c d : Changes) : Bool :=
  c.size == d.size && (c.entries.zip d.entries).all fun (a, b) => a.1 == b.1 && a.2.same b.2

end Changes

namespace Proposal

inductive Part where
  | entries (es : Changes.Entries)

def layout : Layout Part where
  name := "Proposal"
  fields := [
    ("custom_attribute_values",
      fun depth node => Part.entries <$> Changes.readEntries depth node)]

def entries? (read : Parts Part) : Option Changes.Entries :=
  read.parts.findSome? fun | .entries es => some es

/-- Reads a proposal. Its keys are told of as soon as they have been read, also where something
after them is wrong. -/
def read (depth : Nat) (node : Node) : Noted (Except Fault Proposal) :=
  let read := layout.parts depth node
  let entries := (entries? read).getD []
  ⟨read.ending.map fun _ => ⟨Changes.ofEntries entries⟩, Changes.noticesOf entries⟩

def written (p : Proposal) : Written :=
  .record [("custom_attribute_values", p.changes.written)]

end Proposal

end AttributeReview
