import AttributeReview.Review.Row

/-!
# Reports

A report holds the rows for one instance, with the time at which they were made. It is what is
written to a file and read from it.
-/

namespace AttributeReview

open Json (Fault Layout Node Written)

/-- The rows for an instance, the time as a text, and the version of the form it is written in. -/
structure Report where
  version : String
  generatedAt : String
  identity : Identity
  rows : List Row
deriving DecidableEq

namespace Report

def currentVersion : String := "1.0.0"

def madeAt (time : String) (identity : Identity) (rows : List Row) : Report :=
  ⟨currentVersion, time, identity, rows⟩

def changedCount (r : Report) : Nat := (r.rows.filter Row.isChanged).length

inductive Part where
  | version (s : String)
  | generatedAt (s : String)
  | identity (k : Identity)
  | rows (rs : List Row)

def layout : Layout Part where
  name := "DiffReport"
  fields := [
    ("version", fun _ node => Part.version <$> node.text),
    ("generated_at", fun _ node => Part.generatedAt <$> node.text),
    ("instance", fun depth node => Part.identity <$> Identity.read depth node),
    ("diff", fun depth node => Part.rows <$> Node.items Row.read depth node)]

def read (depth : Nat) (node : Node) : Except Fault Report := do
  let read := layout.parts depth node
  let form ← read.ending
  let version ← layout.require "version" form read.parts fun | .version s => some s | _ => none
  let generatedAt ← layout.require "generated_at" form read.parts
    fun | .generatedAt s => some s | _ => none
  let identity ← layout.require "instance" form read.parts
    fun | .identity k => some k | _ => none
  let rows ← layout.require "diff" form read.parts fun | .rows rs => some rs | _ => none
  return ⟨version, generatedAt, identity, rows⟩

def written (r : Report) : Written :=
  .record [("version", .text r.version), ("generated_at", .text r.generatedAt),
    ("instance", r.identity.written), ("diff", .list (r.rows.map Row.written))]

end Report

end AttributeReview
