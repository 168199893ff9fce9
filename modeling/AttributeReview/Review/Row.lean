import AttributeReview.Proposal
import AttributeReview.Review.Display

/-!
# Rows

One row for each attribute that a proposal changes: its title, and its value as it is and as it is
proposed. `rows` goes through the changes in ascending order of the ids.
-/

namespace AttributeReview

open Json (Fault Layout Node Written)

/-- The title of an attribute and the texts that show its values. Each side has a list of texts: one
in a row that is made here, any number in one that is read. -/
structure Row where
  title : String
  current : List String
  proposed : List String
deriving DecidableEq

namespace Row

def ofTexts (title current proposed : String) : Row := ⟨title, [current], [proposed]⟩

/-- The text that is shown for the value as it is: the first one. -/
def currentText (r : Row) : String := r.current.headD ""

def proposedText (r : Row) : String := r.proposed.headD ""

/-- The sides differ, as lists of texts. -/
def isChanged (r : Row) : Bool := r.current != r.proposed

inductive Part where
  | title (s : String)
  | current (texts : List String)
  | proposed (texts : List String)

def readTexts (depth : Nat) (node : Node) : Except Fault (List String) :=
  Node.items (fun _ node => node.text) depth node

def layout : Layout Part where
  name := "DiffRow"
  fields := [
    ("attrName", fun _ node => Part.title <$> node.text),
    ("currentVal", fun depth node => Part.current <$> readTexts depth node),
    ("modifiedVal", fun depth node => Part.proposed <$> readTexts depth node)]

def read (depth : Nat) (node : Node) : Except Fault Row := do
  let read := layout.parts depth node
  let form ← read.ending
  let title ← layout.require "attrName" form read.parts fun | .title s => some s | _ => none
  let current ← layout.require "currentVal" form read.parts
    fun | .current texts => some texts | _ => none
  let proposed ← layout.require "modifiedVal" form read.parts
    fun | .proposed texts => some texts | _ => none
  return ⟨title, current, proposed⟩

def written (r : Row) : Written :=
  .record [("attrName", .text r.title), ("currentVal", .list (r.current.map .text)),
    ("modifiedVal", .list (r.proposed.map .text))]

end Row

namespace Options

/-- The row of an attribute; a side that has no value shows as the text for no value. -/
def row (o : Options) (d : Definition) (current : Option CurrentValue) (change : Option Change) :
    Row :=
  .ofTexts d.title (o.display d.kind (current.bind (·.value)))
    (o.display d.kind (change.bind (·.value)))

def rowNotices (o : Options) (d : Definition) (current : Option CurrentValue)
    (change : Option Change) : List Notice :=
  o.displayNotices d.kind (current.bind (·.value)) ++
    o.displayNotices d.kind (change.bind (·.value))

/-- The rows of some changes to an instance with the given values. A change of an attribute without
a definition has no row. -/
def rows (o : Options) (values : List CurrentValue) (i : Instance) (changes : Changes) : List Row :=
  changes.entries.filterMap fun (id, change) =>
    (i.definition? id).map fun d => o.row d (currentValue? values id) (some change)

def rowsNotices (o : Options) (values : List CurrentValue) (i : Instance) (changes : Changes) :
    List Notice :=
  (changes.entries.flatMap fun (id, change) =>
    match i.definition? id with
    | some d => o.rowNotices d (currentValue? values id) (some change)
    | none => [.undefinedSkipped id]) ++
  [.rowsBuilt (o.rows values i changes).length i.identity changes.size]

def diff (o : Options) (i : Instance) (changes : Changes) : List Row := o.rows i.values i changes

end Options

end AttributeReview
