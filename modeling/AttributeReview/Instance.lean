import AttributeReview.Attribute.Value

/-!
# Instances

The object under review: what it is, how its attributes are defined and what their values are now.
-/

namespace AttributeReview

open Attribute (Kind Value)
open Json (Fault Layout Node Written)

structure Definition where
  id : UInt64
  title : String
  kind : Kind
deriving DecidableEq

/-- The value that an attribute has now, if it has one. -/
structure CurrentValue where
  id : UInt64
  value : Option Value
deriving DecidableEq

/-- What tells an instance from all others. -/
structure Identity where
  type : String
  id : UInt64
deriving DecidableEq

/-- The object under review. An id may stand in several definitions or values; the first counts. -/
structure Instance where
  type : String
  id : UInt64
  definitions : List Definition
  values : List CurrentValue
deriving DecidableEq

namespace Definition

inductive Part where
  | id (n : UInt64)
  | title (s : String)
  | kind (k : Kind)

def layout : Layout Part where
  name := "CustomAttributeDefinition"
  fields := [
    ("id", fun _ node => Part.id <$> node.natural),
    ("title", fun _ node => Part.title <$> node.text),
    ("attribute_type", fun depth node => Part.kind <$> Kind.read depth node)]

def read (depth : Nat) (node : Node) : Except Fault Definition := do
  let read := layout.parts depth node
  let form ← read.ending
  let id ← layout.require "id" form read.parts fun | .id n => some n | _ => none
  let title ← layout.require "title" form read.parts fun | .title s => some s | _ => none
  let kind ← layout.require "attribute_type" form read.parts fun | .kind k => some k | _ => none
  return ⟨id, title, kind⟩

def written (d : Definition) : Written :=
  .record [("id", .number (.natural d.id)), ("title", .text d.title),
    ("attribute_type", d.kind.written)]

end Definition

namespace CurrentValue

inductive Part where
  | id (n : UInt64)
  | value (v : Option Value)

def layout : Layout Part where
  name := "CustomAttributeValue"
  fields := [
    ("custom_attribute_id", fun _ node => Part.id <$> node.natural),
    ("attribute_value", fun depth node => Part.value <$> Node.optional Value.read depth node)]

def read (depth : Nat) (node : Node) : Except Fault CurrentValue := do
  let read := layout.parts depth node
  let form ← read.ending
  let id ← layout.require "custom_attribute_id" form read.parts
    fun | .id n => some n | _ => none
  let value := read.parts.findSome? fun | .value v => some v | _ => none
  return ⟨id, value.join⟩

def written (v : CurrentValue) : Written :=
  .record [("custom_attribute_id", .number (.natural v.id)),
    ("attribute_value", Value.writtenOption v.value)]

end CurrentValue

namespace Identity

inductive Part where
  | type (s : String)
  | id (n : UInt64)

def layout : Layout Part where
  name := "InstanceKey"
  fields := [
    ("type", fun _ node => Part.type <$> node.text),
    ("id", fun _ node => Part.id <$> node.natural)]

def read (depth : Nat) (node : Node) : Except Fault Identity := do
  let read := layout.parts depth node
  let form ← read.ending
  let type ← layout.require "type" form read.parts fun | .type s => some s | _ => none
  let id ← layout.require "id" form read.parts fun | .id n => some n | _ => none
  return ⟨type, id⟩

def written (k : Identity) : Written :=
  .record [("type", .text k.type), ("id", .number (.natural k.id))]

/-- The identity as it stands in summaries and notices. -/
def shown (k : Identity) : String := k.type ++ " #" ++ (Number.natural k.id).text

end Identity

namespace Instance

def identity (i : Instance) : Identity := ⟨i.type, i.id⟩

def bare (type : String) (id : UInt64) : Instance := ⟨type, id, [], []⟩

def addDefinition (i : Instance) (d : Definition) : Instance :=
  { i with definitions := i.definitions ++ [d] }

def addValue (i : Instance) (v : CurrentValue) : Instance :=
  { i with values := i.values ++ [v] }

/-- The definition of an attribute: the first one with its id. -/
def definition? (i : Instance) (id : UInt64) : Option Definition :=
  i.definitions.find? (fun d => d.id = id)

inductive Part where
  | type (s : String)
  | id (n : UInt64)
  | definitions (ds : List Definition)
  | values (vs : List CurrentValue)

def layout : Layout Part where
  name := "CurrentInstance"
  fields := [
    ("type", fun _ node => Part.type <$> node.text),
    ("id", fun _ node => Part.id <$> node.natural),
    ("custom_attribute_definitions",
      fun depth node => Part.definitions <$> Node.items Definition.read depth node),
    ("custom_attribute_values",
      fun depth node => Part.values <$> Node.items CurrentValue.read depth node)]

/-- Reads an instance. One without definitions or values has none. -/
def read (depth : Nat) (node : Node) : Except Fault Instance := do
  let read := layout.parts depth node
  let form ← read.ending
  let type ← layout.require "type" form read.parts fun | .type s => some s | _ => none
  let id ← layout.require "id" form read.parts fun | .id n => some n | _ => none
  let definitions := read.parts.findSome? fun | .definitions ds => some ds | _ => none
  let values := read.parts.findSome? fun | .values vs => some vs | _ => none
  return ⟨type, id, definitions.getD [], values.getD []⟩

def written (i : Instance) : Written :=
  .record [("type", .text i.type), ("id", .number (.natural i.id)),
    ("custom_attribute_definitions", .list (i.definitions.map Definition.written)),
    ("custom_attribute_values", .list (i.values.map CurrentValue.written))]

end Instance

/-- The value of an attribute among some values: the first one with its id. -/
def currentValue? (values : List CurrentValue) (id : UInt64) : Option CurrentValue :=
  values.find? (fun v => v.id = id)

end AttributeReview
