import AttributeReview.Json.Read

/-!
# Reading records

A record with named fields is written as a JSON object or as a JSON array of its fields in order.
`Layout.parts` gives what was read of it, in reading order, up to the first fault; the record is
put together from these parts.
-/

namespace AttributeReview.Json

/-- A record's name and its fields in order, each with the way its value is read. -/
structure Layout (δ : Type) where
  name : String
  fields : List (String × (Nat → Node → Except Fault δ))

/-- The form in which a whole record was written; of a list the number of its items. -/
inductive Form where
  | record
  | list (length : Nat)

/-- What was read of a record, and whether that is the whole of it. -/
structure Parts (δ : Type) where
  parts : List δ
  ending : Except Fault Form

namespace Layout

/-- How the value of a field is read, if the record has the field. -/
def reader? (layout : Layout δ) (name : String) : Option (Nat → Node → Except Fault δ) :=
  layout.fields.lookup name

/-- Reads fields by their names. Fields that the record does not have are passed over. -/
def ofFields (layout : Layout δ) (depth : Nat) (seen : List String) :
    List (Quoted × Node) → List δ × Except Fault Unit
  | [] => ([], .ok ())
  | field :: rest =>
    match field.1.text with
    | .error fault => ([], .error fault)
    | .ok name =>
      match layout.reader? name with
      | none =>
        match field.2.check .pass depth with
        | .error fault => ([], .error fault)
        | .ok () => layout.ofFields depth seen rest
      | some read =>
        if seen.contains name then ([], .error (.duplicateField name))
        else
          match read depth field.2 with
          | .error fault => ([], .error fault)
          | .ok part =>
            let (parts, ending) := layout.ofFields depth (name :: seen) rest
            (part :: parts, ending)

/-- What comes after the last field of a record that is written as a list. -/
def endOfFields : Ending → Except Fault Unit
  | .closed => .ok ()
  | .ended => .error .endInList
  | .commaClosed => .error .trailingComma
  | _ => .error .trailingCharacters

/-- Reads fields by their places in a list. -/
def ofItems (depth : Nat) (ending : Ending) :
    List (String × (Nat → Node → Except Fault δ)) → List Node → List δ × Except Fault Unit
  | [], [] => ([], endOfFields ending)
  | [], _ :: _ => ([], .error .trailingCharacters)
  | _ :: _, [] => ([], ending.checkList .read)
  | (_, read) :: readers, item :: rest =>
    match read depth item with
    | .error fault => ([], .error fault)
    | .ok part =>
      let (parts, ending) := ofItems depth ending readers rest
      (part :: parts, ending)

/-- What is read of a record inside `depth` brackets. -/
def parts (layout : Layout δ) (depth : Nat) : Node → Parts δ
  | .record fields ending =>
    match openBracket .read depth with
    | .error fault => ⟨[], .error fault⟩
    | .ok () =>
      let (parts, read) := layout.ofFields (depth + 1) [] fields
      ⟨parts, do
        read
        ending.checkRecord .read
        return .record⟩
  | .list items ending =>
    match openBracket .read depth with
    | .error fault => ⟨[], .error fault⟩
    | .ok () =>
      -- `ofItems` has seen to the end of the list.
      let (parts, read) := ofItems (depth + 1) ending layout.fields items
      ⟨parts, do
        read
        return .list items.length⟩
  | other => ⟨[], do
    let found ← other.found
    .error (.wrongType found (.record layout.name))⟩

/-- What is said about a missing field: its name, or how many there are. -/
def absent (layout : Layout δ) (field : String) : Form → Fault
  | .record => .missingField field
  | .list length => .wrongLength length layout.name layout.fields.length

/-- The part that `part?` picks out, which the record must have. -/
def require (layout : Layout δ) (field : String) (form : Form) (parts : List δ)
    (part? : δ → Option α) : Except Fault α :=
  match parts.findSome? part? with
  | some a => .ok a
  | none => .error (layout.absent field form)

end Layout

end AttributeReview.Json
