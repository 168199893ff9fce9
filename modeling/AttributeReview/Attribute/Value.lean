import AttributeReview.Json.Fields
import AttributeReview.Json.Written

/-!
# Attribute values and kinds

The value of an attribute is a boolean, a number or a text. Its declared kind says how the value
is shown; only dates and checkboxes are shown in a way of their own.
-/

namespace AttributeReview.Attribute

open Json (Fault Node Written)

/-- The declared kind of an attribute. The kinds that are shown like any text are told apart only by
their names. -/
inductive Kind where
  | date
  | checkbox
  | other (name : String)
deriving DecidableEq

namespace Kind

/-- The kind that a name declares; no name is refused. -/
def ofName (name : String) : Kind :=
  if name = "Date" then date else if name = "Checkbox" then checkbox else other name

def name : Kind → String
  | date => "Date"
  | checkbox => "Checkbox"
  | other name => name

theorem ofName_name {kind : Kind} (hd : kind ≠ other "Date") (hc : kind ≠ other "Checkbox") :
    ofName kind.name = kind := by
  cases kind with
  | date => decide
  | checkbox => decide
  | other n =>
    have hd : n ≠ "Date" := fun h => hd (h ▸ rfl)
    have hc : n ≠ "Checkbox" := fun h => hc (h ▸ rfl)
    simp [ofName, name, hd, hc]

def read (_ : Nat) (node : Node) : Except Fault Kind := do
  let name ← node.text
  return ofName name

def written (kind : Kind) : Written := .text kind.name

end Kind

/-- The value of an attribute, as it stands in a document. -/
inductive Value where
  | boolean (b : Bool)
  | number (n : Number)
  | text (s : String)
deriving DecidableEq

namespace Value

/-- The value counts as present: `false`, zero and the empty text do not. -/
def isPresent : Value → Bool
  | boolean b => b
  | number n => !n.isZero
  | text s => s ≠ ""

/-- The value in the words of a document, with a text as it is. -/
def shown : Value → String
  | boolean b => if b then "true" else "false"
  | number n => n.text
  | text s => s

/-- The value with its type, as a notice quotes it. -/
def described : Value → String
  | boolean b => "Bool(" ++ (if b then "true" else "false") ++ ")"
  | number n => "Number(Number(" ++ n.text ++ "))"
  | text s => "Text(" ++ Text.quote s ++ ")"

/-- Equality of values, with numbers compared as numbers. -/
def same : Value → Value → Bool
  | boolean a, boolean b => a == b
  | number m, number n => m.same n
  | text s, text t => s == t
  | _, _ => false

/-- Reads a value. A list or a record is read to its end before it is refused. -/
def read (depth : Nat) (node : Node) : Except Fault Value := do
  node.check .read depth
  match ← node.found with
  | .boolean b => return boolean b
  | .number n => return number n
  | .text s => return text s
  | .null | .list | .record => .error (.noVariant "AttributeValue")

def written : Value → Written
  | boolean b => .boolean b
  | number n => .number n
  | text s => .text s

def writtenOption : Option Value → Written
  | some v => v.written
  | none => .null

end Value

end AttributeReview.Attribute
