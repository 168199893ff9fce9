import AttributeReview.Attribute.Value
import AttributeReview.Proofs.Json.Fields

/-!
# Values and kinds that are written and read

A value is read back as itself, no value is told from every value, and a kind is read back from its
name.
-/

namespace AttributeReview.Attribute

open Json (Node Written)

variable {depth : Nat}

namespace Kind

/-- The kind is one that a name stands for: the names of dates and checkboxes stand for no other
kind. -/
def IsNamed (kind : Kind) : Prop := kind ≠ other "Date" ∧ kind ≠ other "Checkbox"

theorem read_written {kind : Kind} (h : kind.IsNamed) :
    read depth kind.written.node = .ok kind := by
  unfold read written
  rw [Written.read_text]
  have hname : ofName kind.name = kind := ofName_name h.1 h.2
  exact congrArg Except.ok hname

end Kind

namespace Value

/-- The value is kept exactly by what is written for it: it is no binary64 number. -/
def IsExact (value : Value) : Prop := ∀ x, value ≠ number (.float x)

theorem read_number {m n : Number} (h : n.numeral.number? = some m) :
    read depth (number n).written.node = .ok (number m) := by
  have hread : n.numeral.read = .ok m := by
    unfold Json.Numeral.read
    rw [h]
  unfold read
  simp only [written, Written.node, Node.check, Json.Numeral.checkIn, Node.found, hread]
  rfl

theorem read_written {value : Value} (h : value.IsExact) :
    read depth value.written.node = .ok value := by
  cases value with
  | boolean b => cases b <;> rfl
  | number n => exact read_number (Number.number?_numeral fun x heq => h x (heq ▸ rfl))
  | text s =>
    unfold read
    simp only [written, Written.node, Node.check, Json.Quoted.checkIn, Node.found,
      Json.Quoted.text_ofText]
    rfl

theorem read_writtenOption {value : Option Value} (h : ∀ v, value = some v → v.IsExact) :
    Node.optional read depth (writtenOption value).node = .ok value := by
  cases value with
  | none => rfl
  | some v =>
    have hread : read depth v.written.node = .ok v := read_written (h v rfl)
    have hpresent : Node.optional read depth v.written.node =
        (do let a ← read depth v.written.node; return some a) := by
      cases v with
      | boolean b => cases b <;> rfl
      | number n => rfl
      | text s => rfl
    rw [writtenOption, hpresent, hread]
    rfl

end Value

end AttributeReview.Attribute
