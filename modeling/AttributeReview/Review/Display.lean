import AttributeReview.Calendar.Reading
import AttributeReview.Calendar.Rendering
import AttributeReview.Notice

/-!
# Values as they are shown

The text that shows a value of a given kind. A value that does not count as present shows as the
text for no value, whatever its kind.
-/

namespace AttributeReview

open Attribute (Kind Value)

namespace Attribute.Value

/-- The date that a value stands for: a text names one, and a number counts milliseconds from the
start of 1970. -/
def date? : Value → Option Date
  | text s => Calendar.readDate s
  | number n => Date.ofEpochMillis? n.toInt64
  | boolean _ => none

/-- The date that a value stands for, in a format; none if there is no such date, or if the format
has no text for it. -/
def dateText? (value : Value) (format : String) : Option String := do
  let date ← value.date?
  let items ← Calendar.Pattern.ofChars? format.toList
  let text ← Calendar.render date items
  return String.ofList text

/-- The value checks a checkbox. -/
def isChecked : Value → Bool
  | boolean b => b
  | text s => s = "1"
  | number _ => false

end Attribute.Value

namespace Options

/-- The text that shows a value that counts as present. A date that cannot be shown as one shows as
any other value. -/
def showPresent (o : Options) (kind : Kind) (value : Value) : String :=
  match kind with
  | .date => (value.dateText? o.dateFormat).getD value.shown
  | .checkbox => if value.isChecked then checkMark else o.emptyValue
  | .other _ => value.shown

/-- The text that shows a value of a kind, or that there is none. -/
def display (o : Options) (kind : Kind) : Option Value → String
  | some value => if value.isPresent then o.showPresent kind value else o.emptyValue
  | none => o.emptyValue

def displayNotices (o : Options) (kind : Kind) : Option Value → List Notice
  | some value =>
    if value.isPresent && kind == .date && (value.dateText? o.dateFormat).isNone then
      [.dateUnrecognized value]
    else []
  | none => []

end Options

end AttributeReview
