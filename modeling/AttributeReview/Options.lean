import AttributeReview.Calendar.Pattern
import AttributeReview.Text.Quotation

/-!
# Options

How values are shown: the text that stands for no value, and the pattern of dates.
-/

namespace AttributeReview

/-- The text for no value and the date format, as they are given. The format may be no pattern: only
options from a file are validated. -/
structure Options where
  emptyValue : String
  dateFormat : String
deriving DecidableEq

namespace Options

def standard : Options := ⟨"—", "%m/%d/%Y"⟩

def checkMark : String := "✓"

inductive Fault where
  | blankFormat
  | badFormat (format : String)
deriving DecidableEq

def Fault.message : Fault → String
  | blankFormat => "date_format is empty"
  | badFormat format => "date_format is not a valid strftime pattern: " ++ format

/-- Refuses a date format that is blank or has a malformed specifier. -/
def validate (o : Options) : Except Fault Unit :=
  if (Text.trim o.dateFormat.toList).isEmpty then .error .blankFormat
  else if (Calendar.Pattern.ofChars? o.dateFormat.toList).isNone then
    .error (.badFormat o.dateFormat)
  else .ok ()

/-- The options as a notice quotes them. -/
def described (o : Options) : String :=
  "DiffConfig \x7b empty_value: " ++ Text.quote o.emptyValue ++ ", date_format: " ++
    Text.quote o.dateFormat ++ " \x7d"

end Options

end AttributeReview
