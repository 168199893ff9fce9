import AttributeReview.Number
import AttributeReview.Text.Quotation

/-!
# What can be wrong with a document

The faults of a JSON document, and what is said about each. A document with several faults is
refused for the first one in reading order.
-/

namespace AttributeReview.Json

/-- What is found at a place of a document. -/
inductive Found where
  | null
  | boolean (b : Bool)
  | number (n : Number)
  | text (s : String)
  | list
  | record

/-- What a reader wants at a place. -/
inductive Wanted where
  | natural
  | text
  | list
  | map
  | record (name : String)

/-- What is wrong with a document: its text, or what it says. -/
inductive Fault where
  | endInValue
  | endInText
  | endInList
  | endInRecord
  | noValue
  | badWord
  | badNumeral
  | outOfRange
  | noColon
  | noListComma
  | noRecordComma
  | trailingComma
  | trailingCharacters
  | keyNotText
  | badEscape
  | controlCharacter
  | loneSurrogate
  | unfinishedPair
  | notUnicode
  | tooDeep
  | wrongType (found : Found) (wanted : Wanted)
  | negative (n : Number)
  | wrongLength (length : Nat) (record : String) (fields : Nat)
  | missingField (name : String)
  | duplicateField (name : String)
  | noVariant (name : String)

def Found.phrase : Found → String
  | null => "null"
  | boolean b => "boolean `" ++ (if b then "true" else "false") ++ "`"
  | number (.float x) => "floating point `" ++ String.ofList x.text ++ "`"
  | number n => "integer `" ++ n.text ++ "`"
  | text s => "string " ++ Text.quote s
  | list => "sequence"
  | record => "map"

def Wanted.phrase : Wanted → String
  | natural => "u64"
  | text => "a string"
  | list => "a sequence"
  | map => "a map"
  | record name => "struct " ++ name

/-- What is said about a fault, its position aside. -/
def Fault.message : Fault → String
  | endInValue => "EOF while parsing a value"
  | endInText => "EOF while parsing a string"
  | endInList => "EOF while parsing a list"
  | endInRecord => "EOF while parsing an object"
  | noValue => "expected value"
  | badWord => "expected ident"
  | badNumeral => "invalid number"
  | outOfRange => "number out of range"
  | noColon => "expected `:`"
  | noListComma => "expected `,` or `]`"
  | noRecordComma => "expected `,` or `\x7d`"
  | trailingComma => "trailing comma"
  | trailingCharacters => "trailing characters"
  | keyNotText => "key must be a string"
  | badEscape => "invalid escape"
  | controlCharacter => "control character (\\u0000-\\u001F) found while parsing a string"
  | loneSurrogate => "lone leading surrogate in hex escape"
  | unfinishedPair => "unexpected end of hex escape"
  | notUnicode => "invalid unicode code point"
  | tooDeep => "recursion limit exceeded"
  | wrongType found wanted => "invalid type: " ++ found.phrase ++ ", expected " ++ wanted.phrase
  | negative n => "invalid value: integer `" ++ n.text ++ "`, expected u64"
  | wrongLength length record fields =>
    "invalid length " ++ toString length ++ ", expected struct " ++ record ++ " with " ++
      toString fields ++ (if fields = 1 then " element" else " elements")
  | missingField name => "missing field `" ++ name ++ "`"
  | duplicateField name => "duplicate field `" ++ name ++ "`"
  | noVariant name => "data did not match any variant of untagged enum " ++ name

end AttributeReview.Json
