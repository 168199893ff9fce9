import AttributeReview.Number

/-!
# Written values

Values to be written as JSON, in a compact form and in a form with one item a line. The second is
given as the sequence of its pieces, in the order in which a writer hands them on; its text is
their concatenation.
-/

namespace AttributeReview.Json

/-- A value to be written. The fields of a record are in the order in which they are written. -/
inductive Written where
  | null
  | boolean (b : Bool)
  | number (n : Number)
  | text (s : String)
  | list (items : List Written)
  | record (fields : List (String × Written))

namespace Written

def hexDigit (n : Nat) : Char := (Nat.toDigits 16 n).headD '0'

/-- The escape of a character, if it has one. -/
def escape? (c : Char) : Option String :=
  match c with
  | '"' => some "\\\""
  | '\\' => some "\\\\"
  | '\x08' => some "\\b"
  | '\x0c' => some "\\f"
  | '\n' => some "\\n"
  | '\r' => some "\\r"
  | '\t' => some "\\t"
  | c =>
    if c.toNat < 32 then
      some (String.ofList ['\\', 'u', '0', '0', hexDigit (c.toNat / 16), hexDigit (c.toNat % 16)])
    else none

/-- A run of characters as a piece; an empty run is none. -/
def run (cs : List Char) : List String := if cs.isEmpty then [] else [String.ofList cs]

/-- The pieces of a text: its escapes and the runs between them. `cs` is the run before, last
character first. -/
def textPieces (cs : List Char) : List Char → List String
  | [] => run cs.reverse
  | c :: rest =>
    match escape? c with
    | some e => run cs.reverse ++ e :: textPieces [] rest
    | none => textPieces (c :: cs) rest

def quoted (s : String) : List String := "\"" :: textPieces [] s.toList ++ ["\""]

def indent (depth : Nat) : List String := List.replicate depth "  "

/-- What comes before an item: a comma if it is not the first, and a new line. -/
def separator (first : Bool) (depth : Nat) : List String :=
  (if first then "\n" else ",\n") :: indent depth

def lastLine (empty : Bool) (depth : Nat) : List String :=
  if empty then [] else "\n" :: indent depth

mutual

/-- The pieces of a value with one item a line, inside `depth` brackets. -/
def pieces (depth : Nat) : Written → List String
  | null => ["null"]
  | boolean b => [if b then "true" else "false"]
  | number n => [n.text]
  | text s => quoted s
  | list items =>
    "[" :: itemPieces (depth + 1) true items ++ lastLine items.isEmpty depth ++ ["]"]
  | record fields =>
    "\x7b" :: fieldPieces (depth + 1) true fields ++ lastLine fields.isEmpty depth ++ ["\x7d"]

def itemPieces (depth : Nat) (first : Bool) : List Written → List String
  | [] => []
  | item :: rest =>
    separator first depth ++ item.pieces depth ++ itemPieces depth false rest

def fieldPieces (depth : Nat) (first : Bool) : List (String × Written) → List String
  | [] => []
  | field :: rest =>
    separator first depth ++ quoted field.1 ++ ": " :: field.2.pieces depth ++
      fieldPieces depth false rest

end

def pretty (w : Written) : String := String.join (w.pieces 0)

mutual

/-- The text on one line, without blanks between the tokens. -/
def compact : Written → String
  | null => "null"
  | boolean b => if b then "true" else "false"
  | number n => n.text
  | text s => String.join (quoted s)
  | list items => "[" ++ compactItems true items ++ "]"
  | record fields => "\x7b" ++ compactFields true fields ++ "\x7d"

def compactItems (first : Bool) : List Written → String
  | [] => ""
  | item :: rest =>
    (if first then "" else ",") ++ item.compact ++ compactItems false rest

def compactFields (first : Bool) : List (String × Written) → String
  | [] => ""
  | field :: rest =>
    (if first then "" else ",") ++ String.join (quoted field.1) ++ ":" ++ field.2.compact ++
      compactFields false rest

end

end Written

end AttributeReview.Json
