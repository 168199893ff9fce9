import AttributeReview.Toml.Scalar
import AttributeReview.Toml.Table
import AttributeReview.Toml.Text

/-!
# TOML files

The top table of a file: `table?` takes the lines apart and puts the table together.
-/

namespace AttributeReview.Toml

/-- The greatest number of names in a key. Brackets may be nested as deep. -/
def depthLimit : Nat := 79

def isBareChar (c : Char) : Bool := c.isAlphanum || c == '_' || c == '-'

/-- Takes a name: bare, or a quoted text on one line. -/
def takeName (cs : List Char) : Option (String × List Char) :=
  let bare := cs.takeWhile isBareChar
  if bare.isEmpty then takeLineText cs else some (String.ofList bare, cs.drop bare.length)

/-- Takes a key, its names last first, with the blanks around them. -/
def takeNames (fuel : Nat) (before : List String) (cs : List Char) :
    Option (List String × List Char) :=
  match fuel with
  | 0 => none
  | fuel + 1 => do
    let (name, rest) ← takeName (skipBlanks cs)
    match skipBlanks rest with
    | '.' :: rest => takeNames fuel (name :: before) rest
    | rest => return (name :: before, rest)

/-- Takes a key: the path that leads to it, and its last name. -/
def takeKey (cs : List Char) : Option (List String × String × List Char) := do
  match ← takeNames depthLimit [] cs with
  | (key :: path, rest) => return (path.reverse, key, rest)
  | ([], _) => none

/-- Takes the items of a list and its closing bracket. -/
def takeItems (takeValue : List Char → Option (Value × List Char)) (fuel : Nat) (cs : List Char) :
    Option (List Char) :=
  match fuel, skipLines cs.length cs with
  | _, ']' :: rest => some rest
  | 0, _ => none
  | fuel + 1, cs => do
    let (_, rest) ← takeValue cs
    match skipLines rest.length rest with
    | ',' :: rest => takeItems takeValue fuel rest
    | ']' :: rest => some rest
    | _ => none

/-- Takes a key, the equals sign and a value. -/
def takeAssignment (takeValue : List Char → Option (Value × List Char)) (cs : List Char) :
    Option ((List String × String × Value) × List Char) := do
  let (path, key, rest) ← takeKey cs
  match rest with
  | '=' :: rest =>
    let (value, rest) ← takeValue (skipBlanks rest)
    return ((path, key, value), rest)
  | _ => none

/-- Takes the entries of a table that is written as a value. Its keys obey the rules of all tables,
so it is built up here and then forgotten. -/
def takeEntries (takeValue : List Char → Option (Value × List Char)) (fuel : Nat)
    (entries : Entries) (cs : List Char) : Option (List Char) :=
  match fuel with
  | 0 => none
  | fuel + 1 => do
    let ((path, key, value), rest) ← takeAssignment takeValue cs
    let entries ← Entries.assign key value path entries
    match skipBlanks rest with
    | ',' :: rest => takeEntries takeValue fuel entries rest
    | '\x7d' :: rest => some rest
    | _ => none

def takeInlineTable (takeValue : List Char → Option (Value × List Char)) (cs : List Char) :
    Option (List Char) :=
  match skipBlanks cs with
  | '\x7d' :: rest => some rest
  | cs => takeEntries takeValue (cs.length + 1) [] cs

/-- Takes a value with at most `depth` brackets inside each other. -/
def takeValue (depth : Nat) (cs : List Char) : Option (Value × List Char) :=
  match depth, cs with
  | depth + 1, '[' :: rest =>
    (takeItems (takeValue depth) (rest.length + 1) rest).map (Value.other, ·)
  | depth + 1, '\x7b' :: rest => (takeInlineTable (takeValue depth) rest).map (Value.other, ·)
  | _, '"' :: rest => (takeQuoted ('"' :: rest)).map fun (s, rest) => (Value.text s, rest)
  | _, '\'' :: rest => (takeQuoted ('\'' :: rest)).map fun (s, rest) => (Value.text s, rest)
  | _, cs => (takeScalar cs).map (Value.other, ·)

/-- Takes a header or an assignment. -/
def takeLine : List Char → Option (Line × List Char)
  | '[' :: '[' :: rest => do
    let (path, key, rest) ← takeKey rest
    match rest with
    | ']' :: ']' :: rest => return (.tables path key, rest)
    | _ => none
  | '[' :: rest => do
    let (path, key, rest) ← takeKey rest
    match rest with
    | ']' :: rest => return (.table path key, rest)
    | _ => none
  | cs => do
    let ((path, key, value), rest) ← takeAssignment (takeValue depthLimit) cs
    return (.assign path key value, rest)

/-- Takes the lines of a file, in as many turns as `fuel`. -/
def takeFile (fuel : Nat) (cs : List Char) : Option (List Line) :=
  match fuel, skipLines cs.length cs with
  | _, [] => some []
  | 0, _ => none
  | fuel + 1, cs => do
    let (line, rest) ← takeLine cs
    let rest ← takeLineEnd rest
    let lines ← takeFile fuel rest
    return line :: lines

/-- The top table of a file, if the file is well formed. A byte order mark may come first. -/
def table? (s : String) : Option Entries :=
  let cs :=
    match s.toList with
    | '\ufeff' :: rest => rest
    | cs => cs
  (takeFile (cs.length + 1) cs).bind (build [] [])

end AttributeReview.Toml
