import AttributeReview.Json.Node

/-!
# Reading values

What is read at a place of a document, with the first fault in reading order where something is
wrong. A value that nobody asks for is passed over: its brackets and tokens are checked, its
numbers and texts are not.
-/

namespace AttributeReview.Json

/-- A value is read, or only passed over. -/
inductive Mode where
  | read
  | pass
deriving DecidableEq

/-- How many brackets may be open at once where a value is read. -/
def depthLimit : Nat := 127

/-- The fault of something that is no value. -/
def Break.fault (mode : Mode) : Break → Fault
  | ended => .endInValue
  | stray => .noValue
  | badWord => .badWord
  | badNumeral atEnd => if atEnd && mode = .read then .endInValue else .badNumeral
  | endedBeforeColon => .endInRecord
  | noColon => .noColon

namespace Ending

/-- The fault of a list that does not end with its bracket. -/
def checkList (mode : Mode) : Ending → Except Fault Unit
  | closed => .ok ()
  | ended => .error .endInList
  | noSeparator | noKey => .error .noListComma
  | commaClosed => .error (if mode = .read then .trailingComma else .noValue)
  | commaEnded => .error .endInValue

def checkRecord (mode : Mode) : Ending → Except Fault Unit
  | closed => .ok ()
  | ended => .error .endInRecord
  | noSeparator => .error .noRecordComma
  -- Where the record is only passed over, a key is looked for as soon as there is a comma.
  | commaClosed => .error (if mode = .read then .trailingComma else .keyNotText)
  | commaEnded => .error (if mode = .read then .endInValue else .endInRecord)
  | noKey => .error .keyNotText

end Ending

def Quoted.checkIn (mode : Mode) (q : Quoted) : Except Fault Unit :=
  match mode with
  | .read => do
    let _ ← q.text
    return ()
  | .pass => q.check

def Numeral.read (n : Numeral) : Except Fault Number :=
  match n.number? with
  | some x => .ok x
  | none => .error .outOfRange

def Numeral.checkIn (mode : Mode) (n : Numeral) : Except Fault Unit :=
  match mode with
  | .read => do
    let _ ← n.read
    return ()
  | .pass => .ok ()

/-- A bracket opens inside `depth` others. -/
def openBracket (mode : Mode) (depth : Nat) : Except Fault Unit :=
  if mode = .read ∧ depthLimit ≤ depth then .error .tooDeep else .ok ()

mutual

/-- Checks a whole value that is read, or passed over, inside `depth` brackets. -/
def Node.check (mode : Mode) (depth : Nat) : Node → Except Fault Unit
  | .word _ => .ok ()
  | .numeral n => n.checkIn mode
  | .quoted q => q.checkIn mode
  | .broken b => .error (b.fault mode)
  | .list items ending => do
    openBracket mode depth
    checkItems mode (depth + 1) items
    ending.checkList mode
  | .record fields ending => do
    openBracket mode depth
    checkFields mode (depth + 1) fields
    ending.checkRecord mode

def checkItems (mode : Mode) (depth : Nat) : List Node → Except Fault Unit
  | [] => .ok ()
  | item :: rest => do
    item.check mode depth
    checkItems mode depth rest

def checkFields (mode : Mode) (depth : Nat) : List (Quoted × Node) → Except Fault Unit
  | [] => .ok ()
  | field :: rest => do
    field.1.checkIn mode
    field.2.check mode depth
    checkFields mode depth rest

end

namespace Node

/-- What is found at a place; of a list or a record only the bracket is read. -/
def found : Node → Except Fault Found
  | word .null => .ok .null
  | word .yes => .ok (.boolean true)
  | word .no => .ok (.boolean false)
  | numeral n => do
    let x ← n.read
    return .number x
  | quoted q => do
    let s ← q.text
    return .text s
  | broken b => .error (b.fault .read)
  | list _ _ => .ok .list
  | record _ _ => .ok .record

def text (node : Node) : Except Fault String := do
  match ← node.found with
  | .text s => return s
  | other => .error (.wrongType other .text)

def natural (node : Node) : Except Fault UInt64 := do
  match ← node.found with
  | .number (.natural n) => return n
  | .number (.negative n) => .error (.negative (.negative n))
  | other => .error (.wrongType other .natural)

def itemsWith (read : Node → Except Fault α) : List Node → Except Fault (List α)
  | [] => .ok []
  | item :: rest => do
    let a ← read item
    let as ← itemsWith read rest
    return a :: as

/-- Reads a list, its items with `read`. -/
def items (read : Nat → Node → Except Fault α) (depth : Nat) : Node → Except Fault (List α)
  | list items ending => do
    openBracket .read depth
    let as ← itemsWith (read (depth + 1)) items
    ending.checkList .read
    return as
  | other => do
    let found ← other.found
    .error (.wrongType found .list)

/-- Reads each of some entries: the key as a text, then the value with `read`. -/
def entriesWith (read : Node → Except Fault α) :
    List (Quoted × Node) → Except Fault (List (String × α))
  | [] => .ok []
  | entry :: rest => do
    let key ← entry.1.text
    let a ← read entry.2
    let as ← entriesWith read rest
    return (key, a) :: as

/-- Reads a map from texts: its entries in the order of the document. -/
def entries (read : Nat → Node → Except Fault α) (depth : Nat) :
    Node → Except Fault (List (String × α))
  | record fields ending => do
    openBracket .read depth
    let as ← entriesWith (read (depth + 1)) fields
    ending.checkRecord .read
    return as
  | other => do
    let found ← other.found
    .error (.wrongType found .map)

/-- Reads a value with `read`, or a null, which stands for none. -/
def optional (read : Nat → Node → Except Fault α) (depth : Nat) :
    Node → Except Fault (Option α)
  | word .null => .ok none
  | node => do
    let a ← read depth node
    return some a

end Node

/-- What comes of reading the value of a document, after which nothing may follow. -/
def Document.whole (document : Document) (value : Except Fault α) : Except Fault α := do
  let a ← value
  if document.trailing then .error .trailingCharacters else .ok a

def Document.read (document : Document) (read : Nat → Node → Except Fault α) : Except Fault α :=
  document.whole (read 0 document.root)

end AttributeReview.Json
