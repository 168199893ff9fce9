import AttributeReview.Json.Token

/-!
# Documents as trees

The tree of a document: values, lists and records as far as they were read, each bracket with the
way it ended. A document that breaks off has a tree too, and the place where it broke off is in it.
The tree is built token by token; `State` is what has been read and what is due next.
-/

namespace AttributeReview.Json

/-- How a bracket ends. -/
inductive Ending where
  | closed
  /-- The document ends where a separator or the bracket was due. -/
  | ended
  /-- Something else stands where a separator or the bracket was due. -/
  | noSeparator
  /-- A comma stands before the closing bracket. -/
  | commaClosed
  /-- The document ends after a comma. -/
  | commaEnded
  /-- Something other than a quoted text stands where a key was due. -/
  | noKey
deriving DecidableEq

/-- The tree of a value. A broken one stands where no value could be read. -/
inductive Node where
  | word (w : Word)
  | numeral (n : Numeral)
  | quoted (q : Quoted)
  | broken (b : Break)
  | list (items : List Node) (ending : Ending)
  | record (fields : List (Quoted × Node)) (ending : Ending)

/-- A bracket around the place where a value is due: what it holds before, last first. -/
inductive Frame where
  | list (items : List Node)
  | record (fields : List (Quoted × Node)) (key : Quoted)

/-- What comes before the next item of a list or a record. -/
inductive Before where
  | bracket
  | item
  | comma

/-- What has been read, and what is due next: a value, more of a list or a record, or a colon. The
items read so far are last first. -/
inductive State where
  | value (frames : List Frame)
  | inList (frames : List Frame) (items : List Node) (before : Before)
  | inRecord (frames : List Frame) (fields : List (Quoted × Node)) (before : Before)
  | colon (frames : List Frame) (fields : List (Quoted × Node)) (key : Quoted)
  | done (node : Node)

namespace State

/-- Puts a value at the place that is due. -/
def deliver (node : Node) : List Frame → State
  | [] => .done node
  | .list items :: frames => .inList frames (node :: items) .item
  | .record fields key :: frames => .inRecord frames ((key, node) :: fields) .item

def closeList (frames : List Frame) (items : List Node) (ending : Ending) : State :=
  deliver (.list items.reverse ending) frames

def closeRecord (frames : List Frame) (fields : List (Quoted × Node)) (ending : Ending) : State :=
  deliver (.record fields.reverse ending) frames

/-- The tree of a document that goes no further than a place in it. -/
def abandon (node : Node) : List Frame → Node
  | [] => node
  | .list items :: frames => abandon (.list (node :: items).reverse .ended) frames
  | .record fields key :: frames => abandon (.record ((key, node) :: fields).reverse .ended) frames

/-- The tree of a document that ends here. -/
def finish : State → Node
  | value frames => abandon (.broken .ended) frames
  | inList frames items .comma => abandon (.list items.reverse .commaEnded) frames
  | inList frames items _ => abandon (.list items.reverse .ended) frames
  | inRecord frames fields .comma => abandon (.record fields.reverse .commaEnded) frames
  | inRecord frames fields _ => abandon (.record fields.reverse .ended) frames
  | colon frames fields key =>
    abandon (.record ((key, .broken .endedBeforeColon) :: fields).reverse .ended) frames
  | done node => node

/-- The tree of a document in which a separator or bracket stands where it cannot. -/
def refuse : State → Token → Node
  | value frames, _ => abandon (.broken .stray) frames
  | inList frames items .item, _ => abandon (.list items.reverse .noSeparator) frames
  | inList frames items .comma, .closeList => abandon (.list items.reverse .commaClosed) frames
  | inList frames items _, _ => abandon (.broken .stray) (.list items :: frames)
  | inRecord frames fields .item, _ => abandon (.record fields.reverse .noSeparator) frames
  | inRecord frames fields .comma, .closeRecord =>
    abandon (.record fields.reverse .commaClosed) frames
  | inRecord frames fields _, _ => abandon (.record fields.reverse .noKey) frames
  | colon frames fields key, _ =>
    abandon (.record ((key, .broken .noColon) :: fields).reverse .ended) frames
  | done node, _ => node

/-- Takes the next token where a value is due. -/
def takeValue (frames : List Frame) : Token → Option State
  | .openList => some (.inList frames [] .bracket)
  | .openRecord => some (.inRecord frames [] .bracket)
  | .word w => some (deliver (.word w) frames)
  | .numeral n => some (deliver (.numeral n) frames)
  | .quoted q => some (deliver (.quoted q) frames)
  | .broken b => some (deliver (.broken b) frames)
  | .closeList | .closeRecord | .comma | .colon => none

/-- Takes the next token; none if it cannot stand here. -/
def take : State → Token → Option State
  | value frames, token => takeValue frames token
  | inList frames items .bracket, .closeList => some (closeList frames items .closed)
  | inList frames items .item, .closeList => some (closeList frames items .closed)
  | inList frames items .item, .comma => some (.inList frames items .comma)
  | inList _ _ .item, _ => none
  | inList frames items _, token => takeValue (.list items :: frames) token
  | inRecord frames fields .bracket, .closeRecord => some (closeRecord frames fields .closed)
  | inRecord frames fields .item, .closeRecord => some (closeRecord frames fields .closed)
  | inRecord frames fields .item, .comma => some (.inRecord frames fields .comma)
  | inRecord _ _ .item, _ => none
  | inRecord frames fields _, .quoted key => some (.colon frames fields key)
  | inRecord _ _ _, _ => none
  | colon frames fields key, .colon => some (.value (.record fields key :: frames))
  | colon _ _ _, _ => none
  | done _, _ => none

/-- Reads a document to the end of its value. -/
def run : State → List Token → Node × List Token
  | done node, tokens => (node, tokens)
  | state, [] => (state.finish, [])
  | state, token :: tokens =>
    match state.take token with
    | some next => run next tokens
    | none => (state.refuse token, [])

end State

/-- The tree of a document, and whether anything but blanks follows its value. -/
structure Document where
  root : Node
  trailing : Bool

def Document.ofBytes (bytes : List UInt8) : Document :=
  let (root, rest) := (State.value []).run (Token.all bytes)
  ⟨root, !rest.isEmpty⟩

end AttributeReview.Json
