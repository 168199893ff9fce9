import AttributeReview.Review.Row

/-!
# The review panel

A table of rows, and a panel that keeps one up to date. A panel makes its rows anew when it is put
up and when it is told that the proposal for its instance has changed; until both of its inputs are
there it does nothing.
-/

namespace AttributeReview

/-- Some rows and the options that they are made with. -/
structure Table where
  options : Options
  rows : List Row
deriving DecidableEq

namespace Table

def empty (options : Options) : Table := ⟨options, []⟩

def rebuild (t : Table) (values : List CurrentValue) (i : Instance) (changes : Changes) : Table :=
  { t with rows := t.options.rows values i changes }

end Table

/-- A table with the inputs that it is made from, of which either may be missing. -/
structure Panel where
  table : Table
  instance? : Option Instance
  changes? : Option Changes
  /-- The values that the rows were made from. -/
  snapshot : List CurrentValue

/-- What a panel is told of: that it is put up, or that the proposal for an instance has changed. -/
inductive Panel.Event where
  | inserted
  | refresh (identity : Identity)
deriving DecidableEq

/-- What can be done with a panel. -/
inductive Panel.Action where
  | setInstance (i : Option Instance)
  | setChanges (c : Option Changes)
  | handle (e : Panel.Event)
  | build

namespace Panel

def ofOptions (options : Options) : Panel := ⟨.empty options, none, none, []⟩

def setInstance (p : Panel) (i : Option Instance) : Panel := { p with instance? := i }

def setChanges (p : Panel) (c : Option Changes) : Panel := { p with changes? := c }

/-- Makes the rows anew, and says whether it did. -/
def build (p : Panel) : Panel × Bool :=
  match p.instance?, p.changes? with
  | some i, some changes =>
    ({ p with table := p.table.rebuild i.values i changes, snapshot := i.values }, true)
  | _, _ => (p, false)

def buildNotices (p : Panel) : List Notice :=
  match p.instance?, p.changes? with
  | some i, some changes => p.table.options.rowsNotices i.values i changes
  | _, _ => [.inputsMissing]

def shows (p : Panel) (identity : Identity) : Bool :=
  match p.instance? with
  | some i => i.identity == identity
  | none => false

/-- Acts on an event, and says whether the rows were made anew. -/
def handle (p : Panel) : Event → Panel × Bool
  | .inserted => p.build
  | .refresh identity => if p.shows identity then p.build else (p, false)

def handleNotices (p : Panel) : Event → List Notice
  | .inserted => p.buildNotices
  | .refresh identity => if p.shows identity then p.buildNotices else [.refreshIgnored identity]

/-- Does what an action says, and says whether the rows were made anew. -/
def act (p : Panel) : Action → Panel × Bool
  | .setInstance i => (p.setInstance i, false)
  | .setChanges c => (p.setChanges c, false)
  | .handle event => p.handle event
  | .build => p.build

def actNotices (p : Panel) : Action → List Notice
  | .setInstance _ | .setChanges _ => []
  | .handle event => p.handleNotices event
  | .build => p.buildNotices

def run (p : Panel) (actions : List Action) : Panel := actions.foldl (fun p a => (p.act a).1) p

end Panel

end AttributeReview
