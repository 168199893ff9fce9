/-!
# Tables of a TOML file

The table that the lines of a file build up. A table is opened by a header once; a path may lead
through tables that nobody has opened, and these come into being on the way. Dotted keys have
tables of their own, which no header can open.
-/

namespace AttributeReview.Toml

/-- A value: a text, or anything else. -/
inductive Value where
  | text (s : String)
  | other

/-- What brought a table into being. -/
inductive Origin where
  | header
  /-- The path of a header that leads through it. -/
  | path
  /-- A dotted key. -/
  | dotted
deriving DecidableEq

/-- What a key can stand for. -/
inductive Item where
  | value (v : Value)
  | table (origin : Origin) (entries : List (String × Item))
  /-- The tables that headers in double brackets open, last first. -/
  | tables (last : List (String × Item)) (before : List (List (String × Item)))

abbrev Entries := List (String × Item)

namespace Entries

/-- Puts an item in place of the one with its key, or at the end. -/
def set (key : String) (item : Item) : Entries → Entries
  | [] => [(key, item)]
  | entry :: rest =>
    if entry.1 = key then (key, item) :: rest else entry :: set key item rest

/-- Sets a value under a dotted key; none if it cannot be set there. -/
def assign (key : String) (value : Value) : List String → Entries → Option Entries
  | [], entries =>
    match entries.lookup key with
    | none => some (set key (.value value) entries)
    | some _ => none
  | name :: path, entries =>
    match entries.lookup name with
    | none => do
      let inner ← assign key value path []
      return set name (.table .dotted inner) entries
    | some (.table origin inner) =>
      if origin = .header ∨ (path.isEmpty ∧ origin ≠ .dotted) then none
      else do
        let inner ← assign key value path inner
        return set name (.table origin inner) entries
    | some (.tables last before) =>
      if path.isEmpty then none
      else do
        let last ← assign key value path last
        return set name (.tables last before) entries
    | some (.value _) => none

/-- Changes the table at the end of a header's path; none if the path does not lead to a table. -/
def within (edit : Entries → Option Entries) : List String → Entries → Option Entries
  | [], entries => edit entries
  | name :: path, entries =>
    match entries.lookup name with
    | none => do
      let inner ← within edit path []
      return set name (.table .path inner) entries
    | some (.table origin inner) => do
      let inner ← within edit path inner
      return set name (.table origin inner) entries
    | some (.tables last before) => do
      let last ← within edit path last
      return set name (.tables last before) entries
    | some (.value _) => none

/-- Opens the table of a header. One that is only on the path of others can still be opened. -/
def openTable (key : String) (entries : Entries) : Option Entries :=
  match entries.lookup key with
  | none => some (set key (.table .header []) entries)
  | some (.table .path inner) => some (set key (.table .header inner) entries)
  | some _ => none

/-- Opens the next table of a header in double brackets. -/
def openNext (key : String) (entries : Entries) : Option Entries :=
  match entries.lookup key with
  | none => some (set key (.tables [] []) entries)
  | some (.tables last before) => some (set key (.tables [] (last :: before)) entries)
  | some _ => none

end Entries

/-- A line of a file that is no blank and no comment. -/
inductive Line where
  | assign (path : List String) (key : String) (value : Value)
  | table (path : List String) (key : String)
  | tables (path : List String) (key : String)

/-- The table that some lines build up under the header that was read last. -/
def build (header : List String) (entries : Entries) : List Line → Option Entries
  | [] => some entries
  | .assign path key value :: rest => do
    let entries ← Entries.within (Entries.assign key value path) header entries
    build header entries rest
  | .table path key :: rest => do
    let entries ← Entries.within (Entries.openTable key) path entries
    build (path ++ [key]) entries rest
  | .tables path key :: rest => do
    let entries ← Entries.within (Entries.openNext key) path entries
    build (path ++ [key]) entries rest

end AttributeReview.Toml
