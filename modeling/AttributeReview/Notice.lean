import AttributeReview.Instance
import AttributeReview.Options

/-!
# Notices

What the library tells about its work while it does it. A notice has a level and a message; the
work comes to the same with and without anybody who listens.
-/

namespace AttributeReview

/-- How much a notice matters. -/
inductive Level where
  | debug
  | info
  | warn
deriving DecidableEq

def Level.name : Level → String
  | debug => "DEBUG"
  | info => "INFO"
  | warn => "WARN"

/-- What can be told of, with what is said about it. -/
inductive Notice where
  | reading (path : String)
  | instanceLoaded (identity : Identity) (definitions values : Nat)
  | proposalLoaded (changes : Nat)
  | reportLoaded (version : String) (rows : Nat)
  | keyDropped (key : String)
  /-- A key of a proposal that spells the id of an earlier one. -/
  | keysCollide (id : UInt64) (key : String) (canonicalKept : Bool)
  | dateUnrecognized (value : Attribute.Value)
  | undefinedSkipped (id : UInt64)
  | rowsBuilt (rows : Nat) (identity : Identity) (changes : Nat)
  | refreshIgnored (identity : Identity)
  | inputsMissing
  | usingOptions (options : Options)
  | writing (path : String)
  | creatingParents (path : String)
  | written (rows : Nat)
deriving DecidableEq

namespace Notice

def level : Notice → Level
  | keyDropped _ | keysCollide _ _ _ | dateUnrecognized _ => .warn
  | writing _ | written _ => .info
  | _ => .debug

def message : Notice → String
  | reading path => "Reading JSON from: " ++ path
  | instanceLoaded identity definitions values =>
    "Instance loaded: " ++ identity.shown ++ " (" ++ toString definitions ++ " definitions, " ++
      toString values ++ " values)"
  | proposalLoaded changes => "Proposal loaded: " ++ toString changes ++ " modified attributes"
  | reportLoaded version rows =>
    "Report loaded: version " ++ version ++ ", " ++ toString rows ++ " rows"
  | keyDropped key => "Skipping modified attribute with non-numeric id " ++ Text.quote key
  | keysCollide id key canonicalKept =>
    "Modified attribute keys collide on id " ++ (Number.natural id).text ++ " (key " ++
      Text.quote key ++ "), keeping the " ++ (if canonicalKept then "canonical" else "first") ++
      " entry"
  | dateUnrecognized value => "Unrecognized date value " ++ value.described ++ ", showing as-is"
  | undefinedSkipped id =>
    "No definition for custom attribute " ++ (Number.natural id).text ++ ", skipping"
  | rowsBuilt rows identity changes =>
    "Built " ++ toString rows ++ " diff rows for " ++ identity.shown ++ " (" ++ toString changes ++
      " proposed)"
  | refreshIgnored identity => "Ignoring refresh for " ++ identity.shown
  | inputsMissing => "Diff inputs not ready, skipping recompute"
  | usingOptions options => "Rendering options: " ++ options.described
  | writing path => "Writing diff report to: " ++ path
  | creatingParents path => "Creating parent directories: " ++ path
  | written rows => "Diff report written (" ++ toString rows ++ " rows)"

def line (n : Notice) : String := n.level.name ++ " " ++ n.message

end Notice

/-- A result together with the notices given on the way to it, first one first. -/
structure Noted (α : Type) where
  value : α
  notices : List Notice

namespace Noted

def bind (x : Noted α) (f : α → Noted β) : Noted β :=
  ⟨(f x.value).value, x.notices ++ (f x.value).notices⟩

instance : Monad Noted where
  pure a := ⟨a, []⟩
  bind := bind

def note (n : Notice) : Noted Unit := ⟨(), [n]⟩

@[simp] theorem value_pure (a : α) : (pure a : Noted α).value = a := rfl

@[simp] theorem value_bind (x : Noted α) (f : α → Noted β) : (x >>= f).value = (f x.value).value :=
  rfl

@[simp] theorem notices_pure (a : α) : (pure a : Noted α).notices = [] := rfl

@[simp] theorem notices_bind (x : Noted α) (f : α → Noted β) :
    (x >>= f).notices = x.notices ++ (f x.value).notices := rfl

end Noted

end AttributeReview
