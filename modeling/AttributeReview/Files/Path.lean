/-!
# Paths

The text of a path, taken apart at its slashes, and the paths of the directories that lead to it.
-/

namespace AttributeReview.Files

abbrev Path := String

namespace Path

/-- The parts of a path between its slashes, empty ones included. -/
def split : List Char → List (List Char)
  | [] => [[]]
  | '/' :: rest => [] :: split rest
  | c :: rest =>
    match split rest with
    | first :: others => (c :: first) :: others
    | [] => [[c]]

def isAbsolute (p : Path) : Bool := p.toList.head? = some '/'

/-- The path asks for a directory by its last character. -/
def endsInSlash (p : Path) : Bool := p.toList.getLast? = some '/'

/-- The names of a path in order. Repeated slashes count as one. -/
def names (p : Path) : List String :=
  ((split p.toList).filter (fun name => !name.isEmpty)).map String.ofList

/-- The path without what follows its last name: slashes, and dots that stand between slashes.
The path comes last character first, and so does the result. -/
def trimBack : List Char → List Char
  | ['/'] => ['/']
  | '/' :: rest => trimBack rest
  | ['.', '/'] => ['/']
  | '.' :: '/' :: rest => trimBack ('/' :: rest)
  | cs => cs
termination_by cs => cs.length

/-- The path of the directory that holds the last name of a path, if it has a name. -/
def parent? (p : Path) : Option Path :=
  match trimBack p.toList.reverse with
  | [] | ['/'] => none
  | back => some (String.ofList (trimBack (back.dropWhile (· ≠ '/'))).reverse)

/-- The paths of the directories that lead to a path, the nearest first, `count` of them at
most. -/
def ancestors (count : Nat) (p : Path) : List Path :=
  match count, parent? p with
  | count + 1, some parent => parent :: ancestors count parent
  | _, _ => []

end Path

end AttributeReview.Files
