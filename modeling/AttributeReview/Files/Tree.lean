import AttributeReview.Files.Path
import AttributeReview.Text.Utf8

/-!
# File trees

Directories and regular files, as a map from locations to what is there. A path is followed name by
name from the working directory; what goes wrong on the way is told in the words of the system.
-/

namespace AttributeReview.Files

/-- The names that lead from the root to a place. -/
abbrev Location := List String

/-- What there can be at a location. Other kinds of files there are none. -/
inductive Entry where
  | directory
  | file (content : List UInt8)
deriving DecidableEq

/-- The entries below the root, and the directory where a relative path starts. -/
structure Tree where
  entries : List (Location × Entry)
  workingDirectory : Location

/-- What goes wrong with a path or a file. -/
inductive Fault where
  | notFound
  | exists
  | notDirectory
  | isDirectory
  | nameTooLong
  | zeroByte
  | notText
deriving DecidableEq

def Fault.message : Fault → String
  | notFound => "No such file or directory (os error 2)"
  | .exists => "File exists (os error 17)"
  | notDirectory => "Not a directory (os error 20)"
  | isDirectory => "Is a directory (os error 21)"
  | nameTooLong => "File name too long (os error 36)"
  | zeroByte => "file name contained an unexpected NUL byte"
  | notText => "stream did not contain valid UTF-8"

/-- Where a path leads: to an entry, or to a place in a directory that is free. -/
inductive Place where
  | taken (location : Location) (entry : Entry)
  | free (location : Location)

namespace Tree

/-- What is at a location; the root is always there. -/
def entry? (t : Tree) (location : Location) : Option Entry :=
  if location.isEmpty then some .directory else t.entries.lookup location

/-- Puts an entry at a location, in place of the one that was there. -/
def put (t : Tree) (location : Location) (entry : Entry) : Tree :=
  { t with
    entries := (location, entry) :: t.entries.filter fun old => old.1 != location }

/-- Follows names from a location on. Only the last one may be of a file, or of nothing. -/
def walk (t : Tree) (here : Location) : List String → Except Fault Place
  | [] => .ok (.taken here .directory)
  | name :: rest =>
    if name = "." then t.walk here rest
    else if name = ".." then t.walk here.dropLast rest
    else if 255 < name.utf8ByteSize then .error .nameTooLong
    else
      match t.entry? (here ++ [name]) with
      | some .directory => t.walk (here ++ [name]) rest
      | some (.file content) =>
        if rest.isEmpty then .ok (.taken (here ++ [name]) (.file content))
        else .error .notDirectory
      | none => if rest.isEmpty then .ok (.free (here ++ [name])) else .error .notFound

/-- Follows some names of a path, from the place where the path starts. -/
def followNames (t : Tree) (p : Path) (names : List String) : Except Fault Place :=
  if p.toList.contains '\x00' then .error .zeroByte
  else if p.isEmpty then .error .notFound
  else if 4096 ≤ p.utf8ByteSize then .error .nameTooLong
  else t.walk (if Path.isAbsolute p then [] else t.workingDirectory) names

def follow (t : Tree) (p : Path) : Except Fault Place := t.followNames p (Path.names p)

/-- The entry that a path leads to; a path that ends in a slash does not lead to a file. -/
def find (t : Tree) (p : Path) : Except Fault (Location × Entry) := do
  match ← t.follow p with
  | .free _ => .error .notFound
  | .taken location .directory => return (location, .directory)
  | .taken location (.file content) =>
    if Path.endsInSlash p then .error .notDirectory else return (location, .file content)

def isFile (t : Tree) (p : Path) : Bool :=
  match t.find p with
  | .ok (_, .file _) => true
  | _ => false

def isDirectory (t : Tree) (p : Path) : Bool :=
  match t.find p with
  | .ok (_, .directory) => true
  | _ => false

def has (t : Tree) (p : Path) : Bool :=
  match t.find p with
  | .ok _ => true
  | .error _ => false

/-- The location that a file has when it is opened to be written anew. A path that asks for a
directory is refused as soon as the names before its last one have been followed. -/
def target (t : Tree) (p : Path) : Except Fault Location := do
  if Path.endsInSlash p then
    match ← t.followNames p (Path.names p).dropLast with
    | .taken _ .directory => .error .isDirectory
    | .taken _ (.file _) => .error .notDirectory
    | .free _ => .error .notFound
  else
    match ← t.follow p with
    | .taken _ .directory => .error .isDirectory
    | .taken location (.file _) | .free location => return location

/-- Makes a file of the given content, or writes the one that is there anew. -/
def write (t : Tree) (p : Path) (content : List UInt8) : Except Fault Tree := do
  let location ← t.target p
  return t.put location (.file content)

/-- Makes one directory. The directory that holds it has to be there. -/
def makeDirectory (t : Tree) (p : Path) : Except Fault Tree := do
  match ← t.follow p with
  | .taken _ _ => .error .exists
  | .free location => return t.put location .directory

/-- Makes the first of some directories, of which each holds the one before it, and first those of
the others that are missing. What has been made before a fault stays. -/
def makeFirst (t : Tree) : List Path → Tree × Except Fault Unit
  | [] => (t, .ok ())
  | p :: outer =>
    if p.isEmpty then (t, .ok ())
    else
      match t.makeDirectory p with
      | .ok made => (made, .ok ())
      | .error .notFound =>
        match t.makeFirst outer with
        | (made, .error fault) => (made, .error fault)
        | (made, .ok ()) =>
          match made.makeDirectory p with
          | .ok whole => (whole, .ok ())
          -- A path that goes back up may be there once the others have been made.
          | .error fault => (made, if made.isDirectory p then .ok () else .error fault)
      | .error fault => (t, if t.isDirectory p then .ok () else .error fault)

def makeDirectories (t : Tree) (p : Path) : Tree × Except Fault Unit :=
  t.makeFirst (p :: Path.ancestors p.length p)

end Tree

end AttributeReview.Files
