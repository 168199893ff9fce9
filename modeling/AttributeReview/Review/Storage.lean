import AttributeReview.Files.Tree
import AttributeReview.Review.Report
import AttributeReview.Review.Sink
import AttributeReview.Toml.Document

/-!
# Documents in files

Reading instances, proposals, reports and options from a file tree, and writing reports into one.
-/

namespace AttributeReview

open Files (Path Tree)
open Json (Document Node)

/-- Why an input cannot be had from a file. -/
inductive InputFault where
  | notOpened (fault : Files.Fault)
  /-- The file was opened and could not be read. -/
  | notRead (fault : Files.Fault)
  | malformed (fault : Json.Fault)

/-- Why options cannot be had from a file. -/
inductive OptionsFault where
  | notRead (fault : Files.Fault)
  | malformed
  | invalid (fault : Options.Fault)

/-- Why a report cannot be written. -/
inductive OutputFault where
  | notOpened (fault : Files.Fault)
  | notFlushed (fault : Sink.Fault)
  | notWritten (fault : Sink.Fault)
  | emptyPath
  | directory (path : Path)
  | noDirectory (path : Path) (fault : Files.Fault)

def InputFault.message : InputFault → String
  | notOpened fault => "Failed to read input: " ++ fault.message
  | notRead fault => "Failed to parse JSON input: " ++ fault.message
  | malformed fault => "Failed to parse JSON input: " ++ fault.message

/-- What is said about options that could not be read; of a malformed file no more than that. -/
def OptionsFault.message : OptionsFault → String
  | notRead fault => "Failed to read config: " ++ fault.message
  | malformed => "Config TOML parse error"
  | invalid fault => "Invalid configuration: " ++ fault.message

def OutputFault.message : OutputFault → String
  | notOpened fault => "Failed to write file: " ++ fault.message
  | notFlushed fault => "Failed to write file: " ++ fault.message
  | notWritten fault => "Failed to serialize JSON: " ++ fault.message
  | emptyPath => "Invalid output path: Path is empty"
  | directory path => "Invalid output path: Path is a directory: " ++ path
  | noDirectory path fault =>
    "Invalid output path: Cannot create directory " ++ path ++ ": " ++ fault.message

/-! ## Reading -/

/-- The document in a file. A directory can be opened, and fails when it is read. -/
def Files.Tree.document (t : Tree) (p : Path) : Except InputFault Document :=
  match t.find p with
  | .error fault => .error (.notOpened fault)
  | .ok (_, .directory) => .error (.notRead .isDirectory)
  | .ok (_, .file content) => .ok (.ofBytes content)

/-- What comes of reading a document to its end. -/
def finished (document : Document) (value : Except Json.Fault α) : Except InputFault α :=
  (document.whole value).mapError .malformed

/-- Reads an input from a file, and tells of it once it has been read to its end. -/
def Files.Tree.read (t : Tree) (p : Path) (read : Nat → Node → Noted (Except Json.Fault α))
    (loaded : α → Notice) : Noted (Except InputFault α) := do
  Noted.note (.reading p)
  match t.document p with
  | .error fault => return .error fault
  | .ok document =>
    let value ← read 0 document.root
    match finished document value with
    | .error fault => return .error fault
    | .ok a =>
      Noted.note (loaded a)
      return .ok a

def Instance.load (t : Tree) (p : Path) : Noted (Except InputFault Instance) :=
  t.read p (fun depth node => pure (Instance.read depth node))
    fun i => .instanceLoaded i.identity i.definitions.length i.values.length

def Proposal.load (t : Tree) (p : Path) : Noted (Except InputFault Proposal) :=
  t.read p Proposal.read fun proposal => .proposalLoaded proposal.changes.size

def Report.load (t : Tree) (p : Path) : Noted (Except InputFault Report) :=
  t.read p (fun depth node => pure (Report.read depth node))
    fun r => .reportLoaded r.version r.rows.length

namespace Options

/-- The text under a key of a table of options, or what stands for it where the key is missing. -/
def entry (entries : Toml.Entries) (key standard : String) : Except OptionsFault String :=
  match entries.lookup key with
  | none => .ok standard
  | some (.value (.text s)) => .ok s
  | some _ => .error .malformed

/-- The options that the text of a file gives. Other keys in it count for nothing. -/
def ofToml (text : String) : Except OptionsFault Options := do
  match Toml.table? text with
  | none => .error .malformed
  | some entries =>
    let emptyValue ← entry entries "empty_value" standard.emptyValue
    let dateFormat ← entry entries "date_format" standard.dateFormat
    let options : Options := ⟨emptyValue, dateFormat⟩
    options.validate.mapError .invalid
    return options

def load (t : Tree) (p : Path) : Except OptionsFault Options :=
  match t.find p with
  | .error fault => .error (.notRead fault)
  | .ok (_, .directory) => .error (.notRead .isDirectory)
  | .ok (_, .file content) =>
    match Utf8.decode? content with
    | none => .error (.notRead .notText)
    | some text => ofToml text

end Options

/-! ## Writing -/

namespace Report

def document (r : Report) : String := r.written.pretty

/-- Writes a report to a sink, piece by piece, and flushes it. -/
def writeTo (r : Report) (s : Sink) : Except OutputFault Sink := do
  let s ← (s.writeAll (r.written.pieces 0)).mapError .notWritten
  s.flush.mapError .notFlushed

/-- Writes a report through a buffer, as it is written into a file. -/
def writeBuffered (r : Report) (s : Sink) : Except OutputFault Sink := do
  let b ← ((Buffered.ofSink s).writeAll (r.written.pieces 0)).mapError .notWritten
  let b ← b.flush.mapError .notFlushed
  return b.sink

/-- A report can be written to the path, as far as the path by itself tells. -/
def checkPath (t : Tree) (p : Path) : Except OutputFault Unit :=
  if p.isEmpty then .error .emptyPath
  else if t.isDirectory p then .error (.directory p)
  else .ok ()

/-- The directory that has to be made before a file can be written. -/
def missingParent? (t : Tree) (p : Path) : Option Path :=
  match Path.parent? p with
  | some parent => if parent.isEmpty || t.has parent then none else some parent
  | none => none

def makeParent (t : Tree) (p : Path) : Tree × Except OutputFault Unit :=
  match missingParent? t p with
  | none => (t, .ok ())
  | some parent =>
    let (made, result) := t.makeDirectories parent
    (made, result.mapError (.noDirectory parent))

/-- Writes a report into a file, and makes the directories that lead to it. Directories that were
made before a fault stay. -/
def store (r : Report) (t : Tree) (p : Path) : Tree × Except OutputFault Unit :=
  match checkPath t p with
  | .error fault => (t, .error fault)
  | .ok () =>
    match makeParent t p with
    | (made, .error fault) => (made, .error fault)
    | (made, .ok ()) =>
      match made.write p (Utf8.encode r.document) with
      | .error fault => (made, .error (.notOpened fault))
      | .ok written => (written, .ok ())

def storeNotices (r : Report) (t : Tree) (p : Path) : List Notice :=
  let making :=
    match checkPath t p, missingParent? t p with
    | .ok (), some parent => [Notice.creatingParents parent]
    | _, _ => []
  let done :=
    match (r.store t p).2 with
    | .ok () => [Notice.written r.rows.length]
    | .error _ => []
  .writing p :: making ++ done

end Report

end AttributeReview
