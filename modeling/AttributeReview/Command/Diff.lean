import AttributeReview.Review.Panel
import AttributeReview.Review.Storage
import AttributeReview.Review.Summary

/-!
# The diff command

Reads options, an instance and a proposal, makes the report, writes it to a file and prints its
summary. `check` refuses arguments that cannot lead anywhere before any of this is done.
-/

namespace AttributeReview.Command

open Files (Path Tree)

/-- What the command is given: where its inputs are, where the report goes, whether the summary is
printed, and what is said about options. -/
structure Diff where
  instancePath : Path
  proposalPath : Path
  output : Option Path
  summary : Bool
  emptyValue : Option String
  optionsPath : Option Path
deriving DecidableEq

/-- Why the command fails. -/
inductive Fault where
  | noInstance (path : Path)
  | noProposal (path : Path)
  | noOptions (path : Path)
  | badOutput (fault : OutputFault)
  | nothingToDo
  | optionsFailed (path : Path) (fault : OptionsFault)
  | instanceFailed (fault : InputFault)
  | proposalFailed (fault : InputFault)
  | reportFailed (fault : OutputFault)
  | reportUnread (fault : InputFault)

/-- What is said about it; of an input that could not be read only which one it is. -/
def Fault.message : Fault → String
  | noInstance path => "Instance file not found: " ++ path
  | noProposal path => "Proposal file not found: " ++ path
  | noOptions path => "Config file not found: " ++ path
  | badOutput fault => fault.message
  | nothingToDo => "Nothing to do: pass --output and/or --summary"
  | optionsFailed path _ => "Failed to load config " ++ path
  | instanceFailed _ => "Failed to read instance"
  | proposalFailed _ => "Failed to read proposal"
  | reportFailed _ => "Failed to write diff report JSON"
  | reportUnread fault => fault.message

namespace Diff

/-- Refuses arguments that name no files, or ask for nothing. -/
def check (d : Diff) (t : Tree) : Except Fault Unit := do
  unless t.isFile d.instancePath do
    throw (.noInstance d.instancePath)
  unless t.isFile d.proposalPath do
    throw (.noProposal d.proposalPath)
  match d.optionsPath with
  | some path => unless t.isFile path do throw (.noOptions path)
  | none => pure ()
  match d.output with
  | some path => (Report.checkPath t path).mapError .badOutput
  | none => unless d.summary do throw .nothingToDo

/-- The options from the file that is named, and with the text for no value that is given. -/
def options (d : Diff) (t : Tree) : Except Fault Options := do
  let options ←
    match d.optionsPath with
    | some path => (Options.load t path).mapError (.optionsFailed path)
    | none => .ok .standard
  return { options with emptyValue := d.emptyValue.getD options.emptyValue }

/-- The report that a panel with these inputs has to show. -/
def reportOf (options : Options) (time : String) (i : Instance) (proposal : Proposal) : Report :=
  let panel := ((Panel.ofOptions options).setInstance i).setChanges proposal.changes
  .madeAt time i.identity (panel.handle .inserted).1.table.rows

def reportNotices (options : Options) (i : Instance) (proposal : Proposal) : List Notice :=
  (((Panel.ofOptions options).setInstance i).setChanges proposal.changes).handleNotices .inserted

/-- Makes the report. The first input that is bad is the one that is told of. -/
def report (d : Diff) (t : Tree) (time : String) : Noted (Except Fault Report) := do
  match d.options t with
  | .error fault => return .error fault
  | .ok options =>
    Noted.note (.usingOptions options)
    match ← Instance.load t d.instancePath with
    | .error fault => return .error (.instanceFailed fault)
    | .ok i =>
      match ← Proposal.load t d.proposalPath with
      | .error fault => return .error (.proposalFailed fault)
      | .ok proposal =>
        let _ ← (⟨(), reportNotices options i proposal⟩ : Noted Unit)
        return .ok (reportOf options time i proposal)

end Diff

/-- How a command ends. One that cannot lay out what it has to print breaks off: that is no fault of
its inputs, and nobody takes back what was written and printed before. -/
inductive Ending (α : Type) where
  | done (a : α)
  | failed (fault : Fault)
  | aborted

/-- What a command leaves: the files, what it has printed, and how it ended. -/
structure Outcome (α : Type) where
  tree : Tree
  printed : String
  ending : Ending α

def writtenLine (color : Bool) (path : Path) : String :=
  "📝 Diff report written to " ++
    String.ofList (Span.print color (.styled .cyan path)) ++ "\n"

namespace Diff

/-- Prints the summary, if it is asked for, after what has been printed so far. -/
def conclude (d : Diff) (t : Tree) (printed : String) (color : Bool) (r : Report) :
    Outcome Report :=
  if d.summary then
    match r.summary? color with
    | some text => ⟨t, printed ++ text ++ "\n", .done r⟩
    | none => ⟨t, printed, .aborted⟩
  else ⟨t, printed, .done r⟩

/-- Writes the report, if it has a place to go, and then prints. -/
def deliver (d : Diff) (t : Tree) (color : Bool) (r : Report) : Outcome Report :=
  match d.output with
  | none => d.conclude t "" color r
  | some path =>
    match r.store t path with
    | (made, .error fault) => ⟨made, "", .failed (.reportFailed fault)⟩
    | (written, .ok ()) => d.conclude written (writtenLine color path) color r

/-- Makes the report and delivers it. Nothing is written before it is made. -/
def execute (d : Diff) (t : Tree) (time : String) (color : Bool) : Outcome Report :=
  match (d.report t time).value with
  | .error fault => ⟨t, "", .failed fault⟩
  | .ok r => d.deliver t color r

def run (d : Diff) (t : Tree) (time : String) (color : Bool) : Outcome Report :=
  match d.check t with
  | .error fault => ⟨t, "", .failed fault⟩
  | .ok () => d.execute t time color

end Diff

end AttributeReview.Command
