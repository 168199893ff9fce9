import AttributeReview.Command.Line

/-!
# The program

A run of the program as a function: of a file tree, the environment, the time and the command line,
to what is printed, the exit code and the tree afterwards.
-/

namespace AttributeReview.Command

open Files (Path Tree)

/-- What the program takes from its environment, and whether the output goes to a terminal. -/
structure Environment where
  emptyValue : Option String
  forceColor : Option String
  noColor : Option String
  /-- The output goes to a terminal that wants colours. -/
  colorTerminal : Bool

/-- Whether to print in colour. A demand for colour wins over a wish for none. -/
def Environment.color (e : Environment) : Bool :=
  if e.forceColor.any (· != "0") then true
  else if e.noColor.isSome then false
  else e.colorTerminal

def programVersion : String := "0.1.0"

/-- How a run ends: the exit code, what it prints and complains of, and the files afterwards. -/
structure Exit where
  code : UInt8
  printed : String
  complaint : Option String
  tree : Tree

def lines (ls : List String) : String := String.join (ls.map (· ++ "\n"))

def reportLines (r : Report) : List String := [
  "✓ Valid diff report JSON",
  "  Version: " ++ r.version,
  "  Instance: " ++ r.identity.shown,
  "  Generated: " ++ r.generatedAt,
  "  Rows: " ++ toString r.rows.length,
  "  Changed: " ++ toString r.changedCount]

/-- Reads a report and describes it. The heading is printed before the file is looked at. -/
def validate (t : Tree) (path : Path) : Outcome Report :=
  let heading := lines ["Validating diff report: " ++ path]
  match (Report.load t path).value with
  | .error fault => ⟨t, heading, .failed (.reportUnread fault)⟩
  | .ok r => ⟨t, heading ++ lines (reportLines r), .done r⟩

def schemaLines (details : Bool) : List String :=
  ["Proposal Diff Report Schema", "Current Version: " ++ Report.currentVersion, ""] ++
    if details then [
      "Schema Structure:",
      "  version: string          - Schema version (e.g., '1.0.0')",
      "  generated_at: string     - ISO 8601 timestamp",
      "  instance: object         - Instance under review",
      "    type: string           - Object type (e.g., 'Risk')",
      "    id: number             - Object id",
      "  diff: array              - One row per proposed attribute",
      "    attrName: string       - Attribute title",
      "    currentVal: [string]   - Formatted current value",
      "    modifiedVal: [string]  - Formatted proposed value"]
    else ["Use --show for detailed schema information"]

def versionLines : List String := [
  "Proposal Diff v" ++ programVersion,
  "Report Schema: v" ++ Report.currentVersion,
  "",
  "Human-readable diffs of proposed custom attribute changes."]

def usageLines : List String := [
  "Usage: proposal-diff [-v] <diff|validate|schema|version> [options]",
  "  diff -i <file> -p <file> [-o <file>] [--summary] [--empty-value <text>] [-c <file>]",
  "  validate -f <file>",
  "  schema [--show]",
  "  version"]

/-- What is complained of when a command breaks off. -/
def abortMessage : String := "Formatting argument out of range"

/-- The exit of a command. A command that breaks off has an exit code of its own. -/
def Outcome.exit (o : Outcome α) : Exit :=
  match o.ending with
  | .done _ => ⟨0, o.printed, none, o.tree⟩
  | .failed fault => ⟨1, o.printed, some ("Error: " ++ fault.message), o.tree⟩
  | .aborted => ⟨101, o.printed, some abortMessage, o.tree⟩

def perform (t : Tree) (color : Bool) (time : String) : Request → Exit
  | .diff d => (d.run t time color).exit
  | .validate path => (validate t path).exit
  | .schema details => ⟨0, lines (schemaLines details), none, t⟩
  | .version => ⟨0, lines versionLines, none, t⟩
  | .programVersion => ⟨0, lines ["proposal-diff " ++ programVersion], none, t⟩
  | .help => ⟨0, lines usageLines, none, t⟩
  | .misuse => ⟨2, "", some (String.intercalate "\n" usageLines), t⟩

def run (t : Tree) (e : Environment) (time : String) (args : List String) : Exit :=
  perform t e.color time (Request.ofArgs e.emptyValue args)

end AttributeReview.Command
