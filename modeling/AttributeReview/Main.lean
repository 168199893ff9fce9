import AttributeReview.Calendar.Instant
import AttributeReview.Command.Program
import Std.Time.DateTime.Timestamp

/-!
# The executable

Looks at the files that the command line can touch, runs the program on what it saw, puts the
changed files back and prints.
-/

namespace AttributeReview

open Files (Entry Location Path Tree)

def locationText (location : Location) : String := "/" ++ "/".intercalate location

/-- What is on disk at a location. -/
def look (location : Location) : IO (Option Entry) := do
  let found ← (IO.FS.realPath (locationText location)).toBaseIO
  match found with
  | .error _ => return none
  | .ok path =>
    if ← path.isDir then return some .directory
    let bytes ← IO.FS.readBinFile path
    return some (.file bytes.toList)

/-- Adds what is on disk along some names. -/
def survey (t : Tree) (here : Location) : List String → IO Tree
  | [] => return t
  | name :: rest => do
    if name = "." then survey t here rest
    else if name = ".." then survey t here.dropLast rest
    else
      match ← look (here ++ [name]) with
      | some .directory => survey (t.put (here ++ [name]) .directory) (here ++ [name]) rest
      | some entry => return t.put (here ++ [name]) entry
      | none => return t

def surveyPath (t : Tree) (p : Path) : IO Tree :=
  survey t (if Path.isAbsolute p then [] else t.workingDirectory) (Path.names p)

/-- The paths that a request can touch. -/
def Command.Request.paths : Command.Request → List Path
  | diff d =>
    [d.instancePath, d.proposalPath] ++ d.output.toList ++ d.optionsPath.toList
  | validate path => [path]
  | _ => []

/-- Puts on disk what differs from what was seen there. -/
def commit (seen new : Tree) : IO Unit :=
  for (location, entry) in new.entries.reverse do
    unless seen.entry? location = some entry do
      match entry with
      | .directory => IO.FS.createDir (locationText location)
      | .file bytes => IO.FS.writeBinFile (locationText location) ⟨bytes.toArray⟩

def timeNow : IO String := do
  let now ← Std.Time.Timestamp.now
  return (Calendar.instantText? now.toNanosecondsSinceUnixEpoch.val).getD ""

def readEnvironment : IO Command.Environment := do
  let terminal ← (← IO.getStdout).isTty
  let colors ← IO.getEnv "CLICOLOR"
  return {
    emptyValue := ← IO.getEnv "PROPOSAL_DIFF_EMPTY_VALUE"
    forceColor := ← IO.getEnv "CLICOLOR_FORCE"
    noColor := ← IO.getEnv "NO_COLOR"
    colorTerminal := terminal && colors != some "0" }

end AttributeReview

open AttributeReview in
def main (args : List String) : IO UInt32 := do
  let environment ← readEnvironment
  let request := Command.Request.ofArgs environment.emptyValue args
  let here := Files.Path.names (toString (← IO.currentDir))
  let mut seen ← survey ⟨[], here⟩ [] here
  for path in request.paths do
    seen ← surveyPath seen path
  let exit := Command.perform seen environment.color (← timeNow) request
  try
    commit seen exit.tree
  catch fault =>
    IO.eprintln ("Error: " ++ toString fault)
    return 1
  IO.print exit.printed
  for complaint in exit.complaint do
    IO.eprintln complaint
  return exit.code.toUInt32
