import AttributeReview.Command.Diff

/-!
# Command lines

What a command line asks for. Arguments are read from left to right, and the first one that settles
the line, or cannot stand where it stands, decides. An option has a long name, most also a letter;
letters may be joined, and a value may be joined to its option.
-/

namespace AttributeReview.Command

open Files (Path)

/-- What a command line asks for. -/
inductive Request where
  | diff (d : Diff)
  | validate (path : Path)
  | schema (details : Bool)
  | version
  | programVersion
  | help
  | misuse
deriving DecidableEq

/-- The options of all commands. The ones of one command are its `Switches`. -/
inductive Switch where
  | verbose
  | help
  | programVersion
  | instancePath
  | proposalPath
  | output
  | summary
  | emptyValue
  | optionsPath
  | reportPath
  | details
deriving DecidableEq

namespace Switch

/-- A value belongs to the switch: the next argument, or what is joined to it. -/
def takesValue : Switch → Bool
  | instancePath | proposalPath | output | emptyValue | optionsPath | reportPath => true
  | verbose | help | programVersion | summary | details => false

/-- The switch can have the value: a path is not empty. -/
def accepts (s : Switch) (value : String) : Bool := s = emptyValue || !value.isEmpty

end Switch

/-- The switches of a command, by their long names and by their letters. -/
structure Switches where
  long : List (String × Switch)
  letters : List (Char × Switch)

namespace Switches

def shared : Switches :=
  ⟨[("verbose", .verbose), ("help", .help)], [('v', .verbose), ('h', .help)]⟩

/-- The switches of two, of which the first ones count where both have a name. -/
def append (a b : Switches) : Switches := ⟨a.long ++ b.long, a.letters ++ b.letters⟩

def program : Switches := shared.append ⟨[("version", .programVersion)], [('V', .programVersion)]⟩

def diff : Switches :=
  shared.append
    ⟨[("instance", .instancePath), ("proposal", .proposalPath), ("output", .output),
        ("summary", .summary), ("empty-value", .emptyValue), ("config", .optionsPath)],
      [('i', .instancePath), ('p', .proposalPath), ('o', .output), ('c', .optionsPath)]⟩

def validate : Switches := shared.append ⟨[("file", .reportPath)], [('f', .reportPath)]⟩

def schema : Switches := shared.append ⟨[("show", .details)], []⟩

end Switches

/-- The switches that are set, each with its value; one without a value has the empty text. -/
abbrev Settings := List (Switch × String)

/-- An argument by its shape. A lone dash is plain. -/
inductive Argument where
  | plain
  /-- Two dashes, after which there are no switches. -/
  | lastSwitch
  | long (name : String) (value : Option String)
  | letters (cs : List Char)

def Argument.of (arg : String) : Argument :=
  match arg.toList with
  | ['-', '-'] => lastSwitch
  | '-' :: '-' :: cs =>
    let name := cs.takeWhile (· != '=')
    match cs.drop name.length with
    | _ :: value => long (String.ofList name) (some (String.ofList value))
    | [] => long (String.ofList name) none
  | '-' :: c :: cs => letters (c :: cs)
  | _ => plain

/-- The value that a switch takes from the next argument, which does not look like a switch. -/
def nextValue? : List String → Option String
  | arg :: _ => if arg = "-" ∨ arg.toList.head? ≠ some '-' then some arg else none
  | [] => none

namespace Settings

/-- Sets a switch; one that asks for help or for the version settles the line. -/
def set (s : Settings) (switch : Switch) (value : String) : Except Request Settings :=
  match switch with
  | .help => .error .help
  | .programVersion => .error .programVersion
  -- No switch may be set twice.
  | _ => if (s.lookup switch).isSome then .error .misuse else .ok ((switch, value) :: s)

/-- Sets a switch that takes a value: the one joined to it, or else the next argument. Also gives
the number of further arguments that are used up. -/
def setValue (s : Settings) (switch : Switch) (joined : Option String) (rest : List String) :
    Except Request (Settings × Nat) :=
  match joined.orElse fun _ => nextValue? rest with
  | some value =>
    if switch.accepts value then
      (s.set switch value).map (·, if joined.isSome then 0 else 1)
    else .error .misuse
  | none => .error .misuse

/-- Sets the switches that some joined letters name. -/
def setLetters (switches : Switches) (rest : List String) (s : Settings) :
    List Char → Except Request (Settings × Nat)
  | [] => .ok (s, 0)
  | c :: cs =>
    match switches.letters.lookup c with
    | none => .error .misuse
    | some switch =>
      if switch.takesValue then
        let joined :=
          match cs with
          | [] => none
          | '=' :: value => some (String.ofList value)
          | value => some (String.ofList value)
        s.setValue switch joined rest
      else do
        let s ← s.set switch ""
        setLetters switches rest s cs

theorem length_drop_lt (n : Nat) (arg : String) (rest : List String) :
    (rest.drop n).length < (arg :: rest).length :=
  Nat.lt_succ_of_le (List.length_drop ▸ Nat.sub_le ..)

/-- Reads switches up to the first argument that is none, and gives what is left from there. -/
def read (switches : Switches) (s : Settings) : List String →
    Except Request (Settings × List String)
  | [] => .ok (s, [])
  | arg :: rest =>
    match Argument.of arg with
    | .plain => .ok (s, arg :: rest)
    | .lastSwitch => if rest.isEmpty then .ok (s, []) else .error .misuse
    | .letters cs =>
      match setLetters switches rest s cs with
      | .error request => .error request
      | .ok (s, used) => read switches s (rest.drop used)
    | .long name value =>
      match switches.long.lookup name with
      | none => .error .misuse
      | some switch =>
        if switch.takesValue then
          match s.setValue switch value rest with
          | .error request => .error request
          | .ok (s, used) => read switches s (rest.drop used)
        else if value.isSome then .error .misuse
        else
          match s.set switch "" with
          | .error request => .error request
          | .ok s => read switches s rest
termination_by args => args.length
decreasing_by
  · exact length_drop_lt ..
  · exact length_drop_lt ..
  · exact Nat.lt_succ_self _

/-- The settings of a command that takes nothing but switches. -/
def all (switches : Switches) (args : List String) : Except Request Settings := do
  match ← read switches [] args with
  | (s, []) => return s
  | (_, _ :: _) => .error .misuse

def has (s : Settings) (switch : Switch) : Bool := (s.lookup switch).isSome

end Settings

namespace Request

/-- The diff command that some settings ask for. The text for no value may be given from outside;
the summary is printed if nothing is written. -/
def ofDiff (emptyValue : Option String) (s : Settings) : Request :=
  match s.lookup .instancePath, s.lookup .proposalPath with
  | some instancePath, some proposalPath =>
    let output := s.lookup .output
    .diff {
      instancePath, proposalPath, output
      summary := s.has .summary || output.isNone
      emptyValue := (s.lookup .emptyValue).orElse fun _ => emptyValue
      optionsPath := s.lookup .optionsPath }
  | _, _ => .misuse

/-- What a command with the given arguments asks for. -/
def ofCommand (emptyValue : Option String) (name : String) (args : List String) :
    Except Request Request :=
  if name = "diff" then do
    let s ← Settings.all .diff args
    return ofDiff emptyValue s
  else if name = "validate" then do
    let s ← Settings.all .validate args
    match s.lookup .reportPath with
    | some path => return .validate path
    | none => return .misuse
  else if name = "schema" then do
    let s ← Settings.all .schema args
    return .schema (s.has .details)
  else if name = "version" then do
    let _ ← Settings.all .shared args
    return .version
  else if name = "help" then return .help
  else return .misuse

/-- What a whole command line asks for, settled early or not. -/
def ofArgs (emptyValue : Option String) (args : List String) : Request :=
  let request := do
    match ← Settings.read .program [] args with
    | (_, name :: rest) => ofCommand emptyValue name rest
    | (_, []) => return .misuse
  match request with
  | .ok request => request
  | .error request => request

end Request

end AttributeReview.Command
