/-!
# Texts and blanks of a TOML file

The four forms of a quoted text, and the blanks, comments and line ends between other things. Each
function takes what it is named for from the start of a text and gives back the rest; none means
that the file is malformed.
-/

namespace AttributeReview.Toml

/-- The character may stand in a file as itself: no control character but the tab. -/
def isPrinting (c : Char) : Bool := c == '\t' || (32 ≤ c.toNat && c.toNat != 127)

def skipBlanks (cs : List Char) : List Char := cs.dropWhile fun c => c == ' ' || c == '\t'

/-- Takes a line end of either kind. -/
def takeNewline : List Char → Option (List Char)
  | '\n' :: rest => some rest
  | '\r' :: '\n' :: rest => some rest
  | _ => none

def skipComment : List Char → List Char
  | '#' :: rest => rest.dropWhile isPrinting
  | rest => rest

/-- Takes blanks and a comment up to the end of a line or of the file. -/
def takeLineEnd (cs : List Char) : Option (List Char) :=
  match skipComment (skipBlanks cs) with
  | [] => some []
  | rest => takeNewline rest

/-- Skips blanks, comments and line ends, in as many turns as `fuel`. -/
def skipLines (fuel : Nat) (cs : List Char) : List Char :=
  match fuel with
  | 0 => cs
  | fuel + 1 =>
    let rest := skipComment (skipBlanks cs)
    match takeNewline rest with
    | some next => skipLines fuel next
    | none => rest

def hexDigit? (c : Char) : Option Nat :=
  if '0' ≤ c ∧ c ≤ '9' then some (c.toNat - 48)
  else if 'a' ≤ c ∧ c ≤ 'f' then some (c.toNat - 87)
  else if 'A' ≤ c ∧ c ≤ 'F' then some (c.toNat - 55)
  else none

/-- The character with a number that is given in hexadecimal digits. -/
def numbered? (digits : List Char) : Option Char := do
  let values ← digits.mapM hexDigit?
  let n := values.foldl (fun n d => n * 16 + d) 0
  if n.isValidChar then some (Char.ofNat n) else none

/-- Takes what follows the backslash of an escape. -/
def takeEscape : List Char → Option (Char × List Char)
  | 'b' :: rest => some ('\x08', rest)
  | 't' :: rest => some ('\t', rest)
  | 'n' :: rest => some ('\n', rest)
  | 'f' :: rest => some ('\x0c', rest)
  | 'r' :: rest => some ('\r', rest)
  | '"' :: rest => some ('"', rest)
  | '\\' :: rest => some ('\\', rest)
  | 'u' :: rest =>
    if rest.length < 4 then none else (numbered? (rest.take 4)).map (·, rest.drop 4)
  | 'U' :: rest =>
    if rest.length < 8 then none else (numbered? (rest.take 8)).map (·, rest.drop 8)
  | _ => none

def skipSpace : List Char → List Char
  | ' ' :: rest => skipSpace rest
  | '\t' :: rest => skipSpace rest
  | '\n' :: rest => skipSpace rest
  | '\r' :: '\n' :: rest => skipSpace rest
  | rest => rest

/-- Takes the blanks and line ends that a backslash at the end of a line hides. -/
def takeHiddenLines (cs : List Char) : Option (List Char) :=
  (takeNewline (skipBlanks cs)).map skipSpace

/-- Which of the quoted forms a text has: with escapes or literal, on one line or on several. -/
structure Form where
  quote : Char
  lines : Bool

/-- The number of quotes at the start of a text, five at most. -/
def countQuotes (quote : Char) (cs : List Char) : Nat :=
  ((cs.take 5).takeWhile (· == quote)).length

/-- Takes a text whose opening quotes have been read. Each turn takes at least one character. -/
def takeText (form : Form) (fuel : Nat) (cs : List Char) : Option (List Char × List Char) :=
  match fuel, cs with
  | fuel + 1, c :: rest =>
    if c = form.quote then
      if form.lines then
        -- Up to two quotes before the closing three belong to the text.
        let n := countQuotes form.quote cs
        if n < 3 then (takeText form fuel rest).map fun (text, rest) => (c :: text, rest)
        else some (List.replicate (n - 3) c, cs.drop n)
      else some ([], rest)
    else if c = '\\' ∧ form.quote = '"' then
      match if form.lines then takeHiddenLines rest else none with
      | some rest => takeText form fuel rest
      | none => do
        let (e, rest) ← takeEscape rest
        let (text, rest) ← takeText form fuel rest
        return (e :: text, rest)
    else if isPrinting c then
      (takeText form fuel rest).map fun (text, rest) => (c :: text, rest)
    else if form.lines then do
      let rest ← takeNewline cs
      let (text, rest) ← takeText form fuel rest
      return ('\n' :: text, rest)
    else none
  | _, _ => none

/-- Takes a quoted text on one line. -/
def takeLineText : List Char → Option (String × List Char)
  | c :: rest =>
    if c = '"' ∨ c = '\'' then
      (takeText ⟨c, false⟩ (rest.length + 1) rest).map
        fun (text, rest) => (String.ofList text, rest)
    else none
  | [] => none

/-- Takes a quoted text; three quotes open one on several lines, which starts on the next line if
nothing else follows them. -/
def takeQuoted (cs : List Char) : Option (String × List Char) :=
  match cs with
  | a :: b :: c :: rest =>
    if a = b ∧ b = c then
      let rest := (takeNewline rest).getD rest
      (takeText ⟨a, true⟩ (rest.length + 1) rest).map fun (text, rest) => (String.ofList text, rest)
    else takeLineText cs
  | _ => takeLineText cs

end AttributeReview.Toml
