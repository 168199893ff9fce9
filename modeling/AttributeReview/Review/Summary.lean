import AttributeReview.Review.Report

/-!
# The summary of a report

A report as a table on a terminal: a header, a line for each row with the titles in one column, and
a footer that counts. The table is made of spans, some of them styled, and is printed with its
styles or without. A table whose titles take too wide a column cannot be laid out.
-/

namespace AttributeReview

/-- The styles of a summary. -/
inductive Style where
  | bold
  | dim
  | red
  | green
  | cyan
deriving DecidableEq

/-- A text in one style, or in none. -/
structure Span where
  style : Option Style
  text : List Char
deriving DecidableEq

namespace Style

def code : Style → List Char
  | bold => ['1']
  | dim => ['2']
  | red => ['3', '1']
  | green => ['3', '2']
  | cyan => ['3', '6']

def escape : Char := '\x1b'

/-- Turns the style on. -/
def start (s : Style) : List Char := escape :: '[' :: s.code ++ ['m']

def reset : List Char := [escape, '[', '0', 'm']

/-- A text in which the style is turned on again after every place where it is turned off. -/
def resume (s : Style) : List Char → List Char
  | '\x1b' :: '[' :: '0' :: 'm' :: rest => reset ++ s.start ++ s.resume rest
  | c :: rest => c :: s.resume rest
  | [] => []

end Style

namespace Span

def plain (s : String) : Span := ⟨none, s.toList⟩

def styled (style : Style) (s : String) : Span := ⟨some style, s.toList⟩

/-- The text of a span on a terminal with colours, or without any escape sequence. -/
def print (color : Bool) (span : Span) : List Char :=
  match span.style with
  | some style => if color then style.start ++ style.resume span.text ++ Style.reset else span.text
  | none => span.text

end Span

namespace Report

def rule : String := "---------------------------------------------------\n"

def header (r : Report) : List Span :=
  [.plain "\n📝 ", .styled .bold "Proposed Attribute Changes", .plain "\n", .plain rule,
    .plain ("Instance: " ++ r.identity.shown ++ "\n"), .plain rule, .plain "\n"]

/-- The width of the column of titles: that of the longest of them. -/
def titleWidth (rows : List Row) : Nat :=
  rows.foldl (fun width row => max width row.title.toList.length) 0

/-- The width up to which a column can be laid out. -/
def widthLimit : Nat := 65535

/-- The text with blanks up to some width; a text that is wider stays as it is. -/
def padRight (width : Nat) (s : String) : List Char :=
  s.toList ++ List.replicate (width - s.toList.length) ' '

/-- The text in a column of some width. In one that is too wide nothing is laid out, however long
the text itself is. -/
def padRight? (width : Nat) (s : String) : Option (List Char) :=
  if width ≤ widthLimit then some (padRight width s) else none

/-- The line of a row whose title has been padded. -/
def rowSpans (title : List Char) (row : Row) : List Span :=
  let style (s : Style) : Option Style := if row.isChanged then some s else none
  [.plain "  ", ⟨style .bold, title⟩, .plain "  ", ⟨style .red, row.currentText.toList⟩,
    .plain " -> ", ⟨style .green, row.proposedText.toList⟩, .plain "\n"]

/-- The line of a row, with its title in a column of some width. -/
def rowSpans? (width : Nat) (row : Row) : Option (List Span) :=
  (padRight? width row.title).map (rowSpans · row)

/-- The lines of all rows, or a note that there are none. -/
def rowsSpans? (rows : List Row) : Option (List Span) :=
  if rows.isEmpty then some [.styled .dim "  (no custom attribute changes)\n"]
  else (rows.mapM (rowSpans? (titleWidth rows))).map List.flatten

def footer (r : Report) : List Span :=
  [.plain "\n", .plain rule,
    .plain (toString r.rows.length ++ " attribute(s), " ++ toString r.changedCount ++
      " changed\n")]

/-- The spans of a summary, if its table can be laid out. -/
def spans? (r : Report) : Option (List Span) :=
  (rowsSpans? r.rows).map fun rows => r.header ++ rows ++ r.footer

/-- The summary, if its table can be laid out. -/
def summary? (color : Bool) (r : Report) : Option String :=
  r.spans?.map fun spans => String.ofList (spans.flatMap (Span.print color))

/-- As much of the summary as is there to be shown: nothing where there is none. -/
def summary (color : Bool) (r : Report) : String := (r.summary? color).getD ""

end Report

end AttributeReview
