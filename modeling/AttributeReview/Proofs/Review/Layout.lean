import AttributeReview.Proofs.Review.Colors

/-!
# The table of a summary

Without colors a summary is a heading, one segment for each row, and a footer that counts the
segments. The titles stand in one column, as wide as the longest of them, and the values behind it.
-/

namespace AttributeReview

open Report (titleWidth)

/-! ## Segments -/

/-- The row of a table whose titles take `width` characters. -/
def Row.segment (width : Nat) (row : Row) : String :=
  "  " ++ row.title ++ String.ofList (List.replicate (width - row.title.length) ' ') ++ "  " ++
    row.currentText ++ " -> " ++ row.proposedText ++ "\n"

namespace Row

variable {width : Nat} {row : Row}

theorem toList_segment : (row.segment width).toList =
    [' ', ' '] ++ row.title.toList ++ List.replicate (width - row.title.length) ' ' ++ [' ', ' '] ++
      (row.currentText ++ " -> " ++ row.proposedText ++ "\n").toList := by
  simp [segment]

theorem title_segment : ((row.segment width).toList.drop 2).take row.title.length =
    row.title.toList := by
  rw [toList_segment]
  simp [String.length_toList]

theorem values_segment (h : row.title.length ≤ width) :
    (row.segment width).toList.drop (width + 4) =
      (row.currentText ++ " -> " ++ row.proposedText ++ "\n").toList := by
  have hlength : ([' ', ' '] ++ row.title.toList ++
      List.replicate (width - row.title.length) ' ' ++ [' ', ' ']).length = width + 4 := by
    simp [String.length_toList]
    omega
  rw [toList_segment]
  exact List.drop_left' hlength

end Row

/-! ## The summary without colors -/

namespace Report

theorem flatMap_print_plain (spans : List Span) :
    spans.flatMap (Span.print false) = spans.flatMap (·.text) := by
  apply List.flatMap_congr
  intro span _
  cases h : span.style <;> simp [Span.print, h]

theorem line_plain (width : Nat) (row : Row) :
    line false width row = (row.segment width).toList := by
  unfold line
  rw [flatMap_print_plain, Row.toList_segment]
  simp [lineSpans, rowSpans, Span.plain, padRight, String.length_toList]

def heading (r : Report) : String :=
  "\n📝 Proposed Attribute Changes\n" ++ rule ++ "Instance: " ++ r.identity.shown ++ "\n" ++ rule ++
    "\n"

/-- What is said at the end about so many rows, of which some are changed. -/
def counts (rows changed : Nat) : String :=
  "\n" ++ rule ++ toString rows ++ " attribute(s), " ++ toString changed ++ " changed\n"

theorem header_plain (r : Report) :
    r.header.flatMap (Span.print false) = r.heading.toList := by
  have htitle : "\n📝 Proposed Attribute Changes\n" =
      "\n📝 " ++ "Proposed Attribute Changes" ++ "\n" := by decide
  rw [flatMap_print_plain]
  unfold header heading
  simp only [htitle, Span.plain, Span.styled, List.flatMap_cons, List.flatMap_nil,
    String.toList_append, List.append_assoc, List.append_nil]

theorem footer_plain (r : Report) :
    r.footer.flatMap (Span.print false) = (counts r.rows.length r.changedCount).toList := by
  rw [flatMap_print_plain]
  simp only [footer, counts, Span.plain, List.flatMap_cons, List.flatMap_nil, String.toList_append,
    List.append_assoc, List.append_nil]

theorem toList_segments (width : Nat) (rows : List Row) :
    (String.join (rows.map (Row.segment width))).toList = rows.flatMap (line false width) := by
  induction rows with
  | nil => rfl
  | cons row rows ih => simp [line_plain, ih]

theorem top_plain {r : Report} (h : r.rows ≠ []) :
    r.top.flatMap (Span.print false) = r.heading.toList := by
  rw [← header_plain, top]
  simp [h]

theorem summary?_table {r : Report} (h : r.rows ≠ []) (hfits : r.TitlesFit) :
    r.summary? false = some (r.heading ++
      String.join (r.rows.map (Row.segment (titleWidth r.rows))) ++
      counts r.rows.length r.changedCount) := by
  rw [summary?_eq_some false hfits, Option.some.injEq]
  apply String.toList_inj.mp
  rw [String.toList_ofList, flatMap_print_spans, top_plain h, footer_plain, String.toList_append,
    String.toList_append, toList_segments, List.append_assoc]

theorem changedCount_eq (r : Report) :
    r.changedCount = (r.rows.filter fun row => row.current ≠ row.proposed).length := by
  unfold changedCount
  congr 2
  funext row
  simp [Row.isChanged, bne, Bool.beq_eq_decide_eq]

/-- **The table.** The summary of a report with rows is, without colors, a heading, the segments of
the rows in their order, and a footer. The titles are as wide as the longest of them: no title is
cut, and the values start four characters behind that width in every segment. The footer tells how
many segments there are, and for how many of them the two lists of texts differ. All this is so as
long as the longest title fits into a column, and if it does not there is no summary at all. -/
theorem values_in_one_column (r : Report) (h : r.rows ≠ []) :
    ∃ width segments,
      (∀ row ∈ r.rows, row.title.length ≤ width) ∧ (∃ row ∈ r.rows, row.title.length = width) ∧
      segments = r.rows.map (Row.segment width) ∧
      (r.summary? false = if width ≤ widthLimit then
          some (r.heading ++ String.join segments ++
            counts segments.length (r.rows.filter fun row => row.current ≠ row.proposed).length)
        else none) ∧
      ∀ row ∈ r.rows,
        ((row.segment width).toList.drop 2).take row.title.length = row.title.toList ∧
        (row.segment width).toList.drop (width + 4) =
          (row.currentText ++ " -> " ++ row.proposedText ++ "\n").toList := by
  have hle := titleWidth_le_iff.mp (Nat.le_refl (titleWidth r.rows))
  refine ⟨titleWidth r.rows, _, hle, exists_titleWidth h, rfl, ?_, ?_⟩
  · split
    next hfits =>
      rw [List.length_map, ← r.changedCount_eq, summary?_table h (titlesFit_iff.mpr hfits)]
    next hwide => exact summary?_eq_none false (mt titlesFit_iff.mp hwide)
  · intro row hmem
    exact ⟨Row.title_segment, Row.values_segment (hle row hmem)⟩

/-- Titles of two, of five and of no characters, and a side without a text. -/
def uneven : Report :=
  .madeAt "now" ⟨"Risk", 5⟩ [⟨"日本", ["—"], ["é", "x"]⟩, ⟨"Größe", ["1"], ["1"]⟩, ⟨"", [], [""]⟩]

theorem uneven_values_in_one_column :
    uneven.rows ≠ [] ∧
      uneven.summary? false = some (uneven.heading ++
        String.join (uneven.rows.map (Row.segment 5)) ++ counts 3 2) := by
  have hrows : uneven.rows ≠ [] := by simp [uneven, madeAt]
  obtain ⟨width, segments, hle, hwidest, rfl, hsummary, -⟩ := values_in_one_column uneven hrows
  have hwidth : width = 5 := by
    have hshort : "日本".length = 2 := by decide
    have hlong : "Größe".length = 5 := by decide
    simp [uneven, madeAt, hshort, hlong] at hle hwidest
    omega
  subst hwidth
  exact ⟨hrows, hsummary⟩

/-- One row is enough for a report to have no table. -/
theorem overlong_without_table :
    overlong.rows ≠ [] ∧ overlong.summary? false = none :=
  ⟨by simp [overlong, madeAt], summary?_eq_none false not_titlesFit_overlong⟩

end Report

end AttributeReview
