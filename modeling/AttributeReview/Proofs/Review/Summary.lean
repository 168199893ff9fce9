import AttributeReview.Review.Summary

/-!
# When there is a summary

The titles of a report stand in one column, as wide as the longest of them. As long as each title
fits into a column the summary is made, of a line for each row, and else there is none.
-/

namespace AttributeReview.Report

variable {r : Report} {row : Row} {rows : List Row} {width : Nat} {color : Bool}

/-! ## The width of the titles -/

theorem foldl_max_eq (rows : List Row) (width : Nat) :
    rows.foldl (fun width row => max width row.title.toList.length) width =
      max width (titleWidth rows) := by
  unfold titleWidth
  induction rows generalizing width with
  | nil => simp
  | cons row rows ih =>
    rw [List.foldl_cons, List.foldl_cons, ih (max width _), ih (max 0 _)]
    omega

theorem titleWidth_cons (row : Row) (rows : List Row) :
    titleWidth (row :: rows) = max row.title.length (titleWidth rows) := by
  rw [titleWidth, List.foldl_cons, foldl_max_eq]
  simp [String.length_toList]

theorem titleWidth_le_iff : titleWidth rows ≤ width ↔ ∀ row ∈ rows, row.title.length ≤ width := by
  induction rows with
  | nil => simp [titleWidth]
  | cons row rows ih => rw [titleWidth_cons, Nat.max_le, ih, List.forall_mem_cons]

theorem exists_titleWidth (h : rows ≠ []) : ∃ row ∈ rows, row.title.length = titleWidth rows := by
  induction rows with
  | nil => exact absurd rfl h
  | cons row rows ih =>
    rw [titleWidth_cons]
    by_cases hnil : rows = []
    · exact ⟨row, List.mem_cons_self, by simp [hnil, titleWidth]⟩
    · obtain ⟨other, hmem, hother⟩ := ih hnil
      by_cases hle : titleWidth rows ≤ row.title.length
      · exact ⟨row, List.mem_cons_self, by omega⟩
      · exact ⟨other, List.mem_cons_of_mem row hmem, by omega⟩

/-! ## Lines of rows -/

/-- The line of a row, in a column that can be laid out. -/
def lineSpans (width : Nat) (row : Row) : List Span := rowSpans (padRight width row.title) row

theorem rowSpans?_eq_some (h : width ≤ widthLimit) (row : Row) :
    rowSpans? width row = some (lineSpans width row) := by
  rw [rowSpans?, padRight?, if_pos h]
  rfl

theorem rowSpans?_eq_none (h : widthLimit < width) (row : Row) : rowSpans? width row = none := by
  rw [rowSpans?, padRight?, if_neg (Nat.not_le.mpr h)]
  rfl

theorem mapM_rowSpans?_eq_some (h : width ≤ widthLimit) (rows : List Row) :
    rows.mapM (rowSpans? width) = some (rows.map (lineSpans width)) := by
  rw [funext (rowSpans?_eq_some h)]
  exact List.mapM_pure

theorem mapM_rowSpans?_eq_none (h : widthLimit < width) (hrows : rows ≠ []) :
    rows.mapM (rowSpans? width) = none := by
  obtain ⟨row, rest, rfl⟩ := List.exists_cons_of_ne_nil hrows
  rw [List.mapM_cons, rowSpans?_eq_none h]
  rfl

/-! ## The whole summary -/

/-- Each title fits into a column. -/
def TitlesFit (r : Report) : Prop := ∀ row ∈ r.rows, row.title.length ≤ widthLimit

instance (r : Report) : Decidable r.TitlesFit :=
  inferInstanceAs (Decidable (∀ row ∈ r.rows, row.title.length ≤ widthLimit))

theorem titlesFit_iff : r.TitlesFit ↔ titleWidth r.rows ≤ widthLimit := titleWidth_le_iff.symm

theorem not_titlesFit_iff : ¬ r.TitlesFit ↔ widthLimit < titleWidth r.rows := by
  rw [titlesFit_iff, Nat.not_le]

/-- What stands before the lines of the rows. -/
def top (r : Report) : List Span :=
  r.header ++ if r.rows.isEmpty then [.styled .dim "  (no custom attribute changes)\n"] else []

/-- All that a summary is made of, where there is one. -/
def spans (r : Report) : List Span :=
  r.top ++ (r.rows.flatMap (lineSpans (titleWidth r.rows)) ++ r.footer)

theorem spans?_eq_some (h : r.TitlesFit) : r.spans? = some r.spans := by
  unfold spans? rowsSpans? spans top
  rw [mapM_rowSpans?_eq_some (titlesFit_iff.mp h)]
  cases r.rows with
  | nil => simp
  | cons row rows => simp [List.flatMap_def]

theorem spans?_eq_none (h : ¬ r.TitlesFit) : r.spans? = none := by
  have hrows : r.rows ≠ [] := by
    intro hnil
    exact h (by simp [TitlesFit, hnil])
  unfold spans? rowsSpans?
  rw [mapM_rowSpans?_eq_none (not_titlesFit_iff.mp h) hrows]
  simp [hrows]

theorem summary?_eq_some (color : Bool) (h : r.TitlesFit) :
    r.summary? color = some (String.ofList (r.spans.flatMap (Span.print color))) := by
  rw [summary?, spans?_eq_some h]
  rfl

theorem summary?_eq_none (color : Bool) (h : ¬ r.TitlesFit) : r.summary? color = none := by
  rw [summary?, spans?_eq_none h]
  rfl

theorem titlesFit_of_summary? {text : String} (h : r.summary? color = some text) : r.TitlesFit := by
  by_cases hfits : r.TitlesFit
  · exact hfits
  · rw [summary?_eq_none color hfits] at h
    cases h

theorem toList_of_summary? {text : String} (h : r.summary? color = some text) :
    text.toList = r.spans.flatMap (Span.print color) := by
  rw [summary?_eq_some color (titlesFit_of_summary? h)] at h
  rw [← Option.some.inj h, String.toList_ofList]

theorem exists_summary?_iff : (∃ text, r.summary? color = some text) ↔ r.TitlesFit :=
  ⟨fun ⟨_, h⟩ => titlesFit_of_summary? h, fun h => ⟨_, summary?_eq_some color h⟩⟩

/-! ## A title that is too long -/

/-- A title of one character more than a column takes. -/
def longTitle : String := String.ofList (List.replicate (widthLimit + 1) 'a')

theorem length_longTitle : longTitle.length = widthLimit + 1 := by
  rw [longTitle, String.length_ofList, List.length_replicate]

def overlong : Report := .madeAt "now" ⟨"Risk", 5⟩ [⟨longTitle, ["✓"], [""]⟩]

theorem not_titlesFit_overlong : ¬ overlong.TitlesFit := by
  intro h
  have hlength := length_longTitle ▸ h _ (List.mem_singleton.mpr rfl)
  omega

end AttributeReview.Report
