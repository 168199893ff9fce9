import AttributeReview.Proofs.Review.Colors
import AttributeReview.Proofs.Review.Report

/-!
# Changed rows and what is seen of them

A row is counted and highlighted where its lists of texts differ, and the summary shows the first
text of each list. For rows of one text on each side this comes to the same.
-/

namespace AttributeReview

open Json (Document)

/-! ## What is printed otherwise in color -/

theorem Style.length_le_resume (s : Style) (text : List Char) :
    text.length ≤ (s.resume text).length := by
  fun_induction Style.resume s text with
  | case1 rest ih => simp [reset]; omega
  | case2 c rest hplain ih => simpa using ih
  | case3 => exact Nat.le_refl 0

namespace Span

variable {span : Span} {spans : List Span}

theorem print_eq_of_plain (h : span.style = none) : span.print true = span.print false := by
  simp only [print, h]

theorem length_print_lt (h : span.style ≠ none) :
    (span.print false).length < (span.print true).length := by
  obtain ⟨s, hs⟩ := Option.ne_none_iff_exists'.mp h
  have hresume := s.length_le_resume span.text
  simp only [print, hs, if_true, Bool.false_eq_true, if_false, List.length_append, Style.reset,
    List.length_cons]
  omega

theorem length_print_le (span : Span) : (span.print false).length ≤ (span.print true).length := by
  by_cases h : span.style = none
  · rw [print_eq_of_plain h]
  · exact Nat.le_of_lt (length_print_lt h)

theorem length_flatMap_print_le (spans : List Span) :
    (spans.flatMap (print false)).length ≤ (spans.flatMap (print true)).length := by
  induction spans with
  | nil => exact Nat.le_refl 0
  | cons span spans ih =>
    rw [List.flatMap_cons, List.flatMap_cons, List.length_append, List.length_append]
    exact Nat.add_le_add span.length_print_le ih

theorem flatMap_print_ne_iff :
    spans.flatMap (print true) ≠ spans.flatMap (print false) ↔
      ∃ span ∈ spans, span.style ≠ none := by
  constructor
  · intro hne
    by_contra hplain
    push Not at hplain
    exact hne (List.flatMap_congr fun span hmem => print_eq_of_plain (hplain span hmem))
  · rintro ⟨span, hmem, hstyle⟩ heq
    obtain ⟨before, after, rfl⟩ := List.append_of_mem hmem
    have hbefore := length_flatMap_print_le before
    have hafter := length_flatMap_print_le after
    have hspan := length_print_lt hstyle
    have hlength := congrArg List.length heq
    simp only [List.flatMap_append, List.flatMap_cons, List.length_append] at hlength
    omega

end Span

/-! ## Rows that are highlighted -/

namespace Row

variable {row : Row} {width : Nat}

/-- The line of a row is laid out, and printed otherwise in color. -/
def Highlighted (width : Nat) (row : Row) : Prop :=
  ∃ spans, Report.rowSpans? width row = some spans ∧
    spans.flatMap (Span.print true) ≠ spans.flatMap (Span.print false)

theorem highlighted_iff :
    row.Highlighted width ↔ width ≤ Report.widthLimit ∧ row.isChanged = true := by
  have hline : (∃ span ∈ Report.lineSpans width row, span.style ≠ none) ↔ row.isChanged = true := by
    unfold Report.lineSpans Report.rowSpans
    cases row.isChanged <;> simp [Span.plain]
  unfold Highlighted
  by_cases h : width ≤ Report.widthLimit
  · rw [Report.rowSpans?_eq_some h]
    simp [h, Span.flatMap_print_ne_iff, hline]
  · rw [Report.rowSpans?_eq_none (Nat.not_le.mp h)]
    simp [h]

instance (width : Nat) (row : Row) : Decidable (row.Highlighted width) :=
  decidable_of_iff _ highlighted_iff.symm

/-- The texts that are shown differ, or only one side has a text, or later texts differ. -/
def Differs (row : Row) : Prop :=
  row.currentText ≠ row.proposedText ∨ row.current.isEmpty ≠ row.proposed.isEmpty ∨
    row.current.tail ≠ row.proposed.tail

instance (row : Row) : Decidable row.Differs := inferInstanceAs (Decidable (_ ∨ _ ∨ _))

theorem isChanged_iff : row.isChanged = true ↔ row.Differs := by
  rw [Differs, isChanged, bne_iff_ne, currentText, proposedText]
  cases row.current with
  | nil => cases row.proposed <;> simp
  | cons text texts =>
    cases row.proposed with
    | nil => simp
    | cons other others =>
      rw [ne_eq, List.cons.injEq, not_and_or]
      simp

theorem differs_iff_of_length (hcurrent : row.current.length = 1)
    (hproposed : row.proposed.length = 1) :
    row.Differs ↔ row.currentText ≠ row.proposedText := by
  obtain ⟨text, hcurrent⟩ := List.length_eq_one_iff.mp hcurrent
  obtain ⟨other, hproposed⟩ := List.length_eq_one_iff.mp hproposed
  rw [Differs, hcurrent, hproposed]
  simp

end Row

theorem Options.length_of_mem_diff {o : Options} {i : Instance} {c : Changes} {row : Row}
    (hmem : row ∈ o.diff i c) : row.current.length = 1 ∧ row.proposed.length = 1 := by
  obtain ⟨⟨id, change⟩, -, hrow⟩ := List.mem_filterMap.mp hmem
  obtain ⟨d, -, rfl⟩ := Option.map_eq_some_iff.mp hrow
  exact ⟨rfl, rfl⟩

namespace Report

/-- **Changed rows.** Every report is read from a document. Its changed rows are counted: those
whose shown texts differ, but also those where only one side has a text and those where texts after
the first differ. They are highlighted too if there is a summary, which is just where the titles fit
into a column. Among rows of one text on each side, and so among all rows that are made of an
instance and a proposal, they are just those whose shown texts differ. -/
theorem changed_rows_highlighted (r : Report) :
    (Document.ofBytes (Utf8.encode r.document)).read read = .ok r ∧
    r.changedCount = (r.rows.filter fun row => decide row.Differs).length ∧
    ((∃ text, r.summary? true = some text) ↔ r.TitlesFit) ∧
    (∀ row ∈ r.rows, row.Highlighted (titleWidth r.rows) ↔ r.TitlesFit ∧ row.Differs) ∧
    (∀ row ∈ r.rows, row.current.length = 1 ∧ row.proposed.length = 1 →
      (row.Differs ↔ row.currentText ≠ row.proposedText)) ∧
    ∀ (o : Options) (i : Instance) (c : Changes), ∀ row ∈ o.diff i c,
      row.current.length = 1 ∧ row.proposed.length = 1 := by
  refine ⟨r.read_document, ?_, exists_summary?_iff, fun row _ => ?_,
    fun row _ hone => Row.differs_iff_of_length hone.1 hone.2,
    fun o i c row hmem => Options.length_of_mem_diff hmem⟩
  · simp only [changedCount, ← Row.isChanged_iff, Bool.decide_eq_true]
  · rw [Row.highlighted_iff, titlesFit_iff, Row.isChanged_iff]

/-- A report with no text on one side and an empty one on the other. -/
def hollow : Report := .madeAt "now" ⟨"Risk", 5⟩ [⟨"Owner", [], [""]⟩]

/-- The row shows nothing on either side, and is counted as changed and highlighted. -/
theorem hollow_row_highlighted :
    (Document.ofBytes (Utf8.encode hollow.document)).read read = .ok hollow ∧
      hollow.changedCount = 1 ∧
      ∃ row ∈ hollow.rows, row.Highlighted (titleWidth hollow.rows) ∧
        row.currentText = row.proposedText :=
  ⟨hollow.read_document, rfl, _, List.mem_singleton.mpr rfl, by decide, rfl⟩

end Report

end AttributeReview
