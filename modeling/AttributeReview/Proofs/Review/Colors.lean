import AttributeReview.Proofs.Review.Summary
import Mathlib.Data.List.Infix

/-!
# Summaries with and without colors

The styles of a summary are sequences put between its characters. With these taken out, the summary
in color is the plain one, and red and green stand in the lines of changed rows only.
-/

namespace AttributeReview

/-! ## Sequences of styles in a text -/

namespace Style

/-- A text with the sequences of bold, dim, red and green and of their end taken out of it. -/
def strip : List Char → List Char
  | '\x1b' :: '[' :: '0' :: 'm' :: rest => strip rest
  | '\x1b' :: '[' :: '1' :: 'm' :: rest => strip rest
  | '\x1b' :: '[' :: '2' :: 'm' :: rest => strip rest
  | '\x1b' :: '[' :: '3' :: '1' :: 'm' :: rest => strip rest
  | '\x1b' :: '[' :: '3' :: '2' :: 'm' :: rest => strip rest
  | c :: rest => c :: strip rest
  | [] => []

/-- How many times a sequence stands in a text. -/
def occurrences (sequence text : List Char) : Nat :=
  text.tails.countP (sequence <+: ·)

variable {c : Char} {text rest : List Char} {s t : Style}

theorem strip_cons (h : c ≠ escape) : strip (c :: rest) = c :: strip rest := by
  conv_lhs => unfold strip
  split <;> simp_all [escape]

theorem strip_append (h : escape ∉ text) : strip (text ++ rest) = text ++ strip rest := by
  induction text with
  | nil => rfl
  | cons c text ih =>
    rw [List.mem_cons, not_or] at h
    rw [List.cons_append, strip_cons (Ne.symm h.1), ih h.2, List.cons_append]

theorem strip_start (h : s ≠ .cyan) : strip (s.start ++ rest) = strip rest := by
  cases s with
  | cyan => exact absurd rfl h
  | _ => rfl

theorem strip_reset : strip (reset ++ rest) = strip rest := rfl

theorem occurrences_cons (sequence : List Char) (c : Char) (rest : List Char) :
    occurrences sequence (c :: rest) =
      occurrences sequence rest + if sequence <+: c :: rest then 1 else 0 := by
  simp [occurrences, List.countP_cons]

theorem occurrences_start_cons (h : c ≠ escape) :
    occurrences s.start (c :: rest) = occurrences s.start rest := by
  rw [occurrences_cons, if_neg, Nat.add_zero]
  intro hprefix
  exact h (List.cons_prefix_cons.mp hprefix).1.symm

theorem occurrences_start_append (h : escape ∉ text) :
    occurrences s.start (text ++ rest) = occurrences s.start rest := by
  induction text with
  | nil => rfl
  | cons c text ih =>
    rw [List.mem_cons, not_or] at h
    rw [List.cons_append, occurrences_start_cons (Ne.symm h.1), ih h.2]

theorem start_prefix_iff : s.start <+: t.start ++ rest ↔ t = s := by
  cases s <;> cases t <;> simp [start, code]

theorem not_start_prefix_reset : ¬ s.start <+: reset ++ rest := by
  cases s <;> simp [start, code, reset]

theorem occurrences_start_escape {body : List Char} (h : escape ∉ body) :
    occurrences s.start (escape :: body ++ rest) =
      occurrences s.start rest + if s.start <+: escape :: body ++ rest then 1 else 0 := by
  -- A sequence starts with an escape, so none starts within the body.
  rw [List.cons_append, occurrences_cons, occurrences_start_append h]

theorem occurrences_start_start :
    occurrences s.start (t.start ++ rest) =
      occurrences s.start rest + if t = s then 1 else 0 := by
  have hbody : escape ∉ '[' :: t.code ++ ['m'] := by
    cases t <;> decide
  have hcount : occurrences s.start (t.start ++ rest) =
      occurrences s.start rest + if s.start <+: t.start ++ rest then 1 else 0 :=
    occurrences_start_escape hbody
  rw [hcount, if_congr start_prefix_iff rfl rfl]

theorem occurrences_start_reset :
    occurrences s.start (reset ++ rest) = occurrences s.start rest := by
  have hbody : escape ∉ ['[', '0', 'm'] := by decide
  have hcount : occurrences s.start (reset ++ rest) =
      occurrences s.start rest + if s.start <+: reset ++ rest then 1 else 0 :=
    occurrences_start_escape hbody
  rw [hcount, if_neg not_start_prefix_reset, Nat.add_zero]

theorem resume_eq (h : escape ∉ text) : s.resume text = text := by
  induction text with
  | nil => rfl
  | cons c text ih =>
    rw [List.mem_cons, not_or] at h
    unfold resume
    split <;> simp_all [escape]

theorem occurrences_start_nil : occurrences s.start [] = 0 := by
  cases s <;> decide

end Style

/-! ## Spans -/

namespace Span

/-- No escape stands in the text of a span. -/
def Clean (span : Span) : Prop := Style.escape ∉ span.text

instance (span : Span) : Decidable span.Clean :=
  inferInstanceAs (Decidable (Style.escape ∉ span.text))

variable {span : Span} {spans : List Span} {rest : List Char} {s : Style}

theorem strip_print (h : span.Clean) (hstyle : span.style ≠ some .cyan) :
    Style.strip (span.print true ++ rest) = span.print false ++ Style.strip rest := by
  obtain ⟨style, text⟩ := span
  cases style with
  | none => exact Style.strip_append h
  | some style =>
    have hcyan : style ≠ .cyan := fun heq => hstyle (congrArg some heq)
    simp only [print, if_true, Bool.false_eq_true, if_false, List.append_assoc]
    rw [Style.strip_start hcyan, Style.resume_eq h, Style.strip_append h, Style.strip_reset]

theorem occurrences_print (h : span.Clean) :
    Style.occurrences s.start (span.print true ++ rest) =
      Style.occurrences s.start rest + if span.style = some s then 1 else 0 := by
  obtain ⟨style, text⟩ := span
  cases style with
  | none => exact Style.occurrences_start_append h
  | some style =>
    simp only [print, if_true, List.append_assoc, Option.some.injEq]
    rw [Style.occurrences_start_start, Style.resume_eq h, Style.occurrences_start_append h,
      Style.occurrences_start_reset]

theorem strip_flatMap_print (h : ∀ span ∈ spans, span.Clean ∧ span.style ≠ some .cyan) :
    Style.strip (spans.flatMap (print true)) = spans.flatMap (print false) := by
  induction spans with
  | nil => rfl
  | cons span spans ih =>
    obtain ⟨hspan, hspans⟩ := List.forall_mem_cons.mp h
    rw [List.flatMap_cons, List.flatMap_cons, strip_print hspan.1 hspan.2, ih hspans]

theorem occurrences_flatMap_print (h : ∀ span ∈ spans, span.Clean) :
    Style.occurrences s.start (spans.flatMap (print true)) =
      spans.countP (·.style = some s) := by
  induction spans with
  | nil => exact Style.occurrences_start_nil
  | cons span spans ih =>
    obtain ⟨hspan, hspans⟩ := List.forall_mem_cons.mp h
    rw [List.flatMap_cons, occurrences_print hspan, ih hspans, List.countP_cons]
    simp only [decide_eq_true_eq]

end Span

/-! ## The lines of a summary -/

namespace Report

variable {r : Report} {row : Row} {width : Nat} {s : Style}

/-- The text of the line of a row. -/
def line (color : Bool) (width : Nat) (row : Row) : List Char :=
  (lineSpans width row).flatMap (Span.print color)

theorem flatMap_print_spans (color : Bool) (r : Report) :
    r.spans.flatMap (Span.print color) = r.top.flatMap (Span.print color) ++
      (r.rows.flatMap (line color (titleWidth r.rows)) ++ r.footer.flatMap (Span.print color)) := by
  rw [spans, List.flatMap_append, List.flatMap_append, List.flatMap_assoc]
  rfl

/-- All texts of a report. -/
def texts (r : Report) : List String :=
  r.version :: r.generatedAt :: r.identity.type ::
    r.rows.flatMap fun row => row.title :: (row.current ++ row.proposed)

/-! ### No escape in what is shown -/

theorem not_escape_toDigits (n : Nat) : Style.escape ∉ Nat.toDigits 10 n := by
  intro hmem
  have hdigit := Nat.isDigit_of_mem_toDigits (by decide) (by decide) hmem
  exact absurd hdigit (by decide)

theorem not_escape_append {a b : String} :
    Style.escape ∉ (a ++ b).toList ↔ Style.escape ∉ a.toList ∧ Style.escape ∉ b.toList := by
  rw [String.toList_append, List.mem_append, not_or]

theorem not_escape_toString (n : Nat) : Style.escape ∉ (toString n).toList := by
  rw [Nat.toString_eq_repr, Nat.repr_eq_ofList_toDigits, String.toList_ofList]
  exact not_escape_toDigits n

theorem not_escape_shown {k : Identity} (h : Style.escape ∉ k.type.toList) :
    Style.escape ∉ k.shown.toList := by
  have hid : Style.escape ∉ (Number.natural k.id).text.toList := by
    rw [Number.text, String.toList_ofList]
    exact not_escape_toDigits _
  exact not_escape_append.mpr ⟨not_escape_append.mpr ⟨h, by decide⟩, hid⟩

theorem clean_top (h : Style.escape ∉ r.identity.type.toList) : ∀ span ∈ r.top, span.Clean := by
  have hidentity : (Span.plain ("Instance: " ++ r.identity.shown ++ "\n")).Clean := by
    refine not_escape_append.mpr ⟨not_escape_append.mpr ⟨?_, not_escape_shown h⟩, ?_⟩ <;> decide
  rw [top, List.forall_mem_append]
  constructor
  · simp only [header, List.forall_mem_cons]
    exact ⟨by decide, by decide, by decide, by decide, hidentity, by decide, by decide, by simp⟩
  · split
    · exact List.forall_mem_singleton.mpr (by decide)
    · simp

theorem clean_footer (r : Report) : ∀ span ∈ r.footer, span.Clean := by
  have hcounts : (Span.plain (toString r.rows.length ++ " attribute(s), " ++
      toString r.changedCount ++ " changed\n")).Clean := by
    refine not_escape_append.mpr ⟨not_escape_append.mpr ⟨not_escape_append.mpr ⟨?_, ?_⟩, ?_⟩, ?_⟩
    · exact not_escape_toString _
    · decide
    · exact not_escape_toString _
    · decide
  simp only [footer, List.forall_mem_cons]
  exact ⟨by decide, by decide, hcounts, by simp⟩

theorem clean_lineSpans (htitle : Style.escape ∉ row.title.toList)
    (hcurrent : Style.escape ∉ row.currentText.toList)
    (hproposed : Style.escape ∉ row.proposedText.toList) :
    ∀ span ∈ lineSpans width row, span.Clean := by
  have hpadded : Style.escape ∉ padRight width row.title := by
    rw [padRight, List.mem_append, not_or]
    exact ⟨htitle, fun hmem => absurd (List.eq_of_mem_replicate hmem) (by decide)⟩
  simp only [lineSpans, rowSpans, List.forall_mem_cons]
  exact ⟨by decide, hpadded, by decide, hcurrent, by decide, hproposed, by decide, by simp⟩

theorem not_escape_headD {texts : List String} (h : ∀ text ∈ texts, Style.escape ∉ text.toList) :
    Style.escape ∉ (texts.headD "").toList := by
  cases texts with
  | nil => decide
  | cons text texts => exact h text List.mem_cons_self

theorem clean_of_texts (width : Nat) (h : ∀ text ∈ r.texts, Style.escape ∉ text.toList) :
    (∀ span ∈ r.top, span.Clean) ∧
      ∀ row ∈ r.rows, ∀ span ∈ lineSpans width row, span.Clean := by
  have htype : r.identity.type ∈ r.texts := by simp [texts]
  refine ⟨clean_top (h _ htype), fun row hrow => ?_⟩
  have hrows : ∀ text ∈ row.title :: (row.current ++ row.proposed), Style.escape ∉ text.toList := by
    intro text hmem
    refine h text ?_
    simp only [texts, List.mem_cons, List.mem_flatMap]
    exact Or.inr (Or.inr (Or.inr ⟨row, hrow, List.mem_cons.mp hmem⟩))
  obtain ⟨htitle, hsides⟩ := List.forall_mem_cons.mp hrows
  obtain ⟨hcurrent, hproposed⟩ := List.forall_mem_append.mp hsides
  exact clean_lineSpans htitle (not_escape_headD hcurrent) (not_escape_headD hproposed)

/-! ### Which styles stand where -/

theorem style_top : ∀ span ∈ r.top, span.style ≠ some .cyan ∧ span.style ≠ some .red ∧
    span.style ≠ some .green := by
  rw [top, List.forall_mem_append]
  constructor
  · simp [header, Span.plain, Span.styled]
  · split <;> simp [Span.styled]

theorem style_footer : ∀ span ∈ r.footer, span.style = none := by
  simp [footer, Span.plain]

theorem style_lineSpans : ∀ span ∈ lineSpans width row, span.style ≠ some .cyan := by
  unfold lineSpans rowSpans
  cases row.isChanged <;> simp [Span.plain]

theorem countP_lineSpans (hs : s = .red ∨ s = .green) :
    (lineSpans width row).countP (·.style = some s) = if row.isChanged then 1 else 0 := by
  unfold lineSpans rowSpans
  cases row.isChanged <;> rcases hs with rfl | rfl <;> rfl

theorem countP_top (hs : s = .red ∨ s = .green) : r.top.countP (·.style = some s) = 0 := by
  rw [List.countP_eq_zero]
  intro span hmem
  obtain ⟨-, hred, hgreen⟩ := style_top span hmem
  rcases hs with rfl | rfl <;> simpa

theorem countP_footer : r.footer.countP (·.style = some s) = 0 := rfl

theorem occurrences_line (hs : s = .red ∨ s = .green)
    (h : ∀ span ∈ lineSpans width row, span.Clean) :
    Style.occurrences s.start (line true width row) = if row.isChanged then 1 else 0 := by
  rw [line, Span.occurrences_flatMap_print h, countP_lineSpans hs]

theorem countP_lines (hs : s = .red ∨ s = .green) (rows : List Row) :
    (rows.flatMap (lineSpans width)).countP (·.style = some s) =
      (rows.filter Row.isChanged).length := by
  rw [← List.countP_eq_length_filter]
  induction rows with
  | nil => rfl
  | cons row rows ih =>
    rw [List.flatMap_cons, List.countP_append, countP_lineSpans hs, ih, List.countP_cons,
      Nat.add_comm]

/-! ## The summary -/

theorem clean_spans (h : ∀ text ∈ r.texts, Style.escape ∉ text.toList) :
    ∀ span ∈ r.spans, span.Clean := by
  obtain ⟨htop, hrows⟩ := clean_of_texts (titleWidth r.rows) h
  rw [spans, List.forall_mem_append, List.forall_mem_append]
  refine ⟨htop, fun span hmem => ?_, r.clean_footer⟩
  obtain ⟨row, hrow, hmem⟩ := List.mem_flatMap.mp hmem
  exact hrows row hrow span hmem

theorem style_spans : ∀ span ∈ r.spans, span.style ≠ some .cyan := by
  rw [spans, List.forall_mem_append, List.forall_mem_append]
  refine ⟨fun span hmem => (style_top span hmem).1, fun span hmem => ?_, fun span hmem => ?_⟩
  · obtain ⟨row, -, hmem⟩ := List.mem_flatMap.mp hmem
    exact style_lineSpans span hmem
  · simp [style_footer span hmem]

theorem strip_line (h : ∀ span ∈ lineSpans width row, span.Clean) :
    Style.strip (line true width row) = line false width row :=
  Span.strip_flatMap_print fun span hmem => ⟨h span hmem, style_lineSpans span hmem⟩

theorem summary?_plain (h : ∀ span ∈ r.spans, span.Clean) :
    r.summary? false =
      (r.summary? true).map fun text => String.ofList (Style.strip text.toList) := by
  by_cases hfits : r.TitlesFit
  · have hstrip : Style.strip (r.spans.flatMap (Span.print true)) =
        r.spans.flatMap (Span.print false) :=
      Span.strip_flatMap_print fun span hmem => ⟨h span hmem, style_spans span hmem⟩
    rw [summary?_eq_some false hfits, summary?_eq_some true hfits, Option.map_some,
      String.toList_ofList, hstrip]
  · rw [summary?_eq_none false hfits, summary?_eq_none true hfits, Option.map_none]

theorem occurrences_spans (hs : s = .red ∨ s = .green) (h : ∀ span ∈ r.spans, span.Clean) :
    Style.occurrences s.start (r.spans.flatMap (Span.print true)) = r.changedCount := by
  rw [Span.occurrences_flatMap_print h, spans, List.countP_append, List.countP_append,
    countP_top hs, countP_lines hs, countP_footer, Nat.zero_add, Nat.add_zero, changedCount]

/-- **Colors change nothing else.** Where no text of a report has an escape in it, the summary in
color is the plain one with sequences of styles put into it, as a whole and line by line. Red and
green stand in it as many times as rows are changed: once in the line of each changed row, and
neither in another line nor before or after the lines of the rows. There is a summary, in color as
without, just where the titles fit into a column. -/
theorem colors_mark_changed_rows (r : Report)
    (htexts : ∀ text ∈ r.texts, Style.escape ∉ text.toList) :
    (r.summary? false =
      (r.summary? true).map fun text => String.ofList (Style.strip text.toList)) ∧
    ((∃ text, r.summary? true = some text) ↔ r.TitlesFit) ∧
    ∀ text, r.summary? true = some text →
      (∀ s, s = Style.red ∨ s = Style.green →
        Style.occurrences s.start text.toList = r.changedCount) ∧
      ∃ before after, text.toList =
          before ++ (r.rows.flatMap (line true (titleWidth r.rows)) ++ after) ∧
        (∀ row ∈ r.rows, Style.strip (line true (titleWidth r.rows) row) =
          line false (titleWidth r.rows) row) ∧
        ∀ s, s = Style.red ∨ s = Style.green →
          Style.occurrences s.start before = 0 ∧ Style.occurrences s.start after = 0 ∧
          ∀ row ∈ r.rows, Style.occurrences s.start (line true (titleWidth r.rows) row) =
            if row.isChanged then 1 else 0 := by
  obtain ⟨htop, hrows⟩ := clean_of_texts (titleWidth r.rows) htexts
  have hspans := clean_spans htexts
  refine ⟨summary?_plain hspans, exists_summary?_iff, fun text htext => ?_⟩
  rw [toList_of_summary? htext]
  refine ⟨fun s hs => occurrences_spans hs hspans, _, _, flatMap_print_spans true r,
    fun row hrow => strip_line (hrows row hrow), fun s hs => ?_⟩
  refine ⟨?_, ?_, fun row hrow => occurrences_line hs (hrows row hrow)⟩
  · rw [Span.occurrences_flatMap_print htop, countP_top hs]
  · rw [Span.occurrences_flatMap_print r.clean_footer, countP_footer]

/-- A title of two lines that looks styled, a side without a text, and a row that stays. -/
def crooked : Report :=
  .madeAt "now" ⟨"Größe", 5⟩ [⟨"[31m\nDue", ["—", "x"], []⟩, ⟨"", ["é"], ["é"]⟩]

theorem colors_mark_first_row :
    (∀ text ∈ crooked.texts, Style.escape ∉ text.toList) ∧
      ∃ text, crooked.summary? true = some text ∧
        crooked.summary? false = some (String.ofList (Style.strip text.toList)) ∧
        Style.occurrences Style.red.start text.toList = 1 ∧
        Style.occurrences Style.green.start text.toList = 1 := by
  have htexts : ∀ text ∈ crooked.texts, Style.escape ∉ text.toList := by decide
  have hfits : crooked.TitlesFit := by decide
  obtain ⟨hplain, hexists, hcount⟩ := colors_mark_changed_rows crooked htexts
  obtain ⟨text, htext⟩ := hexists.mpr hfits
  refine ⟨htexts, text, htext, ?_, (hcount text htext).1 .red (.inl rfl),
    (hcount text htext).1 .green (.inr rfl)⟩
  rw [hplain, htext, Option.map_some]

/-- A report with no escape in it and with a changed row has no summary, in color or without. -/
theorem overlong_not_colored :
    (∀ text ∈ overlong.texts, Style.escape ∉ text.toList) ∧ overlong.changedCount = 1 ∧
      overlong.summary? true = none ∧ overlong.summary? false = none := by
  have hnone (color : Bool) := summary?_eq_none color not_titlesFit_overlong
  refine ⟨?_, rfl, hnone true, hnone false⟩
  have htitle : Style.escape ∉ longTitle.toList := by
    rw [longTitle, String.toList_ofList]
    exact fun hmem => absurd (List.eq_of_mem_replicate hmem) (by decide)
  simp only [texts, overlong, madeAt, List.flatMap_cons, List.flatMap_nil, List.forall_mem_cons,
    List.append_nil, List.cons_append, List.nil_append]
  exact ⟨by decide, by decide, by decide, htitle, by decide, by decide, by simp⟩

end Report

end AttributeReview
