import AttributeReview.Proofs.Calendar.Numeral
import AttributeReview.Proofs.Calendar.Shown
import AttributeReview.Proofs.Review.Display
import AttributeReview.Review.Row

/-!
# Dates and checkboxes in the standard format

In the standard format a date shows as a text that names it again, so what is shown for a value is
shown unchanged when it is shown again, and two dates show alike only if they are one. A checkbox
shows nothing but whether it is checked.
-/

namespace AttributeReview

open Attribute (Kind Value)
open Calendar

/-! ## Values -/

namespace Attribute.Value

/-- The value counts as present and stands for the date. -/
def Dated (value : Option Value) (d : Date) : Prop :=
  ∃ v, value = some v ∧ v.isPresent ∧ v.date? = some d

/-- The value checks a checkbox. -/
def Checked (value : Option Value) : Prop :=
  value = some (.boolean true) ∨ value = some (.text "1")

variable {value : Value}

theorem shown_ne_empty (h : value.isPresent) : value.shown ≠ "" := by
  cases value with
  | boolean b =>
    obtain rfl : b = true := h
    decide
  | number n =>
    obtain ⟨c, hc, -⟩ := Json.Numeral.starts_text n.proper_numeral
    intro hempty
    rw [← n.toList_text, show n.text = "" from hempty] at hc
    cases hc
  | text s => exact of_decide_eq_true h

theorem readDate_shown (h : value.isPresent) (hdate : value.date? = none) :
    readDate value.shown = none := by
  cases value with
  | boolean b =>
    obtain rfl : b = true := h
    decide +kernel
  | number n => exact n.readDate_text
  | text s => exact hdate

theorem isPresent_text_iff {s : String} : (text s).isPresent ↔ s ≠ "" := by simp [isPresent]

theorem isChecked_iff : value.isChecked ↔ Checked (some value) := by
  cases value with
  | boolean b => simp [isChecked, Checked]
  | number n => simp [isChecked, Checked]
  | text s => simp [isChecked, Checked]

end Attribute.Value

namespace Options

variable {o : Options} {kind : Kind}

/-! ## How values show -/

theorem textIn?_standard (d : Date) :
    textIn? standard.dateFormat d = some (String.ofList (slashedText d)) := by
  have hpattern : Pattern.ofChars? standard.dateFormat.toList = some (Pattern.slashed .year) := by
    decide +kernel
  rw [textIn?_of_pattern hpattern, render_slashed, Option.map_some]

theorem display_of_date (hformat : o.dateFormat = standard.dateFormat) {value : Option Value}
    {d : Date} (h : Value.Dated value d) :
    o.display .date value = String.ofList (slashedText d) := by
  obtain ⟨v, rfl, hpresent, hdate⟩ := h
  rw [display_date hpresent, hformat, Value.dateText?_of_date hdate, textIn?_standard,
    Option.getD_some]

theorem display_of_no_date {value : Value} (h : value.isPresent) (hdate : value.date? = none) :
    o.display .date (some value) = value.shown := by
  rw [display_date h, Value.dateText?_eq, hdate, Option.bind_none, Option.getD_none]

theorem display_other {name : String} {value : Value} (h : value.isPresent) :
    o.display (.other name) (some value) = value.shown := by
  rw [display, if_pos h, showPresent]

theorem display_checked {value : Option Value} (h : Value.Checked value) :
    o.display .checkbox value = checkMark := by
  rcases h with rfl | rfl
  · rfl
  · rfl

theorem display_unchecked {value : Option Value} (h : ¬ Value.Checked value) :
    o.display .checkbox value = o.emptyValue := by
  cases value with
  | none => rfl
  | some value =>
    have hchecked : ¬ value.isChecked := fun hchecked => h (Value.isChecked_iff.mp hchecked)
    rw [display, showPresent, if_neg hchecked, ite_self]

/-! ## Texts that show as themselves -/

/-- The text shows as it is. -/
def Settled (o : Options) (kind : Kind) (text : String) : Prop :=
  o.display kind (some (.text text)) = text

theorem settled_of_readDate_eq_none {text : String} (hread : readDate text = none)
    (hempty : text = "" → o.emptyValue = "") (hkind : kind ≠ .checkbox) :
    o.Settled kind text := by
  unfold Settled
  by_cases htext : text = ""
  · rw [htext]
    exact hempty htext
  · have hpresent : (Value.text text).isPresent := Value.isPresent_text_iff.mpr htext
    cases kind with
    | date => exact display_of_no_date hpresent hread
    | checkbox => exact absurd rfl hkind
    | other name => exact display_other hpresent

theorem settled_slashedText (hformat : o.dateFormat = standard.dateFormat) (d : Date) :
    o.Settled .date (String.ofList (slashedText d)) := by
  have hdate : (Value.text (String.ofList (slashedText d))).date? = some d := by
    rw [Value.date?, readDate_slashedText]
  have hpresent : (Value.text (String.ofList (slashedText d))).isPresent := by
    apply Value.isPresent_text_iff.mpr
    simp [slashedText, monthFirst, digitsOf]
  exact display_of_date hformat ⟨_, rfl, hpresent, hdate⟩

theorem settled_shown_date (hformat : o.dateFormat = standard.dateFormat) {value : Value}
    (h : value.isPresent) : o.Settled .date (o.display .date (some value)) := by
  cases hdate : value.date? with
  | some d =>
    rw [display_of_date hformat ⟨value, rfl, h, hdate⟩]
    exact settled_slashedText hformat d
  | none =>
    rw [display_of_no_date h hdate]
    exact settled_of_readDate_eq_none (Value.readDate_shown h hdate)
      (fun hempty => absurd hempty (Value.shown_ne_empty h)) nofun

theorem settled_shown_other {name : String} {value : Value} (h : value.isPresent) :
    o.Settled (.other name) (o.display (.other name) (some value)) := by
  rw [display_other h]
  exact display_other (Value.isPresent_text_iff.mpr (Value.shown_ne_empty h))

/-- **Showing what is shown.** In the standard format the text of any date names this date. And if
the text for no value names no date, what shows for a value shows unchanged as a text of the same
kind, unless the kind is that of checkboxes. -/
theorem shown_dates_read_back :
    (∀ d : Date, ∃ text, textIn? standard.dateFormat d = some text ∧ readDate text = some d) ∧
    ∀ o : Options, o.dateFormat = standard.dateFormat → readDate o.emptyValue = none →
      ∀ kind : Kind, kind ≠ .checkbox → ∀ value : Option Value,
        o.display kind (some (.text (o.display kind value))) = o.display kind value := by
  constructor
  · intro d
    exact ⟨_, textIn?_standard d, readDate_slashedText d⟩
  · intro o hformat hempty kind hkind value
    have hsettled : o.Settled kind o.emptyValue := settled_of_readDate_eq_none hempty id hkind
    cases value with
    | none => exact hsettled
    | some value =>
      by_cases hpresent : value.isPresent
      · cases kind with
        | date => exact settled_shown_date hformat hpresent
        | checkbox => exact absurd rfl hkind
        | other name => exact settled_shown_other hpresent
      · have habsent : o.display kind (some value) = o.emptyValue := if_neg hpresent
        rw [habsent]
        exact hsettled

/-- A date before the year 0 shows with a sign, and shows so again. -/
theorem signed_year_shown_again :
    standard.display .date (some (.text "03/15/-0043")) = "03/15/-0043" := by
  have hshown : standard.display .date (some (.text "-0043-03-15")) = "03/15/-0043" := by
    decide +kernel
  have hagain := shown_dates_read_back.2 standard rfl (by decide +kernel) .date nofun
    (some (.text "-0043-03-15"))
  rwa [hshown] at hagain

/-! ## Rows that count as changed -/

theorem row_changed_iff {d : Definition} {current : Option CurrentValue} {change : Option Change} :
    (o.row d current change).isChanged ↔
      o.display d.kind (current.bind (·.value)) ≠ o.display d.kind (change.bind (·.value)) := by
  simp [row, Row.ofTexts, Row.isChanged]

theorem display_date_inj (hformat : o.dateFormat = standard.dateFormat)
    {value value' : Option Value} {d d' : Date} (h : Value.Dated value d)
    (h' : Value.Dated value' d') :
    o.display .date value = o.display .date value' ↔ d = d' := by
  rw [display_of_date hformat h, display_of_date hformat h']
  constructor
  · intro htexts
    exact slashedText_injective (String.ofList_injective htexts)
  · rintro rfl
    rfl

theorem display_checkbox_inj (h : o.emptyValue ≠ checkMark) {value value' : Option Value} :
    o.display .checkbox value = o.display .checkbox value' ↔
      (Value.Checked value ↔ Value.Checked value') := by
  by_cases hvalue : Value.Checked value
  · rw [display_checked hvalue]
    by_cases hvalue' : Value.Checked value'
    · simp [display_checked hvalue', hvalue, hvalue']
    · simp [display_unchecked hvalue', hvalue, hvalue', h.symm]
  · rw [display_unchecked hvalue]
    by_cases hvalue' : Value.Checked value'
    · simp [display_checked hvalue', hvalue, hvalue', h]
    · simp [display_unchecked hvalue', hvalue, hvalue']

/-- **When a row counts as changed.** In the standard format a row of two dates is changed exactly
if they are different dates, however each is given. A row of a checkbox is changed exactly if one
side is checked and the other is not, unless the text for no value is the check mark. -/
theorem row_changed_by_kind (o : Options) (d : Definition) (current : Option CurrentValue)
    (change : Option Change) :
    (d.kind = .date → o.dateFormat = standard.dateFormat → ∀ before after : Date,
      Value.Dated (current.bind (·.value)) before → Value.Dated (change.bind (·.value)) after →
        ((o.row d current change).isChanged ↔ before ≠ after)) ∧
    (d.kind = .checkbox → o.emptyValue ≠ checkMark →
      ((o.row d current change).isChanged ↔
        (Value.Checked (current.bind (·.value)) ↔ ¬ Value.Checked (change.bind (·.value))))) := by
  constructor
  · intro hkind hformat before after hbefore hafter
    rw [row_changed_iff, hkind, ne_eq, display_date_inj hformat hbefore hafter]
  · intro hkind hempty
    rw [row_changed_iff, hkind, ne_eq, display_checkbox_inj hempty]
    grind

def leapDay : Date := ⟨2024, 2, 29, by decide⟩

/-- A row of the last second of a day, far from universal time, and the first instant of it is not
changed, and a row that checks a checkbox is. -/
theorem leap_day_unchanged_and_box_changed :
    ¬ (standard.row ⟨1, "Due", .date⟩ (some ⟨1, some (.text "2024-02-29T23:59:59-12:00")⟩)
      (some ⟨some (.number (.natural 1709164800000))⟩)).isChanged ∧
    (standard.row ⟨2, "Signed", .checkbox⟩ none (some ⟨some (.text "1")⟩)).isChanged := by
  constructor
  · have hrow := (row_changed_by_kind standard ⟨1, "Due", .date⟩
      (some ⟨1, some (.text "2024-02-29T23:59:59-12:00")⟩)
      (some ⟨some (.number (.natural 1709164800000))⟩)).1 rfl rfl leapDay leapDay
      ⟨_, rfl, by decide +kernel, by decide +kernel⟩ ⟨_, rfl, by decide +kernel, by decide +kernel⟩
    intro hchanged
    exact hrow.mp hchanged rfl
  · have hrow := (row_changed_by_kind standard ⟨2, "Signed", .checkbox⟩ none
      (some ⟨some (.text "1")⟩)).2 rfl (by decide)
    apply hrow.mpr
    exact iff_of_false nofun (not_not_intro (Or.inr rfl))

end Options

end AttributeReview
