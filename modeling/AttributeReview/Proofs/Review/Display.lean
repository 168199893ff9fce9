import AttributeReview.Proofs.Calendar.Rendering
import AttributeReview.Review.Display

/-!
# How dates are shown

A date format is checked before it is used, but the check only asks for well-formed specifiers.
Whether a date has a text in the format is a matter of what the specifiers ask for.
-/

namespace AttributeReview

open Attribute (Value)
open Calendar

theorem Attribute.Value.dateText?_eq (value : Value) (format : String) :
    value.dateText? format = value.date?.bind (textIn? format) := rfl

theorem Attribute.Value.dateText?_of_date {value : Value} {date : Date}
    (h : value.date? = some date) (format : String) :
    value.dateText? format = textIn? format date := by
  rw [dateText?_eq, h, Option.bind_some]

theorem Attribute.Value.dateText?_isSome {value : Value} {date : Date} {format : String}
    {items : List Item} (hdate : value.date? = some date)
    (hitems : Pattern.ofChars? format.toList = some items) :
    (value.dateText? format).isSome = items.all Item.ofDate := by
  rw [dateText?_of_date hdate, textIn?_isSome, hitems, Option.any_some]

namespace Options

variable {o : Options}

theorem validate_eq_ok_iff : o.validate = .ok () ↔
    (Text.trim o.dateFormat.toList).isEmpty = false ∧
      (Pattern.ofChars? o.dateFormat.toList).isSome := by
  unfold validate
  cases (Text.trim o.dateFormat.toList).isEmpty with
  | true => simp
  | false =>
    cases Pattern.ofChars? o.dateFormat.toList with
    | none => simp
    | some items => simp

theorem display_date {value : Value} (h : value.isPresent) :
    o.display .date (some value) = (value.dateText? o.dateFormat).getD value.shown := by
  rw [display, if_pos h]
  rfl

/-- **When a date shows in a format that was checked.** The format spells a pattern. If all items
of it are about a date, every value that stands for a date has a text in the format; and if one item
needs a time of day or an offset, none has, and a present value shows as what it is. -/
theorem dates_shown_if_pattern_of_dates (h : o.validate = .ok ()) :
    ∃ items, Pattern.ofChars? o.dateFormat.toList = some items ∧
      ∀ value : Value, value.date?.isSome →
        ((value.dateText? o.dateFormat).isSome ↔ ∀ item ∈ items, item.ofDate) ∧
        ((∃ item ∈ items, ¬ item.ofDate) → value.isPresent →
          o.display .date (some value) = value.shown) := by
  obtain ⟨-, hsome⟩ := validate_eq_ok_iff.mp h
  obtain ⟨items, hitems⟩ := Option.isSome_iff_exists.mp hsome
  refine ⟨items, hitems, fun value hvalue => ?_⟩
  obtain ⟨date, hdate⟩ := Option.isSome_iff_exists.mp hvalue
  have htext := Value.dateText?_isSome hdate hitems
  constructor
  · rw [htext, List.all_eq_true]
  · rintro ⟨item, hitem, hclock⟩ hpresent
    have hnot : ¬ (value.dateText? o.dateFormat).isSome := by
      rw [htext, List.all_eq_true]
      intro hall
      exact hclock (hall item hitem)
    rw [display_date hpresent, Option.not_isSome_iff_eq_none.mp hnot]
    rfl

theorem standard_valid : standard.validate = .ok () :=
  validate_eq_ok_iff.mpr (by decide +kernel)

theorem dates_shown_in_standard_format :
    ((Value.text "2024-03-05").dateText? standard.dateFormat).isSome := by
  obtain ⟨items, hitems, hshown⟩ := dates_shown_if_pattern_of_dates standard_valid
  apply (hshown (.text "2024-03-05") (by decide +kernel)).1.mpr
  have hslashed : Pattern.ofChars? standard.dateFormat.toList = some (Pattern.slashed .year) := by
    decide +kernel
  rw [hslashed] at hitems
  cases hitems
  decide

def hourly : Options := ⟨"—", "%H"⟩

/-- A format of hours passes the check, and no date has a text in it. -/
theorem hourly_format_shows_no_date :
    hourly.validate = .ok () ∧ (Value.text "2024-03-05").date?.isSome ∧
      (Value.text "2024-03-05").dateText? hourly.dateFormat = none ∧
      hourly.display .date (some (.text "2024-03-05")) = "2024-03-05" :=
  ⟨validate_eq_ok_iff.mpr (by decide +kernel), by decide +kernel, by decide +kernel,
    by decide +kernel⟩

end Options

end AttributeReview
