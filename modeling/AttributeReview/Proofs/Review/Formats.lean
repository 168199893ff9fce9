import AttributeReview.Proofs.Calendar.Pattern
import AttributeReview.Proofs.Review.Display
import AttributeReview.Proofs.Text.Blank

/-!
# Which formats show dates

A format has a text for every date or for none, since no item of a pattern looks at which date it
is. The check of a format refuses none that shows a date, and a format with a malformed specifier
neither passes the check nor shows anything.
-/

namespace AttributeReview

open Attribute (Value)
open Calendar

variable {value : Value} {format : String}

theorem Attribute.Value.pattern_of_dateText? (h : (value.dateText? format).isSome) :
    ∃ items, Pattern.ofChars? format.toList = some items ∧ items.all Item.ofDate = true := by
  obtain ⟨text, htext⟩ := Option.isSome_iff_exists.mp h
  rw [dateText?_eq, Option.bind_eq_some_iff] at htext
  obtain ⟨date, -, htext⟩ := htext
  have hsome : (textIn? format date).isSome := by rw [htext]; rfl
  rwa [textIn?_isSome, Option.any_eq_true] at hsome

namespace Options

theorem validate_malformed {before rest : List Char}
    (hformat : format.toList = before ++ '%' :: rest)
    (hnone : Pattern.ofChars? format.toList = none) (emptyValue : String) :
    (Options.mk emptyValue format).validate = .error (.badFormat format) := by
  have hmem : '%' ∈ Text.trim format.toList := Text.mem_trim (by simp [hformat]) rfl
  have hblank : (Text.trim format.toList).isEmpty = false := by
    simpa using List.ne_nil_of_mem hmem
  simp [validate, hblank, hnone]

/-- **A format fits every date or none.** Either every value that stands for a date has a text in
the format, or no value has. A format in which a value has a text passes the check, unless it is
blank. With a malformed specifier, wherever it stands, a format shows nothing and is refused. -/
theorem dates_shown_all_or_none (format : String) :
    ((∀ value : Value, value.date?.isSome → (value.dateText? format).isSome) ∨
      ∀ value : Value, value.dateText? format = none) ∧
    (∀ (value : Value) (emptyValue : String), (value.dateText? format).isSome →
      (Text.trim format.toList).isEmpty = false →
      (Options.mk emptyValue format).validate = .ok ()) ∧
    ∀ before rest, format.toList = before ++ '%' :: rest → (Pattern.ofChars? before).isSome →
      Pattern.specifier? rest = none →
      (∀ value : Value, value.dateText? format = none) ∧
        ∀ emptyValue, (Options.mk emptyValue format).validate = .error (.badFormat format) := by
  refine ⟨?_, fun value emptyValue hshown hblank => ?_,
    fun before rest hformat hbefore hnone => ?_⟩
  · by_cases h : ∃ items, Pattern.ofChars? format.toList = some items ∧
        items.all Item.ofDate = true
    · left
      intro value hvalue
      obtain ⟨items, hitems, hall⟩ := h
      obtain ⟨date, hdate⟩ := Option.isSome_iff_exists.mp hvalue
      rw [Value.dateText?_isSome hdate hitems, hall]
    · right
      intro value
      rw [← Option.not_isSome_iff_eq_none]
      exact fun hshown => h (Value.pattern_of_dateText? hshown)
  · obtain ⟨items, hitems, -⟩ := Value.pattern_of_dateText? hshown
    exact validate_eq_ok_iff.mpr ⟨hblank, Option.isSome_iff_exists.mpr ⟨items, hitems⟩⟩
  · have hpattern : Pattern.ofChars? format.toList = none :=
      Pattern.ofChars?_eq_none_iff.mpr ⟨before, rest, hformat, hbefore, hnone⟩
    refine ⟨fun value => ?_, validate_malformed hformat hpattern⟩
    rw [← Option.not_isSome_iff_eq_none]
    intro hshown
    obtain ⟨items, hitems, -⟩ := Value.pattern_of_dateText? hshown
    rw [hpattern] at hitems
    cases hitems

end Options

end AttributeReview
