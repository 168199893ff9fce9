import AttributeReview.Proofs.Calendar.Rendering
import AttributeReview.Proofs.Calendar.Written

/-!
# Dates that are shown

The text of a date with the month first names this date again, whatever its year is, so no two dates
have one text. The text with the year first does so for years of four digits.
-/

namespace AttributeReview.Calendar

variable {d d' : Date}

theorem month_lt (d : Date) : d.month < 100 := by
  obtain ⟨-, -, -, hmonth, -⟩ := d.isDate
  omega

theorem day_lt (d : Date) : d.day < 100 := by
  have hlengths : ∀ leap, ∀ month < 13, monthLength leap month < 100 := by decide
  obtain ⟨-, -, -, hmonth, -, hday⟩ := d.isDate
  have hlength := hlengths (isLeap d.year) d.month (by omega)
  omega

/-! ## The month or the year first -/

/-- The text of a date with the month first. -/
def slashedText (d : Date) : List Char := monthFirst d.month d.day (yearText .zero d.year)

theorem render_slashed (d : Date) : render d (Pattern.slashed .year) = some (slashedText d) := by
  simp [Pattern.slashed, render, itemText, fieldText, slashedText, monthFirst,
    twoPlaces_zero (month_lt d), twoPlaces_zero (day_lt d)]

theorem of?_self (d : Date) : Date.of? d.year d.month d.day = some d := dif_pos d.isDate

theorem readDate_slashedText (d : Date) : readDate (String.ofList (slashedText d)) = some d := by
  have hstart : Text.Starts (slashedText d) := (starts_digits (digits_digitsOf 2 _)).append _
  have hend : Text.Ends (slashedText d) :=
    ((((ends_yearText d.year).cons '/').append _).cons '/').append _
  rw [readDate_bounded hstart hend, slashedText, readers_monthFirst (month_lt d) (day_lt d),
    of?_self]

theorem slashedText_injective (h : slashedText d = slashedText d') : d = d' := by
  apply Option.some.inj
  rw [← readDate_slashedText d, h, readDate_slashedText]

theorem dashedText_eq (hfirst : 0 ≤ d.year) (hlast : d.year ≤ 9999) :
    dashedText d = (Form.yearFirst .none).text d.year.toNat d.month d.day := by
  rw [dashedText, yearText_zero, if_pos ⟨hfirst, hlast⟩, twoPlaces_zero (month_lt d),
    twoPlaces_zero (day_lt d)]
  simp [Form.text, yearFirst, Clock.text]

theorem readDate_dashedText (hfirst : 0 ≤ d.year) (hlast : d.year ≤ 9999) :
    readDate (String.ofList (dashedText d)) = some d := by
  rw [dashedText_eq hfirst hlast, readDate_bounded (Form.starts_text _) (Form.ends_text _),
    readers_form (by omega) (month_lt d) (day_lt d), Int.toNat_of_nonneg hfirst, of?_self]

end AttributeReview.Calendar
