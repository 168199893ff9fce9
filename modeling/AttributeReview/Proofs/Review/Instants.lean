import AttributeReview.Proofs.Calendar.Days
import AttributeReview.Proofs.Calendar.Shown
import AttributeReview.Proofs.Review.Display

/-!
# Instants shown as dates

An integer that stands for an instant shows as its day in universal time, in whatever format dates
show in. An instant outside of the range of the calendar is no date.
-/

namespace AttributeReview

open Attribute (Value)
open Calendar

namespace Number

/-- The integer that a number is, if it is kept as one. -/
def integer? : Number → Option Int
  | natural n => some n.toNat
  | negative n => some (-1 - (n : Nat))
  | float _ => none

theorem ofEpochMillis?_eq_none {millis : Int} (h : greatestInt64 ≤ millis) :
    Date.ofEpochMillis? millis = none := by
  -- Instants from the greatest integer of 64 bits on are past all dates.
  rw [Option.eq_none_iff_forall_ne_some]
  intro d hd
  have hbound := d.dayNumber_bounds.2
  have hlast : Date.daysBeforeYear (lastYear + 1) < Date.epochDay + greatestInt64 / 86400000 := by
    decide
  rw [Date.ofEpochMillis?, Date.ofDayNumber?_eq_some_iff] at hd
  omega

theorem ofEpochMillis?_toInt64 {n : Number} {millis : Int} (h : n.integer? = some millis) :
    Date.ofEpochMillis? n.toInt64 = Date.ofEpochMillis? millis := by
  cases n with
  | natural n =>
    obtain rfl := Option.some.inj h
    rcases Int.le_total n.toNat greatestInt64 with hle | hle
    · rw [toInt64, Int.min_eq_left hle]
    · rw [toInt64, Int.min_eq_right hle, ofEpochMillis?_eq_none hle,
        ofEpochMillis?_eq_none (Int.le_refl _)]
  | negative n =>
    obtain rfl := Option.some.inj h
    rfl
  | float x => cases h

end Number

/-- **How an instant shows.** In a format that any date shows in, an integer shows exactly if the
calendar has the day of the instant. There is no other day of the instant, the integer shows as this
day, and it shows like the text of the day if the year has four digits. -/
theorem instants_shown_by_day {n : Number} {millis : Int} (h : n.integer? = some millis)
    {format : String} {sample : Value} (hformat : (sample.dateText? format).isSome) :
    (((Value.number n).dateText? format).isSome ↔ ∃ d : Date, d.IsDayOf millis) ∧
    ∀ d : Date, d.IsDayOf millis →
      (∀ d' : Date, d'.IsDayOf millis → d' = d) ∧
      (Value.number n).dateText? format = textIn? format d ∧
      (0 ≤ d.year → d.year ≤ 9999 →
        (Value.number n).dateText? format =
          (Value.text (String.ofList (dashedText d))).dateText? format) := by
  have hshows (d : Date) : (textIn? format d).isSome := by
    obtain ⟨text, htext⟩ := Option.isSome_iff_exists.mp hformat
    rw [Value.dateText?_eq] at htext
    obtain ⟨d', -, hd'⟩ := Option.bind_eq_some_iff.mp htext
    rw [textIn?_isSome, ← textIn?_isSome format d', hd']
    rfl
  have hdate (d : Date) : (Value.number n).date? = some d ↔ d.IsDayOf millis := by
    rw [Value.date?, Number.ofEpochMillis?_toInt64 h, Date.ofEpochMillis?_eq_some_iff]
  constructor
  · rw [Value.dateText?_eq]
    cases hnumber : (Value.number n).date? with
    | none =>
      simp only [Option.bind_none, Option.isSome_none, Bool.false_eq_true, false_iff]
      rintro ⟨d, hd⟩
      rw [(hdate d).mpr hd] at hnumber
      cases hnumber
    | some d =>
      rw [Option.bind_some]
      exact iff_of_true (hshows d) ⟨d, (hdate d).mp hnumber⟩
  · intro d hd
    have hnumber := (hdate d).mpr hd
    refine ⟨?_, Value.dateText?_of_date hnumber format, ?_⟩
    · intro d' hd'
      exact Option.some.inj (((hdate d').mpr hd').symm.trans hnumber)
    · intro hfirst hlast
      have htext : (Value.text (String.ofList (dashedText d))).date? = some d := by
        rw [Value.date?, readDate_dashedText hfirst hlast]
      exact (Value.dateText?_of_date hnumber format).trans
        (Value.dateText?_of_date htext format).symm

def lastDayOf1969 : Date := ⟨1969, 12, 31, by decide⟩

/-- One millisecond before 1970 it is still 1969. -/
theorem instant_before_1970_shown :
    (Value.number (.negative 0)).dateText? "%m/%d/%Y" = some "12/31/1969" ∧
      (Value.number (.negative 0)).dateText? "%m/%d/%Y" =
        (Value.text "1969-12-31").dateText? "%m/%d/%Y" := by
  have hsample : ((Value.text "1970-01-01").dateText? "%m/%d/%Y").isSome := by decide +kernel
  have hlast : lastDayOf1969.IsDayOf (-1) := by
    have hepoch : Date.DayAt (-1 + 1) Date.epoch := .epoch
    exact ⟨-1, .before hepoch (by decide), by decide, by decide⟩
  obtain ⟨-, hday⟩ := instants_shown_by_day (n := .negative 0) rfl hsample
  obtain ⟨-, htext, hsame⟩ := hday lastDayOf1969 hlast
  have hshown : textIn? "%m/%d/%Y" lastDayOf1969 = some "12/31/1969" := by decide +kernel
  have hdashed : String.ofList (dashedText lastDayOf1969) = "1969-12-31" := by decide +kernel
  rw [hdashed] at hsame
  exact ⟨htext.trans hshown, hsame (by decide) (by decide)⟩

end AttributeReview
