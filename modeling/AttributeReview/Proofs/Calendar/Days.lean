import AttributeReview.Calendar.Date
import Mathlib.Algebra.Ring.Nat
import Mathlib.Data.Int.Basic
import Mathlib.Data.List.Basic

/-!
# The days of the calendar, one after the other

Each date has a day number, and the date of a day number is found again. The numbers count the days
as the calendar goes on from one to the next: `DayAt` is that count, from the first of January 1970
in both directions.
-/

namespace AttributeReview.Date

variable {n year : Int} {leap : Bool} {month day : Nat}

/-! ## Years -/

def yearLength (leap : Bool) : Nat := if leap then 366 else 365

theorem daysBeforeYear_succ (year : Int) :
    daysBeforeYear (year + 1) = daysBeforeYear year + yearLength (isLeap year) := by
  cases hleap : isLeap year with
  | true =>
    simp [isLeap] at hleap
    simp only [daysBeforeYear, yearLength, if_true]
    omega
  | false =>
    simp [isLeap] at hleap
    simp only [daysBeforeYear, yearLength, Bool.false_eq_true, if_false]
    omega

theorem daysBeforeYear_mono {year year' : Int} (h : year ≤ year') :
    daysBeforeYear year ≤ daysBeforeYear year' := by
  unfold daysBeforeYear
  simp only
  omega

theorem yearOf_bounds (n : Int) :
    daysBeforeYear (yearOf n) ≤ n ∧ n < daysBeforeYear (yearOf n + 1) := by
  unfold yearOf daysBeforeYear
  simp only
  split
  · omega
  · split
    · omega
    · omega

theorem le_yearOf_iff : year ≤ yearOf n ↔ daysBeforeYear year ≤ n := by
  obtain ⟨hstart, hend⟩ := yearOf_bounds n
  constructor
  · intro hle
    have hmono := daysBeforeYear_mono hle
    omega
  · intro hle
    by_contra hlt
    have hmono := daysBeforeYear_mono (Int.add_one_le_of_lt (Int.not_le.mp hlt))
    omega

theorem yearOf_eq (hstart : daysBeforeYear year ≤ n) (hend : n < daysBeforeYear (year + 1)) :
    yearOf n = year := by
  have hle := le_yearOf_iff.mpr hstart
  have hlt : ¬ year + 1 ≤ yearOf n := by
    rw [le_yearOf_iff]
    omega
  omega

/-! ## Months -/

/-- A month of the year and a day of it. -/
def InYear (leap : Bool) (month day : Nat) : Prop :=
  1 ≤ month ∧ month ≤ 12 ∧ 1 ≤ day ∧ day ≤ monthLength leap month

theorem inYear (d : Date) : InYear (isLeap d.year) d.month d.day := d.isDate.2.2

theorem monthAndDay_take {lengths : List Nat} {i : Nat} (hi : i < lengths.length) {before : Nat}
    (hbefore : before < lengths[i]) (first : Nat) :
    monthAndDay first ((lengths.take i).sum + before) lengths = (first + i, before + 1) := by
  induction lengths generalizing i first with
  | nil => exact absurd hi (Nat.not_lt_zero i)
  | cons length rest ih =>
    cases i with
    | zero =>
      rw [List.take_zero, List.sum_nil, Nat.zero_add, monthAndDay]
      exact if_pos hbefore
    | succ i =>
      have hsum : ((length :: rest).take (i + 1)).sum + before =
          length + ((rest.take i).sum + before) := by
        rw [List.take_succ_cons, List.sum_cons, Nat.add_assoc]
      rw [hsum, monthAndDay, if_neg (by omega), Nat.add_sub_cancel_left,
        ih (Nat.lt_of_succ_lt_succ hi) hbefore]
      congr 1
      omega

theorem exists_take {lengths : List Nat} {n : Nat} (h : n < lengths.sum) :
    ∃ i, ∃ hi : i < lengths.length, ∃ before < lengths[i], n = (lengths.take i).sum + before := by
  induction lengths generalizing n with
  | nil => exact absurd h (Nat.not_lt_zero n)
  | cons length rest ih =>
    by_cases hfirst : n < length
    · exact ⟨0, Nat.zero_lt_succ _, n, hfirst, (Nat.zero_add n).symm⟩
    · rw [List.sum_cons] at h
      obtain ⟨i, hi, before, hbefore, heq⟩ := ih (n := n - length) (by omega)
      refine ⟨i + 1, Nat.succ_lt_succ hi, before, hbefore, ?_⟩
      rw [List.take_succ_cons, List.sum_cons]
      omega

theorem length_monthLengths : (monthLengths leap).length = 12 := rfl

theorem monthLength_eq {i : Nat} (hi : i < (monthLengths leap).length) :
    monthLength leap (i + 1) = (monthLengths leap)[i] := by
  rw [monthLength, Nat.add_sub_cancel, List.getD_eq_getElem?_getD, List.getElem?_eq_getElem hi,
    Option.getD_some]

theorem sum_monthLengths : (monthLengths leap).sum = yearLength leap := by
  cases leap <;> rfl

theorem daysBeforeMonth_add_le (h : InYear leap month day) :
    daysBeforeMonth leap month + day ≤ yearLength leap := by
  have hmonths : ∀ leap, ∀ month < 13,
      daysBeforeMonth leap month + monthLength leap month ≤ yearLength leap := by decide
  obtain ⟨-, hmonth, -, hday⟩ := h
  have hle := hmonths leap month (Nat.lt_succ_of_le hmonth)
  omega

theorem monthAndDay_daysBeforeMonth (h : InYear leap month day) :
    monthAndDay 1 (daysBeforeMonth leap month + day - 1) (monthLengths leap) = (month, day) := by
  obtain ⟨hfirst, hlast, hday, hlength⟩ := h
  obtain ⟨i, rfl⟩ := Nat.exists_eq_add_of_le' hfirst
  obtain ⟨before, rfl⟩ := Nat.exists_eq_add_of_le' hday
  have hi : i < (monthLengths leap).length := by
    rw [length_monthLengths]
    omega
  rw [monthLength_eq hi] at hlength
  have hfound := monthAndDay_take hi hlength 1
  rw [Nat.add_comm 1 i] at hfound
  exact hfound

theorem exists_month {n : Nat} (h : n < yearLength leap) :
    ∃ month day, InYear leap month day ∧ n = daysBeforeMonth leap month + day - 1 := by
  rw [← sum_monthLengths] at h
  obtain ⟨i, hi, before, hbefore, rfl⟩ := exists_take h
  refine ⟨i + 1, before + 1, ⟨Nat.succ_pos i, hi, Nat.succ_pos before, ?_⟩, rfl⟩
  rw [monthLength_eq hi]
  exact hbefore

/-! ## Day numbers -/

theorem dayOfYear_bounds (d : Date) :
    1 ≤ d.dayOfYear ∧ d.dayOfYear ≤ yearLength (isLeap d.year) := by
  obtain ⟨-, -, hday, -⟩ := d.inYear
  have hle := daysBeforeMonth_add_le d.inYear
  unfold dayOfYear
  omega

theorem yearOf_dayNumber (d : Date) : yearOf d.dayNumber = d.year := by
  obtain ⟨hfirst, hlast⟩ := d.dayOfYear_bounds
  have hnext := daysBeforeYear_succ d.year
  apply yearOf_eq
  · unfold dayNumber
    omega
  · unfold dayNumber
    omega

theorem ofDayNumber?_dayNumber (d : Date) : ofDayNumber? d.dayNumber = some d := by
  have hrest : (d.dayNumber - daysBeforeYear d.year).toNat = d.dayOfYear - 1 := by
    unfold dayNumber
    omega
  rw [ofDayNumber?, yearOf_dayNumber, hrest, dayOfYear]
  simp only [monthAndDay_daysBeforeMonth d.inYear]
  exact dif_pos d.isDate

theorem exists_dayNumber (hstart : daysBeforeYear firstYear ≤ n)
    (hend : n < daysBeforeYear (lastYear + 1)) : ∃ d : Date, d.dayNumber = n := by
  obtain ⟨hyear, hnext⟩ := yearOf_bounds n
  rw [daysBeforeYear_succ] at hnext
  have hlt : (n - daysBeforeYear (yearOf n)).toNat < yearLength (isLeap (yearOf n)) := by omega
  obtain ⟨month, day, hin, hrest⟩ := exists_month hlt
  have hfirst : firstYear ≤ yearOf n := le_yearOf_iff.mpr hstart
  have hlast : ¬ lastYear + 1 ≤ yearOf n := by
    rw [le_yearOf_iff]
    omega
  refine ⟨⟨yearOf n, month, day, hfirst, Int.lt_add_one_iff.mp (Int.not_le.mp hlast), hin⟩, ?_⟩
  obtain ⟨-, -, hday, -⟩ := hin
  unfold dayNumber dayOfYear
  simp only
  omega

theorem dayNumber_bounds (d : Date) :
    daysBeforeYear firstYear ≤ d.dayNumber ∧ d.dayNumber < daysBeforeYear (lastYear + 1) := by
  obtain ⟨hfirst, hlast, -⟩ := d.isDate
  constructor
  · rw [← le_yearOf_iff, yearOf_dayNumber]
    exact hfirst
  · rw [← Int.not_le, ← le_yearOf_iff, yearOf_dayNumber]
    omega

theorem ofDayNumber?_eq_some_iff {d : Date} : ofDayNumber? n = some d ↔ d.dayNumber = n := by
  constructor
  · intro h
    have hrange : firstYear ≤ yearOf n ∧ yearOf n ≤ lastYear := by
      unfold ofDayNumber? of? at h
      simp only at h
      split at h
      next hdate => exact ⟨hdate.1, hdate.2.1⟩
      next => cases h
    have hend : ¬ daysBeforeYear (lastYear + 1) ≤ n := by
      rw [← le_yearOf_iff]
      omega
    obtain ⟨d', rfl⟩ := exists_dayNumber (le_yearOf_iff.mp hrange.1) (Int.not_le.mp hend)
    rw [ofDayNumber?_dayNumber] at h
    rw [Option.some.inj h]
  · rintro rfl
    exact ofDayNumber?_dayNumber d

theorem dayNumber_injective {d d' : Date} (h : d.dayNumber = d'.dayNumber) : d = d' := by
  apply Option.some.inj
  rw [← ofDayNumber?_dayNumber d, h, ofDayNumber?_dayNumber]

/-! ## From one day to the next -/

/-- The day after a date: the next day of the month, or else the first day of the next month, or
else the first day of the next year. The last date of the range has no day after it. -/
def next? (d : Date) : Option Date :=
  if d.day < monthLength (isLeap d.year) d.month then of? d.year d.month (d.day + 1)
  else if d.month < 12 then of? d.year (d.month + 1) 1
  else of? (d.year + 1) 1 1

theorem eq_of_of? {d : Date} (h : of? year month day = some d) :
    d.year = year ∧ d.month = month ∧ d.day = day := by
  unfold of? at h
  split at h
  · cases h
    exact ⟨rfl, rfl, rfl⟩
  · cases h

theorem daysBeforeMonth_succ (leap : Bool) (hfirst : 1 ≤ month) (hlast : month ≤ 12) :
    daysBeforeMonth leap (month + 1) = daysBeforeMonth leap month + monthLength leap month := by
  have hmonths : ∀ leap, ∀ month < 13, 1 ≤ month →
      daysBeforeMonth leap (month + 1) = daysBeforeMonth leap month + monthLength leap month := by
    decide
  exact hmonths leap month (Nat.lt_succ_of_le hlast) hfirst

theorem daysBeforeMonth_thirteen : daysBeforeMonth leap 13 = yearLength leap := by
  cases leap <;> rfl

theorem dayNumber_next? {d d' : Date} (h : d.next? = some d') :
    d'.dayNumber = d.dayNumber + 1 := by
  obtain ⟨hfirst, hlast, -, hday⟩ := d.inYear
  unfold next? at h
  split at h
  next =>
    obtain ⟨hyear, hmonth, hday⟩ := eq_of_of? h
    rw [dayNumber, dayOfYear, hyear, hmonth, hday, dayNumber, dayOfYear]
    omega
  next hend =>
    have hmonthEnd := daysBeforeMonth_succ (isLeap d.year) hfirst hlast
    split at h
    next =>
      obtain ⟨hyear, hmonth, hone⟩ := eq_of_of? h
      rw [dayNumber, dayOfYear, hyear, hmonth, hone, hmonthEnd, dayNumber, dayOfYear]
      omega
    next hdecember =>
      obtain ⟨hyear, hmonth, hone⟩ := eq_of_of? h
      have hyearEnd := daysBeforeYear_succ d.year
      obtain hmonth' : d.month = 12 := by omega
      rw [hmonth', daysBeforeMonth_thirteen] at hmonthEnd
      rw [dayNumber, dayOfYear, hyear, hmonth, hone, dayNumber, dayOfYear, hmonth', hyearEnd]
      have hjanuary : daysBeforeMonth (isLeap (d.year + 1)) 1 = 0 := rfl
      rw [hmonth'] at hend hday
      omega

theorem isDate_first (hfirst : firstYear ≤ year) (hlast : year ≤ lastYear) (hmonth : 1 ≤ month)
    (hmonth' : month ≤ 12) : IsDate year month 1 := by
  have hlengths : ∀ leap, ∀ month < 13, 1 ≤ month → 1 ≤ monthLength leap month := by decide
  exact ⟨hfirst, hlast, hmonth, hmonth', Nat.le_refl 1,
    hlengths _ month (Nat.lt_succ_of_le hmonth') hmonth⟩

theorem next?_isSome {d : Date} (h : d.dayNumber + 1 < daysBeforeYear (lastYear + 1)) :
    d.next?.isSome := by
  obtain ⟨hfirst, hlast, hjanuary, hdecember, hone, hday⟩ := d.isDate
  unfold next?
  split
  next hlt => rw [of?, dif_pos ⟨hfirst, hlast, hjanuary, hdecember, by omega, hlt⟩]; rfl
  next hend =>
    split
    next hlt => rw [of?, dif_pos (isDate_first hfirst hlast (by omega) hlt)]; rfl
    next hmonth =>
      have hyear : d.year + 1 ≤ lastYear := by
        by_contra hgt
        obtain hyear : d.year = lastYear := by omega
        obtain hmonth' : d.month = 12 := by omega
        have hend' := daysBeforeMonth_succ (isLeap d.year) hjanuary hdecember
        rw [hmonth', daysBeforeMonth_thirteen] at hend'
        have hnext := daysBeforeYear_succ d.year
        rw [hmonth'] at hend hday
        rw [dayNumber, dayOfYear, hmonth', ← hyear] at h
        omega
      rw [of?, dif_pos (isDate_first (by omega) hyear (by decide) (by decide))]; rfl

def epoch : Date := ⟨1970, 1, 1, by decide⟩

theorem dayNumber_epoch : epoch.dayNumber = epochDay := by decide

/-- The date so many days after the first of January 1970, counted day by day. A date before it is
a negative number of days after it. -/
inductive DayAt : Int → Date → Prop where
  | epoch : DayAt 0 epoch
  | after {n : Int} {d d' : Date} : DayAt n d → d.next? = some d' → DayAt (n + 1) d'
  | before {n : Int} {d d' : Date} : DayAt (n + 1) d' → d.next? = some d' → DayAt n d

theorem DayAt.dayNumber_eq {d : Date} (h : DayAt n d) : d.dayNumber = epochDay + n := by
  induction h with
  | epoch => exact dayNumber_epoch
  | after _ hnext ih =>
    rw [dayNumber_next? hnext, ih]
    omega
  | before _ hnext ih =>
    rw [dayNumber_next? hnext] at ih
    omega

theorem exists_next? {d d' : Date} (h : d'.dayNumber = d.dayNumber + 1) : d.next? = some d' := by
  have hbound := d'.dayNumber_bounds.2
  obtain ⟨next, hnext⟩ := Option.isSome_iff_exists.mp (next?_isSome (d := d) (by omega))
  rw [hnext, dayNumber_injective ((dayNumber_next? hnext).trans h.symm)]

theorem dayAt_of_dayNumber {d : Date} (h : d.dayNumber = epochDay + n) : DayAt n d := by
  have hepoch := epoch.dayNumber_bounds
  rw [dayNumber_epoch] at hepoch
  -- From the epoch on a date is reached from the day before it, and back from the epoch from the
  -- day after it; both are dates, since they lie between the date and the epoch.
  induction n using Int.induction_on generalizing d with
  | zero =>
    rw [Int.add_zero, ← dayNumber_epoch] at h
    rw [dayNumber_injective h]
    exact .epoch
  | succ k ih =>
    have hbound := d.dayNumber_bounds.2
    obtain ⟨yesterday, hyesterday⟩ := exists_dayNumber (n := epochDay + k) (by omega) (by omega)
    exact .after (ih hyesterday) (exists_next? (by omega))
  | pred k ih =>
    have hbound := d.dayNumber_bounds.1
    obtain ⟨tomorrow, htomorrow⟩ := exists_dayNumber (n := epochDay + -k) (by omega) (by omega)
    have hcount : DayAt (-k - 1 + 1) tomorrow := by
      rw [Int.sub_add_cancel]
      exact ih htomorrow
    exact .before hcount (exists_next? (by omega))

/-- **Day numbers count days.** -/
theorem dayAt_iff {d : Date} : DayAt n d ↔ d.dayNumber = epochDay + n :=
  ⟨DayAt.dayNumber_eq, dayAt_of_dayNumber⟩

/-! ## Instants -/

/-- The date is the day in universal time of the instant some milliseconds after the start of
1970. -/
def IsDayOf (d : Date) (millis : Int) : Prop :=
  ∃ n, DayAt n d ∧ 86400000 * n ≤ millis ∧ millis < 86400000 * (n + 1)

theorem ofEpochMillis?_eq_some_iff {d : Date} {millis : Int} :
    ofEpochMillis? millis = some d ↔ d.IsDayOf millis := by
  rw [ofEpochMillis?, ofDayNumber?_eq_some_iff]
  constructor
  · intro h
    exact ⟨millis / 86400000, dayAt_iff.mpr h, by omega, by omega⟩
  · rintro ⟨n, hday, hstart, hend⟩
    rw [dayAt_iff] at hday
    omega

end AttributeReview.Date
