import AttributeReview.Proofs.Calendar.Reading

/-!
# The forms of dates

A date may be written in several forms: with the year or the month first, and with a time of day and
an offset after it. A text in any of these forms names the date that is written in it, if there is
one. The time of day and the offset do not move it.
-/

namespace AttributeReview.Calendar

open Json (Digits)

/-- The digits of a fraction of a second. There may be any number of them, but not none. -/
structure Places where
  digits : List Char
  areDigits : Digits digits

structure TimeOfDay where
  hour : Fin 24
  minute : Fin 60
  second : Fin 60
  places : Option Places

inductive Offset where
  | universal
  | ahead (hours : Fin 24) (minutes : Fin 60)
  | behind (hours : Fin 24) (minutes : Fin 60)

/-- What is written after a date that has the year first. -/
inductive Clock where
  | none
  | toMinute (hour : Fin 24) (minute : Fin 60)
  | toSecond (time : TimeOfDay)
  | spaced (time : TimeOfDay)
  | withOffset (time : TimeOfDay) (offset : Offset)

inductive Form where
  | yearFirst (clock : Clock)
  | monthFirst

def hourAndMinute (hour : Fin 24) (minute : Fin 60) (rest : List Char) : List Char :=
  digitsOf 2 hour ++ ':' :: (digitsOf 2 minute ++ rest)

def placesText : Option Places → List Char
  | none => []
  | some places => '.' :: places.digits

def TimeOfDay.text (time : TimeOfDay) (rest : List Char) : List Char :=
  hourAndMinute time.hour time.minute
    (':' :: (digitsOf 2 time.second ++ (placesText time.places ++ rest)))

def Offset.text : Offset → List Char
  | universal => ['Z']
  | ahead hours minutes => '+' :: hourAndMinute hours minutes []
  | behind hours minutes => '-' :: hourAndMinute hours minutes []

def Clock.text : Clock → List Char
  | none => []
  | toMinute hour minute => 'T' :: hourAndMinute hour minute []
  | toSecond time => 'T' :: time.text []
  | spaced time => ' ' :: time.text []
  | withOffset time offset => 'T' :: time.text offset.text

/-- A year, a month and a day in some form. -/
def Form.text (form : Form) (year month day : Nat) : List Char :=
  match form with
  | yearFirst clock => Calendar.yearFirst year month day clock.text
  | monthFirst => Calendar.monthFirst month day (digitsOf 4 year)

/-! ## What the readers take -/

variable {rest : List Char}

theorem takeFraction_placesText (places : Option Places) (hdigit : NoDigit rest)
    (hpoint : rest.head? ≠ some '.') : takeFraction (placesText places ++ rest) = some rest := by
  cases places with
  | none =>
    rw [placesText, List.nil_append]
    unfold takeFraction
    split
    · exact absurd rfl hpoint
    · rfl
  | some places =>
    have hall := takeAllDigits_append places.areDigits hdigit
    rw [placesText, List.cons_append, takeFraction, hall]
    rfl

theorem isTimeOfDay_of_lt (hour : Fin 24) (minute second : Fin 60) :
    isTimeOfDay (hour : Nat) (minute : Nat) (second : Nat) = true := by
  simp only [isTimeOfDay, Bool.and_eq_true, decide_eq_true_eq]
  omega

theorem takeItems_hourMinute (hour : Fin 24) (minute : Fin 60) (items : List Item)
    (rest : List Char) :
    takeItems (Pattern.hourMinute ++ items) (hourAndMinute hour minute rest) =
      (takeItems items rest).map
        ([(.hour, ((hour : Nat) : Int)), (.minute, ((minute : Nat) : Int))] ++ ·) := by
  simp only [Pattern.hourMinute, hourAndMinute, List.cons_append, List.nil_append, takeItems_char,
    takeItems_twoDigits (by decide : Field.hour ≠ .year) (by omega : (hour : Nat) < 100),
    takeItems_twoDigits (by decide : Field.minute ≠ .year) (by omega : (minute : Nat) < 100),
    Option.map_map]
  rfl

theorem takeItems_time (time : TimeOfDay) :
    takeItems (Pattern.timeOfDay ++ [.fraction]) (time.text []) =
      some [(.hour, ((time.hour : Nat) : Int)), (.minute, ((time.minute : Nat) : Int)),
        (.second, ((time.second : Nat) : Int))] := by
  have hfraction : takeItems [.fraction] (placesText time.places) = some [] := by
    have htake := takeFraction_placesText time.places noDigit_nil (by decide)
    rw [List.append_nil] at htake
    rw [takeItems_fraction, htake]
    rfl
  simp only [Pattern.timeOfDay, TimeOfDay.text, List.append_assoc, takeItems_hourMinute,
    List.cons_append, List.nil_append, List.append_nil, takeItems_char,
    takeItems_twoDigits (by decide : Field.second ≠ .year) (by omega : (time.second : Nat) < 100),
    hfraction, Option.map_some]

theorem isOffset_hourAndMinute {sign : Char} (h : sign = '+' ∨ sign = '-')
    (hours : Fin 24) (minutes : Fin 60) :
    isOffset (sign :: hourAndMinute hours minutes []) = true := by
  have hcolon (cs : List Char) : takeChar [':'] (':' :: cs) = some cs := rfl
  have hhours := takeExactly_digitsOf (by decide) (by omega : (hours : Nat) < 10 ^ 2)
  have hminutes := takeExactly_digitsOf (by decide) (by omega : (minutes : Nat) < 10 ^ 2) []
  rw [List.append_nil] at hminutes
  unfold isOffset hourAndMinute
  split
  · rfl
  · rfl
  next heq =>
    cases heq
    have hhour : (hours : Nat) ≤ 23 := by omega
    have hminute : (minutes : Nat) ≤ 59 := by omega
    have hsign : ['+', '-', '\u2212'].contains sign = true := by
      rcases h with rfl | rfl
      · rfl
      · rfl
    rw [hsign, Bool.true_and]
    simp [hhours, hcolon, hminutes, hhour, hminute]
  next heq => cases heq

theorem isOffset_text (offset : Offset) : isOffset offset.text = true := by
  cases offset with
  | universal => rfl
  | ahead hours minutes => exact isOffset_hourAndMinute (by simp) hours minutes
  | behind hours minutes => exact isOffset_hourAndMinute (by simp) hours minutes

theorem takeFraction_offset (places : Option Places) (offset : Offset) :
    takeFraction (placesText places ++ offset.text) = some offset.text := by
  apply takeFraction_placesText
  · cases offset with
    | universal => exact noDigit_cons rfl
    | ahead hours minutes => exact noDigit_cons rfl
    | behind hours minutes => exact noDigit_cons rfl
  · cases offset with
    | universal => nofun
    | ahead hours minutes => nofun
    | behind hours minutes => nofun

variable {year month day : Nat}

theorem readTimestamp_text (hyear : year < 10000) (hmonth : month < 100) (hday : day < 100)
    (time : TimeOfDay) (offset : Offset) :
    readTimestamp (yearFirst year month day ('T' :: time.text offset.text)) =
      Date.of? year month day := by
  have hdash (cs : List Char) : takeChar ['-'] ('-' :: cs) = some cs := rfl
  have hletter (cs : List Char) : takeChar ['T', 't', ' '] ('T' :: cs) = some cs := rfl
  have hcolon (cs : List Char) : takeChar [':'] (':' :: cs) = some cs := rfl
  unfold readTimestamp yearFirst TimeOfDay.text hourAndMinute
  simp only [takeExactly_digitsOf (by decide : 0 < 4) hyear,
    takeExactly_digitsOf (by decide : 0 < 2) hmonth,
    takeExactly_digitsOf (by decide : 0 < 2) hday,
    takeExactly_digitsOf (by decide) (by omega : (time.hour : Nat) < 10 ^ 2),
    takeExactly_digitsOf (by decide) (by omega : (time.minute : Nat) < 10 ^ 2),
    takeExactly_digitsOf (by decide) (by omega : (time.second : Nat) < 10 ^ 2),
    hdash, hletter, hcolon, takeFraction_offset, Option.bind_eq_bind, Option.bind_some,
    isTimeOfDay_of_lt, isOffset_text, Bool.and_self, if_true]

theorem readPattern_of_time {items : List Item} {fields : List (Field × Int)}
    (hyear : year < 10000) (hmonth : month < 100) (hday : day < 100)
    (htake : takeItems items rest = some fields) (htime : timeFits fields = true) :
    readPattern (Pattern.dashed ++ items) (yearFirst year month day rest) =
      Date.of? year month day := by
  rw [readPattern_yearFirst hyear hmonth hday, htake, Option.bind_some, if_pos htime]

theorem exists_reader (hyear : year < 10000) (hmonth : month < 100) (hday : day < 100)
    (clock : Clock) :
    ∃ read ∈ readers, read (yearFirst year month day clock.text) = Date.of? year month day := by
  cases clock with
  | none =>
    have htake : takeItems [] (Clock.text .none) = some [] := rfl
    have hread := readPattern_of_time hyear hmonth hday htake rfl
    rw [List.append_nil] at hread
    exact ⟨_, by simp [readers, inputPatterns], hread⟩
  | toMinute hour minute =>
    have htake : takeItems ([.char 'T'] ++ Pattern.hourMinute)
        (Clock.text (.toMinute hour minute)) =
        some [(.hour, ((hour : Nat) : Int)), (.minute, ((minute : Nat) : Int))] := by
      have hitems := takeItems_hourMinute hour minute [] []
      rw [List.append_nil] at hitems
      rw [Clock.text, List.cons_append, List.nil_append, takeItems_char, hitems]
      rfl
    have hread := readPattern_of_time hyear hmonth hday htake (isTimeOfDay_of_lt hour minute 0)
    exact ⟨_, by simp [readers, inputPatterns], hread⟩
  | toSecond time =>
    have htake := takeItems_time time
    rw [← takeItems_char 'T'] at htake
    have hread := readPattern_of_time hyear hmonth hday htake
      (isTimeOfDay_of_lt time.hour time.minute time.second)
    exact ⟨_, by simp [readers, inputPatterns], hread⟩
  | spaced time =>
    have htake : takeItems (.blank ' ' :: (Pattern.timeOfDay ++ [.fraction]))
        (' ' :: time.text []) = takeItems (Pattern.timeOfDay ++ [.fraction]) (time.text []) := by
      rw [takeItems_blank, Text.trimStart_blank rfl, TimeOfDay.text, hourAndMinute,
        trimStart_digits (digits_digitsOf 2 _)]
    rw [takeItems_time] at htake
    have hread := readPattern_of_time hyear hmonth hday htake
      (isTimeOfDay_of_lt time.hour time.minute time.second)
    exact ⟨_, by simp [readers, inputPatterns], hread⟩
  | withOffset time offset =>
    exact ⟨readTimestamp, List.mem_cons_self, readTimestamp_text hyear hmonth hday time offset⟩

/-! ## Blanks around a date -/

theorem ends_hourAndMinute {hour : Fin 24} {minute : Fin 60} (h : rest = [] ∨ Text.Ends rest) :
    Text.Ends (hourAndMinute hour minute rest) :=
  ((ends_digits (digits_digitsOf 2 _) h).cons ':').append _

theorem ends_time {time : TimeOfDay} (h : rest = [] ∨ Text.Ends rest) :
    Text.Ends (time.text rest) := by
  have hplaces : placesText time.places ++ rest = [] ∨
      Text.Ends (placesText time.places ++ rest) := by
    cases time.places with
    | none => exact h
    | some places => exact Or.inr ((ends_digits places.areDigits h).cons '.')
  exact ends_hourAndMinute (Or.inr ((ends_digits (digits_digitsOf 2 _) hplaces).cons ':'))

theorem ends_offset (offset : Offset) : Text.Ends offset.text := by
  cases offset with
  | universal => exact ⟨'Z', rfl, rfl⟩
  | ahead hours minutes => exact (ends_hourAndMinute (Or.inl rfl)).cons '+'
  | behind hours minutes => exact (ends_hourAndMinute (Or.inl rfl)).cons '-'

theorem ends_clock (clock : Clock) : clock.text = [] ∨ Text.Ends clock.text := by
  cases clock with
  | none => exact Or.inl rfl
  | toMinute hour minute => exact Or.inr ((ends_hourAndMinute (Or.inl rfl)).cons 'T')
  | toSecond time => exact Or.inr ((ends_time (Or.inl rfl)).cons 'T')
  | spaced time => exact Or.inr ((ends_time (Or.inl rfl)).cons ' ')
  | withOffset time offset => exact Or.inr ((ends_time (Or.inr (ends_offset offset))).cons 'T')

theorem Form.starts_text (form : Form) : Text.Starts (form.text year month day) := by
  cases form with
  | yearFirst clock => exact (starts_digits (digits_digitsOf 4 year)).append _
  | monthFirst => exact (starts_digits (digits_digitsOf 2 month)).append _

theorem Form.ends_text (form : Form) : Text.Ends (form.text year month day) := by
  cases form with
  | yearFirst clock =>
    have hday := ends_digits (digits_digitsOf 2 day) (ends_clock clock)
    exact (((hday.cons '-').append _).cons '-').append _
  | monthFirst =>
    have hyear := ends_digits (digits_digitsOf 4 year) (Or.inl rfl)
    rw [List.append_nil] at hyear
    exact (((hyear.cons '/').append _).cons '/').append _

theorem readers_form (hyear : year < 10000) (hmonth : month < 100) (hday : day < 100)
    (form : Form) :
    readers.findSome? (· (form.text year month day)) = Date.of? year month day := by
  cases form with
  | yearFirst clock =>
    exact findSome?_eq_of_agree (fun read hread => readers_yearFirst hyear hmonth hday hread)
      (exists_reader hyear hmonth hday clock)
  | monthFirst =>
    have hread := readers_monthFirst hmonth hday year
    rwa [yearText_zero, if_pos (by omega), Int.toNat_natCast] at hread

/-- **Which date a text names.** A text in any of the forms, with any blanks around it, names the
date of the year, month and day that are written in it, and no date if the calendar has no such
day. Neither the time of day nor the offset changes that. -/
theorem dates_read_in_every_form (form : Form) (year : Fin 10000) (month day : Fin 100)
    {before after : List Char} (hbefore : ∀ c ∈ before, Text.isBlank c = true)
    (hafter : ∀ c ∈ after, Text.isBlank c = true) :
    readDate (String.ofList (before ++ form.text year month day ++ after)) =
      Date.of? (year : Nat) month day := by
  rw [readDate, String.toList_ofList,
    Text.trim_surrounded form.starts_text form.ends_text hbefore hafter]
  exact readers_form year.isLt month.isLt day.isLt form

/-- A minute before midnight, almost a day behind universal time. -/
def lateEvening : Form :=
  .yearFirst
    (.withOffset ⟨23, 59, 0, some ⟨['9', '9', '9'], nofun, List.all_eq_true.mp rfl⟩⟩
      (.behind 23 59))

theorem leap_day_read_in_late_evening :
    readDate " \u30002024-02-29T23:59:00.999-23:59\n" = some ⟨2024, 2, 29, by decide⟩ ∧
      readDate " \u30002023-02-29T23:59:00.999-23:59\n" = none := by
  have hleap : String.ofList ([' ', '\u3000'] ++ lateEvening.text 2024 2 29 ++ ['\n']) =
      " \u30002024-02-29T23:59:00.999-23:59\n" := by decide +kernel
  have hcommon : String.ofList ([' ', '\u3000'] ++ lateEvening.text 2023 2 29 ++ ['\n']) =
      " \u30002023-02-29T23:59:00.999-23:59\n" := by decide +kernel
  rw [← hleap, ← hcommon]
  have hbefore : ∀ c ∈ [' ', '\u3000'], Text.isBlank c = true := List.all_eq_true.mp rfl
  have hafter : ∀ c ∈ ['\n'], Text.isBlank c = true := List.all_eq_true.mp rfl
  exact ⟨dates_read_in_every_form lateEvening 2024 2 29 hbefore hafter,
    dates_read_in_every_form lateEvening 2023 2 29 hbefore hafter⟩

end AttributeReview.Calendar
