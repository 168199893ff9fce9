import AttributeReview.Proofs.Calendar.Reading
import Mathlib.Data.List.DropRight
import Mathlib.Data.List.TakeWhile

/-!
# The order of the readers of dates

No text is a different date to two readers. Those that want the year first, a timestamp among them,
take the same numbers from it, and no text that starts with a month and a slash fits them. So it
makes no difference in which order the readers are tried.
-/

namespace AttributeReview.Calendar

variable {rest cs : List Char} {items : List Item} {padding : Padding} {field : Field}

/-! ## Patterns with the year first -/

/-- The fields that a pattern asks for, in its order. -/
def fieldsIn (items : List Item) : List Field :=
  items.filterMap fun
    | .number field _ => some field
    | _ => none

theorem takeItems_append (items : List Item) (cs : List Char) :
    (∀ more, takeItems (items ++ more) cs = none) ∨
      ∃ fields rest, fields.map (·.1) = fieldsIn items ∧
        ∀ more, takeItems (items ++ more) cs = (takeItems more rest).map (fields ++ ·) := by
  induction items generalizing cs with
  | nil => exact Or.inr ⟨[], cs, rfl, fun more => (Option.map_id' ..).symm⟩
  | cons item items ih =>
    cases item with
    | char c =>
      by_cases h : cs.head? = some c
      · obtain ⟨cs, rfl⟩ := List.head?_eq_some_iff.mp h
        simp only [List.cons_append, takeItems_char]
        exact ih cs
      · exact Or.inl fun more => takeItems_char_ne h
    | blank c => exact ih (Text.trimStart cs)
    | number field padding =>
      cases h : takeField field (Text.trimStart cs) with
      | none => exact Or.inl fun more => takeItems_number_none h
      | some taken =>
        obtain ⟨n, after⟩ := taken
        simp only [List.cons_append, takeItems_number h]
        rcases ih after with hnone | ⟨fields, rest, hfields, htake⟩
        · exact Or.inl fun more => by rw [hnone, Option.map_none]
        · refine Or.inr ⟨(field, n) :: fields, rest, congrArg (field :: ·) hfields, fun more => ?_⟩
          rw [htake, Option.map_map]
          rfl
    | fraction =>
      simp only [List.cons_append, takeItems_fraction]
      cases h : takeFraction cs with
      | none => exact Or.inl fun more => rfl
      | some after => exact ih after
    | weekdayName short => exact Or.inl fun more => rfl
    | monthName short => exact Or.inl fun more => rfl
    | clock => exact Or.inl fun more => rfl

theorem dateOfFields_dashed (year month day : Int) (fields : List (Field × Int)) :
    dateOfFields ([(.year, year), (.month, month), (.day, day)] ++ fields) =
      if timeFits fields then Date.of? year month.toNat day.toNat else none := rfl

theorem readPattern_dashed (cs : List Char) :
    ∃ date, ∀ more, readPattern (Pattern.dashed ++ more) cs = none ∨
      readPattern (Pattern.dashed ++ more) cs = date := by
  rcases takeItems_append Pattern.dashed cs with hnone | ⟨fields, rest, hfields, htake⟩
  · exact ⟨none, fun more => Or.inl (congrArg (·.bind dateOfFields) (hnone more))⟩
  · match fields, hfields with
    | [(_, year), (_, month), (_, day)], hfields =>
      cases hfields
      refine ⟨Date.of? year month.toNat day.toNat, fun more => ?_⟩
      rw [readPattern, htake, Option.bind_map]
      refine bind_none_or fun fields => ?_
      rw [Function.comp_apply, dateOfFields_dashed]
      split
      · exact Or.inr rfl
      · exact Or.inl rfl

/-! ## Timestamps -/

theorem takeChar_eq_some {accepted : List Char} (h : takeChar accepted cs = some rest) :
    ∃ c ∈ accepted, cs = c :: rest := by
  cases cs with
  | nil => cases h
  | cons c cs =>
    simp only [takeChar, Option.ite_none_right_eq_some, Option.some.injEq,
      List.contains_iff_mem] at h
    exact ⟨c, h.1, by rw [h.2]⟩

theorem readTimestamp_eq_some {d : Date} (h : readTimestamp cs = some d) :
    ∃ year < 10000, ∃ month < 100, ∃ day < 100, ∃ rest, cs = yearFirst year month day rest := by
  unfold readTimestamp at h
  simp only [Option.bind_eq_bind, Option.bind_eq_some_iff, Prod.exists] at h
  obtain ⟨year, _, hyear, _, hdash, month, _, hmonth, _, hdash', day, rest, hday, -⟩ := h
  obtain ⟨hyearLt, rfl⟩ := takeExactly_eq_some (by decide) hyear
  obtain ⟨hmonthLt, rfl⟩ := takeExactly_eq_some (by decide) hmonth
  obtain ⟨hdayLt, rfl⟩ := takeExactly_eq_some (by decide) hday
  obtain ⟨c, hc, rfl⟩ := takeChar_eq_some hdash
  obtain ⟨c', hc', rfl⟩ := takeChar_eq_some hdash'
  rw [List.mem_singleton] at hc hc'
  subst hc hc'
  exact ⟨year, hyearLt, month, hmonthLt, day, hdayLt, rest, rfl⟩

/-! ## The month or the year first -/

theorem takeItems_number_trimStart :
    takeItems (.number field padding :: items) (Text.trimStart cs) =
      takeItems (.number field padding :: items) cs := by
  rw [takeItems_number_eq, takeItems_number_eq, Text.trimStart, Text.trimStart,
    List.dropWhile_idempotent]

theorem exists_digits (cs : List Char) :
    ∃ ds rest, cs = ds ++ rest ∧ (∀ c ∈ ds, c.isDigit = true) ∧ NoDigit rest := by
  refine ⟨cs.takeWhile isDigit, cs.dropWhile isDigit, (List.takeWhile_append_dropWhile).symm,
    fun c hc => List.mem_takeWhile_imp hc, fun c hc => ?_⟩
  have hnot := List.head?_dropWhile_not isDigit cs
  simpa [hc, isDigit_eq] using hnot

/-- No text fits both the pattern with the month first and one with the year first: a slash and a
dash cannot come after the same number. -/
theorem takeItems_slashed_or_dashed (cs : List Char) :
    takeItems (Pattern.slashed .year) cs = none ∨
      ∀ more, takeItems (Pattern.dashed ++ more) cs = none := by
  have hslashed : takeItems (Pattern.slashed .year) (Text.trimStart cs) =
      takeItems (Pattern.slashed .year) cs := takeItems_number_trimStart
  have hdashed (more : List Item) : takeItems (Pattern.dashed ++ more) (Text.trimStart cs) =
      takeItems (Pattern.dashed ++ more) cs := takeItems_number_trimStart
  obtain ⟨ds, rest, hcs, hds, hrest⟩ := exists_digits (Text.trimStart cs)
  by_cases hne : ds = []
  · rw [hne, List.nil_append] at hcs
    have hmonth : takeField .month (Text.trimStart cs) = none := by
      rw [hcs, takeField_of_ne_year (by decide), takeDigits_noDigit hrest, Option.map_none]
    exact Or.inl (takeItems_number_none hmonth)
  · simp only [← hslashed, ← hdashed, hcs]
    by_cases hslash : rest.head? = some '/'
    · exact Or.inr fun more => takeItems_dashed_digits ⟨hne, hds⟩ hrest (by rw [hslash]; nofun)
    · exact Or.inl (takeItems_slashed_digits ⟨hne, hds⟩ hrest hslash)

/-! ## All readers -/

theorem exists_date (cs : List Char) :
    ∃ date, ∀ read ∈ readers, read cs = none ∨ read cs = date := by
  cases htimestamp : readTimestamp cs with
  | some d =>
    obtain ⟨year, hyear, month, hmonth, day, hday, rest, rfl⟩ := readTimestamp_eq_some htimestamp
    exact ⟨Date.of? year month day, fun read => readers_yearFirst hyear hmonth hday⟩
  | none =>
    obtain ⟨date, hdate⟩ := readPattern_dashed cs
    rcases takeItems_slashed_or_dashed cs with hslashed | hdashed
    · refine ⟨date, fun read hread => ?_⟩
      rcases readers_cases hread with rfl | ⟨more, rfl⟩ | rfl
      · exact Or.inl htimestamp
      · exact hdate more
      · exact Or.inl (congrArg (·.bind dateOfFields) hslashed)
    · refine ⟨readPattern (Pattern.slashed .year) cs, fun read hread => ?_⟩
      rcases readers_cases hread with rfl | ⟨more, rfl⟩ | rfl
      · exact Or.inl htimestamp
      · exact Or.inl (congrArg (·.bind dateOfFields) (hdashed more))
      · exact Or.inr rfl

theorem findSome?_perm {order readers : List (List Char → Option Date)} {date : Option Date}
    (horder : order.Perm readers) (hagree : ∀ read ∈ readers, read cs = none ∨ read cs = date) :
    order.findSome? (· cs) = readers.findSome? (· cs) := by
  have hagree' : ∀ read ∈ order, read cs = none ∨ read cs = date :=
    fun read hread => hagree read (horder.mem_iff.mp hread)
  by_cases hread : ∃ read ∈ readers, read cs = date
  · have hread' : ∃ read ∈ order, read cs = date := by
      simpa only [horder.mem_iff] using hread
    rw [findSome?_eq_of_agree hagree hread, findSome?_eq_of_agree hagree' hread']
  · have hnone : ∀ read ∈ readers, read cs = none := fun read hmem =>
      (hagree read hmem).resolve_right fun heq => hread ⟨read, hmem, heq⟩
    have hnone' : ∀ read ∈ order, read cs = none :=
      fun read hmem => hnone read (horder.mem_iff.mp hmem)
    rw [List.findSome?_eq_none_iff.mpr hnone, List.findSome?_eq_none_iff.mpr hnone']

/-- **The order of the readers.** Two readers that each make a date of a text make the same date of
it. So a text names the same date in whatever order the readers are tried. -/
theorem same_date_in_any_order (s : String) :
    (∀ read ∈ readers, ∀ other ∈ readers, ∀ d d', read (Text.trim s.toList) = some d →
      other (Text.trim s.toList) = some d' → d = d') ∧
    ∀ order : List (List Char → Option Date), order.Perm readers →
      order.findSome? (· (Text.trim s.toList)) = readDate s := by
  obtain ⟨date, hdate⟩ := exists_date (Text.trim s.toList)
  have hsame {read : List Char → Option Date} {d : Date} (hread : read ∈ readers)
      (hd : read (Text.trim s.toList) = some d) : some d = date := by
    rcases hdate read hread with hnone | heq
    · rw [hnone] at hd
      cases hd
    · rw [← heq, hd]
  constructor
  · intro read hread other hother d d' hd hd'
    exact Option.some.inj ((hsame hread hd).trans (hsame hother hd').symm)
  · intro order horder
    exact findSome?_perm horder hdate

end AttributeReview.Calendar
