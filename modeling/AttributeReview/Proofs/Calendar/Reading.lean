import AttributeReview.Proofs.Attribute.Spelling
import AttributeReview.Proofs.Calendar.Number
import AttributeReview.Proofs.Text.Blank

/-!
# What the readers of dates make of a text

The readers are tried one after the other. All but the last want the year first and a dash after it,
and what they make of a text that starts so is the date that it starts with or nothing. The last one
wants the month first and a slash after it. So a text that goes on in another way after its first
number is no date.
-/

namespace AttributeReview.Calendar

open Json (Digits)

variable {ds rest cs : List Char} {items : List Item} {padding : Padding} {field : Field}

/-! ## Texts without blanks around them -/

theorem starts_digits (h : Digits ds) : Text.Starts ds := by
  obtain ⟨c, ds', rfl⟩ := List.exists_cons_of_ne_nil h.1
  exact ⟨c, rfl, Attribute.not_blank_of_isDigit (h.2 c List.mem_cons_self)⟩

theorem ends_digits (h : Digits ds) (hrest : rest = [] ∨ Text.Ends rest) :
    Text.Ends (ds ++ rest) := by
  rcases hrest with rfl | hrest
  · rw [List.append_nil]
    refine ⟨ds.getLast h.1, List.getLast?_eq_some_getLast h.1, ?_⟩
    exact Attribute.not_blank_of_isDigit (h.2 _ (List.getLast_mem h.1))
  · exact hrest.append ds

theorem trimStart_digits (h : Digits ds) : Text.trimStart (ds ++ rest) = ds ++ rest :=
  Text.trimStart_of_starts ((starts_digits h).append rest)

theorem starts_yearText (year : Int) : Text.Starts (yearText .zero year) := by
  rw [yearText_zero]
  split
  · exact starts_digits (digits_digitsOf 4 _)
  · split
    · exact ⟨'-', rfl, rfl⟩
    · exact ⟨'+', rfl, rfl⟩

theorem ends_yearText (year : Int) : Text.Ends (yearText .zero year) := by
  have hdigits {n : Nat} : Text.Ends (digitsOf 4 n) := by
    have hends := ends_digits (digits_digitsOf 4 n) (Or.inl rfl)
    rwa [List.append_nil] at hends
  rw [yearText_zero]
  split
  · exact hdigits
  · exact hdigits.cons _

/-! ## Items one by one -/

theorem takeItems_char_cons (c d : Char) : takeItems (.char c :: items) (d :: rest) =
    if c = d then takeItems items rest else none := rfl

theorem takeItems_blank (c : Char) :
    takeItems (.blank c :: items) cs = takeItems items (Text.trimStart cs) := rfl

theorem takeItems_fraction :
    takeItems (.fraction :: items) cs = (takeFraction cs).bind (takeItems items) := rfl

theorem takeItems_number_eq : takeItems (.number field padding :: items) cs =
    (takeField field (Text.trimStart cs)).bind fun taken =>
      (takeItems items taken.2).bind fun fields => some ((field, taken.1) :: fields) := rfl

theorem takeItems_char (c : Char) :
    takeItems (.char c :: items) (c :: rest) = takeItems items rest := by
  rw [takeItems_char_cons, if_pos rfl]

theorem takeItems_char_ne {c : Char} (h : cs.head? ≠ some c) :
    takeItems (.char c :: items) cs = none := by
  cases cs with
  | nil => rfl
  | cons d rest =>
    rw [takeItems_char_cons, if_neg]
    rintro rfl
    exact h rfl

theorem takeItems_number {n : Int} (h : takeField field (Text.trimStart cs) = some (n, rest)) :
    takeItems (.number field padding :: items) cs =
      (takeItems items rest).map ((field, n) :: ·) := by
  rw [takeItems_number_eq, h, Option.bind_some, Option.map_eq_bind]
  rfl

theorem takeItems_number_none (h : takeField field (Text.trimStart cs) = none) :
    takeItems (.number field padding :: items) cs = none := by
  rw [takeItems_number_eq, h, Option.bind_none]

theorem takeItems_year {n : Nat} (h : n < 10000) :
    takeItems (.number .year padding :: items) (digitsOf 4 n ++ rest) =
      (takeItems items rest).map ((.year, (n : Int)) :: ·) := by
  apply takeItems_number
  rw [trimStart_digits (digits_digitsOf 4 n), takeField_year_digits (digits_digitsOf 4 n),
    takeDigits_digitsOf (by decide) h]
  rfl

theorem takeItems_twoDigits {n : Nat} (hfield : field ≠ .year) (h : n < 100) :
    takeItems (.number field padding :: items) (digitsOf 2 n ++ rest) =
      (takeItems items rest).map ((field, (n : Int)) :: ·) := by
  apply takeItems_number
  rw [trimStart_digits (digits_digitsOf 2 n), takeField_of_ne_year hfield,
    takeDigits_digitsOf (by decide) h]
  rfl

/-! ## Texts that start with a number -/

theorem head_drop_append {c : Char} (h : Digits ds) (hc : c.isDigit = false)
    (hrest : rest.head? ≠ some c) (k : Nat) : (ds.drop k ++ rest).head? ≠ some c := by
  cases hdrop : ds.drop k with
  | nil => exact hrest
  | cons d ds' =>
    have hdigit := h.2 d (List.mem_of_mem_drop (hdrop ▸ List.mem_cons_self))
    intro heq
    rw [Option.some.inj heq, hc] at hdigit
    cases hdigit

theorem takeItems_dashed_digits (h : Digits ds) (hrest : NoDigit rest)
    (hdash : rest.head? ≠ some '-') : takeItems (Pattern.dashed ++ items) (ds ++ rest) = none := by
  have hyear : takeField .year (Text.trimStart (ds ++ rest)) =
      some ((Nat.ofDigitChars 10 (ds.take 4) 0 : Int), ds.drop 4 ++ rest) := by
    rw [trimStart_digits h, takeField_year_digits h,
      takeDigits_append h (by decide) (Or.inr hrest)]
    rfl
  rw [Pattern.dashed, List.cons_append, takeItems_number hyear, List.cons_append,
    takeItems_char_ne (head_drop_append h rfl hdash 4)]
  rfl

theorem takeItems_dashed_minus (h : Digits ds) (hrest : NoDigit rest)
    (hdash : rest.head? ≠ some '-') :
    takeItems (Pattern.dashed ++ items) ('-' :: (ds ++ rest)) = none := by
  have hyear : takeField .year (Text.trimStart ('-' :: (ds ++ rest))) =
      some (-(Nat.ofDigitChars 10 ds 0 : Int), rest) := by
    rw [Text.trimStart_of_not_blank rfl, takeField, takeAllDigits_append h hrest]
    rfl
  rw [Pattern.dashed, List.cons_append, takeItems_number hyear, List.cons_append,
    takeItems_char_ne hdash]
  rfl

theorem takeItems_slashed_digits {yearField : Field} (h : Digits ds) (hrest : NoDigit rest)
    (hslash : rest.head? ≠ some '/') :
    takeItems (Pattern.slashed yearField) (ds ++ rest) = none := by
  have hmonth : takeField .month (Text.trimStart (ds ++ rest)) =
      some ((Nat.ofDigitChars 10 (ds.take 2) 0 : Int), ds.drop 2 ++ rest) := by
    rw [trimStart_digits h, takeField_of_ne_year (by decide),
      takeDigits_append h (by decide) (Or.inr hrest)]
    rfl
  rw [Pattern.slashed, takeItems_number hmonth,
    takeItems_char_ne (head_drop_append h rfl hslash 2)]
  rfl

theorem takeItems_slashed_minus {yearField : Field} :
    takeItems (Pattern.slashed yearField) ('-' :: cs) = none := by
  apply takeItems_number_none
  rw [Text.trimStart_of_not_blank rfl, takeField_of_ne_year (by decide),
    takeDigits_noDigit (noDigit_cons rfl)]
  rfl

theorem readTimestamp_digits (h : Digits ds) (hrest : NoDigit rest)
    (hdash : rest.head? ≠ some '-') : readTimestamp (ds ++ rest) = none := by
  unfold readTimestamp
  rcases Nat.lt_or_ge ds.length 4 with hshort | hlong
  · rw [takeExactly_short hshort hrest]
    rfl
  · have hchar : takeChar ['-'] (ds.drop 4 ++ rest) = none := by
      have hhead := head_drop_append h (c := '-') rfl hdash 4
      cases hcs : ds.drop 4 ++ rest with
      | nil => rfl
      | cons c cs =>
        rw [hcs] at hhead
        have hne : c ≠ '-' := fun heq => hhead (heq ▸ rfl)
        simp [takeChar, hne]
    rw [takeExactly_append h hlong]
    simp only [Option.bind_eq_bind, Option.bind_some, hchar, Option.bind_none]

theorem readTimestamp_minus : readTimestamp ('-' :: cs) = none := by
  have hsign : NoDigit ('-' :: cs) := noDigit_cons rfl
  have hshort := takeExactly_short (show ([] : List Char).length < 4 by decide) hsign
  unfold readTimestamp
  rw [List.nil_append] at hshort
  rw [hshort]
  rfl

/-! ## All readers -/

theorem mem_inputPatterns {items : List Item} (h : items ∈ inputPatterns) :
    (∃ more, items = Pattern.dashed ++ more) ∨ items = Pattern.slashed .year := by
  simp only [inputPatterns, List.mem_cons, List.not_mem_nil, or_false] at h
  rcases h with rfl | rfl | rfl | rfl | rfl | rfl | rfl
  · exact Or.inl ⟨_, by rw [List.append_assoc, List.append_assoc]⟩
  · exact Or.inl ⟨_, by rw [List.append_assoc]⟩
  · exact Or.inl ⟨_, by rw [List.append_assoc, List.append_assoc]⟩
  · exact Or.inl ⟨_, by rw [List.append_assoc]⟩
  · exact Or.inl ⟨_, by rw [List.append_assoc]⟩
  · exact Or.inl ⟨[], by rw [List.append_nil]⟩
  · exact Or.inr rfl

theorem readers_cases {read : List Char → Option Date} (h : read ∈ readers) :
    read = readTimestamp ∨ (∃ more, read = readPattern (Pattern.dashed ++ more)) ∨
      read = readPattern (Pattern.slashed .year) := by
  rcases List.mem_cons.mp h with rfl | h
  · exact Or.inl rfl
  · obtain ⟨items, hitems, rfl⟩ := List.mem_map.mp h
    rcases mem_inputPatterns hitems with ⟨more, rfl⟩ | rfl
    · exact Or.inr (Or.inl ⟨more, rfl⟩)
    · exact Or.inr (Or.inr rfl)

theorem findSome?_eq_of_agree {readers : List (List Char → Option Date)} {date : Option Date}
    (hagree : ∀ read ∈ readers, read cs = none ∨ read cs = date)
    (hread : ∃ read ∈ readers, read cs = date) : readers.findSome? (· cs) = date := by
  cases hfound : readers.findSome? (· cs) with
  | none =>
    obtain ⟨read, hmem, hdate⟩ := hread
    rw [← hdate, List.findSome?_eq_none_iff.mp hfound read hmem]
  | some found =>
    obtain ⟨read, hmem, hdate⟩ := List.exists_of_findSome?_eq_some hfound
    rcases hagree read hmem with hnone | heq
    · rw [hnone] at hdate
      cases hdate
    · rw [← heq, hdate]

theorem readers_number (h : Digits ds) (hrest : NoDigit rest) (hdash : rest.head? ≠ some '-')
    (hslash : rest.head? ≠ some '/') (negative : Bool) :
    readers.findSome? (· ((if negative then ['-'] else []) ++ (ds ++ rest))) = none := by
  rw [List.findSome?_eq_none_iff]
  intro read hread
  cases negative with
  | false =>
    change read (ds ++ rest) = none
    rcases readers_cases hread with rfl | ⟨more, rfl⟩ | rfl
    · exact readTimestamp_digits h hrest hdash
    · exact congrArg (·.bind dateOfFields) (takeItems_dashed_digits h hrest hdash)
    · exact congrArg (·.bind dateOfFields) (takeItems_slashed_digits h hrest hslash)
  | true =>
    change read ('-' :: (ds ++ rest)) = none
    rcases readers_cases hread with rfl | ⟨more, rfl⟩ | rfl
    · exact readTimestamp_minus
    · exact congrArg (·.bind dateOfFields) (takeItems_dashed_minus h hrest hdash)
    · exact congrArg (·.bind dateOfFields) takeItems_slashed_minus

/-! ## Texts that start with a date -/

/-- A date from the year on, and what comes after it. -/
def yearFirst (year month day : Nat) (rest : List Char) : List Char :=
  digitsOf 4 year ++ '-' :: (digitsOf 2 month ++ '-' :: (digitsOf 2 day ++ rest))

/-- A month and a day, and the year after them. -/
def monthFirst (month day : Nat) (year : List Char) : List Char :=
  digitsOf 2 month ++ '/' :: (digitsOf 2 day ++ '/' :: year)

def timeFits (fields : List (Field × Int)) : Bool :=
  isTimeOfDay ((fields.lookup .hour).getD 0) ((fields.lookup .minute).getD 0)
    ((fields.lookup .second).getD 0)

variable {year month day : Nat}

theorem readPattern_yearFirst (hyear : year < 10000) (hmonth : month < 100) (hday : day < 100) :
    readPattern (Pattern.dashed ++ items) (yearFirst year month day rest) =
      (takeItems items rest).bind fun fields =>
        if timeFits fields then Date.of? year month day else none := by
  have htake : takeItems (Pattern.dashed ++ items) (yearFirst year month day rest) =
      (takeItems items rest).map
        ([(.year, (year : Int)), (.month, (month : Int)), (.day, (day : Int))] ++ ·) := by
    simp only [Pattern.dashed, yearFirst, List.cons_append, List.nil_append, takeItems_year hyear,
      takeItems_char, takeItems_twoDigits (by decide : Field.month ≠ .year) hmonth,
      takeItems_twoDigits (by decide : Field.day ≠ .year) hday, Option.map_map]
    rfl
  rw [readPattern, htake]
  cases takeItems items rest with
  | none => rfl
  | some fields => rfl

theorem bind_none_or {α : Type} {x : Option α} {f : α → Option Date} {date : Option Date}
    (h : ∀ a, f a = none ∨ f a = date) : x >>= f = none ∨ x >>= f = date := by
  cases x with
  | none => exact Or.inl rfl
  | some a => exact h a

theorem readTimestamp_yearFirst (hyear : year < 10000) (hmonth : month < 100)
    (hday : day < 100) :
    readTimestamp (yearFirst year month day rest) = none ∨
      readTimestamp (yearFirst year month day rest) = Date.of? year month day := by
  have hdash (cs : List Char) : takeChar ['-'] ('-' :: cs) = some cs := rfl
  unfold readTimestamp yearFirst
  simp only [takeExactly_digitsOf (by decide : 0 < 4) hyear,
    takeExactly_digitsOf (by decide : 0 < 2) hmonth,
    takeExactly_digitsOf (by decide : 0 < 2) hday, hdash, Option.bind_eq_bind, Option.bind_some]
  refine bind_none_or fun cs => bind_none_or fun (hour, cs) => bind_none_or fun cs =>
    bind_none_or fun (minute, cs) => bind_none_or fun cs => bind_none_or fun (second, cs) =>
    bind_none_or fun cs => ?_
  split
  · exact Or.inr rfl
  · exact Or.inl rfl

theorem readers_yearFirst (hyear : year < 10000) (hmonth : month < 100) (hday : day < 100)
    {read : List Char → Option Date} (hread : read ∈ readers) :
    read (yearFirst year month day rest) = none ∨
      read (yearFirst year month day rest) = Date.of? year month day := by
  rcases readers_cases hread with rfl | ⟨more, rfl⟩ | rfl
  · exact readTimestamp_yearFirst hyear hmonth hday
  · rw [readPattern_yearFirst hyear hmonth hday]
    apply bind_none_or
    intro fields
    split
    · exact Or.inr rfl
    · exact Or.inl rfl
  · left
    have hnot : takeItems (Pattern.slashed .year) (yearFirst year month day rest) = none := by
      exact takeItems_slashed_digits (digits_digitsOf 4 year) (noDigit_cons rfl) nofun
    rw [readPattern, hnot]
    rfl

theorem readers_monthFirst (hmonth : month < 100) (hday : day < 100) (year : Int) :
    readers.findSome? (· (monthFirst month day (yearText .zero year))) =
      Date.of? year month day := by
  -- All readers but the last want a dash where the first slash is.
  have hslash {cs : List Char} : NoDigit ('/' :: cs) := noDigit_cons rfl
  have hdigits := digits_digitsOf 2 month
  have htake : takeItems (Pattern.slashed .year) (monthFirst month day (yearText .zero year)) =
      some [(.month, (month : Int)), (.day, (day : Int)), (.year, year)] := by
    have hyear : takeItems [.number .year .zero] (yearText .zero year) = some [(.year, year)] := by
      have hfield : takeField .year (Text.trimStart (yearText .zero year)) = some (year, []) := by
        rw [Text.trimStart_of_starts (starts_yearText year), takeField_yearText]
      rw [takeItems_number hfield]
      rfl
    simp only [Pattern.slashed, monthFirst, takeItems_char, hyear,
      takeItems_twoDigits (by decide : Field.month ≠ .year) hmonth,
      takeItems_twoDigits (by decide : Field.day ≠ .year) hday, Option.map_some]
  have hlast : readPattern (Pattern.slashed .year) (monthFirst month day (yearText .zero year)) =
      Date.of? year month day := by
    rw [readPattern, htake]
    rfl
  apply findSome?_eq_of_agree
  · intro read hread
    rcases readers_cases hread with rfl | ⟨more, rfl⟩ | rfl
    · exact Or.inl (readTimestamp_digits hdigits hslash nofun)
    · exact Or.inl (congrArg (·.bind dateOfFields) (takeItems_dashed_digits hdigits hslash nofun))
    · exact Or.inr hlast
  · exact ⟨_, by simp [readers, inputPatterns], hlast⟩

theorem readDate_bounded {cs : List Char} (hstart : Text.Starts cs) (hend : Text.Ends cs) :
    readDate (String.ofList cs) = readers.findSome? (· cs) := by
  rw [readDate, String.toList_ofList, Text.trim_bounded hstart hend]

end AttributeReview.Calendar
