import AttributeReview.Proofs.Calendar.Reading

/-!
# Numbers are no dates

After the digits that the text of a number starts with there is no dash and no slash, so no reader
of dates takes it.
-/

namespace AttributeReview

open Calendar

namespace Json.Numeral

variable {n : Numeral}

/-- What comes after the digits that a numeral starts with. -/
def tail (n : Numeral) : List Char := fractionText n.fraction ++ exponentText n.exponent

theorem tail_cases (n : Numeral) :
    n.tail = [] ∨ ∃ c rest, n.tail = c :: rest ∧ (c = '.' ∨ c = 'e') := by
  unfold tail
  cases n.fraction with
  | some ds => exact Or.inr ⟨'.', _, rfl, Or.inl rfl⟩
  | none =>
    cases n.exponent with
    | some exponent => exact Or.inr ⟨'e', _, rfl, Or.inr rfl⟩
    | none => exact Or.inl rfl

theorem head_tail {c : Char} (hpoint : c ≠ '.') (he : c ≠ 'e') : n.tail.head? ≠ some c := by
  rcases n.tail_cases with hnil | ⟨d, rest, hcons, hd⟩
  · rw [hnil]
    nofun
  · rw [hcons]
    intro heq
    obtain rfl := Option.some.inj heq
    exact hd.elim hpoint he

theorem noDigit_tail : NoDigit n.tail := by
  rcases n.tail_cases with hnil | ⟨d, rest, hcons, hd⟩
  · rw [hnil]
    exact noDigit_nil
  · rw [hcons]
    rcases hd with rfl | rfl
    · exact noDigit_cons rfl
    · exact noDigit_cons rfl

theorem ends_tail (h : n.Proper) : n.tail = [] ∨ Text.Ends n.tail := by
  have hexponent : exponentText n.exponent = [] ∨ Text.Ends (exponentText n.exponent) := by
    cases hexp : n.exponent with
    | none => exact Or.inl rfl
    | some exponent =>
      obtain ⟨negative, ds⟩ := exponent
      have hends := ends_digits (h.exponent negative ds hexp) (Or.inl rfl)
      rw [List.append_nil] at hends
      exact Or.inr ((hends.cons _).cons 'e')
  unfold tail
  cases hfraction : n.fraction with
  | none => exact hexponent
  | some ds => exact Or.inr ((ends_digits (h.fraction ds hfraction) hexponent).cons '.')

theorem starts_text (h : n.Proper) : Text.Starts n.text := by
  have hwhole := (starts_digits h.whole).append n.tail
  unfold text
  split
  · exact ⟨'-', rfl, rfl⟩
  · exact hwhole

theorem readDate_text (h : n.Proper) : readDate (String.ofList n.text) = none := by
  -- A numeral has no dash and no slash after the digits that it starts with, so it is no date.
  have hend : Text.Ends n.text := (ends_digits h.whole (ends_tail h)).append _
  rw [readDate_bounded (starts_text h) hend]
  exact readers_number h.whole noDigit_tail (head_tail (by decide) (by decide))
    (head_tail (by decide) (by decide)) n.negative

end Json.Numeral

theorem Number.readDate_text (n : Number) : readDate n.text = none := by
  have hread := Json.Numeral.readDate_text n.proper_numeral
  rwa [← n.toList_text, String.ofList_toList] at hread

end AttributeReview
