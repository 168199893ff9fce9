import AttributeReview.Calendar.Pattern

/-!
# Texts of patterns

A specifier is what it is by its own characters, so the texts of two patterns make up the text of
one. A text that spells no pattern has a percent sign in it that starts no specifier, after the text
of a pattern.
-/

namespace AttributeReview.Calendar.Pattern

variable {cs before : List Char} {items : List Item} {taken : Nat}

/-! ## Specifiers -/

/-- The characters that start a specifier only with more characters after them. -/
def isSign (c : Char) : Bool := ['-', '0', '_', '#', ':', '.'].contains c

theorem letter?_sign {c : Char} (h : isSign c = true) : letter? c = none := by
  simp only [isSign, List.contains_iff_mem, List.mem_cons, List.not_mem_nil, or_false] at h
  rcases h with rfl | rfl | rfl | rfl | rfl | rfl <;> rfl

theorem specifier?_of_not_sign {c : Char} (h : isSign c = false) (rest : List Char) :
    specifier? (c :: rest) =
      if c = '3' ∨ c = '6' ∨ c = '9' then
        if rest.head? = some 'f' then some ([.clock], 2) else none
      else (letter? c).map (·, 1) := by
  unfold specifier?
  split
  case h_10 heq =>
    cases heq
    rfl
  all_goals
    rename_i heq
    cases heq
    try cases h

theorem map_taken {found : Option (List Item)} {n : Nat}
    (h : found.map (·, n) = some (items, taken)) : taken = n := by
  obtain ⟨_, -, hpair⟩ := Option.map_eq_some_iff.mp h
  exact (congrArg Prod.snd hpair).symm

theorem specifier?_take (h : specifier? cs = some (items, taken)) (more : List Char) :
    taken ≤ cs.length ∧ specifier? (cs.take taken ++ more) = some (items, taken) := by
  unfold specifier? at h
  split at h
  case h_1 | h_2 | h_3 =>
    obtain rfl := map_taken h
    exact ⟨by simp, h⟩
  case h_4 | h_5 | h_6 | h_7 | h_8 =>
    cases h
    exact ⟨by simp, rfl⟩
  case h_9 c rest hf =>
    rw [Option.ite_none_right_eq_some] at h
    obtain ⟨hc, ⟨⟩⟩ := h
    refine ⟨by simp, ?_⟩
    rcases hc with rfl | rfl | rfl <;> rfl
  case h_10 c rest _ _ _ _ _ _ _ _ _ =>
    cases hsign : isSign c with
    | true =>
      split at h
      next hc => rcases hc with rfl | rfl | rfl <;> cases hsign
      next =>
        rw [letter?_sign hsign] at h
        cases h
    | false =>
      split at h
      next hc =>
        rw [Option.ite_none_right_eq_some] at h
        obtain ⟨hf, ⟨⟩⟩ := h
        obtain ⟨rest, rfl⟩ := List.head?_eq_some_iff.mp hf
        exact ⟨by simp, (specifier?_of_not_sign hsign _).trans (if_pos hc)⟩
      next hc =>
        obtain rfl := map_taken h
        exact ⟨by simp, ((specifier?_of_not_sign hsign _).trans (if_neg hc)).trans h⟩
  case h_11 => cases h

/-! ## Patterns -/

theorem ofChars?_cons_percent (rest : List Char) :
    ofChars? ('%' :: rest) = (specifier? rest).bind fun found =>
      (ofChars? (rest.drop found.2)).map (found.1 ++ ·) := by
  rw [ofChars?, if_pos rfl]
  cases specifier? rest with
  | none => rfl
  | some found => rfl

theorem ofChars?_cons_plain {c : Char} (h : c ≠ '%') (rest : List Char) :
    ofChars? (c :: rest) =
      (ofChars? rest).map ((if Text.isBlank c then Item.blank c else Item.char c) :: ·) := by
  rw [ofChars?, if_neg h]

theorem ofChars?_append (h : ofChars? before = some items) (more : List Char) :
    ofChars? (before ++ more) = (ofChars? more).map (items ++ ·) := by
  fun_induction ofChars? before generalizing items with
  | case1 =>
    cases h
    exact (Option.map_id' ..).symm
  | case2 rest found taken hfound ih =>
    obtain ⟨after, hafter, rfl⟩ := Option.map_eq_some_iff.mp h
    obtain ⟨hle, hmore⟩ := specifier?_take hfound (rest.drop taken ++ more)
    rw [← List.append_assoc, List.take_append_drop] at hmore
    rw [List.cons_append, ofChars?_cons_percent, hmore, Option.bind_some,
      List.drop_append_of_le_length hle, ih hafter, Option.map_map]
    congr 1
    funext following
    exact (List.append_assoc ..).symm
  | case3 => cases h
  | case4 c rest hc ih =>
    obtain ⟨after, hafter, rfl⟩ := Option.map_eq_some_iff.mp h
    rw [List.cons_append, ofChars?_cons_plain hc, ih hafter, Option.map_map]
    rfl

/-- A text spells no pattern exactly where a percent sign in it, after a pattern, starts no
specifier. -/
theorem ofChars?_eq_none_iff : ofChars? cs = none ↔
    ∃ before rest, cs = before ++ '%' :: rest ∧ (ofChars? before).isSome ∧
      specifier? rest = none := by
  constructor
  · intro h
    fun_induction ofChars? cs with
    | case1 => cases h
    | case2 rest found taken hfound ih =>
      obtain ⟨before, after, hrest, hbefore, hnone⟩ := ih (Option.map_eq_none_iff.mp h)
      refine ⟨'%' :: (rest.take taken ++ before), after, ?_, ?_, hnone⟩
      · rw [List.cons_append, List.append_assoc, ← hrest, List.take_append_drop]
      · obtain ⟨hle, hfound⟩ := specifier?_take hfound before
        rw [ofChars?_cons_percent, hfound, Option.bind_some,
          List.drop_left' (List.length_take_of_le hle), Option.isSome_map]
        exact hbefore
    | case3 rest hnone => exact ⟨[], rest, rfl, by rw [ofChars?]; rfl, hnone⟩
    | case4 c rest hc ih =>
      obtain ⟨before, after, rfl, hbefore, hnone⟩ := ih (Option.map_eq_none_iff.mp h)
      refine ⟨c :: before, after, rfl, ?_, hnone⟩
      rw [ofChars?_cons_plain hc, Option.isSome_map]
      exact hbefore
  · rintro ⟨before, rest, rfl, hbefore, hnone⟩
    obtain ⟨items, hitems⟩ := Option.isSome_iff_exists.mp hbefore
    rw [ofChars?_append hitems, ofChars?_cons_percent, hnone]
    rfl

end AttributeReview.Calendar.Pattern
