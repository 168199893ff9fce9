import AttributeReview.Text.Blank

/-!
# Texts with blanks around them

Blanks before and after a text are trimmed away, and no more than these.
-/

namespace AttributeReview.Text

variable {before cs after : List Char}

theorem trimStart_append (h : ∀ c ∈ before, isBlank c = true) :
    trimStart (before ++ cs) = trimStart cs :=
  List.dropWhile_append_of_pos h

theorem trimEnd_append (h : ∀ c ∈ after, isBlank c = true) :
    trimEnd (cs ++ after) = trimEnd cs := by
  rw [trimEnd, List.reverse_append, List.dropWhile_append_of_pos (by simpa using h), trimEnd]

/-! ## What is not trimmed away -/

theorem mem_trimStart {c : Char} (h : c ∈ cs) (hc : isBlank c = false) : c ∈ trimStart cs := by
  induction cs with
  | nil => cases h
  | cons d rest ih =>
    cases hd : isBlank d with
    | false =>
      rw [trimStart_of_not_blank hd]
      exact h
    | true =>
      rw [trimStart_blank hd]
      rcases List.mem_cons.mp h with rfl | hrest
      · rw [hd] at hc
        cases hc
      · exact ih hrest

theorem mem_trim {c : Char} (h : c ∈ cs) (hc : isBlank c = false) : c ∈ trim cs := by
  rw [trim, trimEnd, List.mem_reverse]
  exact mem_trimStart (List.mem_reverse.mpr (mem_trimStart h hc)) hc

/-! ## Texts that start and end with a character that is no blank -/

def Starts (cs : List Char) : Prop := ∃ c, cs.head? = some c ∧ isBlank c = false

def Ends (cs : List Char) : Prop := ∃ c, cs.getLast? = some c ∧ isBlank c = false

theorem Starts.append (h : Starts cs) (rest : List Char) : Starts (cs ++ rest) := by
  obtain ⟨c, hc, hblank⟩ := h
  exact ⟨c, by rw [List.head?_append, hc, Option.some_or], hblank⟩

theorem Ends.append (h : Ends cs) (before : List Char) : Ends (before ++ cs) := by
  obtain ⟨c, hc, hblank⟩ := h
  exact ⟨c, by rw [List.getLast?_append, hc, Option.some_or], hblank⟩

theorem Ends.cons (h : Ends cs) (c : Char) : Ends (c :: cs) := h.append [c]

theorem trimStart_of_starts (h : Starts cs) : trimStart cs = cs := by
  obtain ⟨c, hc, hblank⟩ := h
  obtain ⟨rest, rfl⟩ := List.head?_eq_some_iff.mp hc
  exact trimStart_of_not_blank hblank rest

theorem trimEnd_of_ends (h : Ends cs) : trimEnd cs = cs := by
  obtain ⟨c, hc, hblank⟩ := h
  obtain ⟨init, rfl⟩ := List.getLast?_eq_some_iff.mp hc
  simp [trimEnd, hblank]

theorem trim_bounded (hstart : Starts cs) (hend : Ends cs) : trim cs = cs := by
  rw [trim, trimStart_of_starts hstart, trimEnd_of_ends hend]

theorem trim_surrounded (hstart : Starts cs) (hend : Ends cs)
    (hbefore : ∀ c ∈ before, isBlank c = true) (hafter : ∀ c ∈ after, isBlank c = true) :
    trim (before ++ cs ++ after) = cs := by
  rw [trim, List.append_assoc, trimStart_append hbefore, trimStart_of_starts (hstart.append after),
    trimEnd_append hafter, trimEnd_of_ends hend]

/-! ## Texts in blanks -/

/-- The text is `cs` with blanks before and after it. -/
def Padded (cs text : List Char) : Prop :=
  ∃ before after, text = before ++ cs ++ after ∧ (∀ c ∈ before, isBlank c = true) ∧
    ∀ c ∈ after, isBlank c = true

theorem padded_self (cs : List Char) : Padded cs cs := ⟨[], [], by simp, nofun, nofun⟩

theorem Padded.trim_eq {text : List Char} (h : Padded cs text) (hne : cs ≠ [])
    (hcs : ∀ c ∈ cs, isBlank c = false) : trim text = cs := by
  obtain ⟨before, after, rfl, hbefore, hafter⟩ := h
  have hstart : Starts cs := ⟨cs.head hne, List.head?_eq_some_head hne, hcs _ (List.head_mem hne)⟩
  have hend : Ends cs :=
    ⟨cs.getLast hne, List.getLast?_eq_some_getLast hne, hcs _ (List.getLast_mem hne)⟩
  exact trim_surrounded hstart hend hbefore hafter

end AttributeReview.Text
