import AttributeReview.Proofs.Json.Document

/-!
# The compact form of written values

The compact text of a written value has the tokens of the value too, so it is read as the text with
one item a line is.
-/

namespace AttributeReview.Json.Written

open Token (Stops all)

variable {rest : List UInt8}

/-! ## Tokens -/

theorem all_comma (first : Bool) (rest : List UInt8) :
    all (Utf8.encode (if first then "" else ",") ++ rest) =
      (if first then [] else [.comma]) ++ all rest := by
  cases first with
  | true => rfl
  | false => exact Token.all_punctuation rfl rfl rest

theorem stops_comma (rest : List UInt8) : Stops (Utf8.encode "," ++ rest) := by
  rintro _ ⟨⟩
  decide

theorem stops_compactItems (items : List Written) (h : Stops rest) :
    Stops (Utf8.encode (compactItems false items) ++ rest) := by
  cases items with
  | nil => exact h
  | cons item items =>
    rw [compactItems, Utf8.encode_append, Utf8.encode_append, List.append_assoc, List.append_assoc]
    exact stops_comma _

theorem stops_compactFields (fields : List (String × Written)) (h : Stops rest) :
    Stops (Utf8.encode (compactFields false fields) ++ rest) := by
  cases fields with
  | nil => exact h
  | cons field fields =>
    simp only [compactFields, Utf8.encode_append, List.append_assoc]
    exact stops_comma _

mutual

theorem all_compact (w : Written) {rest : List UInt8} (h : Stops rest) :
    all (Utf8.encode w.compact ++ rest) = w.tokens ++ all rest := by
  cases w with
  | null => exact Token.all_null rest
  | boolean b => exact Token.all_boolean b rest
  | number n => exact Token.all_numeral n h
  | text s =>
    rw [compact, Utf8.encode_join]
    exact Token.all_quoted s rest
  | list items =>
    have hclose : Stops (Utf8.encode "]" ++ rest) := by
      rintro _ ⟨⟩
      decide
    rw [compact, Utf8.encode_append, Utf8.encode_append, List.append_assoc, List.append_assoc,
      Token.all_sign rfl rfl rfl, all_compactItems items true hclose, Token.all_sign rfl rfl rfl,
      tokens]
    simp
  | record fields =>
    have hclose : Stops (Utf8.encode "\x7d" ++ rest) := by
      rintro _ ⟨⟩
      decide
    rw [compact, Utf8.encode_append, Utf8.encode_append, List.append_assoc, List.append_assoc,
      Token.all_sign rfl rfl rfl, all_compactFields fields true hclose, Token.all_sign rfl rfl rfl,
      tokens]
    simp

theorem all_compactItems (items : List Written) (first : Bool) {rest : List UInt8}
    (h : Stops rest) :
    all (Utf8.encode (compactItems first items) ++ rest) = itemTokens first items ++ all rest := by
  cases items with
  | nil => rfl
  | cons item items =>
    have hitem := all_compact item (stops_compactItems items h)
    have hitems := all_compactItems items false h
    rw [compactItems, Utf8.encode_append, Utf8.encode_append, List.append_assoc, List.append_assoc,
      all_comma, hitem, hitems, itemTokens]
    simp

theorem all_compactFields (fields : List (String × Written)) (first : Bool) {rest : List UInt8}
    (h : Stops rest) :
    all (Utf8.encode (compactFields first fields) ++ rest) =
      fieldTokens first fields ++ all rest := by
  rcases fields with - | ⟨⟨name, value⟩, fields⟩
  · rfl
  · have hvalue := all_compact value (stops_compactFields fields h)
    have hfields := all_compactFields fields false h
    simp only [compactFields, Utf8.encode_append, Utf8.encode_join, List.append_assoc]
    rw [all_comma, Token.all_quoted, Token.all_sign rfl rfl rfl, hvalue, hfields, fieldTokens]
    simp

end

theorem spells_compact (w : Written) : Document.Spells (Utf8.encode w.compact) w.node := by
  have htokens := w.all_compact Token.stops_nil
  rw [List.append_nil, Token.all_nil, List.append_nil] at htokens
  exact htokens.trans w.tokens_node.symm

theorem ofBytes_compact (w : Written) :
    Document.ofBytes (Utf8.encode w.compact) = ⟨w.node, false⟩ :=
  Document.ofBytes_of_spells w.wellFormed_node w.spells_compact

end AttributeReview.Json.Written
