import AttributeReview.Proofs.Json.Tree
import AttributeReview.Proofs.Json.Written

/-!
# Trees of written values

The tree of a written value is well-formed and has the tokens of the value; so the text of a value
is a document that holds the value's tree and nothing after it.
-/

namespace AttributeReview.Json

namespace Written

mutual

theorem tokens_node (w : Written) : w.node.tokens = w.tokens := by
  cases w with
  | null | boolean _ | number _ | text _ => rfl
  | list items => simp only [node, Node.tokens, tokens, tokens_nodes items]
  | record fields => simp only [node, Node.tokens, tokens, tokens_fieldNodes fields]

theorem tokens_nodes (items : List Written) (first : Bool) :
    Node.itemTokens first (nodes items) = itemTokens first items := by
  cases items with
  | nil => rfl
  | cons item items =>
    simp only [nodes, Node.itemTokens, itemTokens, tokens_node item, tokens_nodes items]

theorem tokens_fieldNodes (fields : List (String × Written)) (first : Bool) :
    Node.fieldTokens first (fieldNodes fields) = fieldTokens first fields := by
  rcases fields with - | ⟨⟨name, value⟩, fields⟩
  · rfl
  · simp only [fieldNodes, Node.fieldTokens, fieldTokens, tokens_node value,
      tokens_fieldNodes fields]

end

mutual

theorem wellFormed_node (w : Written) : w.node.WellFormed := by
  cases w with
  | null => exact .word .null
  | boolean b => exact .word _
  | number n => exact .numeral _
  | text s => exact .quoted rfl
  | list items => exact .list (wellFormed_nodes items)
  | record fields =>
    exact .record (fun f hf => (wellFormed_fieldNodes fields f hf).1)
      fun f hf => (wellFormed_fieldNodes fields f hf).2

theorem wellFormed_nodes (items : List Written) : ∀ x ∈ nodes items, x.WellFormed := by
  cases items with
  | nil => simp [nodes]
  | cons item items =>
    rw [nodes, List.forall_mem_cons]
    exact ⟨wellFormed_node item, wellFormed_nodes items⟩

theorem wellFormed_fieldNodes (fields : List (String × Written)) :
    ∀ f ∈ fieldNodes fields, f.1.ending = .closed ∧ f.2.WellFormed := by
  rcases fields with - | ⟨⟨name, value⟩, fields⟩
  · simp [fieldNodes]
  · rw [fieldNodes, List.forall_mem_cons]
    exact ⟨⟨rfl, wellFormed_node value⟩, wellFormed_fieldNodes fields⟩

end

theorem ofBytes_of_tokens {w : Written} {bytes : List UInt8} (h : Token.all bytes = w.tokens) :
    Document.ofBytes bytes = ⟨w.node, false⟩ :=
  Document.ofBytes_of_spells w.wellFormed_node (h.trans w.tokens_node.symm)

/-- **The text of a value.** It is a document that holds the tree of the value, and nothing follows
the value in it. -/
theorem ofBytes_pretty (w : Written) :
    Document.ofBytes (Utf8.encode w.pretty) = ⟨w.node, false⟩ := by
  have htokens := w.all_pieces 0 Token.stops_nil
  rw [List.append_nil, Token.all_nil, List.append_nil] at htokens
  apply ofBytes_of_tokens
  rw [pretty, Utf8.encode_join, htokens]

end Written

end AttributeReview.Json
