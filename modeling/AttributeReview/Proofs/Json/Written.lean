import AttributeReview.Json.Node
import AttributeReview.Proofs.Json.Token

/-!
# Documents of written values

A written value is a document, and its tree is the value's own: in the form with one item a line
its bytes are taken apart into the tokens of the value, and the tokens are put together to its tree.
-/

namespace AttributeReview.Json

namespace Written

/-! ## Tokens and tree of a value -/

mutual

def tokens : Written → List Token
  | null => [.word .null]
  | boolean b => [.word (if b then .yes else .no)]
  | number n => [.numeral n.numeral]
  | text s => [.quoted (.ofText s)]
  | list items => .openList :: itemTokens true items ++ [.closeList]
  | record fields => .openRecord :: fieldTokens true fields ++ [.closeRecord]

def itemTokens (first : Bool) : List Written → List Token
  | [] => []
  | item :: rest => (if first then [] else [.comma]) ++ item.tokens ++ itemTokens false rest

def fieldTokens (first : Bool) : List (String × Written) → List Token
  | [] => []
  | field :: rest =>
    (if first then [] else [.comma]) ++
      .quoted (.ofText field.1) :: .colon :: field.2.tokens ++ fieldTokens false rest

end

mutual

def node : Written → Node
  | null => .word .null
  | boolean b => .word (if b then .yes else .no)
  | number n => .numeral n.numeral
  | text s => .quoted (.ofText s)
  | list items => .list (nodes items) .closed
  | record fields => .record (fieldNodes fields) .closed

def nodes : List Written → List Node
  | [] => []
  | item :: rest => item.node :: nodes rest

def fieldNodes : List (String × Written) → List (Quoted × Node)
  | [] => []
  | field :: rest => (.ofText field.1, field.2.node) :: fieldNodes rest

end

/-! ## Tokens in the form with one item a line -/

open Token (Stops all)

variable {rest : List UInt8}

theorem all_separator (first : Bool) (depth : Nat) (rest : List UInt8) :
    all ((separator first depth).flatMap Utf8.encode ++ rest) =
      (if first then [] else [.comma]) ++ all rest := by
  have hline : Utf8.encode "\n" = [ascii '\n'] := rfl
  have hcomma : Utf8.encode ",\n" = [ascii ',', ascii '\n'] := rfl
  rw [separator, List.flatMap_cons, List.append_assoc]
  cases first with
  | true =>
    rw [if_pos rfl, if_pos rfl, hline, List.singleton_append, Token.all_blank rfl, Token.all_indent,
      List.nil_append]
  | false =>
    rw [if_neg Bool.false_ne_true, if_neg Bool.false_ne_true, hcomma, List.cons_append,
      List.singleton_append, Token.all_punctuation rfl rfl, Token.all_blank rfl, Token.all_indent,
      List.singleton_append]

theorem all_lastLine (empty : Bool) (depth : Nat) (rest : List UInt8) :
    all ((lastLine empty depth).flatMap Utf8.encode ++ rest) = all rest := by
  have hline : Utf8.encode "\n" = [ascii '\n'] := rfl
  cases empty with
  | true => rfl
  | false =>
    rw [lastLine, if_neg Bool.false_ne_true, List.flatMap_cons, hline, List.append_assoc,
      List.singleton_append, Token.all_blank rfl, Token.all_indent]

theorem stops_separator (first : Bool) (depth : Nat) (rest : List UInt8) :
    Stops ((separator first depth).flatMap Utf8.encode ++ rest) := by
  cases first <;>
  · rintro _ ⟨⟩
    decide

theorem stops_lastLine (empty : Bool) (depth : Nat) {rest : List UInt8} (h : Stops rest) :
    Stops ((lastLine empty depth).flatMap Utf8.encode ++ rest) := by
  cases empty with
  | true => exact h
  | false =>
    rintro _ ⟨⟩
    decide

theorem stops_itemPieces (depth : Nat) (items : List Written) (h : Stops rest) :
    Stops ((itemPieces depth false items).flatMap Utf8.encode ++ rest) := by
  cases items with
  | nil => exact h
  | cons item items =>
    rw [itemPieces, List.flatMap_append, List.flatMap_append, List.append_assoc, List.append_assoc]
    exact stops_separator false depth _

theorem stops_fieldPieces (depth : Nat) (fields : List (String × Written)) (h : Stops rest) :
    Stops ((fieldPieces depth false fields).flatMap Utf8.encode ++ rest) := by
  cases fields with
  | nil => exact h
  | cons field fields =>
    rw [fieldPieces, List.flatMap_append, List.flatMap_append, List.flatMap_append,
      List.append_assoc, List.append_assoc, List.append_assoc]
    exact stops_separator false depth _

mutual

theorem all_pieces (w : Written) (depth : Nat) {rest : List UInt8} (h : Stops rest) :
    all ((w.pieces depth).flatMap Utf8.encode ++ rest) = w.tokens ++ all rest := by
  cases w with
  | null => rw [pieces, List.flatMap_singleton, Token.all_null, tokens, List.singleton_append]
  | boolean b =>
    rw [pieces, List.flatMap_singleton, Token.all_boolean, tokens, List.singleton_append]
  | number n =>
    rw [pieces, List.flatMap_singleton, Token.all_numeral n h, tokens, List.singleton_append]
  | text s => rw [pieces, Token.all_quoted, tokens, List.singleton_append]
  | list items =>
    have hclose : Stops (Utf8.encode "]" ++ rest) := by
      rintro _ ⟨⟩
      decide
    have hitems := all_itemPieces items (depth + 1) true
      (stops_lastLine items.isEmpty depth hclose)
    rw [pieces, List.flatMap_append, List.flatMap_append, List.flatMap_cons,
      List.flatMap_singleton, List.append_assoc, List.append_assoc, List.append_assoc,
      Token.all_sign rfl rfl rfl, hitems, all_lastLine, Token.all_sign rfl rfl rfl, tokens]
    simp
  | record fields =>
    have hclose : Stops (Utf8.encode "\x7d" ++ rest) := by
      rintro _ ⟨⟩
      decide
    have hfields := all_fieldPieces fields (depth + 1) true
      (stops_lastLine fields.isEmpty depth hclose)
    rw [pieces, List.flatMap_append, List.flatMap_append, List.flatMap_cons,
      List.flatMap_singleton, List.append_assoc, List.append_assoc, List.append_assoc,
      Token.all_sign rfl rfl rfl, hfields, all_lastLine, Token.all_sign rfl rfl rfl, tokens]
    simp

theorem all_itemPieces (items : List Written) (depth : Nat) (first : Bool) {rest : List UInt8}
    (h : Stops rest) :
    all ((itemPieces depth first items).flatMap Utf8.encode ++ rest) =
      itemTokens first items ++ all rest := by
  cases items with
  | nil => rfl
  | cons item items =>
    have hitem := all_pieces item depth (stops_itemPieces depth items h)
    have hitems := all_itemPieces items depth false h
    rw [itemPieces, List.flatMap_append, List.flatMap_append, List.append_assoc, List.append_assoc,
      all_separator, hitem, hitems, itemTokens]
    simp

theorem all_fieldPieces (fields : List (String × Written)) (depth : Nat) (first : Bool)
    {rest : List UInt8} (h : Stops rest) :
    all ((fieldPieces depth first fields).flatMap Utf8.encode ++ rest) =
      fieldTokens first fields ++ all rest := by
  rcases fields with - | ⟨⟨name, value⟩, fields⟩
  · rfl
  · have hvalue := all_pieces value depth (stops_fieldPieces depth fields h)
    have hfields := all_fieldPieces fields depth false h
    have hcolon : Utf8.encode ": " = [ascii ':', ascii ' '] := rfl
    rw [fieldPieces, List.flatMap_append, List.flatMap_append, List.flatMap_append,
      List.flatMap_cons]
    simp only [List.append_assoc]
    rw [all_separator, Token.all_quoted, hcolon, List.cons_append, List.singleton_append,
      Token.all_punctuation rfl rfl, Token.all_blank rfl, hvalue, hfields, fieldTokens]
    simp

end

end Written

end AttributeReview.Json
