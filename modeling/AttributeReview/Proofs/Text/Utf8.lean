import AttributeReview.Text.Utf8
import Mathlib.Tactic.SplitIfs

/-!
# Texts and their bytes

A text is read back from its bytes, and two texts are ordered as their bytes are.
-/

namespace AttributeReview.Utf8

theorem encode_ofList (cs : List Char) :
    encode (String.ofList cs) = cs.flatMap String.utf8EncodeChar := by
  simp [encode]

theorem encode_join (pieces : List String) :
    encode (String.join pieces) = pieces.flatMap encode := by
  rw [encode, String.toList_join, List.flatMap_assoc]
  rfl

theorem toByteArray_eq (s : String) : s.toByteArray = ⟨(encode s).toArray⟩ := by
  have h := String.toByteArray_ofList (l := s.toList)
  rw [String.ofList_toList, List.utf8Encode] at h
  rw [h]
  exact ByteArray.ext List.data_toByteArray

theorem decode?_encode (s : String) : decode? (encode s) = some s := by
  rw [decode?, ← toByteArray_eq, String.fromUTF8?, dif_pos s.isValidUTF8]
  rfl

/-! ## Characters -/

theorem encodeChar_of_lt {c : Char} (h : c.toNat < 128) :
    String.utf8EncodeChar c = [c.toUInt8] := by
  have h' : c.val.toNat ≤ 127 := Nat.le_of_lt_succ h
  simp only [String.utf8EncodeChar, if_pos h']
  rfl

theorem le_of_mem_encodeChar {c : Char} {b : UInt8} (h : 128 ≤ c.toNat)
    (hb : b ∈ String.utf8EncodeChar c) : 128 ≤ b.toNat := by
  have h' : ¬ c.val.toNat ≤ 127 := Nat.not_le.mpr h
  simp only [String.utf8EncodeChar, if_neg h'] at hb
  split_ifs at hb <;>
    simp only [List.mem_cons, List.not_mem_nil, or_false] at hb <;>
    rcases hb with rfl | rfl | rfl | rfl <;>
    simp only [UInt8.toNat_ofNat'] <;> omega

/-! ## The order of texts -/

theorem encodeChar_append_lt {c d : Char} (h : c < d) (xs ys : List UInt8) :
    String.utf8EncodeChar c ++ xs < String.utf8EncodeChar d ++ ys := by
  -- What comes after two different characters has no say in the order of their bytes.
  have hlt : c.val.toNat < d.val.toNat := h
  have hd : d.val.toNat < 0x110000 := by
    rcases d.valid with hd | hd <;> omega
  simp only [String.utf8EncodeChar]
  generalize c.val.toNat = m at *
  generalize d.val.toNat = n at *
  split_ifs <;>
    simp (disch := omega) only [List.cons_append, List.nil_append, List.cons_lt_cons_iff,
      UInt8.lt_iff_toNat_lt, ← UInt8.toNat_inj, UInt8.toNat_ofNat', Nat.mod_eq_of_lt] <;> omega

theorem flatMap_encodeChar_lt {cs ds : List Char} (h : cs < ds) :
    cs.flatMap String.utf8EncodeChar < ds.flatMap String.utf8EncodeChar := by
  induction h with
  | nil =>
    rename_i d ds
    rw [List.flatMap_nil, List.flatMap_cons]
    cases hd : String.utf8EncodeChar d with
    | nil => exact absurd hd String.utf8EncodeChar_ne_nil
    | cons b bs => exact List.nil_lt_cons ..
  | rel hlt =>
    rw [List.flatMap_cons, List.flatMap_cons]
    exact encodeChar_append_lt hlt _ _
  | cons _ ih =>
    rw [List.flatMap_cons, List.flatMap_cons]
    exact List.append_left_lt ih

theorem encode_lt_encode {s t : String} (h : s < t) : encode s < encode t :=
  flatMap_encodeChar_lt h

theorem encode_le_encode_iff {s t : String} : encode s ≤ encode t ↔ s ≤ t := by
  constructor
  · intro hle hlt
    exact hle (encode_lt_encode hlt)
  · intro hle hlt
    rcases Std.le_iff_lt_or_eq.mp hle with h | rfl
    · exact Std.lt_irrefl (Std.lt_trans hlt (encode_lt_encode h))
    · exact Std.lt_irrefl hlt

end AttributeReview.Utf8
