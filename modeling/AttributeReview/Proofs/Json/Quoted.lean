import AttributeReview.Json.Quoted
import AttributeReview.Json.Written
import AttributeReview.Proofs.Text.Utf8

/-!
# Texts in quotes

A text is scanned from the bytes with which it is written, up to its closing quote, and the pieces
that are scanned spell it.
-/

namespace AttributeReview.Json

/-! ## ASCII -/

theorem toNat_ascii {c : Char} (h : c.toNat < 128) : (ascii c).toNat = c.toNat := by
  have hmod : (ascii c).toNat = c.toNat % 256 := UInt32.toNat_toUInt8 c.val
  omega

theorem ascii_inj {c d : Char} (hc : c.toNat < 128) (hd : d.toNat < 128) (h : ascii c = ascii d) :
    c = d := by
  have hnat := congrArg UInt8.toNat h
  rw [toNat_ascii hc, toNat_ascii hd] at hnat
  exact Char.ext (UInt32.toNat_inj.mp hnat)

theorem flatMap_ascii {cs : List Char} (h : ∀ c ∈ cs, c.toNat < 128) :
    cs.flatMap String.utf8EncodeChar = cs.map ascii := by
  induction cs with
  | nil => rfl
  | cons c cs ih =>
    rw [List.flatMap_cons, Utf8.encodeChar_of_lt (h c List.mem_cons_self),
      ih fun d hd => h d (List.mem_cons_of_mem c hd)]
    rfl

/-! ## The bytes of a written text -/

def Written.escapedBytes (c : Char) : List UInt8 :=
  match escape? c with
  | some e => Utf8.encode e
  | none => String.utf8EncodeChar c

open Written (escapedBytes)

theorem Written.escapedBytes_of_escape {c : Char} {cs : List Char}
    (h : escape? c = some (String.ofList cs)) (hcs : ∀ d ∈ cs, d.toNat < 128) :
    escapedBytes c = cs.map ascii := by
  rw [← flatMap_ascii hcs, ← Utf8.encode_ofList, escapedBytes, h]

theorem Written.escapedBytes_of_none {c : Char} (h : escape? c = none) :
    escapedBytes c = String.utf8EncodeChar c := by
  rw [escapedBytes, h]

theorem Written.flatMap_run (cs : List Char) :
    (run cs).flatMap Utf8.encode = cs.flatMap String.utf8EncodeChar := by
  cases cs with
  | nil => rfl
  | cons c rest =>
    rw [run, List.isEmpty_cons, if_neg (by decide), List.flatMap_singleton, Utf8.encode_ofList]

theorem Written.flatMap_textPieces (cs ds : List Char) :
    (textPieces cs ds).flatMap Utf8.encode =
      cs.reverse.flatMap String.utf8EncodeChar ++ ds.flatMap escapedBytes := by
  induction ds generalizing cs with
  | nil => simp [textPieces, flatMap_run]
  | cons d ds ih =>
    rw [textPieces, List.flatMap_cons, escapedBytes]
    cases h : escape? d with
    | some e => simp [flatMap_run, ih]
    | none => simp [ih]

theorem Written.flatMap_quoted (s : String) :
    (quoted s).flatMap Utf8.encode = ascii '"' :: s.toList.flatMap escapedBytes ++ [ascii '"'] := by
  have h : Utf8.encode "\"" = [ascii '"'] := by simp [Utf8.encode]; decide
  simp [quoted, flatMap_textPieces, h]

namespace Quoted

/-! ## Scanning a character -/

/-- The control characters that are written with a letter. -/
def lettered : List Char := ['\x08', '\t', '\n', '\x0c', '\r']

/-- The pieces that are scanned where a character is written. -/
def piecesOf (c : Char) : List Piece :=
  if c.toNat < 32 ∧ c ∉ lettered then [.unit c.toNat] else (String.utf8EncodeChar c).map .byte

/-- A byte that stands for itself in a quoted text. -/
def isPlain (b : UInt8) : Prop := 32 ≤ b ∧ b ≠ ascii '"' ∧ b ≠ ascii '\\'

theorem scan_plain {b : UInt8} (h : isPlain b) (bytes : List UInt8) :
    scan (b :: bytes) = push (.byte b) (scan bytes) := by
  obtain ⟨h32, hquote, hback⟩ := h
  rw [scan.eq_def (b :: bytes)]
  simp only [beq_iff_eq, hquote, hback, UInt8.not_lt.mpr h32, if_false]

theorem isPlain_of_mem_encodeChar {c : Char} (h : 32 ≤ c.toNat) (hquote : c ≠ '"')
    (hback : c ≠ '\\') {b : UInt8} (hb : b ∈ String.utf8EncodeChar c) : isPlain b := by
  by_cases hc : c.toNat < 128
  · rw [Utf8.encodeChar_of_lt hc, List.mem_singleton] at hb
    subst hb
    refine ⟨?_, fun heq => hquote (ascii_inj hc (by decide) heq),
      fun heq => hback (ascii_inj hc (by decide) heq)⟩
    rw [UInt8.le_iff_toNat_le]
    exact (toNat_ascii hc).symm ▸ h
  · have hle := Utf8.le_of_mem_encodeChar (by omega) hb
    refine ⟨?_, ?_, ?_⟩
    · rw [UInt8.le_iff_toNat_le]
      exact Nat.le_trans (by decide) hle
    · rintro rfl
      exact absurd hle (by decide)
    · rintro rfl
      exact absurd hle (by decide)

theorem scan_letter {b e : UInt8} (h : escaped? e = some b) (bytes : List UInt8) :
    scan (ascii '\\' :: e :: bytes) = push (.byte b) (scan bytes) := by
  rw [scan.eq_def (ascii '\\' :: e :: bytes)]
  simp only [h, show (ascii '\\' == ascii '"') = false from rfl, beq_self_eq_true, if_true,
    Bool.false_eq_true, if_false]

theorem scan_unit {h₁ h₂ h₃ h₄ : UInt8} {u : Nat} (h : unit? h₁ h₂ h₃ h₄ = some u)
    (bytes : List UInt8) :
    scan (ascii '\\' :: ascii 'u' :: h₁ :: h₂ :: h₃ :: h₄ :: bytes) =
      push (.unit u) (scan bytes) := by
  rw [scan.eq_def (ascii '\\' :: _)]
  simp only [h, show (ascii '\\' == ascii '"') = false from rfl, beq_self_eq_true, if_true,
    show escaped? (ascii 'u') = none from rfl, Bool.false_eq_true, if_false]

theorem scan_quote (bytes : List UInt8) :
    scan (ascii '"' :: bytes) = (⟨[], .closed⟩, bytes) := by
  rw [scan.eq_def (ascii '"' :: bytes)]
  simp only [beq_self_eq_true, if_true]

theorem hexDigit?_hexDigit : ∀ n : Fin 16, hexDigit? (ascii (Written.hexDigit n)) = some n.val := by
  decide

theorem hexDigit_lt : ∀ n : Fin 16, (Written.hexDigit n).toNat < 128 := by
  decide

theorem unit?_hexDigit {n : Nat} (h : n < 256) :
    unit? (ascii '0') (ascii '0') (ascii (Written.hexDigit (n / 16)))
      (ascii (Written.hexDigit (n % 16))) = some n := by
  have hhigh := hexDigit?_hexDigit ⟨n / 16, by omega⟩
  have hlow := hexDigit?_hexDigit ⟨n % 16, by omega⟩
  have hzero : hexDigit? (ascii '0') = some 0 := by decide
  simp only at hhigh hlow
  rw [unit?, hzero, hhigh, hlow]
  simp only [Option.bind_eq_bind, Option.bind_some, Option.pure_def, Option.some.injEq]
  omega

theorem scan_plains {bytes : List UInt8} (h : ∀ b ∈ bytes, isPlain b) (rest : List UInt8) :
    scan (bytes ++ rest) =
      (⟨bytes.map .byte ++ (scan rest).1.pieces, (scan rest).1.ending⟩, (scan rest).2) := by
  induction bytes with
  | nil => rfl
  | cons b bytes ih =>
    rw [List.cons_append, scan_plain (h b List.mem_cons_self),
      ih fun x hx => h x (List.mem_cons_of_mem b hx)]
    rfl

/-- A character is written with a letter, or by number, or stands for itself. -/
theorem escape?_cases (c : Char) :
    (∃ e, Written.escape? c = some (String.ofList ['\\', e]) ∧ e.toNat < 128 ∧
      escaped? (ascii e) = some (ascii c) ∧ c.toNat < 128 ∧ ¬(c.toNat < 32 ∧ c ∉ lettered)) ∨
    (Written.escape? c = some (String.ofList ['\\', 'u', '0', '0',
      Written.hexDigit (c.toNat / 16), Written.hexDigit (c.toNat % 16)]) ∧
      c.toNat < 32 ∧ c ∉ lettered) ∨
    (Written.escape? c = none ∧ 32 ≤ c.toNat ∧ c ≠ '"' ∧ c ≠ '\\') := by
  unfold Written.escape?
  split
  · exact Or.inl ⟨'"', rfl, by decide, by decide, by decide, by decide⟩
  · exact Or.inl ⟨'\\', rfl, by decide, by decide, by decide, by decide⟩
  · exact Or.inl ⟨'b', rfl, by decide, by decide, by decide, by decide⟩
  · exact Or.inl ⟨'f', rfl, by decide, by decide, by decide, by decide⟩
  · exact Or.inl ⟨'n', rfl, by decide, by decide, by decide, by decide⟩
  · exact Or.inl ⟨'r', rfl, by decide, by decide, by decide, by decide⟩
  · exact Or.inl ⟨'t', rfl, by decide, by decide, by decide, by decide⟩
  next hquote hback h8 h12 h10 h13 h9 =>
    by_cases h : c.toNat < 32
    · refine Or.inr (Or.inl ⟨if_pos h, h, ?_⟩)
      simpa [lettered] using ⟨h8, h9, h10, h12, h13⟩
    · exact Or.inr (Or.inr ⟨if_neg h, Nat.not_lt.mp h, hquote, hback⟩)

theorem scan_char (c : Char) (rest : List UInt8) :
    scan (escapedBytes c ++ rest) =
      (⟨piecesOf c ++ (scan rest).1.pieces, (scan rest).1.ending⟩, (scan rest).2) := by
  rcases escape?_cases c with ⟨e, hc, he, hletter, hlt, hby⟩ | ⟨hc, hlt, hby⟩ | ⟨hc, h32, hq, hb⟩
  · rw [Written.escapedBytes_of_escape hc (by simp [he]), piecesOf, if_neg hby,
      Utf8.encodeChar_of_lt hlt]
    exact scan_letter hletter rest
  · have hhigh := hexDigit_lt ⟨c.toNat / 16, by omega⟩
    have hlow := hexDigit_lt ⟨c.toNat % 16, by omega⟩
    rw [Written.escapedBytes_of_escape hc (by simp [hhigh, hlow]), piecesOf, if_pos ⟨hlt, hby⟩]
    exact scan_unit (unit?_hexDigit (by omega)) rest
  · rw [Written.escapedBytes_of_none hc, piecesOf, if_neg (by omega)]
    exact scan_plains (fun b => isPlain_of_mem_encodeChar h32 hq hb) rest

/-! ## A whole text -/

def ofText (s : String) : Quoted := ⟨s.toList.flatMap piecesOf, .closed⟩

theorem scan_written (s : String) (rest : List UInt8) :
    scan (s.toList.flatMap escapedBytes ++ ascii '"' :: rest) = (ofText s, rest) := by
  rw [ofText]
  induction s.toList with
  | nil => exact scan_quote rest
  | cons c cs ih => rw [List.flatMap_cons, List.append_assoc, scan_char, ih, List.flatMap_cons]

theorem bytes_plains {spelled after : List UInt8} {pieces : List Piece}
    (h : bytes .closed pieces = .ok after) :
    bytes .closed (spelled.map .byte ++ pieces) = .ok (spelled ++ after) := by
  induction spelled with
  | nil => exact h
  | cons b spelled ih =>
    rw [List.map_cons, List.cons_append, bytes, ih]
    rfl

theorem bytes_piecesOf (c : Char) {after : List UInt8} {pieces : List Piece}
    (h : bytes .closed pieces = .ok after) :
    bytes .closed (piecesOf c ++ pieces) = .ok (String.utf8EncodeChar c ++ after) := by
  rw [piecesOf]
  split
  next hlt =>
    have htrail : isTrailing c.toNat = false := by simp [isTrailing]; omega
    have hlead : isLeading c.toNat = false := by simp [isLeading]; omega
    rw [List.singleton_append, bytes.eq_def]
    simp only [h, htrail, hlead, Char.ofNat_toNat, Bool.false_eq_true, if_false]
    rfl
  · exact bytes_plains h

theorem text_ofText (s : String) : (ofText s).text = .ok s := by
  have h : bytes .closed (s.toList.flatMap piecesOf) = .ok (Utf8.encode s) := by
    rw [Utf8.encode]
    induction s.toList with
    | nil => rfl
    | cons c cs ih =>
      rw [List.flatMap_cons, List.flatMap_cons]
      exact bytes_piecesOf c ih
  rw [text, ofText, h]
  simp only [bind, Except.bind, Utf8.decode?_encode]
  rfl

end Quoted

end AttributeReview.Json
