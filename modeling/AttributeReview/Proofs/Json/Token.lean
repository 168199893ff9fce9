import AttributeReview.Json.Written
import AttributeReview.Proofs.Json.Number

/-!
# The tokens of a written value

The tokens of the bytes with which a value is written. A value may stand before anything that does
not carry on a numeral.
-/

namespace AttributeReview.Json

/-! ## One token -/

namespace Token

theorem all_nil : all [] = [] := by
  rw [all]

theorem stops_nil : Stops [] := by
  rintro _ ⟨⟩

theorem all_blank {b : UInt8} (h : isBlank b = true) (rest : List UInt8) :
    all (b :: rest) = all rest := by
  rw [all, if_pos h]

theorem all_scan {b : UInt8} (h : isBlank b = false) (rest : List UInt8) :
    all (b :: rest) = (scan b rest).1 :: all (scan b rest).2 := by
  rw [all, if_neg (by simp [h])]

theorem all_punctuation {b : UInt8} {token : Token} (h : punctuation? b = some token)
    (hb : isBlank b = false) (rest : List UInt8) : all (b :: rest) = token :: all rest := by
  rw [all_scan hb, scan, h]

theorem all_sign {s : String} {b : UInt8} {token : Token} (hs : Utf8.encode s = [b])
    (h : punctuation? b = some token) (hb : isBlank b = false) (rest : List UInt8) :
    all (Utf8.encode s ++ rest) = token :: all rest := by
  rw [hs, List.singleton_append, all_punctuation h hb]

theorem all_quoted (s : String) (rest : List UInt8) :
    all ((Written.quoted s).flatMap Utf8.encode ++ rest) = .quoted (.ofText s) :: all rest := by
  rw [Written.flatMap_quoted, List.cons_append, List.cons_append, List.append_assoc,
    List.singleton_append, all_scan rfl]
  have hscan (bytes : List UInt8) : scan (ascii '"') bytes = scanQuoted bytes := rfl
  rw [hscan, scanQuoted, Quoted.scan_written]

theorem scanWord_letters (w : Word) (letters : List Char) (rest : List UInt8) :
    scanWord w letters (letters.map ascii ++ rest) = (.word w, rest) := by
  induction letters with
  | nil => rfl
  | cons c letters ih =>
    rw [List.map_cons, List.cons_append, scanWord, beq_self_eq_true, if_pos rfl]
    exact ih

theorem all_word {s : String} {b : UInt8} {w : Word} {letters : List Char}
    (hs : Utf8.encode s = b :: letters.map ascii) (hb : isBlank b = false)
    (hscan : ∀ bytes, scan b bytes = scanWord w letters bytes) (rest : List UInt8) :
    all (Utf8.encode s ++ rest) = .word w :: all rest := by
  rw [hs, List.cons_append, all_scan hb, hscan, scanWord_letters]

theorem all_null (rest : List UInt8) :
    all (Utf8.encode "null" ++ rest) = .word .null :: all rest := by
  have hs : Utf8.encode "null" = ascii 'n' :: ['u', 'l', 'l'].map ascii := rfl
  exact all_word hs rfl (fun _ => rfl) rest

theorem all_boolean (b : Bool) (rest : List UInt8) :
    all (Utf8.encode (if b then "true" else "false") ++ rest) =
      .word (if b then .yes else .no) :: all rest := by
  have htrue : Utf8.encode "true" = ascii 't' :: ['r', 'u', 'e'].map ascii := rfl
  have hfalse : Utf8.encode "false" = ascii 'f' :: ['a', 'l', 's', 'e'].map ascii := rfl
  cases b with
  | true => exact all_word htrue rfl (fun _ => rfl) rest
  | false => exact all_word hfalse rfl (fun _ => rfl) rest

theorem all_indent (depth : Nat) (rest : List UInt8) :
    all ((Written.indent depth).flatMap Utf8.encode ++ rest) = all rest := by
  have hspaces : Utf8.encode "  " = [ascii ' ', ascii ' '] := by simp [Utf8.encode]; decide
  induction depth with
  | zero => rfl
  | succ depth ih =>
    rw [Written.indent, List.replicate_succ, List.flatMap_cons, hspaces, List.append_assoc,
      List.cons_append, List.cons_append, all_blank rfl, all_blank rfl]
    exact ih

theorem isAscii_text {n : Numeral} (h : n.Proper) {c : Char} (hc : c ∈ n.text) :
    c.toNat < 128 := by
  rw [Numeral.text, Numeral.unsigned] at hc
  simp only [List.mem_append] at hc
  rcases hc with hsign | hwhole | hfraction | hexponent
  · split at hsign <;> simp at hsign
    subst hsign
    decide
  · exact digit_lt (h.whole.2 c hwhole)
  · cases hf : n.fraction with
    | none => simp [hf, Numeral.fractionText] at hfraction
    | some ds =>
      rw [hf, Numeral.fractionText, List.mem_cons] at hfraction
      rcases hfraction with rfl | hds
      · decide
      · exact digit_lt ((h.fraction ds hf).2 c hds)
  · rcases he : n.exponent with - | ⟨negative, ds⟩
    · simp [he, Numeral.exponentText] at hexponent
    · rw [he, Numeral.exponentText, List.mem_cons, List.mem_cons] at hexponent
      rcases hexponent with rfl | rfl | hds
      · decide
      · cases negative <;> decide
      · exact digit_lt ((h.exponent negative ds he).2 c hds)

theorem encode_text (n : Number) : Utf8.encode n.text = n.numeral.text.map ascii := by
  rw [Utf8.encode, Number.toList_text]
  exact flatMap_ascii fun c hc => isAscii_text n.proper_numeral hc

theorem all_numeral (n : Number) {rest : List UInt8} (hrest : Stops rest) :
    all (Utf8.encode n.text ++ rest) = .numeral n.numeral :: all rest := by
  obtain ⟨b, bytes, htext, hblank, hscan⟩ := scan_text n.proper_numeral hrest
  rw [encode_text, htext, List.cons_append, all_scan hblank, hscan]

end Token

end AttributeReview.Json
