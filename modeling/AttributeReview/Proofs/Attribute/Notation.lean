import AttributeReview.Proofs.Attribute.Exact
import AttributeReview.Proofs.Json.Numeral
import AttributeReview.Proofs.Text.Blank

/-!
# Notations of ids

The ways in which a decimal literal may be written, and what is read for them. An id is read from
every integer that is written for it, and a small id from every notation whose number it is.
-/

namespace AttributeReview

open Json (Digits)
open Json.Numeral (fractionText)
open Literal (isDigit)

/-! ## Notations -/

/-- A sign that may be missing. -/
inductive Sign where
  | missing
  | plus
  | minus

namespace Sign

def text : Sign → List Char
  | missing => []
  | plus => ['+']
  | minus => ['-']

def isMinus : Sign → Bool
  | minus => true
  | _ => false

end Sign

/-- The exponent of a notation: a mark, small or capital, a sign and digits. -/
structure Notation.Exponent where
  capital : Bool
  sign : Sign
  digits : List Char

/-- How a decimal literal is written. The point may stand without digits before or after it. -/
structure Notation where
  sign : Sign
  whole : List Char
  fraction : Option (List Char)
  exponent : Option Notation.Exponent

namespace Notation

namespace Exponent

def mark (e : Exponent) : Char := if e.capital then 'E' else 'e'

def text (e : Exponent) : List Char := e.mark :: (e.sign.text ++ e.digits)

def value (e : Exponent) : Int :=
  let n : Int := Nat.ofDigitChars 10 e.digits 0
  if e.sign.isMinus then -n else n

theorem mark_eq (e : Exponent) : e.mark = 'e' ∨ e.mark = 'E' := by
  unfold mark
  cases e.capital with
  | false => exact Or.inl rfl
  | true => exact Or.inr rfl

end Exponent

/-- The digits after the point. -/
def places (n : Notation) : List Char := n.fraction.getD []

def exponentText : Option Exponent → List Char
  | none => []
  | some e => e.text

def unsigned (n : Notation) : List Char :=
  n.whole ++ (fractionText n.fraction ++ exponentText n.exponent)

def text (n : Notation) : List Char := n.sign.text ++ n.unsigned

def literal (n : Notation) : Literal :=
  ⟨n.sign.isMinus, n.whole, n.places, (n.exponent.map Exponent.value).getD 0⟩

/-- Digits are digits, with at least one around the point and one in the exponent. -/
structure WellFormed (n : Notation) : Prop where
  digits : Digits (n.whole ++ n.places)
  exponent : ∀ e, n.exponent = some e → Digits e.digits

/-! ## What is read for a notation -/

/-- The text does not start with a sign. -/
def NoSign (cs : List Char) : Prop := ∀ c, cs.head? = some c → c ≠ '-' ∧ c ≠ '+'

theorem takeSign_append (sign : Sign) {cs : List Char} (h : NoSign cs) :
    Literal.takeSign (sign.text ++ cs) = (sign.isMinus, cs) := by
  cases sign with
  | plus => rfl
  | minus => rfl
  | missing =>
    cases cs with
    | nil => rfl
    | cons c rest =>
      obtain ⟨hminus, hplus⟩ := h c rfl
      unfold Literal.takeSign
      split
      next heq => exact absurd (List.cons.inj heq).1 hminus
      next heq => exact absurd (List.cons.inj heq).1 hplus
      next => rfl

theorem noSign_of_isDigit {c : Char} (h : isDigit c = true) (rest : List Char) :
    NoSign (c :: rest) := by
  rintro _ ⟨⟩
  constructor
  · rintro rfl
    cases h
  · rintro rfl
    cases h

theorem noSign_digits {ds : List Char} (h : Digits ds) : NoSign ds := by
  obtain ⟨c, rest, rfl⟩ := List.exists_cons_of_ne_nil h.1
  exact noSign_of_isDigit (h.2 c List.mem_cons_self) rest

theorem exponent?_text {e : Exponent} (h : Digits e.digits) :
    Literal.exponent? (e.sign.text ++ e.digits) = some e.value := by
  have hall : e.digits.all isDigit = true := List.all_eq_true.mpr h.2
  have hempty : e.digits.isEmpty = false := by simpa using h.1
  unfold Literal.exponent?
  simp only [takeSign_append e.sign (noSign_digits h), hall, hempty, Bool.not_true, Bool.or_self,
    Bool.false_eq_true, if_false]
  rfl

theorem takeWhile_exponentText (e : Option Exponent) :
    (exponentText e).takeWhile isDigit = [] ∧
      (exponentText e).dropWhile isDigit = exponentText e := by
  cases e with
  | none => exact ⟨rfl, rfl⟩
  | some e =>
    obtain ⟨capital, sign, ds⟩ := e
    cases capital with
    | false => exact ⟨rfl, rfl⟩
    | true => exact ⟨rfl, rfl⟩

variable {n : Notation}

theorem takeFraction_text (h : ∀ c ∈ n.places, isDigit c = true) :
    Literal.takeFraction (fractionText n.fraction ++ exponentText n.exponent) =
      (n.places, exponentText n.exponent) := by
  obtain ⟨sign, whole, fraction, exponent⟩ := n
  cases fraction with
  | none =>
    cases exponent with
    | none => rfl
    | some e =>
      obtain ⟨capital, sign, ds⟩ := e
      cases capital with
      | false => rfl
      | true => rfl
  | some ds =>
    obtain ⟨htake, hdrop⟩ := takeWhile_exponentText exponent
    have hds : ∀ c ∈ ds, isDigit c = true := h
    simp only [fractionText, List.cons_append, Literal.takeFraction, places, Option.getD_some,
      List.takeWhile_append_of_pos hds, List.dropWhile_append_of_pos hds, htake, hdrop,
      List.append_nil]

theorem takeWhile_unsigned (h : ∀ c ∈ n.whole, isDigit c = true) :
    n.unsigned.takeWhile isDigit = n.whole ∧
      n.unsigned.dropWhile isDigit = fractionText n.fraction ++ exponentText n.exponent := by
  have hrest : (fractionText n.fraction ++ exponentText n.exponent).takeWhile isDigit = [] ∧
      (fractionText n.fraction ++ exponentText n.exponent).dropWhile isDigit =
        fractionText n.fraction ++ exponentText n.exponent := by
    cases n.fraction with
    | none => exact takeWhile_exponentText n.exponent
    | some ds => exact ⟨rfl, rfl⟩
  unfold unsigned
  rw [List.takeWhile_append_of_pos h, List.dropWhile_append_of_pos h, hrest.1, hrest.2,
    List.append_nil]
  exact ⟨rfl, rfl⟩

theorem noSign_unsigned (h : n.WellFormed) : NoSign n.unsigned := by
  obtain ⟨sign, whole, fraction, exponent⟩ := n
  cases whole with
  | cons c rest => exact noSign_of_isDigit (h.digits.2 c List.mem_cons_self) _
  | nil =>
    cases fraction with
    | none => exact absurd rfl h.digits.1
    | some ds =>
      rintro _ ⟨⟩
      exact ⟨by decide, by decide⟩

theorem ofChars?_text (h : n.WellFormed) : Literal.ofChars? n.text = some n.literal := by
  have hwhole : ∀ c ∈ n.whole, isDigit c = true :=
    fun c hc => h.digits.2 c (List.mem_append_left _ hc)
  have hplaces : ∀ c ∈ n.places, isDigit c = true :=
    fun c hc => h.digits.2 c (List.mem_append_right _ hc)
  have hsome : (n.whole.isEmpty && n.places.isEmpty) = false := by
    simpa using h.digits.1
  obtain ⟨htake, hdrop⟩ := takeWhile_unsigned hwhole
  unfold Literal.ofChars?
  simp only [text, takeSign_append n.sign (noSign_unsigned h), htake, hdrop,
    takeFraction_text hplaces, hsome, Bool.false_eq_true, if_false]
  unfold literal
  cases hexponent : n.exponent with
  | none => rfl
  | some e =>
    simp only [exponentText, Exponent.text, if_pos e.mark_eq,
      exponent?_text (h.exponent e hexponent)]
    rfl

/-! ## Characters of a notation -/

theorem not_blank_sign (sign : Sign) : ∀ c ∈ sign.text, Text.isBlank c = false := by
  cases sign with
  | missing => nofun
  | plus => exact List.forall_mem_singleton.mpr (by decide)
  | minus => exact List.forall_mem_singleton.mpr (by decide)

theorem not_blank_digits {ds : List Char} (h : ∀ c ∈ ds, isDigit c = true) :
    ∀ c ∈ ds, Text.isBlank c = false :=
  fun c hc => Attribute.not_blank_of_isDigit (h c hc)

theorem not_blank_fractionText {fraction : Option (List Char)}
    (h : ∀ c ∈ fraction.getD [], isDigit c = true) :
    ∀ c ∈ fractionText fraction, Text.isBlank c = false := by
  cases fraction with
  | none => nofun
  | some ds => exact List.forall_mem_cons.mpr ⟨by decide, not_blank_digits h⟩

theorem not_blank_exponentText {exponent : Option Exponent}
    (h : ∀ e, exponent = some e → Digits e.digits) :
    ∀ c ∈ exponentText exponent, Text.isBlank c = false := by
  cases exponent with
  | none => nofun
  | some e =>
    have hmark : Text.isBlank e.mark = false := by
      rcases e.mark_eq with hsmall | hcapital
      · rw [hsmall]
        decide
      · rw [hcapital]
        decide
    have hdigits := not_blank_digits (h e rfl).2
    refine List.forall_mem_cons.mpr ⟨hmark, List.forall_mem_append.mpr ⟨?_, hdigits⟩⟩
    exact not_blank_sign e.sign

theorem not_blank_text (h : n.WellFormed) : ∀ c ∈ n.text, Text.isBlank c = false := by
  obtain ⟨hwhole, hplaces⟩ := List.forall_mem_append.mp h.digits.2
  simp only [text, unsigned, List.forall_mem_append]
  exact ⟨not_blank_sign n.sign, not_blank_digits hwhole, not_blank_fractionText hplaces,
    not_blank_exponentText h.exponent⟩

theorem text_ne_nil (h : n.WellFormed) : n.text ≠ [] := by
  intro hnil
  have hliteral := ofChars?_text h
  rw [hnil] at hliteral
  cases hliteral

theorem trim_text {key : List Char} (h : n.WellFormed) (hkey : Text.Padded n.text key) :
    Text.trim key = n.text :=
  hkey.trim_eq (text_ne_nil h) (not_blank_text h)

end Notation

/-! ## Ids -/

namespace Attribute

theorem idOfInteger?_signed {sign : Sign} {ds : List Char} {id : UInt64}
    (hsign : sign.isMinus = false) (h : Digits ds) (hid : Nat.ofDigitChars 10 ds 0 = id.toNat) :
    idOfInteger? (sign.text ++ ds) = some id := by
  have hlt : id.toNat < UInt64.size := id.toNat_lt
  cases sign with
  | missing =>
    have hdigits := idOfInteger?_digits h.1 h.2 (hid ▸ hlt)
    rw [hid, UInt64.ofNat_toNat] at hdigits
    exact hdigits
  | plus =>
    have hempty : ds.isEmpty = false := by simpa using h.1
    have hall : ds.all isDigit = true := List.all_eq_true.mpr h.2
    unfold idOfInteger?
    simp only [Sign.text, List.singleton_append, hempty, hall, Bool.not_true, Bool.or_self,
      Bool.false_eq_true, if_false, hid, if_pos hlt, UInt64.ofNat_toNat]
  | minus => cases hsign

theorem idOfKey?_of_integer {key : String} {id : UInt64}
    (h : idOfInteger? (Text.trim key.toList) = some id) : idOfKey? key = some id := by
  unfold idOfKey?
  simp only [h]

theorem idOfKey?_of_literal {key : String} {l : Literal} {id : UInt64}
    (hl : Literal.ofChars? (Text.trim key.toList) = some l) (hvalue : l.value = id.toNat)
    (hid : id.toNat ≤ 2 ^ 53) : idOfKey? key = some id := by
  cases hinteger : idOfInteger? (Text.trim key.toList) with
  | some other =>
    obtain ⟨l', hl', hother⟩ := ofChars?_integer hinteger
    obtain rfl := Option.some.inj (hl.symm.trans hl')
    have heq : id.toNat = other.toNat := by exact_mod_cast hvalue.symm.trans hother
    rw [UInt64.toNat_inj.mp heq]
    exact idOfKey?_of_integer hinteger
  | none =>
    unfold idOfKey?
    simp only [hinteger, hl, Option.bind_some]
    exact idOfNumber?_nearest? hvalue hid

/-- **Every spelling of an id is read.** With any blanks around it, an integer of any number of
digits is read as the id that it is, and so is any notation of a number up to 2^53, whichever way
its point and its exponent are written, and whatever else is taken for a literal of this number. The
key that is written for an id is one of these. -/
theorem every_spelling_read (id : UInt64) :
    (∀ (sign : Sign) (ds : List Char) (key : String), sign.isMinus = false → Digits ds →
      Nat.ofDigitChars 10 ds 0 = id.toNat → Text.Padded (sign.text ++ ds) key.toList →
        idOfKey? key = some id) ∧
    (∀ (n : Notation) (key : String), n.WellFormed → n.literal.value = id.toNat →
      id.toNat ≤ 2 ^ 53 → Text.Padded n.text key.toList → idOfKey? key = some id) ∧
    (∀ (l : Literal) (key : String), Literal.ofChars? (Text.trim key.toList) = some l →
      l.value = id.toNat → id.toNat ≤ 2 ^ 53 → idOfKey? key = some id) ∧
    idOfKey? (keyOfId id) = some id := by
  refine ⟨?_, ?_, fun _ _ => idOfKey?_of_literal, idOfKey?_keyOfId id⟩
  · intro sign ds key hsign hdigits hid hkey
    have hformed : Notation.WellFormed ⟨sign, ds, none, none⟩ :=
      ⟨by simpa [Notation.places] using hdigits, nofun⟩
    have htext : Notation.text ⟨sign, ds, none, none⟩ = sign.text ++ ds := by
      simp [Notation.text, Notation.unsigned, Notation.exponentText, fractionText]
    rw [← htext] at hkey
    apply idOfKey?_of_integer
    rw [Notation.trim_text hformed hkey, htext]
    exact idOfInteger?_signed hsign hdigits hid
  · intro n key hformed hvalue hid hkey
    apply idOfKey?_of_literal _ hvalue hid
    rw [Notation.trim_text hformed hkey]
    exact Notation.ofChars?_text hformed

/-- Twelve as `.012E+03`. -/
def twelve : Notation := ⟨.missing, [], some ['0', '1', '2'], some ⟨true, .plus, ['0', '3']⟩⟩

theorem twelve_wellFormed : twelve.WellFormed := by
  refine ⟨⟨by decide, List.all_eq_true.mp (by decide)⟩, ?_⟩
  rintro e ⟨⟩
  exact ⟨by decide, List.all_eq_true.mp (by decide)⟩

theorem value_twelve : twelve.literal.value = 12 := by
  have hdigits : twelve.literal.digits = 12 := by decide
  have hpower : twelve.literal.power = 0 := by decide
  rw [Literal.value, if_neg (by decide), Literal.magnitude, hdigits, hpower]
  norm_num

/-- The greatest id with a sign and zeros before it, and twelve with a point and an exponent. -/
theorem greatest_and_twelve_read :
    idOfKey? "+0018446744073709551615" = some 18446744073709551615 ∧
      idOfKey? "\u3000.012E+03 " = some 12 := by
  obtain ⟨hgreatest, -, -⟩ := every_spelling_read 18446744073709551615
  obtain ⟨-, htwelve, -⟩ := every_spelling_read 12
  constructor
  · exact hgreatest .plus "0018446744073709551615".toList _ rfl
      ⟨by decide, List.all_eq_true.mp (by decide)⟩ (by decide +kernel) (Text.padded_self _)
  · exact htwelve twelve _ twelve_wellFormed value_twelve (by decide)
      ⟨['\u3000'], [' '], by decide, List.forall_mem_singleton.mpr (by decide),
        List.forall_mem_singleton.mpr (by decide)⟩

end Attribute

end AttributeReview
