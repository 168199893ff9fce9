import AttributeReview.Json.Token
import AttributeReview.Proofs.Json.Quoted

/-!
# Numerals in documents

A numeral is scanned from its own text, as long as nothing follows that would carry it on.
-/

namespace AttributeReview.Json

/-- Some digits, at least one. -/
def Digits (cs : List Char) : Prop := cs ≠ [] ∧ ∀ c ∈ cs, c.isDigit = true

namespace Numeral

def fractionText : Option (List Char) → List Char
  | none => []
  | some ds => '.' :: ds

def exponentText : Option (Bool × List Char) → List Char
  | none => []
  | some (negative, ds) => 'e' :: (if negative then '-' else '+') :: ds

def unsigned (n : Numeral) : List Char :=
  n.whole ++ (fractionText n.fraction ++ exponentText n.exponent)

def text (n : Numeral) : List Char := (if n.negative then ['-'] else []) ++ n.unsigned

/-- The digits of a numeral are digits, with no needless zero before them. -/
structure Proper (n : Numeral) : Prop where
  whole : Digits n.whole
  no_zero_before : ∀ d ds, n.whole ≠ '0' :: d :: ds
  fraction : ∀ ds, n.fraction = some ds → Digits ds
  exponent : ∀ negative ds, n.exponent = some (negative, ds) → Digits ds

end Numeral

namespace Token

/-! ## Digits -/

def NoDigit (bytes : List UInt8) : Prop := ∀ b, bytes.head? = some b → isDigit b = false

/-- The bytes do not start with what would carry on a numeral. -/
def Stops (bytes : List UInt8) : Prop :=
  ∀ b, bytes.head? = some b → isDigit b = false ∧ b ≠ ascii '.' ∧ b ≠ ascii 'e' ∧ b ≠ ascii 'E'

theorem Stops.noDigit {bytes : List UInt8} (h : Stops bytes) : NoDigit bytes :=
  fun b hb => (h b hb).1

theorem digit_bounds {c : Char} (h : c.isDigit = true) : 48 ≤ c.toNat ∧ c.toNat ≤ 57 := by
  have hc := Char.isDigit_iff_toNat.mp h
  simpa only [Char.reduceToNat] using hc

theorem digit_lt {c : Char} (h : c.isDigit = true) : c.toNat < 128 := by
  have hc := digit_bounds h
  omega

theorem isDigit_ascii {c : Char} (h : c.isDigit = true) : isDigit (ascii c) = true := by
  simp only [isDigit, Bool.and_eq_true, decide_eq_true_eq, UInt8.le_iff_toNat_le,
    toNat_ascii (digit_lt h)]
  exact digit_bounds h

variable {cs : List Char} {rest : List UInt8}

theorem isDigit_of_mem_map (h : Digits cs) : ∀ b ∈ cs.map ascii, isDigit b = true := by
  intro b hb
  obtain ⟨c, hc, rfl⟩ := List.mem_map.mp hb
  exact isDigit_ascii (h.2 c hc)

theorem takeWhile_noDigit (h : NoDigit rest) : rest.takeWhile isDigit = [] := by
  cases rest with
  | nil => rfl
  | cons b rest => rw [List.takeWhile_cons, h b rfl, if_neg Bool.false_ne_true]

theorem dropWhile_noDigit (h : NoDigit rest) : rest.dropWhile isDigit = rest := by
  cases rest with
  | nil => rfl
  | cons b rest => rw [List.dropWhile_cons, h b rfl, if_neg Bool.false_ne_true]

theorem digits_append (h : Digits cs) (hrest : NoDigit rest) :
    digits (cs.map ascii ++ rest) = cs := by
  rw [digits, List.takeWhile_append_of_pos (isDigit_of_mem_map h), takeWhile_noDigit hrest,
    List.append_nil, List.map_map]
  have hback : ∀ c ∈ cs, (fun b : UInt8 => Char.ofNat b.toNat) (ascii c) = c := by
    intro c hc
    simp only [toNat_ascii (digit_lt (h.2 c hc)), Char.ofNat_toNat]
  exact (List.map_congr_left hback).trans (List.map_id' cs)

theorem afterDigits_append (h : Digits cs) (hrest : NoDigit rest) :
    afterDigits (cs.map ascii ++ rest) = rest := by
  rw [afterDigits, List.dropWhile_append_of_pos (isDigit_of_mem_map h), dropWhile_noDigit hrest]

/-! ## The parts of a numeral -/

theorem scanExponent_digits (n : Numeral) (negative : Bool) (h : Digits cs)
    (hrest : NoDigit rest) :
    scanExponent n (ascii (if negative then '-' else '+') :: (cs.map ascii ++ rest)) =
      (.numeral { n with exponent := some (negative, cs) }, rest) := by
  have hempty : cs.isEmpty = false := by simpa using h.1
  cases negative <;>
    simp only [scanExponent, if_true, if_false, Bool.false_eq_true, beq_self_eq_true,
      show (ascii '+' == ascii '-') = false from rfl, digits_append h hrest,
      afterDigits_append h hrest, hempty]

variable (negative : Bool) (whole : List Char) (fraction : Option (List Char))
  (exponent : Option (Bool × List Char))

theorem scanTail_text (h : ∀ sign ds, exponent = some (sign, ds) → Digits ds)
    (hrest : Stops rest) :
    scanTail ⟨negative, whole, fraction, none⟩
        ((Numeral.exponentText exponent).map ascii ++ rest) =
      (.numeral ⟨negative, whole, fraction, exponent⟩, rest) := by
  rcases exponent with - | ⟨sign, ds⟩
  · cases rest with
    | nil => rfl
    | cons b rest =>
      obtain ⟨-, -, he, hE⟩ := hrest b rfl
      simp only [Numeral.exponentText, List.map_nil, List.nil_append, scanTail,
        beq_eq_false_iff_ne.mpr he, beq_eq_false_iff_ne.mpr hE, Bool.or_self, Bool.false_eq_true,
        if_false]
  · exact scanExponent_digits _ sign (h sign ds rfl) hrest.noDigit

theorem head_exponentText (hrest : Stops rest) (b : UInt8)
    (hb : ((Numeral.exponentText exponent).map ascii ++ rest).head? = some b) :
    isDigit b = false ∧ b ≠ ascii '.' := by
  rcases exponent with - | ⟨sign, ds⟩
  · exact ⟨(hrest b hb).1, (hrest b hb).2.1⟩
  · cases hb
    decide

theorem noDigit_fractionText (hrest : Stops rest) :
    NoDigit ((Numeral.fractionText fraction).map ascii ++
      ((Numeral.exponentText exponent).map ascii ++ rest)) := by
  intro b hb
  cases fraction with
  | none => exact (head_exponentText exponent hrest b hb).1
  | some ds => cases hb; rfl

theorem scanFraction_eq_scanTail {bytes : List UInt8} (n : Numeral)
    (h : ∀ b, bytes.head? = some b → b ≠ ascii '.') : scanFraction n bytes = scanTail n bytes := by
  cases bytes with
  | nil => rfl
  | cons b rest =>
    rw [scanFraction, beq_eq_false_iff_ne.mpr (h b rfl), if_neg Bool.false_ne_true]

theorem scanFraction_text (h : ∀ ds, fraction = some ds → Digits ds)
    (h' : ∀ sign ds, exponent = some (sign, ds) → Digits ds) (hrest : Stops rest) :
    scanFraction ⟨negative, whole, none, none⟩
        ((Numeral.fractionText fraction).map ascii ++
          ((Numeral.exponentText exponent).map ascii ++ rest)) =
      (.numeral ⟨negative, whole, fraction, exponent⟩, rest) := by
  have htail := scanTail_text negative whole fraction exponent h' hrest
  have hhead := head_exponentText exponent hrest
  cases fraction with
  | none =>
    rw [Numeral.fractionText, List.map_nil, List.nil_append,
      scanFraction_eq_scanTail _ fun b hb => (hhead b hb).2]
    exact htail
  | some ds =>
    have hno : NoDigit _ := fun b hb => (hhead b hb).1
    have hempty : ds.isEmpty = false := by simpa using (h ds rfl).1
    simp only [Numeral.fractionText, List.map_cons, List.cons_append, scanFraction,
      beq_self_eq_true, if_true, digits_append (h ds rfl) hno, afterDigits_append (h ds rfl) hno,
      hempty, Bool.false_eq_true, if_false]
    exact htail

/-! ## A whole numeral -/

theorem scanNumeral_unsigned {n : Numeral} (h : n.Proper) (hrest : Stops rest) :
    scanNumeral n.negative (n.unsigned.map ascii ++ rest) = (.numeral n, rest) := by
  have hno := noDigit_fractionText n.fraction n.exponent hrest
  rw [Numeral.unsigned, List.map_append, List.map_append, List.append_assoc, List.append_assoc,
    scanNumeral, digits_append h.whole hno, afterDigits_append h.whole hno]
  split
  next hnil => exact absurd hnil h.whole.1
  next hzero => exact absurd hzero (h.no_zero_before _ _)
  · exact scanFraction_text n.negative n.whole n.fraction n.exponent h.fraction h.exponent hrest

theorem beq_of_isDigit {b x : UInt8} (h : isDigit b = true) (hx : isDigit x = false) :
    (b == x) = false := by
  rw [beq_eq_false_iff_ne]
  rintro rfl
  rw [h] at hx
  cases hx

theorem isBlank_digit {b : UInt8} (h : isDigit b = true) : isBlank b = false := by
  have hne : ∀ x, isDigit x = false → (b == x) = false := fun x hx => beq_of_isDigit h hx
  rw [isBlank, hne _ rfl, hne _ rfl, hne _ rfl, hne _ rfl]
  rfl

theorem scan_digit {b : UInt8} (h : isDigit b = true) (bytes : List UInt8) :
    scan b bytes = scanNumeral false (b :: bytes) := by
  have hne : ∀ x, isDigit x = false → (b == x) = false := fun x hx => beq_of_isDigit h hx
  have hpunctuation : punctuation? b = none := by
    rw [punctuation?, hne _ rfl, hne _ rfl, hne _ rfl, hne _ rfl, hne _ rfl, hne _ rfl]
    rfl
  rw [scan, hpunctuation]
  simp only [hne (ascii '"') rfl, hne (ascii '-') rfl, h, Bool.false_eq_true, if_false, if_true]

theorem scan_text {n : Numeral} (h : n.Proper) (hrest : Stops rest) :
    ∃ b bytes, n.text.map ascii = b :: bytes ∧ isBlank b = false ∧
      scan b (bytes ++ rest) = (.numeral n, rest) := by
  have hscan := scanNumeral_unsigned h hrest
  cases hneg : n.negative with
  | true =>
    refine ⟨ascii '-', n.unsigned.map ascii, by rw [Numeral.text, hneg]; rfl, rfl, ?_⟩
    rw [hneg] at hscan
    exact hscan
  | false =>
    obtain ⟨d, ds, hwhole⟩ := List.exists_cons_of_ne_nil h.whole.1
    have hd : isDigit (ascii d) = true :=
      isDigit_ascii (h.whole.2 d (hwhole ▸ List.mem_cons_self))
    have htext : n.unsigned = d :: (ds ++ (Numeral.fractionText n.fraction ++
        Numeral.exponentText n.exponent)) := by
      rw [Numeral.unsigned, hwhole, List.cons_append]
    refine ⟨ascii d, _, by rw [Numeral.text, hneg, htext]; rfl, isBlank_digit hd, ?_⟩
    rw [scan_digit hd, ← hscan, hneg, htext]
    rfl

end Token

end AttributeReview.Json
