import AttributeReview.Proofs.Json.Token
import Mathlib.Logic.Basic

/-!
# Tokens of a document and of a longer one

A scanner of a value takes some first bytes. If it leaves some, it takes the same ones whatever
comes after them; a bracket is taken at once. So the tokens of bytes that end with a closing bracket
are the first tokens of every continuation.
-/

namespace AttributeReview.Json

/-! ## Quoted texts -/

theorem Quoted.scan_suffix (bytes : List UInt8) : (scan bytes).2 <:+ bytes := by
  fun_induction Quoted.scan bytes with
  | case2 b rest => exact List.suffix_cons b rest
  | case4 b _ _ e rest c _ ih => exact ih.trans (List.suffix_append [b, e] rest)
  | case5 b _ _ e _ _ h₁ h₂ h₃ h₄ rest u _ ih =>
    exact ih.trans (List.suffix_append [b, e, h₁, h₂, h₃, h₄] rest)
  | case10 b rest _ _ _ ih => exact ih.trans (List.suffix_cons b rest)
  | _ => exact List.nil_suffix

theorem Quoted.scan_append {bytes : List UInt8} (h : (scan bytes).2 ≠ []) (more : List UInt8) :
    scan (bytes ++ more) = ((scan bytes).1, (scan bytes).2 ++ more) := by
  fun_induction Quoted.scan bytes with
  | case2 b rest hquote =>
    obtain rfl := eq_of_beq hquote
    exact scan_quote _
  | case4 b _ hback e rest c hletter ih =>
    obtain rfl := eq_of_beq hback
    rw [List.cons_append, List.cons_append, scan_letter hletter, ih h]
    rfl
  | case5 b _ hback e _ hu h₁ h₂ h₃ h₄ rest u hunit ih =>
    obtain rfl := eq_of_beq hback
    obtain rfl := eq_of_beq hu
    simp only [List.cons_append, scan_unit hunit, ih h]
    rfl
  | case10 b rest hquote hback hcontrol ih =>
    have hplain : isPlain b :=
      ⟨UInt8.not_lt.mp hcontrol, ne_of_beq_false (Bool.eq_false_iff.mpr hquote),
        ne_of_beq_false (Bool.eq_false_iff.mpr hback)⟩
    rw [List.cons_append, scan_plain hplain, ih h]
    rfl
  | _ => exact absurd rfl h

namespace Token

variable {bytes : List UInt8}

/-! ## Scanners of values -/

/-- The token is the bracket at the end of a list or a record. -/
def closes : Token → Bool
  | closeList | closeRecord => true
  | _ => false

/-- A scanner of values takes some first bytes and no closing bracket; if it leaves some bytes, what
comes after them does not change what it takes. -/
structure TakesValue (scan : List UInt8 → Token × List UInt8) : Prop where
  suffix : ∀ bytes, (scan bytes).2 <:+ bytes
  append : ∀ bytes more, (scan bytes).2 ≠ [] →
    scan (bytes ++ more) = ((scan bytes).1, (scan bytes).2 ++ more)
  opens : ∀ bytes, (scan bytes).1.closes = false

theorem TakesValue.nil {scan : List UInt8 → Token × List UInt8} (h : TakesValue scan) :
    (scan []).2 = [] :=
  List.suffix_nil.mp (h.suffix [])

theorem takesValue_broken (b : Break) : TakesValue fun _ => (.broken b, []) :=
  ⟨fun _ => List.nil_suffix, fun _ _ h => absurd rfl h, fun _ => rfl⟩

theorem takesValue_quoted : TakesValue scanQuoted := by
  refine ⟨Quoted.scan_suffix, fun bytes more h => ?_, fun _ => rfl⟩
  rw [scanQuoted, Quoted.scan_append h]
  rfl

theorem digits_append_of_after (h : afterDigits bytes ≠ []) (more : List UInt8) :
    digits (bytes ++ more) = digits bytes ∧
      afterDigits (bytes ++ more) = afterDigits bytes ++ more := by
  unfold afterDigits at h ⊢
  have hempty : (bytes.dropWhile isDigit).isEmpty = false := by simpa using h
  have hlength : (bytes.takeWhile isDigit).length ≠ bytes.length := by
    intro heq
    have hsum := congrArg List.length (List.takeWhile_append_dropWhile (p := isDigit) (l := bytes))
    rw [List.length_append, heq] at hsum
    exact h (List.length_eq_zero_iff.mp (Nat.add_left_cancel hsum))
  constructor
  · rw [digits, List.takeWhile_append, if_neg hlength, digits]
  · rw [List.dropWhile_append, hempty]
    rfl

theorem takesValue_digits {next : List Char → List UInt8 → Token × List UInt8}
    (hnext : ∀ ds, TakesValue (next ds)) :
    TakesValue fun bytes => if (digits bytes).isEmpty then refuseNumeral bytes
      else next (digits bytes) (afterDigits bytes) := by
  refine ⟨fun bytes => ?_, fun bytes more h => ?_, fun bytes => ?_⟩
  · split
    · exact List.nil_suffix
    · exact ((hnext _).suffix _).trans (List.dropWhile_suffix isDigit)
  · by_cases hdigits : (digits bytes).isEmpty = true
    · simp only [hdigits, if_true] at h
      exact absurd rfl h
    · simp only [hdigits] at h
      have hafter : afterDigits bytes ≠ [] := by
        intro hnil
        rw [hnil] at h
        exact h (hnext _).nil
      obtain ⟨hsame, hmore⟩ := digits_append_of_after hafter more
      simp only [hsame, hmore, hdigits]
      exact (hnext _).append _ more h
  · split
    · rfl
    · exact (hnext _).opens _

/-! ## Numerals -/

/-- Takes what comes after a byte that the bytes may start with, or takes them as they are. -/
def afterMark (isMark : UInt8 → Bool) (marked plain : List UInt8 → Token × List UInt8) :
    List UInt8 → Token × List UInt8
  | [] => plain []
  | b :: rest => if isMark b then marked rest else plain (b :: rest)

theorem takesValue_afterMark (isMark : UInt8 → Bool)
    {marked plain : List UInt8 → Token × List UInt8} (hmarked : TakesValue marked)
    (hplain : TakesValue plain) : TakesValue (afterMark isMark marked plain) := by
  refine ⟨fun bytes => ?_, fun bytes more h => ?_, fun bytes => ?_⟩
  · unfold afterMark
    split
    · exact hplain.suffix []
    split
    · exact (hmarked.suffix _).trans (List.suffix_cons _ _)
    · exact hplain.suffix _
  · cases bytes with
    | nil => exact absurd hplain.nil h
    | cons b rest =>
      rw [List.cons_append]
      unfold afterMark at h ⊢
      by_cases hb : isMark b = true
      · simp only [hb, if_true] at h ⊢
        exact hmarked.append rest more h
      · simp only [hb] at h ⊢
        exact hplain.append (b :: rest) more h
  · unfold afterMark
    split
    · exact hplain.opens []
    split
    · exact hmarked.opens _
    · exact hplain.opens _

theorem takesValue_ended (n : Numeral) : TakesValue fun bytes => (.numeral n, bytes) :=
  ⟨List.suffix_refl, fun _ _ _ => rfl, fun _ => rfl⟩

/-- Takes the digits of an exponent, whose sign has been read. -/
def scanExponentDigits (n : Numeral) (negative : Bool) (bytes : List UInt8) : Token × List UInt8 :=
  if (digits bytes).isEmpty then refuseNumeral bytes
  else (.numeral { n with exponent := some (negative, digits bytes) }, afterDigits bytes)

theorem scanExponent_eq (n : Numeral) :
    scanExponent n =
      afterMark (· == ascii '-') (scanExponentDigits n true)
        (afterMark (· == ascii '+') (scanExponentDigits n false) (scanExponentDigits n false)) := by
  funext bytes
  cases bytes with
  | nil => rfl
  | cons b rest =>
    simp only [scanExponent, afterMark]
    split
    · rfl
    split
    · rfl
    · rfl

theorem takesValue_exponent (n : Numeral) : TakesValue (scanExponent n) := by
  have hdigits (negative : Bool) : TakesValue (scanExponentDigits n negative) :=
    takesValue_digits fun ds => takesValue_ended { n with exponent := some (negative, ds) }
  rw [scanExponent_eq]
  exact takesValue_afterMark _ (hdigits true)
    (takesValue_afterMark _ (hdigits false) (hdigits false))

theorem scanTail_eq (n : Numeral) :
    scanTail n =
      afterMark (fun b => b == ascii 'e' || b == ascii 'E') (scanExponent n)
        fun bytes => (.numeral n, bytes) := by
  funext bytes
  cases bytes with
  | nil => rfl
  | cons b rest => rfl

theorem takesValue_tail (n : Numeral) : TakesValue (scanTail n) := by
  rw [scanTail_eq]
  exact takesValue_afterMark _ (takesValue_exponent n) (takesValue_ended n)

theorem scanFraction_eq (n : Numeral) :
    scanFraction n =
      afterMark (· == ascii '.')
        (fun bytes => if (digits bytes).isEmpty then refuseNumeral bytes
          else scanTail { n with fraction := some (digits bytes) } (afterDigits bytes))
        (scanTail n) := by
  funext bytes
  cases bytes with
  | nil => rfl
  | cons b rest => rfl

theorem takesValue_fraction (n : Numeral) : TakesValue (scanFraction n) := by
  have hpoint := takesValue_digits fun ds => takesValue_tail { n with fraction := some ds }
  rw [scanFraction_eq]
  exact takesValue_afterMark _ hpoint (takesValue_tail n)

/-- Takes what comes after the whole part of a numeral, which has no needless zero. -/
def scanAfterWhole (negative : Bool) : List Char → List UInt8 → Token × List UInt8
  | '0' :: _ :: _ => fun _ => (.broken (.badNumeral false), [])
  | whole => scanFraction ⟨negative, whole, none, none⟩

theorem scanNumeral_eq (negative : Bool) :
    scanNumeral negative = fun bytes => if (digits bytes).isEmpty then refuseNumeral bytes
      else scanAfterWhole negative (digits bytes) (afterDigits bytes) := by
  funext bytes
  unfold scanNumeral
  split
  next hdigits => rw [hdigits, List.isEmpty_nil, if_pos rfl]
  next hdigits => rw [hdigits, List.isEmpty_cons, if_neg Bool.false_ne_true, scanAfterWhole]
  next hnil hzero =>
    have hempty : (digits bytes).isEmpty = false := by simpa using hnil
    rw [hempty, if_neg Bool.false_ne_true, scanAfterWhole]
    exact hzero

theorem takesValue_numeral (negative : Bool) : TakesValue (scanNumeral negative) := by
  rw [scanNumeral_eq]
  refine takesValue_digits fun ds => ?_
  unfold scanAfterWhole
  split
  · exact takesValue_broken _
  · exact takesValue_fraction _

theorem takesValue_unsigned {b : UInt8} (h : isDigit b = true) :
    TakesValue fun rest => scanNumeral false (b :: rest) := by
  have hnumeral := takesValue_numeral false
  refine ⟨fun rest => ?_, fun rest => hnumeral.append (b :: rest),
    fun rest => hnumeral.opens (b :: rest)⟩
  refine (List.suffix_cons_iff.mp (hnumeral.suffix (b :: rest))).resolve_left fun hall => ?_
  have hlength := scanNumeral_digit h rest
  rw [hall, List.length_cons] at hlength
  omega

/-! ## Any token -/

theorem takesValue_word (w : Word) (letters : List Char) : TakesValue (scanWord w letters) := by
  refine ⟨fun bytes => ?_, fun bytes more h => ?_, fun bytes => ?_⟩
  · fun_induction scanWord w letters bytes with
    | case1 bytes => exact List.suffix_refl bytes
    | case3 c letters b bytes hb ih => exact ih.trans (List.suffix_cons b bytes)
    | _ => exact List.nil_suffix
  · fun_induction scanWord w letters bytes with
    | case1 bytes => rfl
    | case2 => exact absurd rfl h
    | case3 c letters b bytes hb ih =>
      rw [List.cons_append, scanWord, if_pos hb]
      exact ih h
    | case4 => exact absurd rfl h
  · fun_induction scanWord w letters bytes with
    | case3 _ _ _ _ _ ih => exact ih
    | _ => rfl

theorem scan_eq {b : UInt8} (h : punctuation? b = none) :
    scan b =
      if b == ascii '"' then scanQuoted
      else if b == ascii '-' then scanNumeral true
      else if isDigit b then fun rest => scanNumeral false (b :: rest)
      else if b == ascii 'n' then scanWord .null ['u', 'l', 'l']
      else if b == ascii 't' then scanWord .yes ['r', 'u', 'e']
      else if b == ascii 'f' then scanWord .no ['a', 'l', 's', 'e']
      else fun _ => (.broken .stray, []) := by
  funext rest
  rw [scan, h]
  simp only [ite_apply]

theorem takesValue_scan {b : UInt8} (h : punctuation? b = none) : TakesValue (scan b) := by
  rw [scan_eq h]
  split
  · exact takesValue_quoted
  split
  · exact takesValue_numeral true
  split
  next hdigit => exact takesValue_unsigned hdigit
  split
  · exact takesValue_word _ _
  split
  · exact takesValue_word _ _
  split
  · exact takesValue_word _ _
  · exact takesValue_broken _

theorem scan_punctuation {b : UInt8} {token : Token} (h : punctuation? b = some token)
    (rest : List UInt8) : scan b rest = (token, rest) := by
  rw [scan, h]

/-- What is left after a token, or the token itself if it closes a bracket, keeps it as it is
whatever comes after. -/
theorem scan_append (b : UInt8) {rest : List UInt8}
    (h : (scan b rest).2 ≠ [] ∨ (scan b rest).1.closes = true) (more : List UInt8) :
    scan b (rest ++ more) = ((scan b rest).1, (scan b rest).2 ++ more) := by
  cases hp : punctuation? b with
  | some token => rw [scan_punctuation hp, scan_punctuation hp]
  | none =>
    have hvalue := takesValue_scan hp
    rw [hvalue.opens rest] at h
    exact hvalue.append rest more (h.resolve_right Bool.false_ne_true)

/-! ## Tokens of bytes and of more bytes -/

theorem all_eq_nil_iff : all bytes = [] ↔ ∀ b ∈ bytes, isBlank b = true := by
  induction bytes with
  | nil => simp [all_nil]
  | cons b rest ih =>
    cases hb : isBlank b with
    | true => rw [all_blank hb, ih, List.forall_mem_cons, and_iff_right hb]
    | false => simp [all_scan hb, hb]

theorem all_blanks (h : ∀ b ∈ bytes, isBlank b = true) (more : List UInt8) :
    all (bytes ++ more) = all more := by
  induction bytes with
  | nil => rfl
  | cons b rest ih =>
    rw [List.cons_append, all_blank (h b List.mem_cons_self)]
    exact ih fun x hx => h x (List.mem_cons_of_mem b hx)

theorem all_append {token : Token} (hlast : (all bytes).getLast? = some token)
    (htoken : token.closes = true) (more : List UInt8) :
    all (bytes ++ more) = all bytes ++ all more := by
  fun_induction all bytes with
  | case1 => cases hlast
  | case2 b rest hb ih =>
    rw [List.cons_append, all_blank hb]
    exact ih hlast
  | case3 b rest hb scanned ih =>
    have hb : isBlank b = false := Bool.eq_false_iff.mpr hb
    by_cases hrest : all scanned.2 = []
    · rw [hrest] at hlast
      obtain rfl := Option.some.inj hlast
      have hscan := scan_append b (Or.inr htoken) more
      rw [List.cons_append, all_scan hb, hscan, hrest]
      rw [all_blanks (all_eq_nil_iff.mp hrest)]
      rfl
    · have hleft : scanned.2 ≠ [] := by
        intro hnil
        rw [hnil] at hrest
        exact hrest all_nil
      have hscan := scan_append b (Or.inl hleft) more
      have hlater : (all scanned.2).getLast? = some token := by
        rw [← hlast, List.getLast?_cons, List.getLast?_eq_some_getLast hrest, Option.getD_some]
      rw [List.cons_append, all_scan hb, hscan, ih hlater]
      rfl

/-- The byte is the bracket at the end of a list or a record. -/
def isClosing (b : UInt8) : Bool := b == ascii ']' || b == ascii '\x7d'

theorem isBlank_of_isClosing {b : UInt8} (h : isClosing b = true) : isBlank b = false := by
  unfold isClosing at h
  rw [Bool.or_eq_true, beq_iff_eq, beq_iff_eq] at h
  rcases h with rfl | rfl <;> rfl

theorem scan_suffix (b : UInt8) (rest : List UInt8) : (scan b rest).2 <:+ rest := by
  cases hp : punctuation? b with
  | some token => simp [scan_punctuation hp]
  | none => exact (takesValue_scan hp).suffix rest

theorem isClosing_of_closes {b : UInt8} {rest : List UInt8} (h : (scan b rest).1.closes = true) :
    isClosing b = true ∧ (scan b rest).2 = rest := by
  cases hp : punctuation? b with
  | none =>
    rw [(takesValue_scan hp).opens rest] at h
    cases h
  | some token =>
    rw [scan_punctuation hp] at h ⊢
    refine ⟨?_, rfl⟩
    unfold punctuation? at hp
    unfold isClosing
    grind [closes]

theorem last_of_closes {token : Token} (hlast : (all bytes).getLast? = some token)
    (htoken : token.closes = true) :
    ∃ body b blanks, bytes = body ++ b :: blanks ∧ isClosing b = true ∧
      ∀ x ∈ blanks, isBlank x = true := by
  fun_induction all bytes with
  | case1 => cases hlast
  | case2 b rest hb ih =>
    obtain ⟨body, bracket, blanks, rfl, hrest⟩ := ih hlast
    exact ⟨b :: body, bracket, blanks, rfl, hrest⟩
  | case3 b rest hb scanned ih =>
    by_cases hrest : all scanned.2 = []
    · rw [hrest] at hlast
      obtain rfl := Option.some.inj hlast
      obtain ⟨hclosing, hscan⟩ := isClosing_of_closes htoken
      exact ⟨[], b, rest, rfl, hclosing, all_eq_nil_iff.mp (hscan ▸ hrest)⟩
    · have hlater : (all scanned.2).getLast? = some token := by
        rw [← hlast, List.getLast?_cons, List.getLast?_eq_some_getLast hrest, Option.getD_some]
      obtain ⟨body, bracket, blanks, hbytes, hbracket⟩ := ih hlater
      obtain ⟨taken, htaken⟩ := scan_suffix b rest
      refine ⟨b :: (taken ++ body), bracket, blanks, ?_, hbracket⟩
      rw [← htaken, List.cons_append, List.append_assoc, ← hbytes]

end Token

end AttributeReview.Json
