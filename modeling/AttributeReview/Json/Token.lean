import AttributeReview.Json.Numeral
import AttributeReview.Json.Quoted

/-!
# Tokens

A document's bytes taken apart into brackets, separators, words, numerals and quoted texts. What
breaks off, or cannot start a token, is a token too, and the last one.
-/

namespace AttributeReview.Json

/-- The three words that are values. -/
inductive Word where
  | null
  | yes
  | no
deriving DecidableEq

/-- Something that stands where a value is due and is none. -/
inductive Break where
  /-- The document ends. -/
  | ended
  /-- No value starts like this. -/
  | stray
  | badWord
  | badNumeral (atEnd : Bool)
  /-- The document ends before the colon that leads to the value. -/
  | endedBeforeColon
  | noColon
deriving DecidableEq

/-- A token, the shortest part of a document that means something. -/
inductive Token where
  | openList
  | closeList
  | openRecord
  | closeRecord
  | comma
  | colon
  | word (w : Word)
  | numeral (n : Numeral)
  | quoted (q : Quoted)
  | broken (b : Break)
deriving DecidableEq

namespace Token

def isBlank (b : UInt8) : Bool :=
  b == ascii ' ' || b == ascii '\n' || b == ascii '\t' || b == ascii '\r'

def isDigit (b : UInt8) : Bool := 48 ≤ b && b ≤ 57

def digits (bytes : List UInt8) : List Char :=
  (bytes.takeWhile isDigit).map fun b => Char.ofNat b.toNat

def afterDigits (bytes : List UInt8) : List UInt8 := bytes.dropWhile isDigit

def refuseNumeral (rest : List UInt8) : Token × List UInt8 :=
  (.broken (.badNumeral rest.isEmpty), [])

/-- Takes the exponent of a numeral, whose mark has been read. -/
def scanExponent (n : Numeral) (bytes : List UInt8) : Token × List UInt8 :=
  let (negative, rest) :=
    match bytes with
    | b :: rest =>
      if b == ascii '-' then (true, rest) else if b == ascii '+' then (false, rest)
      else (false, bytes)
    | [] => (false, bytes)
  if (digits rest).isEmpty then refuseNumeral rest
  else (.numeral { n with exponent := some (negative, digits rest) }, afterDigits rest)

/-- Takes what follows the digits of a numeral: an exponent, or something else. -/
def scanTail (n : Numeral) : List UInt8 → Token × List UInt8
  | [] => (.numeral n, [])
  | b :: rest =>
    if b == ascii 'e' || b == ascii 'E' then scanExponent n rest
    else (.numeral n, b :: rest)

/-- Takes what follows the integer part of a numeral. -/
def scanFraction (n : Numeral) : List UInt8 → Token × List UInt8
  | [] => (.numeral n, [])
  | b :: rest =>
    if b == ascii '.' then
      if (digits rest).isEmpty then refuseNumeral rest
      else scanTail { n with fraction := some (digits rest) } (afterDigits rest)
    else scanTail n (b :: rest)

/-- Takes a numeral whose sign has been read. -/
def scanNumeral (negative : Bool) (bytes : List UInt8) : Token × List UInt8 :=
  match digits bytes with
  | [] => refuseNumeral bytes
  | '0' :: _ :: _ => (.broken (.badNumeral false), [])
  | whole => scanFraction ⟨negative, whole, none, none⟩ (afterDigits bytes)

/-- Takes the letters of a word of which the first has been read. -/
def scanWord (w : Word) : List Char → List UInt8 → Token × List UInt8
  | [], bytes => (.word w, bytes)
  | _ :: _, [] => (.broken .ended, [])
  | c :: letters, b :: bytes =>
    if b == ascii c then scanWord w letters bytes else (.broken .badWord, [])

def punctuation? (b : UInt8) : Option Token :=
  if b == ascii '\x7b' then some .openRecord
  else if b == ascii '\x7d' then some .closeRecord
  else if b == ascii '[' then some .openList
  else if b == ascii ']' then some .closeList
  else if b == ascii ',' then some .comma
  else if b == ascii ':' then some .colon
  else none

def scanQuoted (bytes : List UInt8) : Token × List UInt8 :=
  (.quoted (Quoted.scan bytes).1, (Quoted.scan bytes).2)

/-- Takes the token that starts with the byte `b`, which is no blank. -/
def scan (b : UInt8) (rest : List UInt8) : Token × List UInt8 :=
  match punctuation? b with
  | some token => (token, rest)
  | none =>
    if b == ascii '"' then scanQuoted rest
    else if b == ascii '-' then scanNumeral true rest
    else if isDigit b then scanNumeral false (b :: rest)
    else if b == ascii 'n' then scanWord .null ['u', 'l', 'l'] rest
    else if b == ascii 't' then scanWord .yes ['r', 'u', 'e'] rest
    else if b == ascii 'f' then scanWord .no ['a', 'l', 's', 'e'] rest
    else (.broken .stray, [])

theorem afterDigits_length (bytes : List UInt8) : (afterDigits bytes).length ≤ bytes.length :=
  (List.dropWhile_sublist _).length_le

theorem scanExponent_length (n : Numeral) (bytes : List UInt8) :
    (scanExponent n bytes).2.length ≤ bytes.length := by
  unfold scanExponent refuseNumeral
  have h := afterDigits_length
  grind

theorem scanTail_length (n : Numeral) (bytes : List UInt8) :
    (scanTail n bytes).2.length ≤ bytes.length := by
  have h := scanExponent_length
  unfold scanTail
  grind

theorem scanFraction_length (n : Numeral) (bytes : List UInt8) :
    (scanFraction n bytes).2.length ≤ bytes.length := by
  have h := scanTail_length
  have hd := afterDigits_length
  unfold scanFraction refuseNumeral
  grind

theorem scanNumeral_length (negative : Bool) (bytes : List UInt8) :
    (scanNumeral negative bytes).2.length ≤ bytes.length := by
  have h := scanFraction_length
  have hd := afterDigits_length
  unfold scanNumeral refuseNumeral
  grind

theorem scanWord_length (w : Word) (letters : List Char) (bytes : List UInt8) :
    (scanWord w letters bytes).2.length ≤ bytes.length := by
  fun_induction scanWord w letters bytes <;> simp_all
  omega

/-- A numeral that starts with a digit takes that digit. -/
theorem scanNumeral_digit {b : UInt8} (h : isDigit b = true) (rest : List UInt8) :
    (scanNumeral false (b :: rest)).2.length ≤ rest.length := by
  have hf := scanFraction_length
  have hd := afterDigits_length rest
  have ha : afterDigits (b :: rest) = afterDigits rest := by simp [afterDigits, h]
  unfold scanNumeral refuseNumeral
  grind

theorem scan_length (b : UInt8) (rest : List UInt8) : (scan b rest).2.length ≤ rest.length := by
  have hq := Quoted.scan_length rest
  have hn := scanNumeral_length true rest
  have hd := @scanNumeral_digit b
  have hw := scanWord_length
  unfold scan scanQuoted
  grind

/-- The tokens of a document. After a broken one there are none. -/
def all (bytes : List UInt8) : List Token :=
  match bytes with
  | [] => []
  | b :: rest =>
    if isBlank b then all rest
    else
      let scanned := scan b rest
      scanned.1 :: all scanned.2
termination_by bytes.length
decreasing_by
  · simp
  · have := scan_length b rest
    simp only [List.length_cons]
    omega

end Token

end AttributeReview.Json
