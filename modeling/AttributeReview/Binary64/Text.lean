import AttributeReview.Binary64.Shortest

/-!
# Numbers with a fraction as text

The shortest decimal of a number, written out in full between 10^-5 and 10^16 and with an exponent
outside. A number written out in full always has a fraction.
-/

namespace AttributeReview.Binary64

/-- Digits with the decimal point after the first `point` of them, in full or with an exponent. -/
def layOut (digits : List Char) (point : Int) : List Char :=
  if 0 < point ∧ point ≤ 16 then
    let whole := point.toNat
    if digits.length ≤ whole then
      digits ++ List.replicate (whole - digits.length) '0' ++ ['.', '0']
    else digits.take whole ++ '.' :: digits.drop whole
  else if -5 < point ∧ point ≤ 0 then
    ['0', '.'] ++ List.replicate (-point).toNat '0' ++ digits
  else
    let exponent := point - 1
    let sign := if exponent < 0 then '-' else '+'
    digits.take 1 ++ (if digits.length ≤ 1 then [] else '.' :: digits.drop 1) ++
      'e' :: sign :: Nat.toDigits 10 exponent.natAbs

def magnitudeText (rank : Nat) : List Char :=
  if rank = 0 then ['0', '.', '0']
  else
    let d := shortest rank
    let digits := Nat.toDigits 10 d.digits
    layOut digits (digits.length + d.exponent)

/-- The text of a number: its shortest decimal, after a minus sign for a negative one. -/
def text (x : Binary64) : List Char :=
  (if x.negative then ['-'] else []) ++ magnitudeText x.rank

end AttributeReview.Binary64
