import AttributeReview.Calendar.Rendering

/-!
# Instants

The text of an instant in universal time, with as many places of the second as it needs in steps of
three.
-/

namespace AttributeReview.Calendar

def digitsOf (width n : Nat) : List Char := padLeft '0' width (Nat.toDigits 10 n)

/-- The places of a second, given in billionths. -/
def fractionText (nanos : Nat) : List Char :=
  if nanos = 0 then []
  else if nanos % 1000000 = 0 then '.' :: digitsOf 3 (nanos / 1000000)
  else if nanos % 1000 = 0 then '.' :: digitsOf 6 (nanos / 1000)
  else '.' :: digitsOf 9 nanos

/-- The text of the instant some billionths of a second after the start of 1970. -/
def instantText? (nanos : Int) : Option String := do
  let date ← Date.ofEpochMillis? (nanos / 1000000)
  let ofDay := (nanos % 86400000000000).toNat
  let seconds := ofDay / 1000000000
  let time := digitsOf 2 (seconds / 3600) ++ ':' :: digitsOf 2 (seconds / 60 % 60) ++
    ':' :: digitsOf 2 (seconds % 60)
  return String.ofList
    (dashedText date ++ 'T' :: time ++ fractionText (ofDay % 1000000000) ++ "+00:00".toList)

end AttributeReview.Calendar
