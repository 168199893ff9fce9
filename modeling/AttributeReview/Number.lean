import AttributeReview.Binary64.Rounding
import AttributeReview.Binary64.Text

/-!
# Numbers

A number of a document is an integer of 64 bits, kept exactly, or a binary64 number.
-/

namespace AttributeReview

/-- A number as a document has it. Which of the three it is depends on how it is spelled. -/
inductive Number where
  | natural (n : UInt64)
  /-- The integer `-1 - n`. -/
  | negative (n : Fin 0x8000000000000000)
  | float (x : Binary64)
deriving DecidableEq

namespace Number

def text : Number → String
  | natural n => String.ofList (Nat.toDigits 10 n.toNat)
  | negative n => String.ofList ('-' :: Nat.toDigits 10 (n + 1))
  | float x => String.ofList x.text

def isZero : Number → Bool
  | natural n => n == 0
  | negative _ => false
  | float x => x.isZero

/-- Equality of kind and value. -/
def same : Number → Number → Bool
  | natural m, natural n => m == n
  | negative m, negative n => m == n
  | float x, float y => x.same y
  | _, _ => false

def leastInt64 : Int := -0x8000000000000000

def greatestInt64 : Int := 0x7FFFFFFFFFFFFFFF

/-- The number without its fraction, as the nearest signed integer of 64 bits. -/
def toInt64 : Number → Int
  | natural n => min n.toNat greatestInt64
  | negative n => -1 - (n : Nat)
  | float x => max leastInt64 (min x.truncated greatestInt64)

end Number

end AttributeReview
