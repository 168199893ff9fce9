import AttributeReview.Json.Fault
import AttributeReview.Text.Utf8

/-!
# Quoted texts

A quoted text as it stands in a document: its pieces, up to the closing quote or to what breaks it
off. `scan` takes it apart and `text` says what it spells. A text that is only passed over is
checked less than one that is read: see `check`.
-/

namespace AttributeReview.Json

def ascii (c : Char) : UInt8 := c.toUInt8

/-- A byte of a quoted text, or a 16-bit unit that it gives by number. -/
inductive Piece where
  | byte (b : UInt8)
  | unit (u : Nat)
deriving DecidableEq

/-- How a quoted text ends, or what breaks it off. -/
inductive TextEnd where
  | closed
  | ended
  | badEscape
  | badHex
  | control
deriving DecidableEq

/-- A quoted text: its pieces, and how they end. -/
structure Quoted where
  pieces : List Piece
  ending : TextEnd
deriving DecidableEq

namespace Quoted

def hexDigit? (b : UInt8) : Option Nat :=
  let n := b.toNat
  if 48 ≤ n ∧ n ≤ 57 then some (n - 48)
  else if 97 ≤ n ∧ n ≤ 102 then some (n - 87)
  else if 65 ≤ n ∧ n ≤ 70 then some (n - 55)
  else none

/-- The unit that four hexadecimal digits give. -/
def unit? (a b c d : UInt8) : Option Nat := do
  let a ← hexDigit? a
  let b ← hexDigit? b
  let c ← hexDigit? c
  let d ← hexDigit? d
  return ((a * 16 + b) * 16 + c) * 16 + d

/-- The byte that a letter after a backslash stands for. -/
def escaped? (b : UInt8) : Option UInt8 :=
  if b == ascii '"' || b == ascii '\\' || b == ascii '/' then some b
  else if b == ascii 'b' then some 8
  else if b == ascii 'f' then some 12
  else if b == ascii 'n' then some 10
  else if b == ascii 'r' then some 13
  else if b == ascii 't' then some 9
  else none

def push (piece : Piece) (rest : Quoted × List UInt8) : Quoted × List UInt8 :=
  (⟨piece :: rest.1.pieces, rest.1.ending⟩, rest.2)

/-- Takes a quoted text whose opening quote has been read. Nothing is left after one that breaks
off. -/
def scan : List UInt8 → Quoted × List UInt8
  | [] => (⟨[], .ended⟩, [])
  | b :: rest =>
    if b == ascii '"' then (⟨[], .closed⟩, rest)
    else if b == ascii '\\' then
      match rest with
      | [] => (⟨[], .ended⟩, [])
      | e :: rest =>
        match escaped? e with
        | some c => push (.byte c) (scan rest)
        | none =>
          if e == ascii 'u' then
            match rest with
            | h₁ :: h₂ :: h₃ :: h₄ :: rest =>
              match unit? h₁ h₂ h₃ h₄ with
              | some u => push (.unit u) (scan rest)
              | none => (⟨[], .badHex⟩, [])
            | _ => (⟨[], .ended⟩, [])
          else (⟨[], .badEscape⟩, [])
    else if b < 32 then (⟨[], .control⟩, [])
    else push (.byte b) (scan rest)

theorem scan_length (bytes : List UInt8) : (scan bytes).2.length ≤ bytes.length := by
  fun_induction scan bytes <;> simp_all [push] <;> omega

end Quoted

/-- The fault of a text that is broken off. -/
def TextEnd.check : TextEnd → Except Fault Unit
  | closed => .ok ()
  | ended => .error .endInText
  | badEscape | badHex => .error .badEscape
  | control => .error .controlCharacter

namespace Quoted

/-- Checks a text that is passed over: its units need not make up characters. -/
def check (q : Quoted) : Except Fault Unit := q.ending.check

def isLeading (u : Nat) : Bool := 0xD800 ≤ u && u < 0xDC00

def isTrailing (u : Nat) : Bool := 0xDC00 ≤ u && u < 0xE000

/-- The character that two units make up. -/
def pair (u v : Nat) : Char := Char.ofNat (0x10000 + (u - 0xD800) * 0x400 + (v - 0xDC00))

/-- What stands in the way of the second half of a pair at the end of the pieces. -/
def pairFault : TextEnd → Fault
  | .ended => .endInText
  | .badHex => .badEscape
  | .closed | .badEscape | .control => .unfinishedPair

/-- The bytes that some pieces spell. A unit from the range of halves counts only with the other
half after it. -/
def bytes (ending : TextEnd) : List Piece → Except Fault (List UInt8)
  | [] => do
    ending.check
    return []
  | .byte b :: rest => do
    let after ← bytes ending rest
    return b :: after
  | .unit u :: rest =>
    if isTrailing u then .error .loneSurrogate
    else if isLeading u then
      match rest with
      | .unit v :: rest =>
        if isTrailing v then do
          let after ← bytes ending rest
          return String.utf8EncodeChar (pair u v) ++ after
        else .error .loneSurrogate
      | .byte _ :: _ => .error .unfinishedPair
      | [] => .error (pairFault ending)
    else do
      let after ← bytes ending rest
      return String.utf8EncodeChar (Char.ofNat u) ++ after

/-- The text that is spelled, if its bytes spell one. -/
def text (q : Quoted) : Except Fault String := do
  let spelled ← bytes q.ending q.pieces
  match Utf8.decode? spelled with
  | some s => return s
  | none => .error .notUnicode

end Quoted

end AttributeReview.Json
