/-!
# Sinks

What a text is written to, piece by piece. A sink takes a piece whole or refuses it, and may refuse
to be flushed. A buffer in front of a sink hands the pieces on in larger ones.
-/

namespace AttributeReview

/-- A sink with what it has taken; with a limit it takes no piece that leads past it. -/
structure Sink where
  limit : Option Nat
  flushes : Bool
  content : String
deriving DecidableEq

namespace Sink

inductive Fault where
  | full
  | flushRefused
deriving DecidableEq

def Fault.message : Fault → String
  | full => "no space left on device"
  | flushRefused => "flush refused"

def hasRoom (s : Sink) (size : Nat) : Bool :=
  match s.limit with
  | none => true
  | some limit => s.content.utf8ByteSize + size ≤ limit

def write (s : Sink) (piece : String) : Except Fault Sink :=
  if s.hasRoom piece.utf8ByteSize then .ok { s with content := s.content ++ piece }
  else .error .full

/-- Writes some pieces up to the first one that is refused. -/
def writeAll (s : Sink) : List String → Except Fault Sink
  | [] => .ok s
  | piece :: rest => do
    let s ← s.write piece
    s.writeAll rest

def flush (s : Sink) : Except Fault Sink := if s.flushes then .ok s else .error .flushRefused

end Sink

/-- A sink with a buffer in front of it: what waits there has not been handed on. -/
structure Buffered where
  sink : Sink
  waiting : String
deriving DecidableEq

namespace Buffered

def capacity : Nat := 8192

def ofSink (s : Sink) : Buffered := ⟨s, ""⟩

/-- Hands on all that waits. -/
def drain (b : Buffered) : Except Sink.Fault Buffered :=
  if b.waiting.isEmpty then .ok b
  else do
    let sink ← b.sink.write b.waiting
    return ⟨sink, ""⟩

/-- Keeps a piece, after handing on what waits if there is no room for it. A piece as large as the
buffer goes straight to the sink. -/
def write (b : Buffered) (piece : String) : Except Sink.Fault Buffered :=
  if b.waiting.utf8ByteSize + piece.utf8ByteSize ≤ capacity ∧ piece.utf8ByteSize < capacity then
    .ok { b with waiting := b.waiting ++ piece }
  else do
    let b ← if capacity < b.waiting.utf8ByteSize + piece.utf8ByteSize then b.drain else .ok b
    if capacity ≤ piece.utf8ByteSize then
      let sink ← b.sink.write piece
      return { b with sink := sink }
    else return { b with waiting := b.waiting ++ piece }

def writeAll (b : Buffered) : List String → Except Sink.Fault Buffered
  | [] => .ok b
  | piece :: rest => do
    let b ← b.write piece
    b.writeAll rest

def flush (b : Buffered) : Except Sink.Fault Buffered := do
  let b ← b.drain
  let sink ← b.sink.flush
  return { b with sink := sink }

end Buffered

end AttributeReview
