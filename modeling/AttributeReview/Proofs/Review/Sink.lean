import AttributeReview.Proofs.Outcome
import AttributeReview.Review.Sink

/-!
# Writing to a sink

Pieces are written as if they were one text: a sink takes all of them, or says that it is full. With
a buffer in front of it a sink takes the same text, if it has room for it; if it has none, the last
flush says so at the latest.
-/

namespace AttributeReview

namespace Sink

variable {s s' : Sink} {limit : Option Nat} {text : String}

/-- The sink with a text behind what it has taken. -/
def taking (s : Sink) (text : String) : Sink := { s with content := s.content ++ text }

theorem taking_empty (s : Sink) : s.taking "" = s := by
  rw [taking, String.append_empty]

theorem taking_append (s : Sink) (text more : String) :
    (s.taking text).taking more = s.taking (text ++ more) := by
  rw [taking, taking, taking, String.append_assoc]

theorem hasRoom_taking (s : Sink) (text : String) (size : Nat) :
    (s.taking text).hasRoom size = s.hasRoom (text.utf8ByteSize + size) := by
  rw [hasRoom, hasRoom, taking, String.utf8ByteSize_append, Nat.add_assoc]

theorem hasRoom_of_le {m n : Nat} (hle : m ≤ n) (h : s.hasRoom n = true) : s.hasRoom m = true := by
  unfold hasRoom at *
  split at *
  · rfl
  · rw [decide_eq_true_eq] at *
    omega

theorem hasRoom_false_of_le {m n : Nat} (hle : m ≤ n) (h : s.hasRoom m = false) :
    s.hasRoom n = false := by
  rw [← Bool.not_eq_true] at *
  exact mt (hasRoom_of_le hle) h

theorem write_eq (s : Sink) (piece : String) :
    s.write piece = if s.hasRoom piece.utf8ByteSize then .ok (s.taking piece) else .error .full :=
  rfl

theorem writeAll_eq (h : s.hasRoom 0 = true) (pieces : List String) :
    s.writeAll pieces =
      if s.hasRoom (String.join pieces).utf8ByteSize then .ok (s.taking (String.join pieces))
      else .error .full := by
  induction pieces generalizing s with
  | nil =>
    rw [String.join_nil, taking_empty, String.utf8ByteSize_empty, if_pos h]
    rfl
  | cons piece rest ih =>
    rw [String.join_cons, String.utf8ByteSize_append, ← hasRoom_taking, ← taking_append, writeAll,
      write_eq]
    by_cases hroom : s.hasRoom piece.utf8ByteSize = true
    · have hzero : (s.taking piece).hasRoom 0 = true := by rw [hasRoom_taking]; exact hroom
      rw [if_pos hroom]
      exact ih hzero
    · have hnone : ¬ (s.taking piece).hasRoom (String.join rest).utf8ByteSize = true := by
        rw [hasRoom_taking]
        exact fun hall => hroom (hasRoom_of_le (Nat.le_add_right _ _) hall)
      rw [if_neg hroom, if_neg hnone]
      rfl

theorem hasRoom_of_write (h : s.write text = .ok s') : s'.hasRoom 0 = true := by
  rw [write_eq] at h
  split at h
  next hroom =>
    cases h
    rwa [hasRoom_taking]
  next => cases h

/-! ## Empty sinks -/

/-- A text goes into an empty sink with the limit. -/
def Fits (limit : Option Nat) (text : String) : Prop := ∀ n, limit = some n → text.utf8ByteSize ≤ n

theorem hasRoom_empty_iff (limit : Option Nat) (flushes : Bool) (text : String) :
    (Sink.mk limit flushes "").hasRoom text.utf8ByteSize = true ↔ Fits limit text := by
  cases limit <;> simp [hasRoom, Fits]

theorem no_room_empty (flushes : Bool) (h : ¬ Fits limit text) :
    (Sink.mk limit flushes "").hasRoom text.utf8ByteSize = false :=
  Bool.eq_false_iff.mpr (mt (hasRoom_empty_iff limit flushes text).mp h)

theorem hasRoom_zero_empty (limit : Option Nat) (flushes : Bool) :
    (Sink.mk limit flushes "").hasRoom 0 = true := by
  cases limit <;> simp [hasRoom]

end Sink

/-! ## A buffer in front of a sink -/

namespace Buffered

variable {b b' : Buffered} {piece : String} {pieces : List String} {fault : Sink.Fault}

/-- The sink as it is once it has taken what waits too. -/
def whole (b : Buffered) : Sink := b.sink.taking b.waiting

theorem whole_ofSink (s : Sink) : (ofSink s).whole = s := s.taking_empty

theorem drain_eq_ok (h : b.drain = .ok b') : b' = ⟨b.whole, ""⟩ := by
  unfold drain at h
  split at h
  next hempty =>
    cases h
    obtain ⟨sink, waiting⟩ := b
    obtain rfl : waiting = "" := by simpa using hempty
    rw [whole, Sink.taking_empty]
  next =>
    rw [bind_eq_ok_iff] at h
    obtain ⟨sink, hwrite, ⟨⟩⟩ := h
    rw [Sink.write_eq] at hwrite
    split at hwrite
    · cases hwrite
      rfl
    · cases hwrite

theorem drain_eq_error (h : b.drain = .error fault) :
    fault = .full ∧ b.sink.hasRoom b.waiting.utf8ByteSize = false := by
  unfold drain at h
  split at h
  · cases h
  · rw [bind_eq_error_iff] at h
    obtain hwrite | ⟨sink, -, ⟨⟩⟩ := h
    rw [Sink.write_eq] at hwrite
    split at hwrite
    · cases hwrite
    next hroom =>
      cases hwrite
      exact ⟨rfl, by simpa using hroom⟩

/-- Hands on what waits, unless the piece still has a place behind it. -/
def makeRoom (b : Buffered) (piece : String) : Except Sink.Fault Buffered :=
  if capacity < b.waiting.utf8ByteSize + piece.utf8ByteSize then b.drain else .ok b

/-- Keeps a piece, or hands it on if it is as large as the buffer. -/
def place (b : Buffered) (piece : String) : Except Sink.Fault Buffered :=
  if capacity ≤ piece.utf8ByteSize then do
    let sink ← b.sink.write piece
    return { b with sink := sink }
  else return { b with waiting := b.waiting ++ piece }

theorem write_eq (b : Buffered) (piece : String) :
    b.write piece =
      if b.waiting.utf8ByteSize + piece.utf8ByteSize ≤ capacity ∧ piece.utf8ByteSize < capacity then
        .ok { b with waiting := b.waiting ++ piece }
      else b.makeRoom piece >>= fun ready => ready.place piece := by
  unfold write makeRoom
  split
  · rfl
  · by_cases hfull : capacity < b.waiting.utf8ByteSize + piece.utf8ByteSize
    · simp only [if_pos hfull]
      rfl
    · simp only [if_neg hfull]
      rfl

/-- A buffer with room for a piece stands for the same sink as before, and nothing waits in it that
would have to come before a piece as large as itself. -/
theorem makeRoom_eq_ok (h : b.makeRoom piece = .ok b') :
    b'.whole = b.whole ∧ (capacity ≤ piece.utf8ByteSize → b'.waiting = "") := by
  unfold makeRoom at h
  split at h
  · rw [drain_eq_ok h]
    exact ⟨Sink.taking_empty _, fun _ => rfl⟩
  next hfits =>
    cases h
    refine ⟨rfl, fun hlarge => ?_⟩
    have hnone : b.waiting.utf8ByteSize = 0 := by omega
    exact String.utf8ByteSize_eq_zero_iff.mp hnone

theorem place_eq_ok (hwaiting : capacity ≤ piece.utf8ByteSize → b.waiting = "")
    (h : b.place piece = .ok b') : b'.whole = b.whole.taking piece := by
  unfold place at h
  split at h
  next hlarge =>
    rw [bind_eq_ok_iff] at h
    obtain ⟨sink, hwrite, ⟨⟩⟩ := h
    rw [Sink.write_eq] at hwrite
    split at hwrite
    · cases hwrite
      simp only [whole, hwaiting hlarge, Sink.taking_empty]
    · cases hwrite
  next =>
    cases h
    exact (Sink.taking_append _ _ _).symm

theorem place_eq_error (hwaiting : capacity ≤ piece.utf8ByteSize → b.waiting = "")
    (h : b.place piece = .error fault) :
    fault = .full ∧ b.whole.hasRoom piece.utf8ByteSize = false := by
  unfold place at h
  split at h
  next hlarge =>
    rw [bind_eq_error_iff] at h
    obtain hwrite | ⟨sink, -, ⟨⟩⟩ := h
    rw [Sink.write_eq] at hwrite
    split at hwrite
    · cases hwrite
    next hroom =>
      cases hwrite
      rw [whole, hwaiting hlarge, Sink.taking_empty]
      exact ⟨rfl, by simpa using hroom⟩
  next => cases h

theorem write_eq_ok (h : b.write piece = .ok b') : b'.whole = b.whole.taking piece := by
  rw [write_eq] at h
  split at h
  · cases h
    exact (Sink.taking_append _ _ _).symm
  · rw [bind_eq_ok_iff] at h
    obtain ⟨ready, hready, hplace⟩ := h
    obtain ⟨hwhole, hwaiting⟩ := makeRoom_eq_ok hready
    rw [← hwhole, place_eq_ok hwaiting hplace]

theorem write_eq_error (h : b.write piece = .error fault) :
    fault = .full ∧ b.whole.hasRoom piece.utf8ByteSize = false := by
  rw [write_eq] at h
  split at h
  · cases h
  · rw [bind_eq_error_iff] at h
    obtain hready | ⟨ready, hready, hplace⟩ := h
    · unfold makeRoom at hready
      split at hready
      · obtain ⟨hfull, hroom⟩ := drain_eq_error hready
        rw [whole, Sink.hasRoom_taking]
        exact ⟨hfull, Sink.hasRoom_false_of_le (Nat.le_add_right _ _) hroom⟩
      · cases hready
    · obtain ⟨hwhole, hwaiting⟩ := makeRoom_eq_ok hready
      rw [← hwhole]
      exact place_eq_error hwaiting hplace

theorem writeAll_eq_ok (h : b.writeAll pieces = .ok b') :
    b'.whole = b.whole.taking (String.join pieces) := by
  induction pieces generalizing b with
  | nil =>
    cases h
    rw [String.join_nil, Sink.taking_empty]
  | cons piece rest ih =>
    unfold writeAll at h
    rw [bind_eq_ok_iff] at h
    obtain ⟨next, hnext, hrest⟩ := h
    rw [ih hrest, write_eq_ok hnext, Sink.taking_append, String.join_cons]

theorem writeAll_eq_error (h : b.writeAll pieces = .error fault) :
    fault = .full ∧ b.whole.hasRoom (String.join pieces).utf8ByteSize = false := by
  induction pieces generalizing b with
  | nil => cases h
  | cons piece rest ih =>
    unfold writeAll at h
    rw [bind_eq_error_iff] at h
    rw [String.join_cons, String.utf8ByteSize_append]
    obtain hfirst | ⟨next, hnext, hrest⟩ := h
    · obtain ⟨hfull, hroom⟩ := write_eq_error hfirst
      exact ⟨hfull, Sink.hasRoom_false_of_le (Nat.le_add_right _ _) hroom⟩
    · obtain ⟨hfull, hroom⟩ := ih hrest
      rw [write_eq_ok hnext, Sink.hasRoom_taking] at hroom
      exact ⟨hfull, hroom⟩

/-! ## Room behind a buffer -/

theorem drain_eq (h : b.sink.hasRoom 0 = true) :
    b.drain = if b.whole.hasRoom 0 then .ok ⟨b.whole, ""⟩ else .error .full := by
  unfold drain
  split
  next hempty =>
    obtain ⟨sink, waiting⟩ := b
    obtain rfl : waiting = "" := by simpa using hempty
    rw [whole, Sink.taking_empty, if_pos h]
  next =>
    rw [Sink.write_eq, whole, Sink.hasRoom_taking, Nat.add_zero]
    split <;> rfl

theorem sink_flush (h : b.sink.hasRoom 0 = true) :
    b.flush.map Buffered.sink = if b.whole.hasRoom 0 then b.whole.flush else .error .full := by
  unfold flush
  rw [drain_eq h]
  split
  · rw [ok_bind]
    cases b.whole.flush <;> rfl
  · rfl

theorem hasRoom_of_makeRoom (h : b.sink.hasRoom 0 = true) (hready : b.makeRoom piece = .ok b') :
    b'.sink.hasRoom 0 = true := by
  unfold makeRoom at hready
  split at hready
  · rw [drain_eq h] at hready
    split at hready
    next hroom =>
      cases hready
      exact hroom
    next => cases hready
  · cases hready
    exact h

theorem hasRoom_of_place (h : b.sink.hasRoom 0 = true) (hplace : b.place piece = .ok b') :
    b'.sink.hasRoom 0 = true := by
  unfold place at hplace
  split at hplace
  · rw [bind_eq_ok_iff] at hplace
    obtain ⟨sink, hwrite, ⟨⟩⟩ := hplace
    exact Sink.hasRoom_of_write hwrite
  · cases hplace
    exact h

theorem hasRoom_of_write (h : b.sink.hasRoom 0 = true) (hwrite : b.write piece = .ok b') :
    b'.sink.hasRoom 0 = true := by
  rw [write_eq] at hwrite
  split at hwrite
  · cases hwrite
    exact h
  · rw [bind_eq_ok_iff] at hwrite
    obtain ⟨ready, hready, hplace⟩ := hwrite
    exact hasRoom_of_place (hasRoom_of_makeRoom h hready) hplace

theorem hasRoom_of_writeAll (h : b.sink.hasRoom 0 = true) (hwrite : b.writeAll pieces = .ok b') :
    b'.sink.hasRoom 0 = true := by
  induction pieces generalizing b with
  | nil =>
    cases hwrite
    exact h
  | cons piece rest ih =>
    unfold writeAll at hwrite
    rw [bind_eq_ok_iff] at hwrite
    obtain ⟨next, hnext, hrest⟩ := hwrite
    exact ih (hasRoom_of_write h hnext) hrest

theorem sink_flush_writeAll (h : b.sink.hasRoom 0 = true) (hwrite : b.writeAll pieces = .ok b') :
    b'.flush.map Buffered.sink =
      if b.whole.hasRoom (String.join pieces).utf8ByteSize then
        (b.whole.taking (String.join pieces)).flush
      else .error .full := by
  rw [sink_flush (hasRoom_of_writeAll h hwrite), writeAll_eq_ok hwrite, Sink.hasRoom_taking,
    Nat.add_zero]

/-! ## Pieces that wait together -/

theorem writeAll_waiting (hwaiting : 0 < b.waiting.utf8ByteSize)
    (hsize : b.waiting.utf8ByteSize + (String.join pieces).utf8ByteSize ≤ capacity) :
    b.writeAll pieces = .ok { b with waiting := b.waiting ++ String.join pieces } := by
  induction pieces generalizing b with
  | nil =>
    rw [String.join_nil, String.append_empty]
    rfl
  | cons piece rest ih =>
    rw [String.join_cons, String.utf8ByteSize_append] at hsize
    have hkeep : b.write piece = .ok { b with waiting := b.waiting ++ piece } := by
      rw [write_eq, if_pos]
      omega
    unfold writeAll
    rw [hkeep, String.join_cons, ← String.append_assoc]
    refine ih ?_ ?_
    · rw [String.utf8ByteSize_append]
      omega
    · rw [String.utf8ByteSize_append]
      omega

end Buffered

end AttributeReview
