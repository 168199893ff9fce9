import AttributeReview.Proofs.Review.Report

/-!
# Reports that are written whole

A report goes into an empty sink whole or not at all: with or without a buffer in front of the sink,
either the sink holds the whole text of the report, or a fault is told.
-/

namespace AttributeReview.Report

open Sink (Fits)

variable (r : Report) {s : Sink}

theorem join_pieces : String.join (r.written.pieces 0) = r.document := rfl

theorem writeBuffered_of_ok {b : Buffered} (hzero : s.hasRoom 0 = true)
    (h : (Buffered.ofSink s).writeAll (r.written.pieces 0) = .ok b) :
    r.writeBuffered s =
      (if s.hasRoom r.document.utf8ByteSize then (s.taking r.document).flush
        else .error .full).mapError .notFlushed := by
  have hflush := Buffered.sink_flush_writeAll hzero h
  rw [Buffered.whole_ofSink, r.join_pieces] at hflush
  rw [← hflush, writeBuffered, h, mapError_ok, ok_bind]
  cases b.flush <;> rfl

theorem writeBuffered_of_room (h : s.hasRoom r.document.utf8ByteSize = true) :
    r.writeBuffered s = (s.taking r.document).flush.mapError .notFlushed := by
  cases hwrite : (Buffered.ofSink s).writeAll (r.written.pieces 0) with
  | error fault =>
    obtain ⟨-, hroom⟩ := Buffered.writeAll_eq_error hwrite
    rw [Buffered.whole_ofSink, r.join_pieces, h] at hroom
    cases hroom
  | ok b =>
    have hzero := Sink.hasRoom_of_le (Nat.zero_le _) h
    rw [r.writeBuffered_of_ok hzero hwrite, if_pos h]

/-- A report that has no room in the sink is refused while it is written, or by the flush, as the
pieces come to fill the buffer. -/
theorem writeBuffered_of_no_room (hzero : s.hasRoom 0 = true)
    (h : s.hasRoom r.document.utf8ByteSize = false) :
    r.writeBuffered s = .error (.notWritten .full) ∨
      r.writeBuffered s = .error (.notFlushed .full) := by
  cases hwrite : (Buffered.ofSink s).writeAll (r.written.pieces 0) with
  | error fault =>
    obtain ⟨rfl, -⟩ := Buffered.writeAll_eq_error hwrite
    left
    rw [writeBuffered, hwrite]
    rfl
  | ok b =>
    right
    rw [r.writeBuffered_of_ok hzero hwrite, if_neg (by simp [h])]
    rfl

theorem writeAll_of_small (h : r.document.utf8ByteSize ≤ Buffered.capacity) :
    (Buffered.ofSink s).writeAll (r.written.pieces 0) = .ok ⟨s, r.document⟩ := by
  obtain ⟨rest, hrest⟩ : ∃ rest, r.written.pieces 0 = "\x7b" :: rest := ⟨_, rfl⟩
  have hfirst : (Buffered.ofSink s).write "\x7b" = .ok ⟨s, "\x7b"⟩ := rfl
  have hwaiting : 0 < "\x7b".utf8ByteSize := by decide
  rw [← r.join_pieces, hrest, String.join_cons, String.utf8ByteSize_append] at h
  rw [← r.join_pieces, hrest, Buffered.writeAll, hfirst, ok_bind, String.join_cons]
  exact Buffered.writeAll_waiting hwaiting h

theorem writeBuffered_of_small (hzero : s.hasRoom 0 = true)
    (h : s.hasRoom r.document.utf8ByteSize = false)
    (hsmall : r.document.utf8ByteSize ≤ Buffered.capacity) :
    r.writeBuffered s = .error (.notFlushed .full) := by
  rw [r.writeBuffered_of_ok hzero (r.writeAll_of_small hsmall), if_neg (by simp [h])]
  rfl

/-- A text is written whole: there is no fault exactly if it fits and the sink can be flushed, and
then the sink holds the text and nothing else. A text that fits is refused only by the flush. -/
structure WritesWhole (write : Sink → Except OutputFault Sink) (text : String) : Prop where
  eq_ok_iff : ∀ limit flushes s, write ⟨limit, flushes, ""⟩ = .ok s ↔
    Fits limit text ∧ flushes = true ∧ s = ⟨limit, flushes, text⟩
  flush_refused : ∀ limit, Fits limit text →
    write ⟨limit, false, ""⟩ = .error (.notFlushed .flushRefused)

theorem WritesWhole.of_flush {write : Sink → Except OutputFault Sink} {text : String}
    (hroom : ∀ {s}, s.hasRoom text.utf8ByteSize = true →
      write s = (s.taking text).flush.mapError .notFlushed)
    (hfull : ∀ {s}, s.hasRoom 0 = true → s.hasRoom text.utf8ByteSize = false →
      ∃ fault, write s = .error fault) :
    WritesWhole write text := by
  have hfits {limit : Option Nat} (flushes : Bool) (h : Fits limit text) :
      write ⟨limit, flushes, ""⟩ = (Sink.mk limit flushes text).flush.mapError .notFlushed := by
    rw [hroom ((Sink.hasRoom_empty_iff limit flushes text).mpr h), Sink.taking, String.empty_append]
  constructor
  · intro limit flushes s
    by_cases h : Fits limit text
    · rw [hfits flushes h, mapError_eq_ok_iff]
      cases flushes <;> simp [h, Sink.flush, eq_comm]
    · obtain ⟨fault, hfault⟩ := hfull (Sink.hasRoom_zero_empty limit flushes)
        (Sink.no_room_empty flushes h)
      simp [h, hfault]
  · intro limit h
    rw [hfits false h]
    rfl

/-- **No part for the whole.** With or without a buffer, a report is written without a fault exactly
if its whole text goes into the sink and the sink can be flushed, and then the sink holds that text.
The fault says why it was not written, and whether the writing or the flush told so. -/
theorem written_whole_or_refused (r : Report) :
    WritesWhole r.writeTo r.document ∧ WritesWhole r.writeBuffered r.document ∧
      ∀ limit flushes, ¬ Fits limit r.document →
        r.writeTo ⟨limit, flushes, ""⟩ = .error (.notWritten .full) ∧
        (r.document.utf8ByteSize ≤ Buffered.capacity →
          r.writeBuffered ⟨limit, flushes, ""⟩ = .error (.notFlushed .full)) := by
  refine ⟨.of_flush ?_ ?_, .of_flush ?_ ?_, ?_⟩
  · intro s h
    rw [writeTo_eq r (Sink.hasRoom_of_le (Nat.zero_le _) h), if_pos h]
  · intro s hzero h
    refine ⟨.notWritten .full, ?_⟩
    rw [writeTo_eq r hzero, if_neg (by simp [h])]
  · exact r.writeBuffered_of_room
  · intro s hzero h
    rcases r.writeBuffered_of_no_room hzero h with hfault | hfault
    · exact ⟨_, hfault⟩
    · exact ⟨_, hfault⟩
  · intro limit flushes h
    have hzero := Sink.hasRoom_zero_empty limit flushes
    have hfull := Sink.no_room_empty flushes h
    refine ⟨?_, r.writeBuffered_of_small hzero hfull⟩
    rw [writeTo_eq r hzero, if_neg (by simp [hfull])]

end AttributeReview.Report
