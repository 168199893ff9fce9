import AttributeReview.Proofs.Json.Fields
import AttributeReview.Proofs.Review.Sink
import AttributeReview.Review.Storage

/-!
# Reports that are written and read

A report is read back from what is written, field by field.
-/

namespace AttributeReview

open Json (Document Layout Node Written depthLimit)

variable {depth : Nat}

/-! ## Identities -/

namespace Identity

def entries (k : Identity) : List (Layout.Entry Part) := [
  ⟨"type", .text k.type, .type k.type⟩,
  ⟨"id", .number (.natural k.id), .id k.id⟩]

theorem reads_entries (k : Identity) : ∀ e ∈ k.entries, e.Reads layout depth := by
  intro e he
  simp only [entries, List.mem_cons, List.not_mem_nil, or_false] at he
  rcases he with rfl | rfl
  · exact Layout.Entry.reads_of rfl (Written.read_text _)
  · exact Layout.Entry.reads_of rfl (Written.read_natural _)

theorem read_written (k : Identity) (h : depth < depthLimit) :
    read depth k.written.node = .ok k := by
  have hparts := Layout.parts_record h k.reads_entries (by simp [entries])
  rw [read, show k.written = .record (k.entries.map fun e => (e.name, e.value)) from rfl, hparts]
  rfl

end Identity

/-! ## Rows -/

namespace Row

def entries (r : Row) : List (Layout.Entry Part) := [
  ⟨"attrName", .text r.title, .title r.title⟩,
  ⟨"currentVal", .list (r.current.map .text), .current r.current⟩,
  ⟨"modifiedVal", .list (r.proposed.map .text), .proposed r.proposed⟩]

theorem readTexts_written (texts : List String) (h : depth < depthLimit) :
    readTexts depth (Written.list (texts.map .text)).node = .ok texts :=
  Written.read_list h fun s _ => Written.read_text s

theorem reads_entries (r : Row) (h : depth < depthLimit) :
    ∀ e ∈ r.entries, e.Reads layout depth := by
  intro e he
  simp only [entries, List.mem_cons, List.not_mem_nil, or_false] at he
  rcases he with rfl | rfl | rfl
  · exact Layout.Entry.reads_of rfl (Written.read_text _)
  · exact Layout.Entry.reads_of rfl (readTexts_written _ h)
  · exact Layout.Entry.reads_of rfl (readTexts_written _ h)

theorem read_written (r : Row) (h : depth + 1 < depthLimit) :
    read depth r.written.node = .ok r := by
  have hparts := Layout.parts_record (Nat.lt_of_succ_lt h) (r.reads_entries h) (by simp [entries])
  rw [read, show r.written = .record (r.entries.map fun e => (e.name, e.value)) from rfl, hparts]
  rfl

end Row

/-! ## Reports -/

namespace Report

def entries (r : Report) : List (Layout.Entry Part) := [
  ⟨"version", .text r.version, .version r.version⟩,
  ⟨"generated_at", .text r.generatedAt, .generatedAt r.generatedAt⟩,
  ⟨"instance", r.identity.written, .identity r.identity⟩,
  ⟨"diff", .list (r.rows.map Row.written), .rows r.rows⟩]

theorem reads_entries (r : Report) (h : depth + 2 < depthLimit) :
    ∀ e ∈ r.entries, e.Reads layout depth := by
  have hrows : Node.items Row.read depth (Written.list (r.rows.map Row.written)).node =
      .ok r.rows :=
    Written.read_list (by omega) fun row _ => row.read_written h
  intro e he
  simp only [entries, List.mem_cons, List.not_mem_nil, or_false] at he
  rcases he with rfl | rfl | rfl | rfl
  · exact Layout.Entry.reads_of rfl (Written.read_text _)
  · exact Layout.Entry.reads_of rfl (Written.read_text _)
  · exact Layout.Entry.reads_of rfl (r.identity.read_written (by omega))
  · exact Layout.Entry.reads_of rfl hrows

theorem read_written (r : Report) (h : depth + 3 < depthLimit) :
    read depth r.written.node = .ok r := by
  have hparts := Layout.parts_record (by omega) (r.reads_entries h) (by simp [entries])
  rw [read, show r.written = .record (r.entries.map fun e => (e.name, e.value)) from rfl, hparts]
  rfl

theorem read_document (r : Report) :
    (Document.ofBytes (Utf8.encode r.document)).read read = .ok r := by
  rw [document, Written.ofBytes_pretty, Document.read, Document.whole,
    r.read_written (by decide)]
  rfl

/-! ## Writing -/

theorem writeTo_eq (r : Report) {s : Sink} (h : s.hasRoom 0 = true) :
    r.writeTo s =
      if s.hasRoom r.document.utf8ByteSize then
        (s.taking r.document).flush.mapError .notFlushed
      else .error (.notWritten .full) := by
  rw [writeTo, Sink.writeAll_eq h, document, Written.pretty]
  split <;> rfl

theorem content_of_writeTo {r : Report} {limit : Option Nat} {flushes : Bool} {s : Sink}
    (h : r.writeTo ⟨limit, flushes, ""⟩ = .ok s) : s.content = r.document := by
  rw [writeTo_eq r (Sink.hasRoom_zero_empty limit flushes)] at h
  split at h
  · cases flushes with
    | true =>
      cases h
      exact String.empty_append
    | false => cases h
  · cases h

/-- **Round trip.** A report can be written, and what an empty sink holds after a report has been
written to it is read as that report, whatever its texts, its id and its rows are. -/
theorem written_is_read (r : Report) :
    (∃ s, r.writeTo ⟨none, true, ""⟩ = .ok s) ∧
      ∀ limit flushes s, r.writeTo ⟨limit, flushes, ""⟩ = .ok s →
        (Document.ofBytes (Utf8.encode s.content)).read read = .ok r := by
  refine ⟨?_, fun limit flushes s h => ?_⟩
  · rw [writeTo_eq r rfl, Sink.hasRoom, if_pos rfl]
    exact ⟨_, rfl⟩
  · rw [content_of_writeTo h]
    exact r.read_document

end Report

end AttributeReview
