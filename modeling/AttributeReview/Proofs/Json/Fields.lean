import AttributeReview.Json.Fields
import AttributeReview.Proofs.Json.Document

/-!
# Reading what was written

Texts, numbers, lists and records are read back from the trees of their written values. A record is
read from its fields in any order.
-/

namespace AttributeReview.Json

theorem openBracket_read {depth : Nat} (h : depth < depthLimit) :
    openBracket .read depth = .ok () := by
  rw [openBracket, if_neg]
  rintro ⟨-, hle⟩
  omega

namespace Written

/-! ## Values -/

theorem read_text (s : String) : (Written.text s).node.text = .ok s := by
  rw [node, Node.text, Node.found, Quoted.text_ofText]
  rfl

theorem read_number {n : Number} (h : ∀ x, n ≠ .float x) :
    (Written.number n).node.found = .ok (.number n) := by
  rw [node, Node.found, Numeral.read, Number.number?_numeral h]
  rfl

theorem read_natural (n : UInt64) : (Written.number (.natural n)).node.natural = .ok n := by
  rw [Node.natural, read_number (by rintro x ⟨⟩)]
  rfl

variable {α : Type} {read : Nat → Node → Except Fault α} {depth : Nat} {written : α → Written}

theorem itemsWith_map {as : List α} (h : ∀ a ∈ as, read depth (written a).node = .ok a) :
    Node.itemsWith (read depth) (nodes (as.map written)) = .ok as := by
  induction as with
  | nil => rfl
  | cons a as ih =>
    rw [List.map_cons, nodes, Node.itemsWith, h a List.mem_cons_self,
      ih fun x hx => h x (List.mem_cons_of_mem a hx)]
    rfl

theorem read_list (hdepth : depth < depthLimit) {as : List α}
    (h : ∀ a ∈ as, read (depth + 1) (written a).node = .ok a) :
    Node.items read depth (Written.list (as.map written)).node = .ok as := by
  rw [node, Node.items, openBracket_read hdepth, itemsWith_map h]
  rfl

theorem entriesWith_map {as : List (String × α)}
    (h : ∀ a ∈ as, read depth (written a.2).node = .ok a.2) :
    Node.entriesWith (read depth) (fieldNodes (as.map fun a => (a.1, written a.2))) = .ok as := by
  induction as with
  | nil => rfl
  | cons a as ih =>
    rw [List.map_cons, fieldNodes, Node.entriesWith, Quoted.text_ofText, h a List.mem_cons_self,
      ih fun x hx => h x (List.mem_cons_of_mem a hx)]
    rfl

theorem read_map (hdepth : depth < depthLimit) {as : List (String × α)}
    (h : ∀ a ∈ as, read (depth + 1) (written a.2).node = .ok a.2) :
    Node.entries read depth (Written.record (as.map fun a => (a.1, written a.2))).node =
      .ok as := by
  rw [node, Node.entries, openBracket_read hdepth, entriesWith_map h]
  rfl

end Written

namespace Layout

/-! ## Records -/

variable {δ : Type} {layout : Layout δ} {depth : Nat}

/-- A field of a record: its name, what is written in it and the part that is read from that. -/
structure Entry (δ : Type) where
  name : String
  value : Written
  part : δ

/-- The record has a field of that name, and in it the part is read. -/
def Entry.Reads (layout : Layout δ) (depth : Nat) (e : Entry δ) : Prop :=
  ∃ read, layout.reader? e.name = some read ∧ read depth e.value.node = .ok e.part

theorem Entry.reads_of {α : Type} {wrap : α → δ} {read : Nat → Node → Except Fault α}
    {name : String} {value : Written} {a : α}
    (hreader : layout.reader? name = some fun depth node => wrap <$> read depth node)
    (hvalue : read depth value.node = .ok a) : Entry.Reads layout depth ⟨name, value, wrap a⟩ := by
  refine ⟨_, hreader, ?_⟩
  simp only [hvalue]
  rfl

theorem ofFields_entries {entries : List (Entry δ)} {seen : List String}
    (hread : ∀ e ∈ entries, e.Reads layout depth) (hnodup : (entries.map Entry.name).Nodup)
    (hseen : ∀ e ∈ entries, e.name ∉ seen) :
    layout.ofFields depth seen
        (Written.fieldNodes (entries.map fun e => (e.name, e.value))) =
      (entries.map Entry.part, .ok ()) := by
  induction entries generalizing seen with
  | nil => rfl
  | cons e entries ih =>
    obtain ⟨read, hreader, hpart⟩ := hread e List.mem_cons_self
    rw [List.map_cons, List.nodup_cons] at hnodup
    have hnew : seen.contains e.name = false := by
      simpa using hseen e List.mem_cons_self
    have hlater : ∀ x ∈ entries, x.name ∉ e.name :: seen := by
      intro x hx
      rw [List.mem_cons, not_or]
      refine ⟨?_, hseen x (List.mem_cons_of_mem e hx)⟩
      intro heq
      exact hnodup.1 (heq ▸ List.mem_map_of_mem hx)
    have hrest := ih (fun x hx => hread x (List.mem_cons_of_mem e hx)) hnodup.2 hlater
    rw [List.map_cons, Written.fieldNodes, ofFields, Quoted.text_ofText]
    simp only [hreader, hnew, hpart, hrest, Bool.false_eq_true, if_false, List.map_cons]

theorem parts_record {entries : List (Entry δ)} (hdepth : depth < depthLimit)
    (hread : ∀ e ∈ entries, e.Reads layout (depth + 1))
    (hnodup : (entries.map Entry.name).Nodup) :
    layout.parts depth (Written.record (entries.map fun e => (e.name, e.value))).node =
      ⟨entries.map Entry.part, .ok .record⟩ := by
  have hfields := ofFields_entries hread hnodup fun e _ => List.not_mem_nil
  rw [Written.node, parts, openBracket_read hdepth]
  simp only [hfields]
  rfl

end Layout

end AttributeReview.Json
