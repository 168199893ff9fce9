import AttributeReview.Proofs.Json.Foreign
import AttributeReview.Proofs.Review.Inputs
import AttributeReview.Proofs.Review.Whole

/-!
# Documents with other fields

Instances, proposals and reports are read by the names of the fields, and so are the records inside
them: neither the order of the fields nor what else stands in a record changes what is read, and a
field that stands in a record twice is refused.
-/

namespace AttributeReview

open Attribute (Kind Value)
open Json (Document Fault Layout Node ReadsWellFormed Written)
open Json.Layout (Assembles ByName Inner InnerByName findSome?_perm)
open Json.Node (EachEntry EachItem SomeEntry SomeItem)

/-! ## Values -/

theorem Attribute.Kind.readsWellFormed : ReadsWellFormed Kind.read := by
  intro depth x kind h
  obtain ⟨name, hname, -⟩ := bind_eq_ok_iff.mp h
  exact Node.readsWellFormed_text depth x name hname

theorem Attribute.Value.readsWellFormed : ReadsWellFormed Value.read := by
  intro depth x value h
  obtain ⟨hcheck, -⟩ := bind_unit_eq_ok_iff.mp h
  exact Node.wellFormed_of_check hcheck

/-! ## Records without others in them -/

namespace Definition

def Part.field : Part → String
  | id _ => "id"
  | title _ => "title"
  | kind _ => "attribute_type"

theorem assembles : Assembles layout Part.field read where
  labels := by
    simp only [layout, List.forall_mem_cons]
    exact ⟨⟨_, .id, _, rfl, Node.readsWellFormed_natural, fun _ => rfl⟩,
      ⟨_, .title, _, rfl, Node.readsWellFormed_text, fun _ => rfl⟩,
      ⟨_, .kind, _, rfl, Kind.readsWellFormed, fun _ => rfl⟩, by simp⟩
  ending _ _ _ h := Layout.ending_of_bind h
  congr depth x y form ps qs hx hy hperm hnodup := by
    simp only [read, Layout.require, hx, hy]
    rw [findSome?_perm "id" _ hperm hnodup,
      findSome?_perm "title" _ hperm hnodup,
      findSome?_perm "attribute_type" _ hperm hnodup]
    all_goals rintro (_ | _ | _) <;> simp [Part.field]

theorem byName : ByName read (layout.Refielded []) (layout.Repeats []) :=
  assembles.byName (by simp [InnerByName])

end Definition

namespace CurrentValue

def Part.field : Part → String
  | id _ => "custom_attribute_id"
  | value _ => "attribute_value"

theorem assembles : Assembles layout Part.field read where
  labels := by
    simp only [layout, List.forall_mem_cons]
    exact ⟨⟨_, .id, _, rfl, Node.readsWellFormed_natural, fun _ => rfl⟩,
      ⟨_, .value, _, rfl, Node.readsWellFormed_optional Value.readsWellFormed, fun _ => rfl⟩,
      by simp⟩
  ending _ _ _ h := Layout.ending_of_bind h
  congr depth x y form ps qs hx hy hperm hnodup := by
    simp only [read, Layout.require, hx, hy]
    rw [findSome?_perm "custom_attribute_id" _ hperm hnodup,
      findSome?_perm "attribute_value" _ hperm hnodup]
    all_goals rintro (_ | _) <;> simp [Part.field]

theorem byName : ByName read (layout.Refielded []) (layout.Repeats []) :=
  assembles.byName (by simp [InnerByName])

end CurrentValue

namespace Change

def Part.field : Part → String
  | value _ => "attribute_value"

theorem assembles : Assembles layout Part.field read where
  labels := by
    simp only [layout, List.forall_mem_cons]
    exact ⟨⟨_, .value, _, rfl, Node.readsWellFormed_optional Value.readsWellFormed, fun _ => rfl⟩,
      by simp⟩
  ending _ _ _ h := Layout.ending_of_bind h
  congr depth x y form ps qs hx hy hperm hnodup := by
    simp only [read, hx, hy]
    rw [findSome?_perm "attribute_value" _ hperm hnodup]
    rintro ⟨_⟩
    simp [Part.field]

theorem byName : ByName read (layout.Refielded []) (layout.Repeats []) :=
  assembles.byName (by simp [InnerByName])

end Change

namespace Identity

def Part.field : Part → String
  | type _ => "type"
  | id _ => "id"

theorem assembles : Assembles layout Part.field read where
  labels := by
    simp only [layout, List.forall_mem_cons]
    exact ⟨⟨_, .type, _, rfl, Node.readsWellFormed_text, fun _ => rfl⟩,
      ⟨_, .id, _, rfl, Node.readsWellFormed_natural, fun _ => rfl⟩, by simp⟩
  ending _ _ _ h := Layout.ending_of_bind h
  congr depth x y form ps qs hx hy hperm hnodup := by
    simp only [read, Layout.require, hx, hy]
    rw [findSome?_perm "type" _ hperm hnodup,
      findSome?_perm "id" _ hperm hnodup]
    all_goals rintro (_ | _) <;> simp [Part.field]

theorem byName : ByName read (layout.Refielded []) (layout.Repeats []) :=
  assembles.byName (by simp [InnerByName])

end Identity

namespace Row

def Part.field : Part → String
  | title _ => "attrName"
  | current _ => "currentVal"
  | proposed _ => "modifiedVal"

theorem readsWellFormed_readTexts : ReadsWellFormed readTexts :=
  Node.readsWellFormed_items Node.readsWellFormed_text

theorem assembles : Assembles layout Part.field read where
  labels := by
    simp only [layout, List.forall_mem_cons]
    exact ⟨⟨_, .title, _, rfl, Node.readsWellFormed_text, fun _ => rfl⟩,
      ⟨_, .current, _, rfl, readsWellFormed_readTexts, fun _ => rfl⟩,
      ⟨_, .proposed, _, rfl, readsWellFormed_readTexts, fun _ => rfl⟩, by simp⟩
  ending _ _ _ h := Layout.ending_of_bind h
  congr depth x y form ps qs hx hy hperm hnodup := by
    simp only [read, Layout.require, hx, hy]
    rw [findSome?_perm "attrName" _ hperm hnodup,
      findSome?_perm "currentVal" _ hperm hnodup,
      findSome?_perm "modifiedVal" _ hperm hnodup]
    all_goals rintro (_ | _ | _) <;> simp [Part.field]

theorem byName : ByName read (layout.Refielded []) (layout.Repeats []) :=
  assembles.byName (by simp [InnerByName])

end Row

/-! ## Records with others in them -/

namespace Instance

def Part.field : Part → String
  | type _ => "type"
  | id _ => "id"
  | definitions _ => "custom_attribute_definitions"
  | values _ => "custom_attribute_values"

def inner : List Inner := [
  ⟨"custom_attribute_definitions", EachItem (Definition.layout.Refielded []),
    SomeItem (Definition.layout.Repeats [])⟩,
  ⟨"custom_attribute_values", EachItem (CurrentValue.layout.Refielded []),
    SomeItem (CurrentValue.layout.Repeats [])⟩]

theorem assembles : Assembles layout Part.field read where
  labels := by
    simp only [layout, List.forall_mem_cons]
    exact ⟨⟨_, .type, _, rfl, Node.readsWellFormed_text, fun _ => rfl⟩,
      ⟨_, .id, _, rfl, Node.readsWellFormed_natural, fun _ => rfl⟩,
      ⟨_, .definitions, _, rfl, Node.readsWellFormed_items Definition.byName.wellFormed,
        fun _ => rfl⟩,
      ⟨_, .values, _, rfl, Node.readsWellFormed_items CurrentValue.byName.wellFormed,
        fun _ => rfl⟩, by simp⟩
  ending _ _ _ h := Layout.ending_of_bind h
  congr depth x y form ps qs hx hy hperm hnodup := by
    simp only [read, Layout.require, hx, hy]
    rw [findSome?_perm "type" _ hperm hnodup,
      findSome?_perm "id" _ hperm hnodup,
      findSome?_perm "custom_attribute_definitions" _ hperm hnodup,
      findSome?_perm "custom_attribute_values" _ hperm hnodup]
    all_goals rintro (_ | _ | _ | _) <;> simp [Part.field]

theorem innerByName : InnerByName layout inner := by
  intro e he
  simp only [inner, List.mem_cons, List.not_mem_nil, or_false] at he
  rcases he with rfl | rfl
  · refine ⟨by decide, fun read hmem => ?_⟩
    obtain rfl : read = _ := by simpa [layout] using hmem
    exact ⟨(Node.keeps_items Definition.byName.keeps).map,
      (Node.refuses_items Definition.byName.refuses).map⟩
  · refine ⟨by decide, fun read hmem => ?_⟩
    obtain rfl : read = _ := by simpa [layout] using hmem
    exact ⟨(Node.keeps_items CurrentValue.byName.keeps).map,
      (Node.refuses_items CurrentValue.byName.refuses).map⟩

theorem byName : ByName read (layout.Refielded inner) (layout.Repeats inner) :=
  assembles.byName innerByName

end Instance

namespace Proposal

def Part.field : Part → String
  | entries _ => "custom_attribute_values"

def inner : List Inner := [
  ⟨"custom_attribute_values", EachEntry (Change.layout.Refielded []),
    SomeEntry (Change.layout.Repeats [])⟩]

theorem readsWellFormed_readEntries : ReadsWellFormed Changes.readEntries :=
  Node.readsWellFormed_entries (Node.readsWellFormed_optional Change.byName.wellFormed)

theorem assembles : Assembles layout Part.field fun depth x => (read depth x).value where
  labels := by
    simp only [layout, List.forall_mem_cons]
    exact ⟨⟨_, .entries, _, rfl, readsWellFormed_readEntries, fun _ => rfl⟩, by simp⟩
  ending depth x a h := by
    obtain ⟨form, hform, -⟩ := map_eq_ok_iff.mp h
    exact ⟨form, hform⟩
  congr depth x y form ps qs hx hy hperm hnodup := by
    simp only [read, entries?, hx, hy]
    rw [findSome?_perm "custom_attribute_values" _ hperm hnodup]
    rintro ⟨_⟩
    simp [Part.field]

theorem innerByName : InnerByName layout inner := by
  intro e he
  obtain rfl := List.mem_singleton.mp he
  refine ⟨by decide, fun read hmem => ?_⟩
  obtain rfl : read = _ := by simpa [layout] using hmem
  constructor
  · apply Json.Keeps.map
    apply Node.keeps_entries
    apply Node.keeps_optional Change.byName.keeps
    rintro x y ⟨z, hxz, ⟨⟩⟩
    cases hxz
    exact ⟨by rintro ⟨⟩, by rintro ⟨⟩⟩
  · apply Json.Refuses.map
    apply Node.refuses_entries
    apply Node.refuses_optional Change.byName.refuses
    rintro x (_ | _) <;> rintro ⟨⟩

theorem byName : ByName (fun depth x => (read depth x).value) (layout.Refielded inner)
    (layout.Repeats inner) :=
  assembles.byName innerByName

end Proposal

namespace Report

def Part.field : Part → String
  | version _ => "version"
  | generatedAt _ => "generated_at"
  | identity _ => "instance"
  | rows _ => "diff"

def inner : List Inner := [
  ⟨"instance", Identity.layout.Refielded [], Identity.layout.Repeats []⟩,
  ⟨"diff", EachItem (Row.layout.Refielded []), SomeItem (Row.layout.Repeats [])⟩]

theorem assembles : Assembles layout Part.field read where
  labels := by
    simp only [layout, List.forall_mem_cons]
    exact ⟨⟨_, .version, _, rfl, Node.readsWellFormed_text, fun _ => rfl⟩,
      ⟨_, .generatedAt, _, rfl, Node.readsWellFormed_text, fun _ => rfl⟩,
      ⟨_, .identity, _, rfl, Identity.byName.wellFormed, fun _ => rfl⟩,
      ⟨_, .rows, _, rfl, Node.readsWellFormed_items Row.byName.wellFormed, fun _ => rfl⟩, by simp⟩
  ending _ _ _ h := Layout.ending_of_bind h
  congr depth x y form ps qs hx hy hperm hnodup := by
    simp only [read, Layout.require, hx, hy]
    rw [findSome?_perm "version" _ hperm hnodup,
      findSome?_perm "generated_at" _ hperm hnodup,
      findSome?_perm "instance" _ hperm hnodup,
      findSome?_perm "diff" _ hperm hnodup]
    all_goals rintro (_ | _ | _ | _) <;> simp [Part.field]

theorem innerByName : InnerByName layout inner := by
  intro e he
  simp only [inner, List.mem_cons, List.not_mem_nil, or_false] at he
  rcases he with rfl | rfl
  · refine ⟨by decide, fun read hmem => ?_⟩
    obtain rfl : read = _ := by simpa [layout] using hmem
    exact ⟨Identity.byName.keeps.map, Identity.byName.refuses.map⟩
  · refine ⟨by decide, fun read hmem => ?_⟩
    obtain rfl : read = _ := by simpa [layout] using hmem
    exact ⟨(Node.keeps_items Row.byName.keeps).map, (Node.refuses_items Row.byName.refuses).map⟩

theorem byName : ByName read (layout.Refielded inner) (layout.Repeats inner) :=
  assembles.byName innerByName

end Report

/-! ## Documents -/

namespace Json.Document

/-- The documents of a record, read by the names of the fields. One of which the record is read is
well-formed, and the tokens of its tree are all that is in it. The same is read of every document
that is spelled out by its tree with the fields in another order or with others among them; and
nothing is read of one in which a field of the record stands twice. -/
structure ReadByName {α : Type} (f : Node → Except Fault α) (refielded : Node → Node → Prop)
    (repeats : Node → Prop) : Prop where
  wellFormed : ∀ content a, decode f content = .ok a →
    (ofBytes content).root.WellFormed ∧ Spells content (ofBytes content).root
  keeps : ∀ content a, decode f content = .ok a → ∀ y other, refielded (ofBytes content).root y →
    Spells other y → decode f other = .ok a
  refuses : ∀ content, repeats (ofBytes content).root → ∀ a, decode f content ≠ .ok a

theorem readByName {α : Type} {read : Nat → Node → Except Fault α}
    {refielded : Node → Node → Prop} {repeats : Node → Prop} (hclosed : ReadsClosed (read 0))
    (h : ByName read refielded repeats) : ReadByName (read 0) refielded repeats where
  wellFormed content a hdecode := by
    obtain ⟨hread, -⟩ := whole_eq_ok_iff.mp hdecode
    exact ⟨h.wellFormed _ _ _ hread, spells_of_decode hclosed hdecode⟩
  keeps content a hdecode y other hy hspells := by
    obtain ⟨hread, -⟩ := whole_eq_ok_iff.mp hdecode
    have hready := h.keeps 0 _ y a hy hread
    rw [decode, ofBytes_of_spells (h.wellFormed _ _ _ hready) hspells]
    exact whole_eq_ok_iff.mpr ⟨hready, rfl⟩
  refuses content hrepeats a hdecode := by
    obtain ⟨hread, -⟩ := whole_eq_ok_iff.mp hdecode
    exact h.refuses 0 _ a hrepeats hread

end Json.Document

/-- **Fields in any order, among others.** A well-formed tree of any depth is read whole from every
document that spells it out. Instances, proposals and reports, with the records inside them, are
read by the names of their fields: these may stand in any order and with others among them that
have any well-formed values, but none of them twice. -/
theorem fields_in_any_order_among_others :
    (∀ (node : Node) (content : List UInt8), node.WellFormed → Document.Spells content node →
      Document.ofBytes content = ⟨node, false⟩) ∧
    Document.ReadByName (Instance.read 0) (Instance.layout.Refielded Instance.inner)
      (Instance.layout.Repeats Instance.inner) ∧
    Document.ReadByName (fun node => (Proposal.read 0 node).value)
      (Proposal.layout.Refielded Proposal.inner) (Proposal.layout.Repeats Proposal.inner) ∧
    Document.ReadByName (Report.read 0) (Report.layout.Refielded Report.inner)
      (Report.layout.Repeats Report.inner) :=
  ⟨fun _ _ => Document.ofBytes_of_spells,
    Document.readByName Instance.readsClosed Instance.byName,
    Document.readByName Proposal.readsClosed Proposal.byName,
    Document.readByName Report.readsClosed Report.byName⟩

/-! ## A document with remarks -/

theorem Json.Written.fieldNodes_eq_map (fields : List (String × Written)) :
    fieldNodes fields = fields.map fun f => (.ofText f.1, f.2.node) := by
  induction fields with
  | nil => rfl
  | cons f fields ih => rw [fieldNodes, ih, List.map_cons]

theorem Json.Written.rearranged {δ : Type} {layout : Layout δ}
    {fs gs extra : List (String × Written)} (hextra : ∀ f ∈ extra, layout.reader? f.1 = none)
    (hperm : gs.Perm (fs ++ extra)) : layout.Rearranged (record fs).node (record gs).node := by
  rw [node, node, fieldNodes_eq_map, fieldNodes_eq_map]
  have hforeign : ∀ f ∈ extra.map fun f => (Json.Quoted.ofText f.1, f.2.node),
      layout.Foreign f := by
    intro f hf
    obtain ⟨e, he, rfl⟩ := List.mem_map.mp hf
    exact ⟨e.1, Json.Quoted.text_ofText e.1, hextra e he, e.2.wellFormed_node⟩
  apply Layout.Rearranged.record hforeign
  rw [← List.map_append]
  exact hperm.map _

namespace Instance

def concise : Instance := ⟨"Risk", 5, [⟨1, "Due", .date⟩], []⟩

def remarksInside : List (String × Written) :=
  [("remark", .list [.list [], .record [("id", .null)]])]

def definitionFields : List (String × Written) :=
  [("id", .number (.natural 1)), ("title", .text "Due"), ("attribute_type", .text "Date")]

def remarks : List (String × Written) :=
  [("types", .boolean true), ("", .record [("id", .text "5"), ("id", .list [.null])])]

/-- The fields of the instance, with remarks in its definition. -/
def remarkedFields : List (String × Written) :=
  [("type", .text "Risk"), ("id", .number (.natural 5)),
    ("custom_attribute_definitions",
      .list [.record (remarksInside ++ definitionFields.reverse)]),
    ("custom_attribute_values", .list [])]

def remarked : Written := .record (remarks ++ remarkedFields.reverse)

def withTwoIds : Written := .record (("id", .number (.natural 5)) :: remarkedFields)

theorem refielded_definition : Definition.layout.Refielded []
    (Written.record definitionFields).node
    (Written.record (remarksInside ++ definitionFields.reverse)).node := by
  refine ⟨_, .record (List.forall₂_same.mpr fun f _ => ⟨rfl, fun _ _ => Or.inl rfl⟩), ?_⟩
  have hextra : ∀ f ∈ remarksInside, Definition.layout.reader? f.1 = none := by decide
  apply Written.rearranged hextra
  exact List.perm_append_comm.trans (definitionFields.reverse_perm.append_right _)

theorem refielded_remarked : layout.Refielded inner concise.written.node remarked.node := by
  have hdefinitions : Layout.Within inner "custom_attribute_definitions"
      (Written.list [.record definitionFields]).node
      (Written.list [.record (remarksInside ++ definitionFields.reverse)]).node :=
    Or.inr ⟨_, List.mem_cons_self, rfl, .list (.cons (Or.inr refielded_definition) .nil)⟩
  refine ⟨(Written.record remarkedFields).node, .record ?_, ?_⟩
  · refine .cons ⟨rfl, fun _ _ => Or.inl rfl⟩ (.cons ⟨rfl, fun _ _ => Or.inl rfl⟩
      (.cons ⟨rfl, fun name hname => ?_⟩ (.cons ⟨rfl, fun _ _ => Or.inl rfl⟩ .nil)))
    rw [Json.Quoted.text_ofText] at hname
    cases hname
    exact hdefinitions
  · have hextra : ∀ f ∈ remarks, layout.reader? f.1 = none := by decide
    apply Written.rearranged hextra
    exact List.perm_append_comm.trans (remarkedFields.reverse_perm.append_right _)

theorem repeats_withTwoIds : layout.Repeats inner withTwoIds.node := by
  have hid := Json.Quoted.text_ofText "id"
  refine .here (f := (.ofText "id", (Written.number (.natural 5)).node))
    (g := (.ofText "id", (Written.number (.natural 5)).node)) ?_ hid hid (by decide)
  exact .cons_cons _ (.cons _ (.cons_cons _ (List.nil_sublist _)))

end Instance

theorem remarked_document_is_read :
    Document.decode (Instance.read 0) (Utf8.encode Instance.remarked.compact) =
        .ok Instance.concise ∧
      ∀ i, Document.decode (Instance.read 0) (Utf8.encode Instance.withTwoIds.compact) ≠ .ok i := by
  obtain ⟨-, ⟨-, hkeeps, hrefuses⟩, -⟩ := fields_in_any_order_among_others
  have hexact : Instance.concise.IsExact := by
    constructor
    · simp [Instance.concise, Kind.IsNamed]
    · simp [Instance.concise]
  constructor
  · apply hkeeps (Utf8.encode Instance.concise.written.compact)
    · rw [Document.decode, Written.ofBytes_compact]
      exact Document.whole_eq_ok_iff.mpr ⟨Instance.read_written hexact (by decide), rfl⟩
    · rw [Written.ofBytes_compact]
      exact Instance.refielded_remarked
    · exact Instance.remarked.spells_compact
  · apply hrefuses
    rw [Written.ofBytes_compact]
    exact Instance.repeats_withTwoIds

end AttributeReview
