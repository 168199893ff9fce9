import AttributeReview.Proofs.Json.Order
import AttributeReview.Proofs.Json.Written
import AttributeReview.Proofs.Proposal
import AttributeReview.Proofs.Review.Storage
import AttributeReview.Review.Row

/-!
# Rows do not depend on the order in documents

Definitions, values and the entries of a proposal may stand in any order: as long as no two
definitions, no two values and no two keys are the same, the rows are the same.
-/

namespace AttributeReview

open Json (Document Layout Node)

variable {depth : Nat} {x y : Node}

/-! ## Instances -/

namespace Instance

def listFields : List String := ["custom_attribute_definitions", "custom_attribute_values"]

/-- The same instance with its definitions and its values in another order. -/
structure Reordered (i j : Instance) : Prop where
  type : i.type = j.type
  id : i.id = j.id
  definitions : i.definitions.Perm j.definitions
  values : i.values.Perm j.values

inductive Part.Reordered : Part → Part → Prop where
  | same (part : Part) : Reordered part part
  | definitions {ds es : List Definition} : ds.Perm es →
      Reordered (.definitions ds) (.definitions es)
  | values {vs ws : List CurrentValue} : vs.Perm ws → Reordered (.values vs) (.values ws)

theorem respects_layout : layout.Respects (Layout.Reorders listFields) Part.Reordered := by
  apply Layout.respects_reorders
  · decide
  · exact .same
  · intro name hname read hmem x y depth part hxy hx
    simp only [listFields, List.mem_cons, List.not_mem_nil, or_false] at hname
    simp only [layout, List.mem_cons, List.not_mem_nil, or_false, Prod.mk.injEq] at hmem
    rcases hname with rfl | rfl
    · obtain rfl : read = _ := by simpa using hmem
      obtain ⟨ds, hds, rfl⟩ := map_eq_ok_iff.mp hx
      obtain ⟨es, hes, hperm⟩ := Node.items_shuffled hxy hds
      exact ⟨.definitions es, map_eq_ok_iff.mpr ⟨es, hes, rfl⟩, .definitions hperm⟩
    · obtain rfl : read = _ := by simpa using hmem
      obtain ⟨vs, hvs, rfl⟩ := map_eq_ok_iff.mp hx
      obtain ⟨ws, hws, hperm⟩ := Node.items_shuffled hxy hvs
      exact ⟨.values ws, map_eq_ok_iff.mpr ⟨ws, hws, rfl⟩, .values hperm⟩

theorem read_reordered {i : Instance} (h : layout.Alike (Layout.Reorders listFields) x y)
    (hx : read depth x = .ok i) : ∃ j, read depth y = .ok j ∧ Reordered i j := by
  simp only [read, bind_eq_ok_iff, Layout.require_eq_ok_iff] at hx ⊢
  obtain ⟨form, hform, type, htype, id, hid, ⟨⟩⟩ := hx
  obtain ⟨hform', hparts⟩ := Layout.parts_alike respects_layout h hform
  refine ⟨_, ⟨form, hform', type, ?_, id, ?_, rfl⟩, rfl, rfl, ?_, ?_⟩
  · rw [← htype]
    symm
    apply Layout.findSome?_eq_of_alike _ hparts
    rintro p q (- | - | -) <;> rfl
  · rw [← hid]
    symm
    apply Layout.findSome?_eq_of_alike _ hparts
    rintro p q (- | - | -) <;> rfl
  · apply Layout.findSome?_getD_perm _ hparts
    rintro p q (- | hperm | hperm)
    · cases p <;> constructor
      exact .refl _
    · exact .some hperm
    · exact .none
  · apply Layout.findSome?_getD_perm _ hparts
    rintro p q (- | hperm | hperm)
    · cases p <;> constructor
      exact .refl _
    · exact .none
    · exact .some hperm

end Instance

theorem Options.diff_eq_of_reordered (o : Options) {i j : Instance} (h : i.Reordered j)
    (hdefinitions : (i.definitions.map (·.id)).Nodup) (hvalues : (i.values.map (·.id)).Nodup)
    (changes : Changes) : o.diff i changes = o.diff j changes := by
  have hdefinition (id : UInt64) : i.definition? id = j.definition? id := by
    unfold Instance.definition?
    exact Ascending.find?_key_perm h.definitions hdefinitions id
  have hvalue (id : UInt64) : currentValue? i.values id = currentValue? j.values id := by
    unfold currentValue?
    exact Ascending.find?_key_perm h.values hvalues id
  unfold diff rows
  simp only [hdefinition, hvalue]

/-! ## Proposals -/

namespace Proposal

def mapFields : List String := ["custom_attribute_values"]

def entriesOf (depth : Nat) (node : Node) : Changes.Entries :=
  (entries? (layout.parts depth node)).getD []

inductive Part.Reordered : Part → Part → Prop where
  | entries {es fs : Changes.Entries} : es.Perm fs → Reordered (.entries es) (.entries fs)

theorem respects_layout : layout.Respects (Layout.Reorders mapFields) Part.Reordered := by
  apply Layout.respects_reorders
  · decide
  · rintro ⟨es⟩
    exact .entries (.refl es)
  · intro name hname read hmem x y depth part hxy hx
    simp only [layout, List.mem_cons, List.not_mem_nil, or_false, Prod.mk.injEq] at hmem
    obtain ⟨-, rfl⟩ := hmem
    obtain ⟨es, hes, rfl⟩ := map_eq_ok_iff.mp hx
    obtain ⟨fs, hfs, hperm⟩ := Node.entries_shuffled hxy hes
    exact ⟨.entries fs, map_eq_ok_iff.mpr ⟨fs, hfs, rfl⟩, .entries hperm⟩

theorem read_eq_ok_iff {p : Proposal} :
    (read depth x).value = .ok p ↔ (∃ form, (layout.parts depth x).ending = .ok form) ∧
      p = ⟨Changes.ofEntries (entriesOf depth x)⟩ := by
  change (layout.parts depth x).ending.map _ = .ok p ↔ _
  rw [map_eq_ok_iff]
  constructor
  · rintro ⟨form, hform, rfl⟩
    exact ⟨⟨form, hform⟩, rfl⟩
  · rintro ⟨⟨form, hform⟩, rfl⟩
    exact ⟨form, hform, rfl⟩

theorem entriesOf_reordered {form : Json.Form} (h : layout.Alike (Layout.Reorders mapFields) x y)
    (hx : (layout.parts depth x).ending = .ok form) :
    (layout.parts depth y).ending = .ok form ∧ (entriesOf depth x).Perm (entriesOf depth y) := by
  obtain ⟨hform, hparts⟩ := Layout.parts_alike respects_layout h hx
  refine ⟨hform, ?_⟩
  apply Layout.findSome?_getD_perm _ hparts
  rintro p q ⟨hperm⟩
  exact .some hperm

end Proposal

theorem Changes.ofEntries_perm {es fs : Entries} (h : es.Perm fs) (hkeys : (keysOf es).Nodup) :
    ofEntries es = ofEntries fs := by
  unfold ofEntries gatherAll
  rw [Ascending.ofList_perm h hkeys]

/-! ## Documents -/

/-- Documents of one record that differ only in the order inside the fields of some names. -/
structure Json.Document.Reordered {δ : Type} (layout : Layout δ) (names : List String)
    (d e : Document) : Prop where
  root : layout.Alike (Layout.Reorders names) d.root e.root
  trailing : d.trailing = e.trailing

theorem Json.Document.Reordered.symm {δ : Type} {layout : Layout δ} {names : List String}
    {d e : Document} (h : d.Reordered layout names e) : e.Reordered layout names d :=
  ⟨h.root.symm (Layout.reorders_symm names), h.trailing.symm⟩

variable {d e p q : Document}

theorem Instance.document_reordered {i : Instance} (h : d.Reordered layout listFields e)
    (hd : d.read read = .ok i) : ∃ j, e.read read = .ok j ∧ i.Reordered j := by
  unfold Document.read at hd ⊢
  obtain ⟨hread, htrailing⟩ := Document.whole_eq_ok_iff.mp hd
  obtain ⟨j, hj, hij⟩ := read_reordered h.root hread
  exact ⟨j, Document.whole_eq_ok_iff.mpr ⟨hj, h.trailing ▸ htrailing⟩, hij⟩

theorem Proposal.document_reordered {proposal : Proposal} (h : p.Reordered layout mapFields q)
    (hp : ofDocument p = .ok proposal) :
    ofDocument q = .ok ⟨Changes.ofEntries (entriesOf 0 q.root)⟩ ∧
      proposal = ⟨Changes.ofEntries (entriesOf 0 p.root)⟩ ∧
      (entriesOf 0 p.root).Perm (entriesOf 0 q.root) := by
  obtain ⟨hread, htrailing⟩ := Document.whole_eq_ok_iff.mp hp
  obtain ⟨⟨form, hform⟩, rfl⟩ := read_eq_ok_iff.mp hread
  obtain ⟨hform', hperm⟩ := entriesOf_reordered h.root hform
  refine ⟨?_, rfl, hperm⟩
  apply Document.whole_eq_ok_iff.mpr
  exact ⟨read_eq_ok_iff.mpr ⟨⟨form, hform'⟩, rfl⟩, h.trailing ▸ htrailing⟩

/-- The rows that come of the documents of an instance and of a proposal, if both can be read. -/
def Options.rowsOf? (o : Options) (d p : Document) : Option (List Row) :=
  match d.read Instance.read, Proposal.ofDocument p with
  | .ok i, .ok proposal => some (o.diff i proposal.changes)
  | _, _ => none

theorem Options.rowsOf?_eq_some_iff {o : Options} {rows : List Row} :
    o.rowsOf? d p = some rows ↔ ∃ i proposal, d.read Instance.read = .ok i ∧
      Proposal.ofDocument p = .ok proposal ∧ o.diff i proposal.changes = rows := by
  unfold rowsOf?
  cases d.read Instance.read <;> cases Proposal.ofDocument p <;> simp

theorem Options.rowsOf?_reordered (o : Options)
    (hd : d.Reordered Instance.layout Instance.listFields e)
    (hp : p.Reordered Proposal.layout Proposal.mapFields q)
    (hids : ∀ i, d.read Instance.read = .ok i →
      (i.definitions.map (·.id)).Nodup ∧ (i.values.map (·.id)).Nodup)
    (hkeys : (Changes.keysOf (Proposal.entriesOf 0 p.root)).Nodup) {rows : List Row}
    (h : o.rowsOf? d p = some rows) : o.rowsOf? e q = some rows := by
  obtain ⟨i, proposal, hi, hproposal, rfl⟩ := rowsOf?_eq_some_iff.mp h
  obtain ⟨hdefinitions, hvalues⟩ := hids i hi
  obtain ⟨j, hj, hij⟩ := Instance.document_reordered hd hi
  obtain ⟨hq, rfl, hperm⟩ := Proposal.document_reordered hp hproposal
  apply rowsOf?_eq_some_iff.mpr
  refine ⟨j, _, hj, hq, ?_⟩
  rw [diff_eq_of_reordered o hij hdefinitions hvalues, Changes.ofEntries_perm hperm hkeys]

/-- **Order does not show.** The rows that come of two documents stay the same, in content and in
order, when the definitions, the values and the entries of the proposal are put in another order,
where no two definitions and no two values have one id and no two keys are the same text. Keys
that spell one id in two ways are allowed. -/
theorem Options.same_rows_in_any_order (o : Options)
    (hd : d.Reordered Instance.layout ["custom_attribute_definitions", "custom_attribute_values"] e)
    (hp : p.Reordered Proposal.layout ["custom_attribute_values"] q)
    (hids : ∀ i, d.read Instance.read = .ok i →
      (i.definitions.map (·.id)).Nodup ∧ (i.values.map (·.id)).Nodup)
    (hkeys : (Changes.keysOf (Proposal.entriesOf 0 p.root)).Nodup) :
    o.rowsOf? d p = o.rowsOf? e q := by
  apply Option.ext
  intro rows
  constructor
  · exact rowsOf?_reordered o hd hp hids hkeys
  · intro h
    obtain ⟨j, proposal, hj, hproposal, -⟩ := rowsOf?_eq_some_iff.mp h
    obtain ⟨i, hi, -⟩ := Instance.document_reordered hd.symm hj
    obtain ⟨hp', -, -⟩ := Proposal.document_reordered hp.symm hproposal
    -- Both of the first documents can be read too, and give the rows that come of the others.
    have hrows := (rowsOf?_eq_some_iff (o := o)).mpr ⟨i, _, hi, hp', rfl⟩
    have hsame := rowsOf?_reordered o hd hp hids hkeys hrows
    rw [hrows, ← hsame, h]

def Instance.sample (definitions : List Definition) (values : List CurrentValue) : Document :=
  ⟨(written ⟨"Risk", 5, definitions, values⟩).node, false⟩

def Proposal.sample (entries : List (String × Json.Written)) : Document :=
  ⟨(Json.Written.record [("custom_attribute_values", .record entries)]).node, false⟩

/-- Two definitions, two values and two spellings of one id, in one order and in the other. -/
theorem Options.same_rows_in_two_orders :
    standard.rowsOf?
        (Instance.sample [⟨1, "Reviewed", .checkbox⟩, ⟨2, "Owner", .other "Text"⟩]
          [⟨2, some (.text "Ann")⟩, ⟨1, none⟩])
        (Proposal.sample [("1.0", .null), ("1", (Change.mk (some (.boolean true))).written)]) =
      standard.rowsOf?
        (Instance.sample [⟨2, "Owner", .other "Text"⟩, ⟨1, "Reviewed", .checkbox⟩]
          [⟨1, none⟩, ⟨2, some (.text "Ann")⟩])
        (Proposal.sample [("1", (Change.mk (some (.boolean true))).written), ("1.0", .null)]) := by
  have hsame {names : List String} {f : Json.Quoted × Node} :
      f.1 = f.1 ∧ ∀ name, f.1.text = .ok name → Layout.Reorders names name f.2 f.2 :=
    ⟨rfl, fun _ _ => Or.inl rfl⟩
  have hother {names : List String} {s : String} {x y : Node} (hs : s ∈ names)
      (hxy : x.Shuffled y) : Json.Quoted.ofText s = .ofText s ∧
        ∀ name, (Json.Quoted.ofText s).text = .ok name → Layout.Reorders names name x y := by
    refine ⟨rfl, fun name hname => Or.inr ⟨?_, hxy⟩⟩
    rw [Json.Quoted.text_ofText] at hname
    cases hname
    exact hs
  apply same_rows_in_any_order
  case hd =>
    refine ⟨.record (.cons hsame (.cons hsame ?_)), rfl⟩
    exact .cons (hother (by decide) (.list (.swap ..)))
      (.cons (hother (by decide) (.list (.swap ..))) .nil)
  case hp => exact ⟨.record (.cons (hother (by decide) (.record (.swap ..))) .nil), rfl⟩
  case hids =>
    intro i hi
    have hread : ((Instance.sample [⟨1, "Reviewed", .checkbox⟩, ⟨2, "Owner", .other "Text"⟩]
        [⟨2, some (.text "Ann")⟩, ⟨1, none⟩]).read Instance.read).toOption =
          some ⟨"Risk", 5, [⟨1, "Reviewed", .checkbox⟩, ⟨2, "Owner", .other "Text"⟩],
            [⟨2, some (.text "Ann")⟩, ⟨1, none⟩]⟩ := by decide +kernel
    rw [hi] at hread
    cases hread
    decide
  case hkeys => decide +kernel

end AttributeReview
