import AttributeReview.Proofs.Json.Order
import AttributeReview.Proofs.Json.Tree

/-!
# Fields in any order, among others

A record is read from its fields by their names. They may stand in any order, and fields that the
record does not have are passed over whole, so neither changes what is read. A field that the record
has may stand in it once.
-/

namespace AttributeReview.Json

variable {α β δ : Type}

/-! ## Readers -/

/-- What can be read of a value can be read of one that is related to it, and is the same. -/
def Keeps (read : Nat → Node → Except Fault α) (S : Node → Node → Prop) : Prop :=
  ∀ depth x y a, S x y → read depth x = .ok a → read depth y = .ok a

def Refuses (read : Nat → Node → Except Fault α) (P : Node → Prop) : Prop :=
  ∀ depth x a, P x → read depth x ≠ .ok a

def ReadsWellFormed (read : Nat → Node → Except Fault α) : Prop :=
  ∀ depth x a, read depth x = .ok a → x.WellFormed

section Map

variable {read : Nat → Node → Except Fault α} {wrap : α → β}

theorem Keeps.map {S : Node → Node → Prop} (h : Keeps read S) :
    Keeps (fun depth x => wrap <$> read depth x) S := by
  intro depth x y b hxy hx
  obtain ⟨a, ha, rfl⟩ := map_eq_ok_iff.mp hx
  exact map_eq_ok_iff.mpr ⟨a, h depth x y a hxy ha, rfl⟩

theorem Refuses.map {P : Node → Prop} (h : Refuses read P) :
    Refuses (fun depth x => wrap <$> read depth x) P := by
  intro depth x b hP hx
  obtain ⟨a, ha, -⟩ := map_eq_ok_iff.mp hx
  exact h depth x a hP ha

end Map

namespace Node

variable {read : Nat → Node → Except Fault α} {S : Node → Node → Prop} {P : Node → Prop}
  {depth : Nat} {x y : Node}

/-! ## Texts, integers, lists and maps -/

theorem wellFormed_of_found {found : Found} (h : x.found = .ok found) (hlist : found ≠ .list)
    (hrecord : found ≠ .record) : x.WellFormed := by
  cases x with
  | word w => exact .word w
  | numeral n => exact .numeral n
  | quoted q =>
    obtain ⟨s, htext, -⟩ := bind_eq_ok_iff.mp h
    exact .quoted (Quoted.closed_of_text htext)
  | broken b => cases h
  | list items ending => exact absurd (Except.ok.inj h).symm hlist
  | record fields ending => exact absurd (Except.ok.inj h).symm hrecord

theorem readsWellFormed_text : ReadsWellFormed fun _ x => x.text := by
  intro depth x s h
  obtain ⟨found, hfound, hs⟩ := bind_eq_ok_iff.mp h
  apply wellFormed_of_found hfound <;> rintro rfl <;> cases hs

theorem readsWellFormed_natural : ReadsWellFormed fun _ x => x.natural := by
  intro depth x n h
  obtain ⟨found, hfound, hn⟩ := bind_eq_ok_iff.mp h
  apply wellFormed_of_found hfound <;> rintro rfl <;> cases hn

/-- Lists with the same items, some of them replaced by related ones. -/
inductive EachItem (S : Node → Node → Prop) : Node → Node → Prop where
  | list {xs ys : List Node} {ending : Ending} : List.Forall₂ (fun x y => x = y ∨ S x y) xs ys →
      EachItem S (.list xs ending) (.list ys ending)

inductive SomeItem (P : Node → Prop) : Node → Prop where
  | list {xs : List Node} {ending : Ending} {x : Node} : x ∈ xs → P x →
      SomeItem P (.list xs ending)

/-- Records with the same fields, some of their values replaced by related ones. -/
inductive EachEntry (S : Node → Node → Prop) : Node → Node → Prop where
  | record {fs gs : List (Quoted × Node)} {ending : Ending} :
      List.Forall₂ (fun f g => f.1 = g.1 ∧ (f.2 = g.2 ∨ S f.2 g.2)) fs gs →
      EachEntry S (.record fs ending) (.record gs ending)

inductive SomeEntry (P : Node → Prop) : Node → Prop where
  | record {fs : List (Quoted × Node)} {ending : Ending} {f : Quoted × Node} : f ∈ fs → P f.2 →
      SomeEntry P (.record fs ending)

theorem items_list_eq_ok_iff {xs : List Node} {ending : Ending} {as : List α} :
    items read depth (.list xs ending) = .ok as ↔
      openBracket .read depth = .ok () ∧
        List.Forall₂ (fun x a => read (depth + 1) x = .ok a) xs as ∧
        ending.checkList .read = .ok () := by
  simp only [items, bind_eq_ok_iff, itemsWith_eq_ok_iff]
  constructor
  · rintro ⟨_, hopen, _, has, _, hending, ⟨⟩⟩
    exact ⟨hopen, has, hending⟩
  · rintro ⟨hopen, has, hending⟩
    exact ⟨_, hopen, as, has, _, hending, rfl⟩

theorem entries_record_eq_ok_iff {fs : List (Quoted × Node)} {ending : Ending}
    {as : List (String × α)} :
    entries read depth (.record fs ending) = .ok as ↔
      openBracket .read depth = .ok () ∧
        List.Forall₂ (fun f a => f.1.text = .ok a.1 ∧ read (depth + 1) f.2 = .ok a.2) fs as ∧
        ending.checkRecord .read = .ok () := by
  simp only [entries, bind_eq_ok_iff, entriesWith_eq_ok_iff]
  constructor
  · rintro ⟨_, hopen, _, has, _, hending, ⟨⟩⟩
    exact ⟨hopen, has, hending⟩
  · rintro ⟨hopen, has, hending⟩
    exact ⟨_, hopen, as, has, _, hending, rfl⟩

theorem forall₂_left {γ : Type} {R : α → γ → Prop} {as : List α} {cs : List γ}
    (h : List.Forall₂ R as cs) : ∀ a ∈ as, ∃ c, R a c := by
  induction h with
  | nil => simp
  | cons hac _ ih =>
    rw [List.forall_mem_cons]
    exact ⟨⟨_, hac⟩, ih⟩

theorem forall₂_replaced {γ : Type} {R : α → α → Prop} {T : α → γ → Prop} {as bs : List α}
    {cs : List γ} (hT : ∀ a b c, R a b → T a c → T b c) (h : List.Forall₂ R as bs)
    (has : List.Forall₂ T as cs) : List.Forall₂ T bs cs := by
  induction h generalizing cs with
  | nil => exact has
  | cons hab _ ih =>
    cases has with
    | cons hac hrest => exact .cons (hT _ _ _ hab hac) (ih hrest)

theorem keeps_items (h : Keeps read S) : Keeps (items read) (EachItem S) := by
  rintro depth x y as ⟨hxs⟩ hx
  rw [items_list_eq_ok_iff] at hx ⊢
  refine ⟨hx.1, forall₂_replaced ?_ hxs hx.2.1, hx.2.2⟩
  rintro x y a (rfl | hxy) hread
  · exact hread
  · exact h _ _ _ _ hxy hread

theorem keeps_entries (h : Keeps read S) : Keeps (entries read) (EachEntry S) := by
  rintro depth x y as ⟨hfs⟩ hx
  rw [entries_record_eq_ok_iff] at hx ⊢
  refine ⟨hx.1, forall₂_replaced ?_ hfs hx.2.1, hx.2.2⟩
  rintro f g a ⟨hkey, hvalue⟩ ⟨htext, hread⟩
  refine ⟨hkey ▸ htext, ?_⟩
  rcases hvalue with heq | hfg
  · exact heq ▸ hread
  · exact h _ _ _ _ hfg hread

theorem refuses_items (h : Refuses read P) : Refuses (items read) (SomeItem P) := by
  rintro depth x as ⟨hmem, hP⟩ hx
  rw [items_list_eq_ok_iff] at hx
  obtain ⟨a, ha⟩ := forall₂_left hx.2.1 _ hmem
  exact h _ _ _ hP ha

theorem refuses_entries (h : Refuses read P) : Refuses (entries read) (SomeEntry P) := by
  rintro depth x as ⟨hmem, hP⟩ hx
  rw [entries_record_eq_ok_iff] at hx
  obtain ⟨a, -, ha⟩ := forall₂_left hx.2.1 _ hmem
  exact h _ _ _ hP ha

theorem readsWellFormed_items (h : ReadsWellFormed read) : ReadsWellFormed (items read) := by
  intro depth x as hx
  cases x with
  | list xs ending =>
    rw [items_list_eq_ok_iff] at hx
    obtain ⟨-, hread, hending⟩ := hx
    obtain rfl := Ending.checkList_eq_ok hending
    refine .list fun x hmem => ?_
    obtain ⟨a, ha⟩ := forall₂_left hread x hmem
    exact h _ _ _ ha
  | _ =>
    obtain ⟨_, -, hfault⟩ := bind_eq_ok_iff.mp hx
    cases hfault

theorem readsWellFormed_entries (h : ReadsWellFormed read) : ReadsWellFormed (entries read) := by
  intro depth x as hx
  cases x with
  | record fs ending =>
    rw [entries_record_eq_ok_iff] at hx
    obtain ⟨-, hread, hending⟩ := hx
    obtain rfl := Ending.checkRecord_eq_ok hending
    refine .record (fun f hmem => ?_) fun f hmem => ?_ <;>
      obtain ⟨a, htext, ha⟩ := forall₂_left hread f hmem
    · exact Quoted.closed_of_text htext
    · exact h _ _ _ ha
  | _ =>
    obtain ⟨_, -, hfault⟩ := bind_eq_ok_iff.mp hx
    cases hfault

/-! ## Values that may be missing -/

theorem optional_eq_ok_iff {a : Option α} :
    optional read depth x = .ok a ↔
      x = .word .null ∧ a = none ∨ x ≠ .word .null ∧ ∃ b, read depth x = .ok b ∧ a = some b := by
  by_cases hx : x = .word .null
  · subst hx
    simp [optional, eq_comm]
  · have hpresent : optional read depth x = (do let b ← read depth x; return some b) := by
      unfold optional
      split
      · exact absurd rfl hx
      · rfl
    rw [hpresent, bind_eq_ok_iff]
    simp [hx, pure, Except.pure, eq_comm]

theorem keeps_optional (h : Keeps read S)
    (hnull : ∀ x y, S x y → x ≠ .word .null ∧ y ≠ .word .null) : Keeps (optional read) S := by
  intro depth x y a hxy hx
  obtain ⟨hxnull, hynull⟩ := hnull x y hxy
  rw [optional_eq_ok_iff] at hx ⊢
  rcases hx with ⟨hx, -⟩ | ⟨-, b, hb, rfl⟩
  · exact absurd hx hxnull
  · exact Or.inr ⟨hynull, b, h depth x y b hxy hb, rfl⟩

theorem refuses_optional (h : Refuses read P) (hnull : ∀ x, P x → x ≠ .word .null) :
    Refuses (optional read) P := by
  intro depth x a hP hx
  rcases optional_eq_ok_iff.mp hx with ⟨hx, -⟩ | ⟨-, b, hb, -⟩
  · exact hnull x hP hx
  · exact h depth x b hP hb

theorem readsWellFormed_optional (h : ReadsWellFormed read) : ReadsWellFormed (optional read) := by
  intro depth x a hx
  rcases optional_eq_ok_iff.mp hx with ⟨rfl, -⟩ | ⟨-, b, hb, -⟩
  · exact .word .null
  · exact h depth x b hb

end Node

namespace Layout

variable {layout : Layout δ} {depth : Nat}

/-! ## What is taken from the fields of a record -/

/-- The parts read from some fields, each with the name of its field. -/
inductive Taken (layout : Layout δ) (depth : Nat) :
    List (Quoted × Node) → List (String × δ) → Prop where
  | nil : Taken layout depth [] []
  | passed {f : Quoted × Node} {fields : List (Quoted × Node)} {named : List (String × δ)}
      {name : String} : f.1.text = .ok name → layout.reader? name = none →
      f.2.check .pass depth = .ok () → Taken layout depth fields named →
      Taken layout depth (f :: fields) named
  | read {f : Quoted × Node} {fields : List (Quoted × Node)} {named : List (String × δ)}
      {name : String} {read : Nat → Node → Except Fault δ} {part : δ} : f.1.text = .ok name →
      layout.reader? name = some read → read depth f.2 = .ok part →
      Taken layout depth fields named → Taken layout depth (f :: fields) ((name, part) :: named)

variable {fields : List (Quoted × Node)} {named : List (String × δ)}

theorem ofFields_eq_ok_iff {seen : List String} {parts : List δ} :
    layout.ofFields depth seen fields = (parts, .ok ()) ↔
      ∃ named, layout.Taken depth fields named ∧ (named.map (·.1)).Nodup ∧
        (∀ e ∈ named, e.1 ∉ seen) ∧ named.map (·.2) = parts := by
  induction fields generalizing seen parts with
  | nil =>
    constructor
    · rintro ⟨⟩
      exact ⟨[], .nil, by simp⟩
    · rintro ⟨_, ⟨⟩, -, -, rfl⟩
      rfl
  | cons f fields ih =>
    rw [ofFields]
    constructor
    · intro h
      split at h <;> try cases h
      next name htext =>
        split at h
        next hreader =>
          split at h <;> try cases h
          next hpass =>
            obtain ⟨named, htaken, hrest⟩ := ih.mp h
            exact ⟨named, .passed htext hreader hpass htaken, hrest⟩
        next read hreader =>
          split at h <;> try cases h
          next hnew =>
            split at h
            · cases h
            next part hread =>
              obtain ⟨rfl, hrest⟩ := Prod.mk.inj h
              obtain ⟨named, htaken, hnodup, hlater, hparts⟩ := ih.mp (Prod.ext rfl hrest)
              simp only [List.mem_cons, not_or] at hlater
              refine ⟨(name, part) :: named, .read htext hreader hread htaken, ?_, ?_, ?_⟩
              · rw [List.map_cons, List.nodup_cons]
                refine ⟨fun hmem => ?_, hnodup⟩
                obtain ⟨e, he, heq⟩ := List.mem_map.mp hmem
                exact (hlater e he).1 heq
              · rw [List.forall_mem_cons]
                exact ⟨by simpa using hnew, fun e he => (hlater e he).2⟩
              · rw [List.map_cons, hparts]
    · rintro ⟨named, htaken, hnodup, hseen, rfl⟩
      cases htaken with
      | passed htext hreader hpass hrest =>
        simp only [htext, hreader, hpass]
        exact ih.mpr ⟨named, hrest, hnodup, hseen, rfl⟩
      | @read _ _ named name _ part htext hreader hread hrest =>
        simp only [List.map_cons, List.nodup_cons, List.forall_mem_cons] at hnodup hseen
        have hfields : layout.ofFields depth (name :: seen) fields = (named.map (·.2), .ok ()) := by
          refine ih.mpr ⟨named, hrest, hnodup.2, fun e he => ?_, rfl⟩
          rw [List.mem_cons, not_or]
          refine ⟨?_, hseen.2 e he⟩
          rintro rfl
          exact hnodup.1 (List.mem_map_of_mem he)
        simp [htext, hreader, hread, hfields, hseen.1]

theorem ofFields_nil_eq_ok_iff {parts : List δ} :
    layout.ofFields depth [] fields = (parts, .ok ()) ↔
      ∃ named, layout.Taken depth fields named ∧ (named.map (·.1)).Nodup ∧
        named.map (·.2) = parts := by
  simp [ofFields_eq_ok_iff]

/-- The names that were read are those of the record's fields, in the order of the document. -/
theorem Taken.names (h : layout.Taken depth fields named) :
    named.map (·.1) =
      fields.filterMap fun f =>
        f.1.text.toOption.filter fun name => (layout.reader? name).isSome := by
  induction h with
  | nil => rfl
  | passed htext hreader _ _ ih => simp [htext, hreader, ih, Except.toOption, Option.filter]
  | read htext hreader _ _ ih => simp [htext, hreader, ih, Except.toOption, Option.filter]

theorem Taken.perm {others : List (Quoted × Node)} (h : layout.Taken depth fields named)
    (hperm : fields.Perm others) :
    ∃ renamed, layout.Taken depth others renamed ∧ named.Perm renamed := by
  induction hperm generalizing named with
  | nil => exact ⟨named, h, .refl _⟩
  | cons f _ ih =>
    cases h with
    | passed htext hreader hpass hrest =>
      obtain ⟨renamed, hrenamed, hsame⟩ := ih hrest
      exact ⟨renamed, .passed htext hreader hpass hrenamed, hsame⟩
    | read htext hreader hread hrest =>
      obtain ⟨renamed, hrenamed, hsame⟩ := ih hrest
      exact ⟨_, .read htext hreader hread hrenamed, hsame.cons _⟩
  | swap f g _ =>
    cases h with
    | passed htext hreader hpass hrest =>
      cases hrest with
      | passed htext' hreader' hpass' hrest =>
        exact ⟨_, .passed htext' hreader' hpass' (.passed htext hreader hpass hrest), .refl _⟩
      | read htext' hreader' hread' hrest =>
        exact ⟨_, .read htext' hreader' hread' (.passed htext hreader hpass hrest), .refl _⟩
    | read htext hreader hread hrest =>
      cases hrest with
      | passed htext' hreader' hpass' hrest =>
        exact ⟨_, .passed htext' hreader' hpass' (.read htext hreader hread hrest), .refl _⟩
      | read htext' hreader' hread' hrest =>
        exact ⟨_, .read htext' hreader' hread' (.read htext hreader hread hrest), .swap ..⟩
  | trans _ _ ih ih' =>
    obtain ⟨renamed, hrenamed, hsame⟩ := ih h
    obtain ⟨again, hagain, hsame'⟩ := ih' hrenamed
    exact ⟨again, hagain, hsame.trans hsame'⟩

/-- A field that the record does not have, with any well-formed value. -/
def Foreign (layout : Layout δ) (f : Quoted × Node) : Prop :=
  ∃ name, f.1.text = .ok name ∧ layout.reader? name = none ∧ f.2.WellFormed

theorem taken_foreign {extra : List (Quoted × Node)} (h : ∀ f ∈ extra, layout.Foreign f) :
    layout.Taken depth extra [] := by
  induction extra with
  | nil => exact .nil
  | cons f extra ih =>
    rw [List.forall_mem_cons] at h
    obtain ⟨⟨name, htext, hreader, hvalue⟩, hextra⟩ := h
    exact .passed htext hreader (hvalue.check_pass depth) (ih hextra)

theorem Taken.append_foreign {extra : List (Quoted × Node)} (h : layout.Taken depth fields named)
    (hextra : ∀ f ∈ extra, layout.Foreign f) : layout.Taken depth (fields ++ extra) named := by
  induction h with
  | nil => exact taken_foreign hextra
  | passed htext hreader hpass _ ih => exact .passed htext hreader hpass ih
  | read htext hreader hread _ ih => exact .read htext hreader hread ih

theorem Taken.reads (h : layout.Taken depth fields named) :
    ∀ f ∈ fields, ∀ name read, f.1.text = .ok name → layout.reader? name = some read →
      ∃ part, read depth f.2 = .ok part := by
  induction h with
  | nil => simp
  | passed htext hreader _ _ ih =>
    rw [List.forall_mem_cons]
    refine ⟨fun name read hname hread => ?_, ih⟩
    rw [htext] at hname
    cases hname
    rw [hreader] at hread
    cases hread
  | read htext hreader hpart _ ih =>
    rw [List.forall_mem_cons]
    refine ⟨fun name read hname hread => ?_, ih⟩
    rw [htext] at hname
    cases hname
    rw [hreader] at hread
    cases hread
    exact ⟨_, hpart⟩

theorem Taken.wellFormed (hfields : ∀ e ∈ layout.fields, ReadsWellFormed e.2)
    (h : layout.Taken depth fields named) :
    ∀ f ∈ fields, f.1.ending = .closed ∧ f.2.WellFormed := by
  induction h with
  | nil => simp
  | passed htext _ hpass _ ih =>
    rw [List.forall_mem_cons]
    exact ⟨⟨Quoted.closed_of_text htext, Node.wellFormed_of_check hpass⟩, ih⟩
  | read htext hreader hread _ ih =>
    rw [List.forall_mem_cons]
    have hvalue := hfields _ (mem_fields_of_reader? hreader) _ _ _ hread
    exact ⟨⟨Quoted.closed_of_text htext, hvalue⟩, ih⟩

/-! ## Whole records -/

variable {x y : Node} {form : Form} {ps : List δ}

theorem parts_record_eq_ok_iff {ending : Ending} :
    layout.parts depth (.record fields ending) = ⟨ps, .ok form⟩ ↔
      openBracket .read depth = .ok () ∧ ending.checkRecord .read = .ok () ∧ form = .record ∧
        ∃ named, layout.Taken (depth + 1) fields named ∧ (named.map (·.1)).Nodup ∧
          named.map (·.2) = ps := by
  rw [parts]
  cases openBracket .read depth with
  | error fault => simp
  | ok opened =>
    rw [← ofFields_nil_eq_ok_iff]
    generalize layout.ofFields (depth + 1) [] fields = read
    obtain ⟨parts, result⟩ := read
    simp only [Parts.mk.injEq, bind_unit_eq_ok_iff, Prod.mk.injEq, true_and, pure, Except.pure,
      Except.ok.injEq]
    constructor
    · rintro ⟨rfl, rfl, hending, rfl⟩
      exact ⟨hending, rfl, rfl, rfl⟩
    · rintro ⟨hending, rfl, rfl, rfl⟩
      exact ⟨rfl, rfl, hending, rfl⟩

theorem parts_eq_of_ending (h : (layout.parts depth x).ending = .ok form) :
    layout.parts depth x = ⟨(layout.parts depth x).parts, .ok form⟩ := by
  rw [← h]

theorem wellFormed_of_ofItems {ending : Ending}
    {readers : List (String × (Nat → Node → Except Fault δ))} {items : List Node}
    (hreaders : ∀ e ∈ readers, ReadsWellFormed e.2)
    (h : (ofItems depth ending readers items).2 = .ok ()) : ∀ x ∈ items, x.WellFormed := by
  fun_induction ofItems depth ending readers items with
  | case1 | case3 => simp
  | case2 | case4 => cases h
  | case5 name read readers item rest part hread parts result hrest ih =>
    rw [List.forall_mem_cons] at hreaders ⊢
    rw [hrest] at ih
    exact ⟨hreaders.1 _ _ _ hread, ih hreaders.2 h⟩

theorem wellFormed_of_parts (hfields : ∀ e ∈ layout.fields, ReadsWellFormed e.2)
    (h : (layout.parts depth x).ending = .ok form) : x.WellFormed := by
  cases x with
  | record fields ending =>
    obtain ⟨-, hending, -, named, htaken, -⟩ := parts_record_eq_ok_iff.mp (parts_eq_of_ending h)
    obtain rfl := Ending.checkRecord_eq_ok hending
    have hall := htaken.wellFormed hfields
    exact .record (fun f hf => (hall f hf).1) fun f hf => (hall f hf).2
  | list items ending =>
    simp only [parts] at h
    split at h
    · cases h
    · obtain ⟨hitems, -⟩ := bind_unit_eq_ok_iff.mp h
      obtain rfl := closed_of_ofItems hitems
      exact .list (wellFormed_of_ofItems hfields hitems)
  | _ =>
    obtain ⟨_, -, hother⟩ := bind_eq_ok_iff.mp h
    cases hother

/-! ## Fields in another order, among others -/

/-- A record with the same fields in any order, and among them fields that it does not have. -/
inductive Rearranged (layout : Layout δ) : Node → Node → Prop where
  | record {fs gs extra : List (Quoted × Node)} {ending : Ending} :
      (∀ f ∈ extra, layout.Foreign f) → gs.Perm (fs ++ extra) →
      Rearranged layout (.record fs ending) (.record gs ending)

/-- Only well-formed values of the field are read, and what is read becomes a part that belongs to
the field. -/
def Labels (field : δ → String) (e : String × (Nat → Node → Except Fault δ)) : Prop :=
  ∃ (α : Type) (wrap : α → δ) (read : Nat → Node → Except Fault α),
    e.2 = (fun depth x => wrap <$> read depth x) ∧ ReadsWellFormed read ∧ ∀ a, field (wrap a) = e.1

variable {field : δ → String}

theorem Labels.readsWellFormed {e : String × (Nat → Node → Except Fault δ)}
    (h : Labels field e) : ReadsWellFormed e.2 := by
  obtain ⟨α, wrap, read, hread, hvalue, -⟩ := h
  intro depth x part hpart
  rw [hread] at hpart
  obtain ⟨a, ha, -⟩ := map_eq_ok_iff.mp hpart
  exact hvalue depth x a ha

theorem Labels.field_eq {e : String × (Nat → Node → Except Fault δ)} {part : δ}
    (h : Labels field e) (hpart : e.2 depth x = .ok part) : field part = e.1 := by
  obtain ⟨α, wrap, read, hread, -, hfield⟩ := h
  rw [hread] at hpart
  obtain ⟨a, -, rfl⟩ := map_eq_ok_iff.mp hpart
  exact hfield a

theorem Taken.labels (hlabels : ∀ e ∈ layout.fields, Labels field e)
    (h : layout.Taken depth fields named) : (named.map (·.2)).map field = named.map (·.1) := by
  induction h with
  | nil => rfl
  | passed _ _ _ _ ih => exact ih
  | read _ hreader hread _ ih =>
    have hpart := (hlabels _ (mem_fields_of_reader? hreader)).field_eq hread
    simp only [List.map_cons, hpart, ih]

theorem parts_rearranged (hlabels : ∀ e ∈ layout.fields, Labels field e)
    (h : layout.Rearranged x y) (hx : layout.parts depth x = ⟨ps, .ok form⟩) :
    ∃ qs, layout.parts depth y = ⟨qs, .ok form⟩ ∧ ps.Perm qs ∧ (ps.map field).Nodup := by
  cases h with
  | record hextra hperm =>
    obtain ⟨hopen, hending, hform, named, htaken, hnodup, rfl⟩ := parts_record_eq_ok_iff.mp hx
    obtain ⟨renamed, hrenamed, hsame⟩ := (htaken.append_foreign hextra).perm hperm.symm
    refine ⟨renamed.map (·.2), ?_, hsame.map _, ?_⟩
    · rw [parts_record_eq_ok_iff]
      exact ⟨hopen, hending, hform, renamed, hrenamed, (hsame.map _).nodup_iff.mp hnodup, rfl⟩
    · rw [htaken.labels hlabels]
      exact hnodup

theorem findSome?_perm (name : String) {part? : δ → Option α}
    (hpart : ∀ p, part? p ≠ none → field p = name) {qs : List δ} (h : ps.Perm qs)
    (hnodup : (ps.map field).Nodup) : ps.findSome? part? = qs.findSome? part? := by
  induction h with
  | nil => rfl
  | cons p _ ih =>
    rw [List.map_cons, List.nodup_cons] at hnodup
    rw [List.findSome?_cons, List.findSome?_cons, ih hnodup.2]
  | swap p q _ =>
    have hne : field q ≠ field p := by
      intro heq
      simp [heq] at hnodup
    simp only [List.findSome?_cons]
    cases hp : part? p with
    | none => rfl
    | some a =>
      cases hq : part? q with
      | none => rfl
      | some b => exact absurd ((hpart q (by simp [hq])).trans (hpart p (by simp [hp])).symm) hne
  | trans hperm _ ih ih' =>
    rw [ih hnodup]
    exact ih' ((hperm.map field).nodup_iff.mp hnodup)

/-! ## Records inside records -/

/-- A field whose value holds records: how these may be written in another way, and what is wrong
when one of them has a field twice. -/
structure Inner where
  name : String
  refielded : Node → Node → Prop
  repeats : Node → Prop

/-- The same value or, in a field that holds records, one with its records written in another
way. -/
def Within (inner : List Inner) (name : String) (x y : Node) : Prop :=
  x = y ∨ ∃ e ∈ inner, e.name = name ∧ e.refielded x y

/-- The record with its fields in any order and with others among them, and so may be the records
inside it. -/
def Refielded (layout : Layout δ) (inner : List Inner) (x y : Node) : Prop :=
  ∃ z, layout.Alike (Within inner) x z ∧ layout.Rearranged z y

/-- A field that the record has stands in it twice, or one does in a record inside it. -/
inductive Repeats (layout : Layout δ) (inner : List Inner) : Node → Prop where
  | here {f g : Quoted × Node} {fields : List (Quoted × Node)} {ending : Ending} {name : String} :
      [f, g].Sublist fields → f.1.text = .ok name → g.1.text = .ok name →
      layout.reader? name ≠ none → Repeats layout inner (.record fields ending)
  | inside {f : Quoted × Node} {fields : List (Quoted × Node)} {ending : Ending} {e : Inner} :
      f ∈ fields → f.1.text = .ok e.name → e ∈ inner → e.repeats f.2 →
      Repeats layout inner (.record fields ending)

/-- The record is read by the names of its fields. -/
structure ByName (read : Nat → Node → Except Fault α) (refielded : Node → Node → Prop)
    (repeats : Node → Prop) : Prop where
  keeps : Keeps read refielded
  refuses : Refuses read repeats
  wellFormed : ReadsWellFormed read

/-- The record is put together from its parts, by what they are and not by their order. -/
structure Assembles (layout : Layout δ) (field : δ → String)
    (read : Nat → Node → Except Fault α) : Prop where
  labels : ∀ e ∈ layout.fields, Labels field e
  ending : ∀ depth x a, read depth x = .ok a → ∃ form, (layout.parts depth x).ending = .ok form
  congr : ∀ depth x y form ps qs, layout.parts depth x = ⟨ps, .ok form⟩ →
    layout.parts depth y = ⟨qs, .ok form⟩ → ps.Perm qs → (ps.map field).Nodup →
    read depth x = read depth y

theorem ending_of_bind {f : Form → Except Fault α} {a : α}
    (h : (layout.parts depth x).ending >>= f = .ok a) :
    ∃ form, (layout.parts depth x).ending = .ok form := by
  obtain ⟨form, hform, -⟩ := bind_eq_ok_iff.mp h
  exact ⟨form, hform⟩

/-- The records inside a record are read by the names of their fields too. -/
def InnerByName (layout : Layout δ) (inner : List Inner) : Prop :=
  ∀ e ∈ inner, layout.reader? e.name ≠ none ∧ ∀ read, (e.name, read) ∈ layout.fields →
    Keeps read e.refielded ∧ Refuses read e.repeats

variable {inner : List Inner} {read : Nat → Node → Except Fault α}

theorem respects_within (hinner : layout.InnerByName inner) :
    layout.Respects (Within inner) Eq := by
  constructor
  · rintro name read hmem x y depth part (rfl | ⟨e, he, rfl, hxy⟩) hx
    · exact ⟨part, hx, rfl⟩
    · obtain ⟨hkeeps, -⟩ := (hinner e he).2 read hmem
      exact ⟨part, hkeeps depth x y part hxy hx, rfl⟩
  · rintro name hreader x y depth (rfl | ⟨e, he, rfl, -⟩) hx
    · exact hx
    · exact absurd hreader (hinner e he).1

theorem Assembles.keeps (h : layout.Assembles field read) (hinner : layout.InnerByName inner) :
    Keeps read (layout.Refielded inner) := by
  rintro depth x y a ⟨z, hxz, hzy⟩ hx
  obtain ⟨form, hform⟩ := h.ending depth x a hx
  obtain ⟨hz, hparts⟩ := parts_alike (respects_within hinner) hxz hform
  have hsame : (layout.parts depth x).parts = (layout.parts depth z).parts := by
    rwa [List.forall₂_eq_eq_eq] at hparts
  have hxparts := parts_eq_of_ending hform
  have hzparts := parts_eq_of_ending hz
  rw [← hsame] at hzparts
  obtain ⟨qs, hy, hperm, hnodup⟩ := parts_rearranged h.labels hzy hzparts
  rw [← h.congr depth x y form _ qs hxparts hy hperm hnodup]
  exact hx

theorem Taken.nodup_of_pair {f g : Quoted × Node} {name : String}
    (h : layout.Taken depth fields named) (hpair : [f, g].Sublist fields)
    (hf : f.1.text = .ok name) (hg : g.1.text = .ok name) (hname : layout.reader? name ≠ none) :
    ¬ (named.map (·.1)).Nodup := by
  intro hnodup
  rw [h.names] at hnodup
  have htwice := hnodup.sublist (hpair.filterMap _)
  have hknown : (layout.reader? name).isSome = true := Option.isSome_iff_ne_none.mpr hname
  simp [hf, hg, Except.toOption, Option.filter, hknown] at htwice

theorem Assembles.refuses (h : layout.Assembles field read) (hinner : layout.InnerByName inner) :
    Refuses read (layout.Repeats inner) := by
  intro depth x a hrepeats hx
  obtain ⟨form, hform⟩ := h.ending depth x a hx
  cases hrepeats with
  | here hpair hf hg hname =>
    obtain ⟨-, -, -, named, htaken, hnodup, -⟩ :=
      parts_record_eq_ok_iff.mp (parts_eq_of_ending hform)
    exact htaken.nodup_of_pair hpair hf hg hname hnodup
  | inside hmem htext he hinside =>
    obtain ⟨-, -, -, named, htaken, -⟩ := parts_record_eq_ok_iff.mp (parts_eq_of_ending hform)
    obtain ⟨hknown, hinner⟩ := hinner _ he
    obtain ⟨read, hreader⟩ := Option.ne_none_iff_exists'.mp hknown
    obtain ⟨-, hrefuses⟩ := hinner read (mem_fields_of_reader? hreader)
    obtain ⟨part, hpart⟩ := htaken.reads _ hmem _ _ htext hreader
    exact hrefuses _ _ _ hinside hpart

theorem Assembles.byName (h : layout.Assembles field read) (hinner : layout.InnerByName inner) :
    ByName read (layout.Refielded inner) (layout.Repeats inner) where
  keeps := h.keeps hinner
  refuses := h.refuses hinner
  wellFormed depth x a hx := by
    obtain ⟨form, hform⟩ := h.ending depth x a hx
    exact wellFormed_of_parts (fun e he => (h.labels e he).readsWellFormed) hform

end Layout

end AttributeReview.Json
