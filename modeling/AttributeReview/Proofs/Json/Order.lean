import AttributeReview.Json.Fields
import AttributeReview.Proofs.Outcome
import Mathlib.Data.List.Perm.Basic

/-!
# Values in another order

What is read of a list or a map whose items come in another order is the same up to that order. A
record is read alike from trees that agree field by field, where the values of a field may differ
as long as the same comes of them.
-/

namespace AttributeReview.Json

/-- A list or a record with its items in another order. -/
inductive Node.Shuffled : Node → Node → Prop where
  | list {xs ys : List Node} {ending : Ending} : xs.Perm ys →
      Shuffled (.list xs ending) (.list ys ending)
  | record {xs ys : List (Quoted × Node)} {ending : Ending} : xs.Perm ys →
      Shuffled (.record xs ending) (.record ys ending)

namespace Node

variable {α : Type} {read : Node → Except Fault α}

theorem itemsWith_eq_ok_iff {items : List Node} {as : List α} :
    itemsWith read items = .ok as ↔ List.Forall₂ (fun item a => read item = .ok a) items as := by
  induction items generalizing as with
  | nil => cases as <;> simp [itemsWith]
  | cons item rest ih =>
    simp only [itemsWith, bind_eq_ok_iff, ih, List.forall₂_cons_left_iff]
    constructor
    · rintro ⟨a, ha, as, has, ⟨⟩⟩
      exact ⟨a, as, ha, has, rfl⟩
    · rintro ⟨a, as, ha, has, rfl⟩
      exact ⟨a, ha, as, has, rfl⟩

theorem entriesWith_eq_ok_iff {fields : List (Quoted × Node)} {as : List (String × α)} :
    entriesWith read fields = .ok as ↔
      List.Forall₂ (fun f a => f.1.text = .ok a.1 ∧ read f.2 = .ok a.2) fields as := by
  induction fields generalizing as with
  | nil => cases as <;> simp [entriesWith]
  | cons f rest ih =>
    simp only [entriesWith, bind_eq_ok_iff, ih, List.forall₂_cons_left_iff]
    constructor
    · rintro ⟨key, hkey, a, ha, as, has, ⟨⟩⟩
      exact ⟨(key, a), as, ⟨hkey, ha⟩, has, rfl⟩
    · rintro ⟨⟨key, a⟩, as, ⟨hkey, ha⟩, has, rfl⟩
      exact ⟨key, hkey, a, ha, as, has, rfl⟩

variable {read : Nat → Node → Except Fault α} {depth : Nat} {x y : Node}

theorem items_shuffled (h : Shuffled x y) {as : List α} (hx : items read depth x = .ok as) :
    ∃ bs, items read depth y = .ok bs ∧ as.Perm bs := by
  cases h with
  | record hperm =>
    simp only [items, bind_eq_ok_iff] at hx
    obtain ⟨_, -, hfault⟩ := hx
    cases hfault
  | list hperm =>
    simp only [items, bind_eq_ok_iff, itemsWith_eq_ok_iff] at hx ⊢
    obtain ⟨opened, hopen, as, has, closed, hclosed, ⟨⟩⟩ := hx
    obtain ⟨bs, hbs, hsame⟩ := List.perm_comp_forall₂ hperm.symm has
    exact ⟨bs, ⟨opened, hopen, bs, hbs, closed, hclosed, rfl⟩, hsame.symm⟩

theorem entries_shuffled (h : Shuffled x y) {as : List (String × α)}
    (hx : entries read depth x = .ok as) : ∃ bs, entries read depth y = .ok bs ∧ as.Perm bs := by
  cases h with
  | list hperm =>
    simp only [entries, bind_eq_ok_iff] at hx
    obtain ⟨_, -, hfault⟩ := hx
    cases hfault
  | record hperm =>
    simp only [entries, bind_eq_ok_iff, entriesWith_eq_ok_iff] at hx ⊢
    obtain ⟨opened, hopen, as, has, closed, hclosed, ⟨⟩⟩ := hx
    obtain ⟨bs, hbs, hsame⟩ := List.perm_comp_forall₂ hperm.symm has
    exact ⟨bs, ⟨opened, hopen, bs, hbs, closed, hclosed, rfl⟩, hsame.symm⟩

end Node

namespace Layout

/-! ## Records, field by field -/

/-- Items that stand for fields of the given names and are related, each to the one at its place. -/
inductive ItemsAlike (R : String → Node → Node → Prop) :
    List String → List Node → List Node → Prop where
  | nil {names : List String} : ItemsAlike R names [] []
  | cons {name : String} {names : List String} {x y : Node} {xs ys : List Node} :
      R name x y → ItemsAlike R names xs ys → ItemsAlike R (name :: names) (x :: xs) (y :: ys)

variable {δ : Type}

/-- Trees of a record with the same fields, of which the values are related. -/
inductive Alike (layout : Layout δ) (R : String → Node → Node → Prop) : Node → Node → Prop where
  | record {fs gs : List (Quoted × Node)} {ending : Ending} :
      List.Forall₂ (fun f g => f.1 = g.1 ∧ ∀ name, f.1.text = .ok name → R name f.2 g.2) fs gs →
      Alike layout R (.record fs ending) (.record gs ending)
  | list {xs ys : List Node} {ending : Ending} :
      ItemsAlike R (layout.fields.map (·.1)) xs ys →
      Alike layout R (.list xs ending) (.list ys ending)

/-- From related values of a field related parts are read; related values of no field are passed
over alike. -/
structure Respects (layout : Layout δ) (R : String → Node → Node → Prop) (S : δ → δ → Prop) :
    Prop where
  read : ∀ name read, (name, read) ∈ layout.fields → ∀ x y depth part, R name x y →
    read depth x = .ok part → ∃ part', read depth y = .ok part' ∧ S part part'
  pass : ∀ name, layout.reader? name = none → ∀ x y depth, R name x y →
    x.check .pass depth = .ok () → y.check .pass depth = .ok ()

variable {layout : Layout δ} {R : String → Node → Node → Prop} {S : δ → δ → Prop} {depth : Nat}

theorem mem_fields_of_reader? {name : String} {read : Nat → Node → Except Fault δ}
    (h : layout.reader? name = some read) : (name, read) ∈ layout.fields := by
  obtain ⟨before, after, hsplit, -⟩ := List.lookup_eq_some_iff.mp h
  rw [hsplit]
  simp

theorem ofFields_alike (hrespects : layout.Respects R S) {fs gs : List (Quoted × Node)}
    (h : List.Forall₂ (fun f g => f.1 = g.1 ∧ ∀ name, f.1.text = .ok name → R name f.2 g.2) fs gs)
    {seen : List String} (hfs : (layout.ofFields depth seen fs).2 = .ok ()) :
    (layout.ofFields depth seen gs).2 = .ok () ∧
      List.Forall₂ S (layout.ofFields depth seen fs).1 (layout.ofFields depth seen gs).1 := by
  induction h generalizing seen with
  | nil => exact ⟨rfl, .nil⟩
  | @cons f g fs gs hfg _ ih =>
    obtain ⟨hkey, hvalue⟩ := hfg
    rw [ofFields] at hfs
    rw [ofFields, ofFields, ← hkey]
    cases htext : f.1.text with
    | error fault => simp [htext] at hfs
    | ok name =>
      have hR := hvalue name htext
      simp only [htext] at hfs ⊢
      cases hreader : layout.reader? name with
      | none =>
        simp only [hreader] at hfs ⊢
        cases hcheck : f.2.check .pass depth with
        | error fault => simp [hcheck] at hfs
        | ok passed =>
          simp only [hcheck] at hfs ⊢
          rw [hrespects.pass name hreader f.2 g.2 depth hR hcheck]
          exact ih hfs
      | some read =>
        simp only [hreader] at hfs ⊢
        by_cases hseen : seen.contains name = true
        · simp only [hseen, if_true] at hfs
          cases hfs
        · simp only [hseen, Bool.false_eq_true, if_false] at hfs ⊢
          cases hread : read depth f.2 with
          | error fault => simp [hread] at hfs
          | ok part =>
            simp only [hread] at hfs ⊢
            have hmem := mem_fields_of_reader? hreader
            obtain ⟨part', hpart', hS⟩ :=
              hrespects.read name read hmem f.2 g.2 depth part hR hread
            simp only [hpart']
            obtain ⟨hok, hparts⟩ := ih hfs
            exact ⟨hok, .cons hS hparts⟩

theorem ofItems_alike (hrespects : layout.Respects R S) {ending : Ending}
    {readers : List (String × (Nat → Node → Except Fault δ))}
    (hreaders : ∀ reader ∈ readers, reader ∈ layout.fields) {xs ys : List Node}
    (h : ItemsAlike R (readers.map (·.1)) xs ys)
    (hxs : (ofItems depth ending readers xs).2 = .ok ()) :
    (ofItems depth ending readers ys).2 = .ok () ∧
      List.Forall₂ S (ofItems depth ending readers xs).1 (ofItems depth ending readers ys).1 := by
  induction readers generalizing xs ys with
  | nil =>
    cases h
    exact ⟨hxs, .nil⟩
  | cons reader readers ih =>
    cases h with
    | nil => exact ⟨hxs, .nil⟩
    | @cons _ _ x y xs ys hR hrest =>
      obtain ⟨name, read⟩ := reader
      rw [ofItems] at hxs
      rw [ofItems, ofItems]
      cases hread : read depth x with
      | error fault => simp [hread] at hxs
      | ok part =>
        simp only [hread] at hxs ⊢
        have hmem := hreaders (name, read) List.mem_cons_self
        obtain ⟨part', hpart', hS⟩ := hrespects.read name read hmem x y depth part hR hread
        simp only [hpart']
        have hlater : ∀ reader ∈ readers, reader ∈ layout.fields :=
          fun reader hreader => hreaders reader (List.mem_cons_of_mem _ hreader)
        obtain ⟨hok, hparts⟩ := ih hlater hrest hxs
        exact ⟨hok, .cons hS hparts⟩

theorem ItemsAlike.length_eq {names : List String} {xs ys : List Node}
    (h : ItemsAlike R names xs ys) : xs.length = ys.length := by
  induction h with
  | nil => rfl
  | cons _ _ ih => simp [ih]

theorem parts_alike (hrespects : layout.Respects R S) {x y : Node} (h : layout.Alike R x y)
    {form : Form} (hx : (layout.parts depth x).ending = .ok form) :
    (layout.parts depth y).ending = .ok form ∧
      List.Forall₂ S (layout.parts depth x).parts (layout.parts depth y).parts := by
  cases h with
  | record hfields =>
    unfold parts at hx ⊢
    cases hopen : openBracket .read depth with
    | error fault => simp [hopen] at hx
    | ok opened =>
      simp only [hopen, bind_eq_ok_iff] at hx ⊢
      obtain ⟨_, hread, _, hclosed, hform⟩ := hx
      obtain ⟨hok, hparts⟩ := ofFields_alike hrespects hfields hread
      exact ⟨⟨_, hok, _, hclosed, hform⟩, hparts⟩
  | list hitems =>
    unfold parts at hx ⊢
    cases hopen : openBracket .read depth with
    | error fault => simp [hopen] at hx
    | ok opened =>
      simp only [hopen, bind_eq_ok_iff, hitems.length_eq] at hx ⊢
      obtain ⟨_, hread, hform⟩ := hx
      obtain ⟨hok, hparts⟩ := ofItems_alike hrespects (fun _ h => h) hitems hread
      exact ⟨⟨_, hok, hform⟩, hparts⟩

/-! ## Fields in which the order may differ -/

/-- The same value or, in a field of one of the names, the same with its items in another order. -/
def Reorders (names : List String) (name : String) (x y : Node) : Prop :=
  x = y ∨ name ∈ names ∧ x.Shuffled y

theorem respects_reorders {names : List String}
    (hnames : ∀ name ∈ names, layout.reader? name ≠ none) (hrefl : ∀ part, S part part)
    (hread : ∀ name ∈ names, ∀ read, (name, read) ∈ layout.fields → ∀ x y depth part,
      x.Shuffled y → read depth x = .ok part → ∃ part', read depth y = .ok part' ∧ S part part') :
    layout.Respects (Reorders names) S := by
  constructor
  · rintro name read hmem x y depth part (rfl | ⟨hname, hxy⟩) hx
    · exact ⟨part, hx, hrefl part⟩
    · exact hread name hname read hmem x y depth part hxy hx
  · rintro name hreader x y depth (rfl | ⟨hname, -⟩) hx
    · exact hx
    · exact absurd hreader (hnames name hname)

theorem reorders_symm (names : List String) (name : String) (x y : Node)
    (h : Reorders names name x y) : Reorders names name y x := by
  rcases h with rfl | ⟨hname, hxy⟩
  · exact Or.inl rfl
  · refine Or.inr ⟨hname, ?_⟩
    cases hxy with
    | list hperm => exact .list hperm.symm
    | record hperm => exact .record hperm.symm

theorem ItemsAlike.symm (hR : ∀ name x y, R name x y → R name y x) {names : List String}
    {xs ys : List Node} (h : ItemsAlike R names xs ys) : ItemsAlike R names ys xs := by
  induction h with
  | nil => exact .nil
  | cons hxy _ ih => exact .cons (hR _ _ _ hxy) ih

theorem Alike.symm (hR : ∀ name x y, R name x y → R name y x) {x y : Node}
    (h : layout.Alike R x y) : layout.Alike R y x := by
  cases h with
  | list hitems => exact .list (hitems.symm hR)
  | record hfields =>
    refine .record (List.Forall₂.flip (hfields.imp ?_))
    rintro f g ⟨hkey, hvalue⟩
    refine ⟨hkey.symm, fun name htext => ?_⟩
    rw [← hkey] at htext
    exact hR _ _ _ (hvalue name htext)

/-! ## Parts of a record -/

theorem findSome?_alike {α : Type} {T : α → α → Prop} {part? : δ → Option α}
    (hpart : ∀ p q, S p q → Option.Rel T (part? p) (part? q)) {ps qs : List δ}
    (h : List.Forall₂ S ps qs) : Option.Rel T (ps.findSome? part?) (qs.findSome? part?) := by
  induction h with
  | nil => exact .none
  | @cons p q _ _ hS _ ih =>
    rw [List.findSome?_cons, List.findSome?_cons]
    have hfirst := hpart p q hS
    generalize part? p = a at hfirst ⊢
    generalize part? q = b at hfirst ⊢
    cases hfirst with
    | some hab => exact .some hab
    | none => exact ih

theorem findSome?_eq_of_alike {α : Type} {part? : δ → Option α}
    (hpart : ∀ p q, S p q → part? p = part? q) {ps qs : List δ} (h : List.Forall₂ S ps qs) :
    ps.findSome? part? = qs.findSome? part? := by
  induction h with
  | nil => rfl
  | cons hS _ ih => rw [List.findSome?_cons, List.findSome?_cons, hpart _ _ hS, ih]

theorem findSome?_getD_perm {α : Type} {part? : δ → Option (List α)}
    (hpart : ∀ p q, S p q → Option.Rel List.Perm (part? p) (part? q)) {ps qs : List δ}
    (h : List.Forall₂ S ps qs) :
    ((ps.findSome? part?).getD []).Perm ((qs.findSome? part?).getD []) := by
  have hrel := findSome?_alike hpart h
  generalize ps.findSome? part? = as at hrel ⊢
  generalize qs.findSome? part? = bs at hrel ⊢
  cases hrel with
  | none => exact .nil
  | some hab => exact hab

theorem require_eq_ok_iff {α : Type} {field : String} {form : Form} {parts : List δ}
    {part? : δ → Option α} {a : α} :
    layout.require field form parts part? = .ok a ↔ parts.findSome? part? = some a := by
  unfold require
  cases parts.findSome? part? <;> simp

end Layout

end AttributeReview.Json
