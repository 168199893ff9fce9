import AttributeReview.Proofs.Json.Whole

/-!
# Trees and their tokens

The tokens of a well-formed tree, wherever it stands, are put together to that tree and no token
after them is touched. The other way round, a document whose value ends with its bracket has the
tokens of its tree and no others.
-/

namespace AttributeReview.Json

namespace Node

/-- Every bracket and every quoted text in the tree is closed, and nothing in it broke off. -/
inductive WellFormed : Node → Prop where
  | word (w : Word) : WellFormed (.word w)
  | numeral (n : Numeral) : WellFormed (.numeral n)
  | quoted {q : Quoted} : q.ending = .closed → WellFormed (.quoted q)
  | list {items : List Node} : (∀ item ∈ items, WellFormed item) → WellFormed (.list items .closed)
  | record {fields : List (Quoted × Node)} : (∀ f ∈ fields, f.1.ending = .closed) →
      (∀ f ∈ fields, WellFormed f.2) → WellFormed (.record fields .closed)

mutual

def tokens : Node → List Token
  | word w => [.word w]
  | numeral n => [.numeral n]
  | quoted q => [.quoted q]
  | broken b => [.broken b]
  | list items _ => .openList :: itemTokens true items ++ [.closeList]
  | record fields _ => .openRecord :: fieldTokens true fields ++ [.closeRecord]

def itemTokens (first : Bool) : List Node → List Token
  | [] => []
  | item :: rest => (if first then [] else [.comma]) ++ item.tokens ++ itemTokens false rest

def fieldTokens (first : Bool) : List (Quoted × Node) → List Token
  | [] => []
  | field :: rest =>
    (if first then [] else [.comma]) ++
      .quoted field.1 :: .colon :: field.2.tokens ++ fieldTokens false rest

end

end Node

/-! ## From the tokens to the tree -/

namespace State

variable {rest : List Token}

theorem run_take {state next : State} {token : Token} (h : state.take token = some next)
    (rest : List Token) : state.run (token :: rest) = next.run rest := by
  cases state with
  | done node => cases h
  | _ => rw [run, h]; rintro _ ⟨⟩

theorem run_inList {frames : List Frame} {items : List Node} {before : Before}
    (h : before ≠ .item) (node : Node) :
    (inList frames items before).run (node.tokens ++ rest) =
      (value (.list items :: frames)).run (node.tokens ++ rest) := by
  cases before with
  | item => exact absurd rfl h
  | bracket => cases node <;> rfl
  | comma => cases node <;> rfl

theorem take_key {frames : List Frame} {fields : List (Quoted × Node)} {before : Before}
    {key : Quoted} (h : before ≠ .item) :
    (inRecord frames fields before).take (.quoted key) = some (.colon frames fields key) := by
  cases before with
  | item => exact absurd rfl h
  | bracket => rfl
  | comma => rfl

def beforeItem (first : Bool) : Before := if first then .bracket else .item

end State

namespace Node

open State (deliver beforeItem)

mutual

theorem run_tokens {node : Node} (h : node.WellFormed) (frames : List Frame) (rest : List Token) :
    (State.value frames).run (node.tokens ++ rest) = (deliver node frames).run rest := by
  cases h with
  | word w => exact State.run_take rfl rest
  | numeral n => exact State.run_take rfl rest
  | quoted _ => exact State.run_take rfl rest
  | @list items hitems =>
    rw [tokens, List.cons_append, List.cons_append, State.run_take rfl, List.append_assoc]
    exact run_itemTokens items hitems true frames [] rest
  | @record fields _ hvalues =>
    rw [tokens, List.cons_append, List.cons_append, State.run_take rfl, List.append_assoc]
    exact run_fieldTokens fields hvalues true frames [] rest

theorem run_itemTokens (items : List Node) (h : ∀ item ∈ items, item.WellFormed) (first : Bool)
    (frames : List Frame) (before : List Node) (rest : List Token) :
    (State.inList frames before (beforeItem first)).run
        (itemTokens first items ++ ([.closeList] ++ rest)) =
      (deliver (.list (before.reverse ++ items) .closed) frames).run rest := by
  cases items with
  | nil =>
    rw [List.append_nil]
    cases first <;> exact State.run_take rfl rest
  | cons item items =>
    have hitem := run_tokens (h item List.mem_cons_self) (.list before :: frames)
      (itemTokens false items ++ ([.closeList] ++ rest))
    have hitems := run_itemTokens items (fun x hx => h x (List.mem_cons_of_mem item hx)) false
      frames (item :: before) rest
    have hreverse : (item :: before).reverse ++ items = before.reverse ++ item :: items := by simp
    rw [← hreverse, ← hitems, itemTokens, List.append_assoc, List.append_assoc]
    cases first with
    | true => exact (State.run_inList (by rintro ⟨⟩) item).trans hitem
    | false =>
      exact (State.run_take rfl _).trans ((State.run_inList (by rintro ⟨⟩) item).trans hitem)

theorem run_fieldTokens (fields : List (Quoted × Node)) (h : ∀ f ∈ fields, f.2.WellFormed)
    (first : Bool) (frames : List Frame) (before : List (Quoted × Node)) (rest : List Token) :
    (State.inRecord frames before (beforeItem first)).run
        (fieldTokens first fields ++ ([.closeRecord] ++ rest)) =
      (deliver (.record (before.reverse ++ fields) .closed) frames).run rest := by
  rcases fields with - | ⟨⟨key, node⟩, fields⟩
  · rw [List.append_nil]
    cases first <;> exact State.run_take rfl rest
  · have hnode : node.WellFormed := h (key, node) List.mem_cons_self
    have hvalue := run_tokens hnode (.record before key :: frames)
      (fieldTokens false fields ++ ([.closeRecord] ++ rest))
    have hfields := run_fieldTokens fields (fun f hf => h f (List.mem_cons_of_mem _ hf)) false
      frames ((key, node) :: before) rest
    have hkey {place : Before} (h : place ≠ .item) :
        (State.inRecord frames before place).run
            (.quoted key :: .colon :: (node.tokens ++
              (fieldTokens false fields ++ ([.closeRecord] ++ rest)))) =
          (deliver node (.record before key :: frames)).run
            (fieldTokens false fields ++ ([.closeRecord] ++ rest)) := by
      rw [State.run_take (State.take_key h), State.run_take rfl, hvalue]
    have hreverse : ((key, node) :: before).reverse ++ fields =
        before.reverse ++ (key, node) :: fields := by simp
    rw [← hreverse, ← hfields, fieldTokens, List.append_assoc, List.append_assoc,
      List.cons_append, List.cons_append]
    cases first with
    | true => exact hkey (by rintro ⟨⟩)
    | false => exact (State.run_take rfl _).trans (hkey (by rintro ⟨⟩))

end

end Node

/-! ## From the tree to the tokens -/

namespace Node

variable {xs : List Node} {fs : List (Quoted × Node)} {first : Bool}

/-- The comma that leads from some items to the next one. -/
def comma {α : Type} (first : Bool) (before : List α) : List Token :=
  if first && before.isEmpty then [] else [.comma]

theorem comma_reverse {α : Type} (as : List α) : comma first as.reverse = comma first as := by
  simp [comma]

theorem itemTokens_append (x : Node) :
    itemTokens first (xs ++ [x]) = itemTokens first xs ++ comma first xs ++ x.tokens := by
  induction xs generalizing first with
  | nil => cases first <;> simp [itemTokens, comma]
  | cons y ys ih => simp [itemTokens, ih, comma]

theorem fieldTokens_append (f : Quoted × Node) :
    fieldTokens first (fs ++ [f]) =
      fieldTokens first fs ++ comma first fs ++ .quoted f.1 :: .colon :: f.2.tokens := by
  induction fs generalizing first with
  | nil => cases first <;> simp [fieldTokens, comma]
  | cons g gs ih => simp [fieldTokens, ih, comma]

end Node

namespace State

open Node (itemTokens fieldTokens comma itemTokens_append fieldTokens_append)

/-- The tokens before the place that is due inside some brackets. -/
def before : List Frame → List Token
  | [] => []
  | .list items :: frames =>
    before frames ++ .openList :: itemTokens true items.reverse ++ comma true items
  | .record fields key :: frames =>
    before frames ++ .openRecord :: fieldTokens true fields.reverse ++ comma true fields ++
      [.quoted key, .colon]

/-- The tokens of what stands right before a place behind a bracket or an item. -/
def place : Before → List Token
  | .comma => [.comma]
  | _ => []

/-- The tokens that have been read. -/
def taken : State → List Token
  | value frames => before frames
  | inList frames items b => before frames ++ .openList :: itemTokens true items.reverse ++ place b
  | inRecord frames fields b =>
    before frames ++ .openRecord :: fieldTokens true fields.reverse ++ place b
  | colon frames fields key =>
    before frames ++ .openRecord :: fieldTokens true fields.reverse ++ comma true fields ++
      [.quoted key]
  | done node => node.tokens

/-- Nothing has been read inside a bracket just if the state is right behind it. -/
def Fits : State → Prop
  | inList _ items b => b = .bracket ↔ items = []
  | inRecord _ fields b => b = .bracket ↔ fields = []
  | _ => True

variable {state next : State} {node : Node} {frames : List Frame} {token : Token}
  {tokens rest : List Token}

theorem comma_eq_place {α : Type} {as : List α} {b : Before} (hfits : b = .bracket ↔ as = [])
    (hb : b ≠ .item) : comma true as = place b := by
  cases b with
  | item => exact absurd rfl hb
  | bracket => simp [hfits.mp rfl, comma, place]
  | comma =>
    cases as with
    | nil => cases hfits.mpr rfl
    | cons a as => rfl

theorem fits_deliver : (deliver node frames).Fits := by
  unfold deliver
  split <;> simp [Fits]

theorem taken_deliver : (deliver node frames).taken = before frames ++ node.tokens := by
  unfold deliver
  split
  · rfl
  · simp [taken, before, itemTokens_append, Node.comma_reverse, place]
  · simp [taken, before, fieldTokens_append, Node.comma_reverse, place]

theorem takeValue_taken (h : takeValue frames token = some next) :
    next.Fits ∧ next.taken = before frames ++ [token] := by
  unfold takeValue at h
  split at h <;> cases h
  · simp [Fits, taken, itemTokens, place]
  · simp [Fits, taken, fieldTokens, place]
  all_goals exact ⟨fits_deliver, taken_deliver⟩

theorem take_inList_taken {items : List Node} {b : Before} (hfits : (inList frames items b).Fits)
    (h : (inList frames items b).take token = some next) :
    next.Fits ∧ next.taken = (inList frames items b).taken ++ [token] := by
  have hvalue (hb : b ≠ .item) (htake : takeValue (.list items :: frames) token = some next) :
      next.Fits ∧ next.taken = (inList frames items b).taken ++ [token] := by
    obtain ⟨hnext, htaken⟩ := takeValue_taken htake
    rw [htaken, before, comma_eq_place hfits hb]
    exact ⟨hnext, rfl⟩
  have hclose (hb : b ≠ .comma) (hnext : closeList frames items .closed = next) :
      next.Fits ∧ next.taken = (inList frames items b).taken ++ [.closeList] := by
    subst hnext
    refine ⟨fits_deliver, ?_⟩
    rw [closeList, taken_deliver]
    cases b <;> simp_all [taken, place, Node.tokens]
  cases b with
  | bracket =>
    cases token <;> first
      | exact hclose (by rintro ⟨⟩) (Option.some.inj h)
      | exact hvalue (by rintro ⟨⟩) h
  | comma => cases token <;> exact hvalue (by rintro ⟨⟩) h
  | item =>
    cases token <;> cases h
    · exact hclose (by rintro ⟨⟩) rfl
    · simp_all [Fits, taken, place]

theorem take_inRecord_taken {fields : List (Quoted × Node)} {b : Before}
    (hfits : (inRecord frames fields b).Fits)
    (h : (inRecord frames fields b).take token = some next) :
    next.Fits ∧ next.taken = (inRecord frames fields b).taken ++ [token] := by
  have hclose (hb : b ≠ .comma) (hnext : closeRecord frames fields .closed = next) :
      next.Fits ∧ next.taken = (inRecord frames fields b).taken ++ [.closeRecord] := by
    subst hnext
    refine ⟨fits_deliver, ?_⟩
    rw [closeRecord, taken_deliver]
    cases b <;> simp_all [taken, place, Node.tokens]
  have hkey {key : Quoted} (hb : b ≠ .item) (hnext : .colon frames fields key = next) :
      next.Fits ∧ next.taken = (inRecord frames fields b).taken ++ [.quoted key] := by
    subst hnext
    rw [taken, taken, comma_eq_place hfits hb]
    exact ⟨trivial, rfl⟩
  cases b with
  | bracket =>
    cases token <;> cases h
    · exact hclose (by rintro ⟨⟩) rfl
    · exact hkey (by rintro ⟨⟩) rfl
  | comma =>
    cases token <;> cases h
    exact hkey (by rintro ⟨⟩) rfl
  | item =>
    cases token <;> cases h
    · exact hclose (by rintro ⟨⟩) rfl
    · simp_all [Fits, taken, place]

theorem take_taken (hfits : state.Fits) (h : state.take token = some next) :
    next.Fits ∧ next.taken = state.taken ++ [token] := by
  cases state with
  | value frames => exact takeValue_taken h
  | inList frames items b => exact take_inList_taken hfits h
  | inRecord frames fields b => exact take_inRecord_taken hfits h
  | colon frames fields key =>
    cases token <;> cases h
    simp [Fits, taken, before]
  | done node => cases h

/-- What has been read when a value ends with its bracket are the tokens of its tree. -/
theorem tokens_of_run (hfits : state.Fits) (h : state.run tokens = (node, rest))
    (hnode : node.isClosed = true) : state.taken ++ tokens = node.tokens ++ rest := by
  induction tokens generalizing state with
  | nil =>
    by_cases hdone : ∃ node, state = .done node
    · obtain ⟨node, rfl⟩ := hdone
      rw [run_done] at h
      cases h
      rfl
    · have hdone := not_exists.mp hdone
      rw [run_nil hdone] at h
      cases h
      rw [finish_open hdone] at hnode
      cases hnode
  | cons token tokens ih =>
    by_cases hdone : ∃ node, state = .done node
    · obtain ⟨node, rfl⟩ := hdone
      rw [run_done] at h
      cases h
      rfl
    · have hdone := not_exists.mp hdone
      rw [run_cons hdone] at h
      cases htake : state.take token with
      | none =>
        simp only [htake] at h
        cases h
        rw [refuse_open hdone] at hnode
        cases hnode
      | some next =>
        simp only [htake] at h
        obtain ⟨hnext, htaken⟩ := take_taken hfits htake
        rw [← ih hnext h, htaken, List.append_assoc, List.singleton_append]

end State

/-! ## Documents -/

namespace Document

variable {α : Type} {f : Node → Except Fault α} {content : List UInt8} {a : α} {node : Node}

/-- The bytes spell the tree, token by token, with any blanks between them. -/
def Spells (content : List UInt8) (node : Node) : Prop := Token.all content = node.tokens

theorem ofBytes_of_spells (h : node.WellFormed) (hspells : Spells content node) :
    ofBytes content = ⟨node, false⟩ := by
  have hrun := Node.run_tokens h [] []
  rw [List.append_nil] at hrun
  rw [ofBytes, hspells, hrun]
  rfl

theorem spells_of_decode (hf : ReadsClosed f) (h : decode f content = .ok a) :
    Spells content (ofBytes content).root := by
  -- A list or a record has come to its end with its bracket, so no token is left over.
  obtain ⟨hread, hend⟩ := whole_eq_ok_iff.mp h
  have hstart : (State.value []).Fits := trivial
  have htokens := State.tokens_of_run hstart (run_of_trailing hend) (hf _ _ hread)
  rw [List.append_nil] at htokens
  exact htokens

end Document

/-! ## Values that are checked -/

theorem TextEnd.check_eq_ok_iff {ending : TextEnd} : ending.check = .ok () ↔ ending = .closed := by
  cases ending <;> simp [check]

namespace Quoted

variable {q : Quoted} {s : String}

theorem closed_of_bytes {ending : TextEnd} {pieces : List Piece} {spelled : List UInt8}
    (h : bytes ending pieces = .ok spelled) : ending = .closed := by
  fun_induction bytes ending pieces generalizing spelled with
  | case1 =>
    obtain ⟨_, hend, -⟩ := bind_eq_ok_iff.mp h
    exact TextEnd.check_eq_ok_iff.mp hend
  | case2 _ _ ih | case4 _ _ _ _ _ _ ih | case8 _ _ _ _ ih =>
    obtain ⟨_, hrest, -⟩ := bind_eq_ok_iff.mp h
    exact ih hrest
  | _ => cases h

theorem closed_of_text (h : q.text = .ok s) : q.ending = .closed := by
  obtain ⟨_, hbytes, -⟩ := bind_eq_ok_iff.mp h
  exact closed_of_bytes hbytes

theorem closed_of_checkIn {mode : Mode} (h : q.checkIn mode = .ok ()) : q.ending = .closed := by
  cases mode with
  | read =>
    obtain ⟨_, htext, -⟩ := bind_eq_ok_iff.mp h
    exact closed_of_text htext
  | pass => exact TextEnd.check_eq_ok_iff.mp h

end Quoted

namespace Node

variable {mode : Mode} {depth : Nat} {node : Node}

theorem checkItems_eq_ok_iff {items : List Node} :
    checkItems mode depth items = .ok () ↔ ∀ item ∈ items, item.check mode depth = .ok () := by
  induction items with
  | nil => simp [checkItems]
  | cons item rest ih => simp [checkItems, bind_unit_eq_ok_iff, ih]

theorem checkFields_eq_ok_iff {fields : List (Quoted × Node)} :
    checkFields mode depth fields = .ok () ↔
      ∀ f ∈ fields, f.1.checkIn mode = .ok () ∧ f.2.check mode depth = .ok () := by
  induction fields with
  | nil => simp [checkFields]
  | cons f rest ih => simp [checkFields, bind_unit_eq_ok_iff, ih, and_assoc]

theorem WellFormed.check_pass (h : node.WellFormed) (depth : Nat) :
    node.check .pass depth = .ok () := by
  have hopen (depth : Nat) : openBracket .pass depth = .ok () := by simp [openBracket]
  induction h generalizing depth with
  | word | numeral => rfl
  | quoted hq => exact TextEnd.check_eq_ok_iff.mpr hq
  | @list items _ ih =>
    have hitems := checkItems_eq_ok_iff.mpr fun item hmem => ih item hmem (depth + 1)
    simp only [check, hopen, hitems]
    rfl
  | @record fields hkeys _ ih =>
    have hfields : checkFields .pass (depth + 1) fields = .ok () := by
      rw [checkFields_eq_ok_iff]
      exact fun f hmem => ⟨TextEnd.check_eq_ok_iff.mpr (hkeys f hmem), ih f hmem (depth + 1)⟩
    simp only [check, hopen, hfields]
    rfl

theorem wellFormed_of_check {node : Node} {depth : Nat} (h : node.check mode depth = .ok ()) :
    node.WellFormed := by
  cases node with
  | word w => exact .word w
  | numeral n => exact .numeral n
  | quoted q => exact .quoted (Quoted.closed_of_checkIn h)
  | broken b => cases h
  | list items ending =>
    simp only [check, bind_unit_eq_ok_iff, checkItems_eq_ok_iff] at h
    obtain ⟨-, hitems, hending⟩ := h
    obtain rfl := Ending.checkList_eq_ok hending
    exact .list fun item hmem => wellFormed_of_check (hitems item hmem)
  | record fields ending =>
    simp only [check, bind_unit_eq_ok_iff, checkFields_eq_ok_iff] at h
    obtain ⟨-, hfields, hending⟩ := h
    obtain rfl := Ending.checkRecord_eq_ok hending
    refine .record (fun f hmem => Quoted.closed_of_checkIn (hfields f hmem).1) fun f hmem => ?_
    exact wellFormed_of_check (hfields f hmem).2
termination_by node
decreasing_by
  · have := List.sizeOf_lt_of_mem hmem
    simp_all
    omega
  · have := List.sizeOf_lt_of_mem hmem
    have : sizeOf f.2 < sizeOf f := by
      obtain ⟨name, value⟩ := f
      change sizeOf value < sizeOf (name, value)
      rw [Prod.mk.sizeOf_spec]
      omega
    simp_all
    omega

end Node

end AttributeReview.Json
