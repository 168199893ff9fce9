import AttributeReview.Json.Fields
import AttributeReview.Proofs.Json.Scan
import AttributeReview.Proofs.Outcome

/-!
# Whole documents

A document that is a list or a record is read to its closing bracket: cut off before it, it is
neither, and what follows it is left over.
-/

namespace AttributeReview.Json

/-! ## Trees of tokens and of more tokens -/

namespace Node

/-- The node is a list or a record that ends with its bracket. -/
def isClosed : Node → Bool
  | list _ .closed | record _ .closed => true
  | _ => false

end Node

namespace State

variable {state : State} {node : Node} {frames : List Frame} {token : Token} {tokens : List Token}

theorem abandon_open (h : node.isClosed = false) : (abandon node frames).isClosed = false := by
  induction frames generalizing node with
  | nil => exact h
  | cons frame frames ih =>
    cases frame with
    | list items => exact ih rfl
    | record fields key => exact ih rfl

theorem finish_open (h : ∀ node, state ≠ .done node) : state.finish.isClosed = false := by
  -- Every place but the end of the value gives up what is open around it.
  cases state with
  | done node => exact absurd rfl (h node)
  | value frames => exact abandon_open rfl
  | inList frames items before => cases before <;> exact abandon_open rfl
  | inRecord frames fields before => cases before <;> exact abandon_open rfl
  | colon frames fields key => exact abandon_open rfl

theorem refuse_open (h : ∀ node, state ≠ .done node) (token : Token) :
    (state.refuse token).isClosed = false := by
  unfold refuse
  split <;> first | exact abandon_open rfl | exact absurd rfl (h _)

theorem deliver_eq_done {x : Node} (h : deliver x frames = .done node) : x = node := by
  unfold deliver at h
  split at h <;> cases h
  rfl

theorem takeValue_done (h : takeValue frames token = some (.done node)) :
    node.isClosed = false := by
  cases token with
  | word _ | numeral _ | quoted _ | broken _ =>
    obtain rfl := deliver_eq_done (Option.some.inj h)
    rfl
  | _ => cases h

theorem closes_of_take (h : state.take token = some (.done node)) (hnode : node.isClosed = true) :
    token.closes = true := by
  have hvalue {frames : List Frame} (htake : takeValue frames token = some (.done node)) :
      False := by
    rw [takeValue_done htake] at hnode
    cases hnode
  unfold take at h
  split at h <;> first | rfl | cases h | exact (hvalue h).elim

theorem run_cons {state : State} (h : ∀ node, state ≠ .done node) (token : Token)
    (tokens : List Token) :
    state.run (token :: tokens) =
      match state.take token with
      | some next => next.run tokens
      | none => (state.refuse token, []) := by
  cases state with
  | done node => exact absurd rfl (h node)
  | _ => rfl

theorem run_nil {state : State} (h : ∀ node, state ≠ .done node) :
    state.run [] = (state.finish, []) := by
  cases state with
  | done node => exact absurd rfl (h node)
  | _ => rfl

theorem run_done (node : Node) (tokens : List Token) : (done node).run tokens = (node, tokens) := by
  rw [run]

/-- A list or a record that has been read to its closing bracket is read alike, whatever comes
after it. -/
theorem run_append (h : (state.run tokens).1.isClosed = true) (more : List Token) :
    state.run (tokens ++ more) = ((state.run tokens).1, (state.run tokens).2 ++ more) := by
  induction tokens generalizing state with
  | nil =>
    by_cases hdone : ∃ node, state = .done node
    · obtain ⟨node, rfl⟩ := hdone
      rw [run_done, run_done, List.nil_append]
    · have hdone := not_exists.mp hdone
      rw [run_nil hdone, finish_open hdone] at h
      cases h
  | cons token tokens ih =>
    by_cases hdone : ∃ node, state = .done node
    · obtain ⟨node, rfl⟩ := hdone
      rw [run_done, run_done]
    · have hdone := not_exists.mp hdone
      rw [List.cons_append, run_cons hdone]
      rw [run_cons hdone] at h ⊢
      cases htake : state.take token with
      | none =>
        simp only [htake, refuse_open hdone] at h
        cases h
      | some next =>
        simp only [htake] at h ⊢
        exact ih h

theorem closes_of_run (hdone : ∀ node, state ≠ .done node) (h : state.run tokens = (node, []))
    (hnode : node.isClosed = true) :
    ∃ token, tokens.getLast? = some token ∧ token.closes = true := by
  induction tokens generalizing state with
  | nil =>
    rw [run_nil hdone] at h
    cases h
    rw [finish_open hdone] at hnode
    cases hnode
  | cons token tokens ih =>
    rw [run_cons hdone] at h
    cases htake : state.take token with
    | none =>
      simp only [htake] at h
      cases h
      rw [refuse_open hdone] at hnode
      cases hnode
    | some next =>
      simp only [htake] at h
      by_cases hnext : ∃ node, next = .done node
      · obtain ⟨last, rfl⟩ := hnext
        rw [run_done] at h
        cases h
        exact ⟨token, rfl, closes_of_take htake hnode⟩
      · obtain ⟨last, hlast, hcloses⟩ := ih (not_exists.mp hnext) h
        refine ⟨last, ?_, hcloses⟩
        rw [List.getLast?_cons, hlast, Option.getD_some]

end State

/-! ## Readers of records -/

theorem Ending.checkList_eq_ok {mode : Mode} {ending : Ending}
    (h : ending.checkList mode = .ok ()) : ending = .closed := by
  cases ending <;> first | rfl | cases h

theorem Ending.checkRecord_eq_ok {mode : Mode} {ending : Ending}
    (h : ending.checkRecord mode = .ok ()) : ending = .closed := by
  cases ending <;> first | rfl | cases h

namespace Layout

variable {δ : Type} {layout : Layout δ} {depth : Nat} {node : Node} {form : Form}

theorem closed_of_ofItems {ending : Ending}
    {readers : List (String × (Nat → Node → Except Fault δ))} {items : List Node}
    (h : (ofItems depth ending readers items).2 = .ok ()) : ending = .closed := by
  fun_induction ofItems depth ending readers items with
  | case1 =>
    cases ending with
    | closed => rfl
    | _ => cases h
  | case2 => cases h
  | case3 => exact Ending.checkList_eq_ok h
  | case4 => cases h
  | case5 _ _ _ _ _ _ _ _ _ hrest ih =>
    rw [hrest] at ih
    exact ih h

theorem closed_of_parts (h : (layout.parts depth node).ending = .ok form) :
    node.isClosed = true := by
  unfold parts at h
  split at h
  next fields ending =>
    split at h
    · cases h
    · simp only [bind_eq_ok_iff] at h
      obtain ⟨_, -, _, hending, -⟩ := h
      obtain rfl := Ending.checkRecord_eq_ok hending
      rfl
  next items ending =>
    split at h
    · cases h
    · simp only [bind_eq_ok_iff] at h
      obtain ⟨_, hitems, -⟩ := h
      obtain rfl := closed_of_ofItems hitems
      rfl
  next =>
    simp only [bind_eq_ok_iff] at h
    obtain ⟨_, -, hother⟩ := h
    cases hother

theorem closed_of_bind {α : Type} {f : Form → Except Fault α} {a : α}
    (h : (layout.parts depth node).ending >>= f = .ok a) : node.isClosed = true := by
  obtain ⟨form, hform, -⟩ := bind_eq_ok_iff.mp h
  exact closed_of_parts hform

end Layout

/-! ## Documents and longer documents -/

namespace Document

variable {content : List UInt8}

theorem run_of_trailing (h : (ofBytes content).trailing = false) :
    (State.value []).run (Token.all content) = ((ofBytes content).root, []) := by
  have hrest : ((State.value []).run (Token.all content)).2 = [] := by simpa [ofBytes] using h
  exact Prod.ext rfl hrest

theorem last_closes (hroot : (ofBytes content).root.isClosed = true)
    (hend : (ofBytes content).trailing = false) :
    ∃ token, (Token.all content).getLast? = some token ∧ token.closes = true :=
  State.closes_of_run (by rintro _ ⟨⟩) (run_of_trailing hend) hroot

theorem ofBytes_append (hroot : (ofBytes content).root.isClosed = true)
    (hend : (ofBytes content).trailing = false) (more : List UInt8) :
    ofBytes (content ++ more) = ⟨(ofBytes content).root, !(Token.all more).isEmpty⟩ := by
  obtain ⟨token, hlast, htoken⟩ := last_closes hroot hend
  have hrun := State.run_append hroot (Token.all more)
  rw [run_of_trailing hend, List.nil_append] at hrun
  rw [ofBytes, Token.all_append hlast htoken, hrun]

variable {α : Type} {f : Node → Except Fault α} {blanks : List UInt8} {a : α}

theorem whole_eq_ok_iff {d : Document} {value : Except Fault α} :
    d.whole value = .ok a ↔ value = .ok a ∧ d.trailing = false := by
  unfold whole
  cases value <;> cases d.trailing <;> simp [bind, Except.bind]

/-- What a reader of nodes makes of some bytes. -/
def decode (f : Node → Except Fault α) (content : List UInt8) : Except Fault α :=
  (ofBytes content).whole (f (ofBytes content).root)

/-- The reader takes lists and records only, each with its closing bracket. -/
def ReadsClosed (f : Node → Except Fault α) : Prop :=
  ∀ node a, f node = .ok a → node.isClosed = true

theorem decode_append (hf : ReadsClosed f) (h : decode f content = .ok a) (more : List UInt8) :
    decode f (content ++ more) =
      if (Token.all more).isEmpty then .ok a else .error .trailingCharacters := by
  obtain ⟨hread, hend⟩ := whole_eq_ok_iff.mp h
  rw [decode, ofBytes_append (hf _ _ hread) hend, whole, hread]
  cases (Token.all more).isEmpty <;> rfl

theorem decode_blanks (hf : ReadsClosed f) (h : decode f content = .ok a)
    (hblanks : ∀ b ∈ blanks, Token.isBlank b = true) : decode f (content ++ blanks) = .ok a := by
  rw [decode_append hf h, Token.all_eq_nil_iff.mpr hblanks]
  rfl

theorem decode_more (hf : ReadsClosed f) (h : decode f content = .ok a) {more : List UInt8}
    (hmore : ∃ b ∈ more, Token.isBlank b = false) :
    decode f (content ++ more) = .error .trailingCharacters := by
  rw [decode_append hf h, if_neg]
  obtain ⟨b, hmem, hb⟩ := hmore
  rw [List.isEmpty_iff, Token.all_eq_nil_iff]
  intro hblanks
  rw [hblanks b hmem] at hb
  cases hb

theorem decode_cut (hf : ReadsClosed f) {cut rest : List UInt8}
    (h : decode f (cut ++ rest) = .ok a) (hrest : ∃ b ∈ rest, Token.isBlank b = false) :
    ∃ fault, decode f cut = .error fault := by
  cases hcut : decode f cut with
  | error fault => exact ⟨fault, rfl⟩
  | ok b =>
    rw [decode_more hf hcut hrest] at h
    cases h

theorem decode_last (hf : ReadsClosed f) (h : decode f content = .ok a) :
    ∃ body bracket blanks, content = body ++ bracket :: blanks ∧
      Token.isClosing bracket = true ∧ ∀ b ∈ blanks, Token.isBlank b = true := by
  obtain ⟨hread, hend⟩ := whole_eq_ok_iff.mp h
  obtain ⟨token, hlast, htoken⟩ := last_closes (hf _ _ hread) hend
  exact Token.last_of_closes hlast htoken

end Document

end AttributeReview.Json
