import AttributeReview.Proofs.Review.Panel

/-!
# Answers of a panel

Which events and builds are answered by new rows, and what becomes of a run when those that are not
are left out of it.
-/

namespace AttributeReview.Panel

variable {p : Panel} {a : Action}

/-! ## When the rows are made anew -/

/-- Both inputs are there. -/
def Ready (p : Panel) : Prop := ∃ i c, p.instance? = some i ∧ p.changes? = some c

/-- The panel has an instance, and it is the one of that type and id. -/
def Targets (p : Panel) (identity : Identity) : Prop :=
  ∃ i, p.instance? = some i ∧ i.type = identity.type ∧ i.id = identity.id

theorem build_answer_iff (p : Panel) : p.build.2 = true ↔ p.Ready := by
  constructor
  · intro h
    rcases p.build_cases with hnone | ⟨i, c, hi, hc, -⟩
    · simp [hnone] at h
    · exact ⟨i, c, hi, hc⟩
  · rintro ⟨i, c, hi, hc⟩
    unfold build
    simp only [hi, hc]

theorem shows_iff (p : Panel) (identity : Identity) :
    p.shows identity = true ↔ p.Targets identity := by
  unfold shows Targets
  cases hi : p.instance? with
  | none => simp
  | some i =>
    obtain ⟨type, id⟩ := identity
    simp [Instance.identity]

theorem refresh_answer_iff (p : Panel) (identity : Identity) :
    (p.handle (.refresh identity)).2 = true ↔ p.Ready ∧ p.Targets identity := by
  unfold handle
  by_cases hshows : p.shows identity = true
  · have htargets := (p.shows_iff identity).mp hshows
    simp only [hshows, if_true, build_answer_iff, htargets, and_true]
  · have htargets : ¬ p.Targets identity := fun h => hshows ((p.shows_iff identity).mpr h)
    simp [hshows, htargets]

/-! ## Actions without an answer -/

def Action.sets : Action → Bool
  | setInstance _ | setChanges _ => true
  | handle _ | build => false

theorem build_unanswered (h : p.build.2 = false) : p.build.1 = p := by
  rcases p.build_cases with hnone | ⟨i, c, -, -, hbuilt⟩
  · rw [hnone]
  · simp [hbuilt] at h

theorem handle_unanswered {e : Event} (h : (p.handle e).2 = false) : (p.handle e).1 = p := by
  rcases p.handle_cases e with hnone | hbuild
  · rw [hnone]
  · rw [hbuild] at h ⊢
    exact build_unanswered h

/-- An event or a build that makes no rows anew leaves the whole panel as it is. -/
theorem act_unanswered (h : (a.sets || (p.act a).2) = false) : (p.act a).1 = p := by
  rw [Bool.or_eq_false_iff] at h
  obtain ⟨hsets, hanswer⟩ := h
  cases a with
  | setInstance i => cases hsets
  | setChanges c => cases hsets
  | handle e => exact handle_unanswered hanswer
  | build => exact build_unanswered hanswer

/-! ## Runs without them -/

/-- One step of a run: what was done, the answer, and the panel after it. -/
structure Step where
  action : Action
  answer : Bool
  after : Panel

def steps (p : Panel) : List Action → List Step
  | [] => []
  | a :: rest => ⟨a, (p.act a).2, (p.act a).1⟩ :: (p.act a).1.steps rest

/-- The step sets an input, or makes the rows anew. -/
def Step.counts (s : Step) : Bool := s.action.sets || s.answer

/-- The actions of a run without the events and builds that make no rows anew in it. -/
def effective (p : Panel) (actions : List Action) : List Action :=
  ((p.steps actions).filter Step.counts).map Step.action

theorem run_cons (p : Panel) (a : Action) (rest : List Action) :
    p.run (a :: rest) = (p.act a).1.run rest := rfl

theorem filter_steps_cons (p : Panel) (a : Action) (rest : List Action) :
    (p.steps (a :: rest)).filter Step.counts =
      if a.sets || (p.act a).2 then
        ⟨a, (p.act a).2, (p.act a).1⟩ :: ((p.act a).1.steps rest).filter Step.counts
      else (p.steps rest).filter Step.counts := by
  -- A step that does not count leads to the panel it came from, so the rest of the run is one
  -- from there.
  rw [steps, List.filter_cons, Step.counts]
  cases h : a.sets || (p.act a).2 with
  | true => rfl
  | false => rw [act_unanswered h]

theorem effective_cons (p : Panel) (a : Action) (rest : List Action) :
    p.effective (a :: rest) =
      if a.sets || (p.act a).2 then a :: (p.act a).1.effective rest else p.effective rest := by
  unfold effective
  rw [filter_steps_cons]
  split <;> rfl

theorem steps_effective (p : Panel) (actions : List Action) :
    p.steps (p.effective actions) = (p.steps actions).filter Step.counts := by
  induction actions generalizing p with
  | nil => rfl
  | cons a rest ih =>
    rw [effective_cons, filter_steps_cons]
    split
    · rw [steps, ih]
    · exact ih p

theorem run_effective (p : Panel) (actions : List Action) :
    p.run (p.effective actions) = p.run actions := by
  induction actions generalizing p with
  | nil => rfl
  | cons a rest ih =>
    rw [effective_cons, run_cons p a rest]
    cases h : a.sets || (p.act a).2 with
    | true => exact (run_cons p a _).trans (ih _)
    | false => exact (ih p).trans (by rw [act_unanswered h])

/-- **Answers and erasure.** In every state an insertion and a build are answered by new rows
exactly when both inputs are there, and a refresh exactly when they are and it is meant for the
instance of the panel; what is not so answered changes nothing at all. So a run without such events
and builds goes through the same steps, each with its answer and the panel after it, and ends in the
same panel. -/
theorem unanswered_actions_can_be_left_out :
    (∀ p : Panel, ((p.handle .inserted).2 = true ↔ p.Ready) ∧ (p.build.2 = true ↔ p.Ready) ∧
      (∀ k, (p.handle (.refresh k)).2 = true ↔ p.Ready ∧ p.Targets k) ∧
      (∀ e, (p.handle e).2 = true ∨ (p.handle e).1 = p) ∧ (p.build.2 = true ∨ p.build.1 = p)) ∧
    ∀ (p : Panel) (actions : List Action),
      p.steps (p.effective actions) = (p.steps actions).filter Step.counts ∧
      p.run (p.effective actions) = p.run actions := by
  refine ⟨fun p => ⟨p.build_answer_iff, p.build_answer_iff, p.refresh_answer_iff, fun e => ?_, ?_⟩,
    fun p actions => ⟨p.steps_effective actions, p.run_effective actions⟩⟩
  · cases h : (p.handle e).2 with
    | true => exact Or.inl rfl
    | false => exact Or.inr (handle_unanswered h)
  · cases h : p.build.2 with
    | true => exact Or.inl rfl
    | false => exact Or.inr (build_unanswered h)

end AttributeReview.Panel
