import AttributeReview.Review.Panel
import Mathlib.Data.List.Induction

/-!
# Runs of a panel

What one action can do, and from it what a panel shows after any actions: the rows of the last
action that made them anew, made from the inputs set by then.
-/

namespace AttributeReview.Panel

/-! ## What has been set -/

/-- What an action sets the instance to, if that is what it does. -/
def Action.instance? : Action → Option (Option Instance)
  | setInstance i => some i
  | _ => none

def Action.changes? : Action → Option (Option Changes)
  | setChanges c => some c
  | _ => none

/-- What the last action to set an input has set it to. -/
def lastSet {α : Type} (set? : Action → Option (Option α)) (actions : List Action) : Option α :=
  (actions.reverse.findSome? set?).join

theorem lastSet_snoc {α : Type} (set? : Action → Option (Option α)) (actions : List Action)
    (a : Action) : lastSet set? (actions ++ [a]) = (set? a).getD (lastSet set? actions) := by
  rw [lastSet, List.reverse_append, List.reverse_singleton, List.singleton_append,
    List.findSome?_cons]
  cases set? a <;> rfl

/-! ## One action -/

variable {p : Panel} {a : Action}

def renewed (p : Panel) (i : Instance) (c : Changes) : Panel :=
  { p with table := p.table.rebuild i.values i c, snapshot := i.values }

theorem build_cases (p : Panel) :
    p.build = (p, false) ∨
      ∃ i c, p.instance? = some i ∧ p.changes? = some c ∧ p.build = (p.renewed i c, true) := by
  unfold build
  split
  next i c hi hc => exact Or.inr ⟨i, c, hi, hc, rfl⟩
  · exact Or.inl rfl

theorem handle_cases (p : Panel) (e : Event) : p.handle e = (p, false) ∨ p.handle e = p.build := by
  cases e with
  | inserted => exact Or.inr rfl
  | refresh identity =>
    by_cases h : p.shows identity = true
    · exact Or.inr (if_pos h)
    · exact Or.inl (if_neg h)

/-- An action sets an input, or does nothing, or makes the rows anew from the inputs. -/
theorem act_cases (p : Panel) (a : Action) :
    (∃ i, a = .setInstance i ∧ p.act a = (p.setInstance i, false)) ∨
    (∃ c, a = .setChanges c ∧ p.act a = (p.setChanges c, false)) ∨
    a.instance? = none ∧ a.changes? = none ∧
      (p.act a = (p, false) ∨
        ∃ i c, p.instance? = some i ∧ p.changes? = some c ∧ p.act a = (p.renewed i c, true)) := by
  cases a with
  | setInstance i => exact Or.inl ⟨i, rfl, rfl⟩
  | setChanges c => exact Or.inr (Or.inl ⟨c, rfl, rfl⟩)
  | build => exact Or.inr (Or.inr ⟨rfl, rfl, p.build_cases⟩)
  | handle e =>
    refine Or.inr (Or.inr ⟨rfl, rfl, ?_⟩)
    rw [act]
    rcases p.handle_cases e with h | h
    · exact Or.inl h
    · rw [h]
      exact p.build_cases

/-! ## Runs -/

theorem run_snoc (p : Panel) (actions : List Action) (a : Action) :
    p.run (actions ++ [a]) = ((p.run actions).act a).1 := by
  simp [run]

/-- None of the actions makes the rows anew. -/
def Quiet (p : Panel) : List Action → Prop
  | [] => True
  | a :: rest => (p.act a).2 = false ∧ (p.act a).1.Quiet rest

theorem quiet_snoc {actions : List Action} (h : p.Quiet actions)
    (ha : ((p.run actions).act a).2 = false) : p.Quiet (actions ++ [a]) := by
  induction actions generalizing p with
  | nil => exact ⟨ha, trivial⟩
  | cons first rest ih => exact ⟨h.1, ih h.2 ha⟩

/-- The last of the actions to make the rows anew comes right after `before`. -/
def LastBuildAfter (p : Panel) (actions before : List Action) : Prop :=
  ∃ a after, actions = before ++ a :: after ∧ ((p.run before).act a).2 = true ∧
    (p.run (before ++ [a])).Quiet after

theorem lastBuildAfter_self {actions : List Action} (ha : ((p.run actions).act a).2 = true) :
    p.LastBuildAfter (actions ++ [a]) actions :=
  ⟨a, [], rfl, ha, trivial⟩

theorem LastBuildAfter.snoc {actions before : List Action} (h : p.LastBuildAfter actions before)
    (ha : ((p.run actions).act a).2 = false) : p.LastBuildAfter (actions ++ [a]) before := by
  obtain ⟨b, after, rfl, hb, hquiet⟩ := h
  refine ⟨b, after ++ [a], by simp, hb, quiet_snoc hquiet ?_⟩
  rw [← ha, run, run, run, ← List.foldl_append]
  simp

/-- The rows of a panel after some actions: none, or those of the last action to make any, from
the inputs set by then. -/
inductive Shown (options : Options) (actions : List Action) (p : Panel) : Prop where
  | nothing : (ofOptions options).Quiet actions → p.table.rows = [] → p.snapshot = [] →
      Shown options actions p
  | built {before : List Action} {i : Instance} {c : Changes} :
      (ofOptions options).LastBuildAfter actions before →
      lastSet Action.instance? before = some i → lastSet Action.changes? before = some c →
      p.table.rows = options.diff i c → p.snapshot = i.values → Shown options actions p

structure Reflects (options : Options) (actions : List Action) (p : Panel) : Prop where
  options_eq : p.table.options = options
  instance_eq : p.instance? = lastSet Action.instance? actions
  changes_eq : p.changes? = lastSet Action.changes? actions
  shown : Shown options actions p

variable {options : Options} {actions : List Action}

theorem Shown.snoc {q : Panel} (h : Shown options actions p)
    (ha : (((ofOptions options).run actions).act a).2 = false)
    (hrows : q.table.rows = p.table.rows) (hsnapshot : q.snapshot = p.snapshot) :
    Shown options (actions ++ [a]) q := by
  cases h with
  | nothing hquiet hnone hempty =>
    exact .nothing (quiet_snoc hquiet ha) (hrows.trans hnone) (hsnapshot.trans hempty)
  | built hlast hi hc hdiff hvalues =>
    exact .built (hlast.snoc ha) hi hc (hrows.trans hdiff) (hsnapshot.trans hvalues)

theorem Reflects.act (h : Reflects options actions ((ofOptions options).run actions))
    (a : Action) :
    Reflects options (actions ++ [a]) ((ofOptions options).run (actions ++ [a])) := by
  rw [run_snoc]
  rcases act_cases ((ofOptions options).run actions) a with
    ⟨i, rfl, hact⟩ | ⟨c, rfl, hact⟩ | ⟨hi, hc, hact | ⟨i, c, hinst, hchg, hact⟩⟩
  · refine ⟨?_, ?_, ?_, h.shown.snoc (by rw [hact]) (by rw [hact]; rfl) (by rw [hact]; rfl)⟩
    · rw [hact]; exact h.options_eq
    · rw [hact, lastSet_snoc]; rfl
    · rw [hact, lastSet_snoc]; exact h.changes_eq
  · refine ⟨?_, ?_, ?_, h.shown.snoc (by rw [hact]) (by rw [hact]; rfl) (by rw [hact]; rfl)⟩
    · rw [hact]; exact h.options_eq
    · rw [hact, lastSet_snoc]; exact h.instance_eq
    · rw [hact, lastSet_snoc]; rfl
  · refine ⟨?_, ?_, ?_, h.shown.snoc (by rw [hact]) (by rw [hact]) (by rw [hact])⟩
    · rw [hact]; exact h.options_eq
    · rw [hact, lastSet_snoc, hi]; exact h.instance_eq
    · rw [hact, lastSet_snoc, hc]; exact h.changes_eq
  · -- The rows are made anew: whatever was there before, they are those of the inputs.
    have hrows : (((ofOptions options).run actions).act a).1.table.rows = options.diff i c := by
      rw [hact]
      exact congrArg (·.diff i c) h.options_eq
    have hinstance : lastSet Action.instance? actions = some i := h.instance_eq.symm.trans hinst
    have hchanges : lastSet Action.changes? actions = some c := h.changes_eq.symm.trans hchg
    refine ⟨?_, ?_, ?_, .built (lastBuildAfter_self (by rw [hact])) hinstance hchanges hrows
      (by rw [hact]; rfl)⟩
    · rw [hact]; exact h.options_eq
    · rw [hact, lastSet_snoc, hi]; exact h.instance_eq
    · rw [hact, lastSet_snoc, hc]; exact h.changes_eq

/-- **Every run.** After any actions on a new panel its inputs are those set last and its options
are the ones it was made with. It has no rows as long as no action has made any, and then the rows
and values of the instance and changes set when the last action made them. -/
theorem run_reflects_last_build (options : Options) (actions : List Action) :
    Reflects options actions ((ofOptions options).run actions) := by
  induction actions using List.reverseRecOn with
  | nil => exact ⟨rfl, rfl, rfl, .nothing trivial rfl rfl⟩
  | append_singleton actions a ih => exact ih.act a

end AttributeReview.Panel
