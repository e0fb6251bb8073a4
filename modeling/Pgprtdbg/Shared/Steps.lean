import Mathlib.Data.List.Induction
import Mathlib.Data.List.Infix
import Mathlib.Tactic.Common

set_option autoImplicit false

namespace Steps

variable {State Action : Type} (step : State → Action → Option State)

def run (state : State) (actions : List Action) : Option State := actions.foldlM step state

@[simp] theorem run_nil (state : State) : run step state [] = some state := rfl

theorem run_cons (state : State) (action : Action) (actions : List Action) (after : State) :
    run step state (action :: actions) = some after ↔
      ∃ middle, step state action = some middle ∧ run step middle actions = some after := by
  simp [run, Option.bind_eq_some_iff]

theorem run_append (state : State) (first second : List Action) (after : State) :
    run step state (first ++ second) = some after ↔
      ∃ middle, run step state first = some middle ∧ run step middle second = some after := by
  simp [run, Option.bind_eq_some_iff]

theorem run_snoc (state : State) (actions : List Action) (action : Action) (after : State) :
    run step state (actions ++ [action]) = some after ↔
      ∃ middle, run step state actions = some middle ∧ step middle action = some after := by
  rw [run_append]
  simp [run_cons]

-- A run that stops halfway: the action that is not possible, and the state it meets.
theorem run_none (state : State) (actions : List Action) (stops : run step state actions = none) :
    ∃ seen action rest before, actions = seen ++ action :: rest ∧
      run step state seen = some before ∧ step before action = none := by
  induction actions generalizing state with
  | nil => cases stops
  | cons action actions ih =>
      cases first : step state action with
      | none => exact ⟨[], action, actions, state, rfl, rfl, first⟩
      | some middle =>
          have later : run step middle actions = none := by
            simpa [run, first] using stops
          obtain ⟨seen, other, rest, before, rfl, reached, blocked⟩ := ih middle later
          exact ⟨action :: seen, other, rest, before, rfl,
            (run_cons step _ _ _ _).mpr ⟨middle, first, reached⟩, blocked⟩

theorem run_stops (state before : State) (actions : List Action) (action : Action)
    (reached : run step state actions = some before) (stops : step before action = none) :
    run step state (actions ++ [action]) = none := by
  rw [Option.eq_none_iff_forall_ne_some]
  intro after whole
  obtain ⟨middle, same, taken⟩ := (run_snoc step _ _ _ _).mp whole
  rw [reached, Option.some.injEq] at same
  rw [same, taken] at stops
  cases stops

def Along (condition : State → Action → Prop) (state : State) (actions : List Action) : Prop :=
  ∀ seen action before after, seen ++ [action] <+: actions →
    run step state seen = some before → step before action = some after → condition before action

theorem Along.earlier {condition : State → Action → Prop} {state : State}
    {actions more : List Action} (along : Along step condition state (actions ++ more)) :
    Along step condition state actions := by
  intro seen action before after front
  exact along seen action before after (front.trans (List.prefix_append actions more))

theorem Along.last {condition : State → Action → Prop} {state before after : State}
    {actions : List Action} {action : Action}
    (along : Along step condition state (actions ++ [action]))
    (reached : run step state actions = some before) (taken : step before action = some after) :
    condition before action :=
  along actions action before after (List.prefix_refl _) reached taken

theorem along_nil (condition : State → Action → Prop) (state : State) :
    Along step condition state [] := by
  intro seen action _ _ front
  simpa using front.length_le

theorem along_cons (condition : State → Action → Prop) (state : State) (action : Action)
    (actions : List Action) : Along step condition state (action :: actions) ↔
      ∀ after, step state action = some after →
        condition state action ∧ Along step condition after actions := by
  constructor
  · intro along after taken
    constructor
    · exact along [] action state after (by simp) rfl taken
    · intro seen other before last front reached
      apply along (action :: seen) other before last (by simpa using front)
      exact (run_cons step _ _ _ _).mpr ⟨after, taken, reached⟩
  · intro holds seen other before last front reached taken
    cases seen with
    | nil =>
        cases reached
        cases front with
        | intro rest same =>
            cases same
            exact (holds last taken).1
    | cons first seen =>
        obtain ⟨same, more⟩ := List.cons_prefix_cons.mp front
        subst same
        obtain ⟨middle, here, later⟩ := (run_cons step _ _ _ _).mp reached
        exact (holds middle here).2 seen other before last more later taken

-- What holds at first, and is kept by each action the condition allows, holds at the end.
theorem run_invariant_along (condition : State → Action → Prop)
    (invariant : List Action → State → Prop) (start : State) (initial : invariant [] start)
    (preserved : ∀ actions before action after, invariant actions before →
      condition before action → step before action = some after →
      invariant (actions ++ [action]) after)
    (actions : List Action) (after : State) (along : Along step condition start actions)
    (reached : run step start actions = some after) : invariant actions after := by
  induction actions using List.reverseRecOn generalizing after with
  | nil =>
      cases reached
      exact initial
  | append_singleton actions action ih =>
      obtain ⟨before, earlier, taken⟩ := (run_snoc step start actions action after).mp reached
      have held := ih before (along.earlier step) earlier
      exact preserved actions before action after held (along.last step earlier taken) taken

theorem run_invariant (invariant : List Action → State → Prop) (start : State)
    (initial : invariant [] start)
    (preserved : ∀ actions before action after, invariant actions before →
      step before action = some after → invariant (actions ++ [action]) after)
    (actions : List Action) (after : State) (reached : run step start actions = some after) :
    invariant actions after := by
  have anywhere : Along step (fun _ _ => True) start actions := fun _ _ _ _ _ _ _ => trivial
  apply run_invariant_along step (fun _ _ => True) invariant start initial
  · intro actions before action after held _
    exact preserved actions before action after held
  · exact anywhere
  · exact reached

end Steps
