import Mathlib.Tactic.Common

set_option autoImplicit false

namespace Loop

variable {State : Type}

inductive Pass (State : Type) where
  | next (state : State)
  | leave (state : State)
  deriving DecidableEq, Repr

inductive Ended (State : Type) where
  | left (state : State)
  | spent (state : State)
  deriving DecidableEq, Repr

def Pass.state : Pass State → State
  | .next state => state
  | .leave state => state

def Ended.state : Ended State → State
  | .left state => state
  | .spent state => state

def run (body : State → Pass State) : Nat → State → Ended State
  | 0, state => .spent state
  | fuel + 1, state =>
      match body state with
      | .next after => run body fuel after
      | .leave after => .left after

def Terminates (body : State → Pass State) (state : State) : Prop :=
  ∃ fuel after, run body fuel state = .left after

/-- The states a loop reaches at its head, with the number of passes made. -/
inductive Passes (body : State → Pass State) : Nat → State → State → Prop where
  | refl (state : State) : Passes body 0 state state
  | step {count : Nat} {state middle after : State} (pass : body state = .next middle)
      (rest : Passes body count middle after) : Passes body (count + 1) state after

theorem run_next (body : State → Pass State) (fuel : Nat) (state after : State)
    (pass : body state = .next after) : run body (fuel + 1) state = run body fuel after := by
  simp only [run, pass]

theorem run_leave (body : State → Pass State) (fuel : Nat) (state after : State)
    (pass : body state = .leave after) : run body (fuel + 1) state = .left after := by
  simp only [run, pass]

-- What no pass changes, the loop does not change, however it ends.
theorem run_keeps {Part : Type} (part : State → Part) (body : State → Pass State)
    (keeps : ∀ state, part (body state).state = part state) (fuel : Nat) (state : State) :
    part (run body fuel state).state = part state := by
  induction fuel generalizing state with
  | zero => rfl
  | succ fuel ih =>
      have kept := keeps state
      cases pass : body state with
      | next after =>
          rw [run_next body fuel state after pass, ih after, ← kept, pass]
          rfl
      | leave after =>
          rw [run_leave body fuel state after pass, ← kept, pass]
          rfl

theorem Passes.run {body : State → Pass State} {count : Nat} {state after : State}
    (passes : Passes body count state after) (fuel : Nat) :
    Loop.run body (count + fuel) state = Loop.run body fuel after := by
  induction passes with
  | refl => simp
  | @step count state middle after pass rest ih =>
      rw [show count + 1 + fuel = count + fuel + 1 by omega, run_next body _ _ _ pass, ih]

theorem Passes.trans {body : State → Pass State} {first second : Nat} {a b c : State}
    (front : Passes body first a b) (back : Passes body second b c) :
    Passes body (first + second) a c := by
  induction front with
  | refl => simpa using back
  | @step count state middle after pass rest ih =>
      rw [show count + 1 + second = count + second + 1 by omega]
      exact .step pass (ih back)

theorem Passes.leave {body : State → Pass State} {count : Nat} {state middle after : State}
    (passes : Passes body count state middle) (pass : body middle = .leave after) (fuel : Nat)
    (enough : count < fuel) : Loop.run body fuel state = .left after := by
  obtain ⟨spare, rfl⟩ : ∃ spare, fuel = count + (spare + 1) := ⟨fuel - count - 1, by omega⟩
  rw [passes.run, run_leave body _ _ _ pass]

-- A run is passes from head to head, and then the pass that leaves, or no fuel.
theorem run_cases (body : State → Pass State) (fuel : Nat) (state : State) :
    (∃ count head after, Passes body count state head ∧ body head = .leave after ∧
        run body fuel state = .left after) ∨
      ∃ after, Passes body fuel state after ∧ run body fuel state = .spent after := by
  induction fuel generalizing state with
  | zero => exact .inr ⟨state, .refl state, rfl⟩
  | succ fuel ih =>
      cases pass : body state with
      | leave after =>
          exact .inl ⟨0, state, after, .refl state, pass, run_leave body fuel state after pass⟩
      | next middle =>
          rw [run_next body fuel state middle pass]
          cases ih middle with
          | inl left =>
              obtain ⟨count, head, after, passes, leaves, ran⟩ := left
              exact .inl ⟨count + 1, head, after, .step pass passes, leaves, ran⟩
          | inr spent =>
              obtain ⟨after, passes, ran⟩ := spent
              exact .inr ⟨after, .step pass passes, ran⟩

theorem run_left_mono {body : State → Pass State} {fuel : Nat} {state after : State}
    (left : run body fuel state = .left after) (more : Nat) :
    run body (fuel + more) state = .left after := by
  induction fuel generalizing state with
  | zero => simp [run] at left
  | succ fuel ih =>
      rw [show fuel + 1 + more = fuel + more + 1 by omega]
      cases pass : body state with
      | next middle =>
          rw [run_next body _ _ _ pass] at left ⊢
          exact ih left
      | leave middle =>
          rw [run_leave body _ _ _ pass] at left ⊢
          exact left

theorem left_unique {body : State → Pass State} {first second : Nat} {state a b : State}
    (one : run body first state = .left a) (two : run body second state = .left b) : a = b := by
  have left := run_left_mono one second
  have right := run_left_mono two first
  rw [Nat.add_comm] at right
  exact Ended.left.inj (left.symm.trans right)

theorem not_terminates_of_invariant {body : State → Pass State} (Invariant : State → Prop)
    (kept : ∀ state, Invariant state → ∃ after, body state = .next after ∧ Invariant after)
    (state : State) (start : Invariant state) : ¬ Terminates body state := by
  rintro ⟨fuel, after, left⟩
  induction fuel generalizing state with
  | zero => simp [run] at left
  | succ fuel ih =>
      obtain ⟨middle, pass, again⟩ := kept state start
      rw [run_next body _ _ _ pass] at left
      exact ih middle again left

theorem Passes.not_terminates {body : State → Pass State} {count : Nat} {state middle : State}
    (passes : Passes body count state middle) (stuck : ¬ Terminates body middle) :
    ¬ Terminates body state := by
  rintro ⟨fuel, after, left⟩
  apply stuck
  refine ⟨fuel, after, ?_⟩
  rw [← passes.run, Nat.add_comm]
  exact run_left_mono left count

end Loop
