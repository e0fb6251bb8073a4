import Mathlib.Logic.Function.Basic
import Mathlib.Tactic.Common

set_option autoImplicit false

namespace Pgprtdbg

inductive LockPhase where
  | outside
  -- At the label retry, since `start`.
  | exchanging (start : Int)
  -- In the sleep after an exchange that failed.
  | sleeping (start : Int)
  -- Back from pgprtdbg_log_lock, by the exchange or by the label timeout.
  | acquired
  | timedOut
  deriving DecidableEq, Repr

/-- The lock word is STATE_IN_USE when it has a holder: the process whose exchange set it. -/
structure LogLock (Process : Type) where
  now : Int
  holder : Option Process
  phase : Process → LockPhase

inductive LockAction (Process : Type) where
  -- What time() returns from here on.
  | time (now : Int)
  | call (process : Process)
  | exchange (process : Process)
  | wake (process : Process)
  | unlock (process : Process)
  deriving DecidableEq, Repr

section Lock

variable {Process : Type} [DecidableEq Process]

def LogLock.initial (now : Int) : LogLock Process :=
  { now := now, holder := none, phase := fun _ => .outside }

def LogLock.enter (s : LogLock Process) (process : Process) (phase : LockPhase) : LogLock Process :=
  { s with phase := Function.update s.phase process phase }

@[simp] theorem enter_phase (s : LogLock Process) (process other : Process) (phase : LockPhase) :
    (s.enter process phase).phase other = if other = process then phase else s.phase other := by
  simp [LogLock.enter, Function.update_apply]

@[simp] theorem enter_holder (s : LogLock Process) (process : Process) (phase : LockPhase) :
    (s.enter process phase).holder = s.holder := rfl

def LogLock.step (s : LogLock Process) : LockAction Process → Option (LogLock Process)
  | .time now => some { s with now := now }
  | .call process =>
      if s.phase process = .outside then some (s.enter process (.exchanging s.now)) else none
  | .exchange process =>
      match s.phase process with
      | .exchanging start =>
          if s.holder = none then
            some { s.enter process .acquired with holder := some process }
          else
            some (s.enter process (.sleeping start))
      | _ => none
  | .wake process =>
      match s.phase process with
      | .sleeping start =>
          if s.now - start ≥ 1 then
            some (s.enter process .timedOut)
          else
            some (s.enter process (.exchanging start))
      | _ => none
  | .unlock process =>
      match s.phase process with
      | .acquired => some { s.enter process .outside with holder := none }
      | .timedOut => some { s.enter process .outside with holder := none }
      | _ => none

def LogLock.Inside (s : LogLock Process) (process : Process) : Prop :=
  s.phase process = .acquired ∨ s.phase process = .timedOut

def LogLock.TimesOut (s : LogLock Process) (process : Process) : Prop :=
  ∃ start, s.phase process = .sleeping start ∧ s.now - start ≥ 1

end Lock

end Pgprtdbg
