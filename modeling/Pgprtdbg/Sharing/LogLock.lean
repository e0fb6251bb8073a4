import Pgprtdbg.Model.LogLock
import Pgprtdbg.Shared.Steps

set_option autoImplicit false

namespace Pgprtdbg

section Exclusion

variable {Process : Type} [DecidableEq Process]

def LogLock.Exclusive (s : LogLock Process) : Prop :=
  ∀ first second, s.Inside first → s.Inside second → first = second

def LogLock.FreesOwn (s : LogLock Process) : LockAction Process → Prop
  | .unlock process => ∀ owner, s.holder = some owner → owner = process
  | _ => True

def LogLock.Orderly (s : LogLock Process) : LockAction Process → Prop
  | .exchange _ => s.holder = none → ∀ other, s.phase other ≠ .timedOut
  | .wake process => s.TimesOut process → ∀ other, ¬ s.Inside other
  | _ => True

theorem step_exchange (s after : LogLock Process) (process : Process)
    (taken : s.step (.exchange process) = some after) : ∃ start, s.phase process = .exchanging start ∧
    ((s.holder = none ∧ after = { s.enter process .acquired with holder := some process }) ∨
      (s.holder ≠ none ∧ after = s.enter process (.sleeping start))) := by
  cases phase : s.phase process with
  | exchanging start =>
      refine ⟨start, rfl, ?_⟩
      by_cases free : s.holder = none
      · left
        simpa [LogLock.step, phase, free, eq_comm] using taken
      · right
        simpa [LogLock.step, phase, free, eq_comm] using taken
  | _ => simp [LogLock.step, phase] at taken

theorem step_wake (s after : LogLock Process) (process : Process)
    (taken : s.step (.wake process) = some after) : ∃ start, s.phase process = .sleeping start ∧
    ((s.TimesOut process ∧ after = s.enter process .timedOut) ∨
      (¬ s.TimesOut process ∧ after = s.enter process (.exchanging start))) := by
  cases phase : s.phase process with
  | sleeping start =>
      have times_out : s.TimesOut process ↔ s.now - start ≥ 1 := by
        simp [LogLock.TimesOut, phase]
      refine ⟨start, rfl, ?_⟩
      rw [times_out]
      by_cases late : s.now - start ≥ 1
      · left
        simpa [LogLock.step, phase, late, eq_comm] using taken
      · right
        simpa [LogLock.step, phase, late, eq_comm] using taken
  | _ => simp [LogLock.step, phase] at taken

theorem step_unlock (s after : LogLock Process) (process : Process)
    (taken : s.step (.unlock process) = some after) :
    s.Inside process ∧ after = { s.enter process .outside with holder := none } := by
  cases phase : s.phase process with
  | acquired => simpa [LogLock.step, phase, LogLock.Inside, eq_comm] using taken
  | timedOut => simpa [LogLock.step, phase, LogLock.Inside, eq_comm] using taken
  | _ => simp [LogLock.step, phase] at taken

theorem step_call (s after : LogLock Process) (process : Process)
    (taken : s.step (.call process) = some after) :
    s.phase process = .outside ∧ after = s.enter process (.exchanging s.now) := by
  by_cases outside : s.phase process = .outside
  · simpa [LogLock.step, outside, eq_comm] using taken
  · simp [LogLock.step, outside] at taken

structure LogLock.Sound (s : LogLock Process) : Prop where
  holder : ∀ process, s.holder = some process ↔ s.phase process = .acquired
  exclusive : s.Exclusive

omit [DecidableEq Process] in
theorem sound_initial (now : Int) : (LogLock.initial now : LogLock Process).Sound := by
  constructor
  case holder => simp [LogLock.initial]
  case exclusive => simp [LogLock.Exclusive, LogLock.Inside, LogLock.initial]

-- A process that only waits does not come inside, and changes nothing for the others.
theorem sound_waits (s : LogLock Process) (sound : s.Sound) (process : Process) (phase : LockPhase)
    (before : ¬ s.Inside process) (after : phase ≠ .acquired ∧ phase ≠ .timedOut) :
    (s.enter process phase).Sound := by
  constructor
  case holder =>
    intro other
    rw [enter_holder, enter_phase, sound.holder other]
    by_cases same : other = process
    · simp only [same, if_true, after.1, iff_false]
      exact fun acquired => before (.inl acquired)
    · simp [same]
  case exclusive =>
    have still (other : Process) (inside : (s.enter process phase).Inside other) :
        s.Inside other := by
      rw [LogLock.Inside, enter_phase] at inside
      by_cases same : other = process
      · simp [same, after.1, after.2] at inside
      · rw [if_neg same] at inside
        exact inside
    intro first second inside inside'
    exact sound.exclusive first second (still first inside) (still second inside')

-- When nobody is inside, one process may come in.
theorem exclusive_enters (s : LogLock Process) (process : Process) (phase : LockPhase)
    (nobody : ∀ other, ¬ s.Inside other) : (s.enter process phase).Exclusive := by
  have only (other : Process) (inside : (s.enter process phase).Inside other) : other = process := by
    rw [LogLock.Inside, enter_phase] at inside
    by_contra different
    simp only [different, if_false] at inside
    exact nobody other inside
  intro first second inside inside'
  rw [only first inside, only second inside']

theorem sound_exchange (s after : LogLock Process) (sound : s.Sound) (process : Process)
    (orderly : s.Orderly (.exchange process)) (taken : s.step (.exchange process) = some after) :
    after.Sound := by
  obtain ⟨start, phase, ⟨free, rfl⟩ | ⟨_, rfl⟩⟩ := step_exchange s after process taken
  · have not_acquired (other : Process) : s.phase other ≠ .acquired := fun acquired => by
      have held := (sound.holder other).mpr acquired
      rw [free] at held
      cases held
    constructor
    case holder =>
      intro other
      change some process = some other ↔ (s.enter process .acquired).phase other = .acquired
      by_cases same : other = process
      · simp [same]
      · simp [same, Ne.symm same, not_acquired other]
    case exclusive =>
      apply exclusive_enters s process .acquired
      rintro other (acquired | timed_out)
      · exact not_acquired other acquired
      · exact orderly free other timed_out
  · exact sound_waits s sound process _ (by simp [LogLock.Inside, phase]) (by simp)

theorem sound_wake (s after : LogLock Process) (sound : s.Sound) (process : Process)
    (orderly : s.Orderly (.wake process)) (taken : s.step (.wake process) = some after) :
    after.Sound := by
  obtain ⟨start, phase, ⟨late, rfl⟩ | ⟨_, rfl⟩⟩ := step_wake s after process taken
  · have nobody := orderly late
    constructor
    case holder =>
      intro other
      have not_acquired : s.phase other ≠ .acquired := fun acquired => nobody other (.inl acquired)
      rw [enter_holder, enter_phase, sound.holder other]
      by_cases same : other = process
      · simp only [same, if_true, phase]
        simp
      · simp [same]
    case exclusive => exact exclusive_enters s process .timedOut nobody
  · exact sound_waits s sound process _ (by simp [LogLock.Inside, phase]) (by simp)

omit [DecidableEq Process] in
theorem unlock_frees_own (s : LogLock Process) (sound : s.Sound) (process : Process)
    (inside : s.Inside process) : s.FreesOwn (.unlock process) := by
  intro owner held
  have acquired := (sound.holder owner).mp held
  exact sound.exclusive owner process (.inl acquired) inside

theorem sound_unlock (s after : LogLock Process) (sound : s.Sound) (process : Process)
    (taken : s.step (.unlock process) = some after) : after.Sound := by
  obtain ⟨inside, rfl⟩ := step_unlock s after process taken
  have nobody (other : Process) : ¬ (s.enter process .outside).Inside other := by
    intro other_inside
    rw [LogLock.Inside, enter_phase] at other_inside
    by_cases same : other = process
    · simp [same] at other_inside
    · simp only [same, if_false] at other_inside
      exact same (sound.exclusive other process other_inside inside)
  constructor
  case holder =>
    intro other
    simp only [reduceCtorEq, false_iff]
    exact fun acquired => nobody other (.inl acquired)
  case exclusive => exact fun first _ first_inside _ => absurd first_inside (nobody first)

theorem sound_step (s after : LogLock Process) (action : LockAction Process) (sound : s.Sound)
    (orderly : s.Orderly action) (taken : s.step action = some after) : after.Sound := by
  cases action with
  | time now =>
      cases taken
      exact ⟨sound.holder, sound.exclusive⟩
  | call process =>
      obtain ⟨outside, rfl⟩ := step_call s after process taken
      exact sound_waits s sound process _ (by simp [LogLock.Inside, outside]) (by simp)
  | exchange process => exact sound_exchange s after sound process orderly taken
  | wake process => exact sound_wake s after sound process orderly taken
  | unlock process => exact sound_unlock s after sound process taken

theorem not_exclusive (s : LogLock Process) (process other : Process) (phase : LockPhase)
    (outside : ¬ s.Inside process) (inside : s.Inside other)
    (enters : phase = .acquired ∨ phase = .timedOut) : ¬ (s.enter process phase).Exclusive := by
  intro exclusive
  have different : other ≠ process := fun same => outside (same ▸ inside)
  apply different
  apply exclusive other process
  · rw [LogLock.Inside, enter_phase, if_neg different]
    exact inside
  · rw [LogLock.Inside, enter_phase, if_pos rfl]
    exact enters

-- A step that is not orderly brings a second process inside.
theorem orderly_of_exclusive (s after : LogLock Process) (action : LockAction Process)
    (exclusive : after.Exclusive) (taken : s.step action = some after) : s.Orderly action := by
  cases action with
  | exchange process =>
      intro free other timed_out
      obtain ⟨start, phase, ⟨_, rfl⟩ | ⟨held, _⟩⟩ := step_exchange s after process taken
      · have outside : ¬ s.Inside process := by simp [LogLock.Inside, phase]
        exact not_exclusive s process other .acquired outside (.inr timed_out) (.inl rfl) exclusive
      · exact held free
  | wake process =>
      intro late other inside
      obtain ⟨start, phase, ⟨_, rfl⟩ | ⟨in_time, _⟩⟩ := step_wake s after process taken
      · have outside : ¬ s.Inside process := by simp [LogLock.Inside, phase]
        exact not_exclusive s process other .timedOut outside inside (.inr rfl) exclusive
      · exact in_time late
  | _ => trivial

def LockSafe (now : Int) (actions : List (LockAction Process)) : Prop :=
  (∀ seen s, seen <+: actions → Steps.run LogLock.step (.initial now) seen = some s → s.Exclusive) ∧
    Steps.Along LogLock.step LogLock.FreesOwn (.initial now) actions

/--
The log lock excludes, and is freed by the process that acquired it, in exactly the runs in
which no process times out while another one is inside, and none acquires it while a process
that timed out still is.
-/
theorem lock_safe_iff (now : Int) (actions : List (LockAction Process)) :
    LockSafe now actions ↔ Steps.Along LogLock.step LogLock.Orderly (.initial now) actions := by
  constructor
  · intro safe seen action before after front reached taken
    have there := (Steps.run_snoc LogLock.step _ seen action after).mpr ⟨before, reached, taken⟩
    exact orderly_of_exclusive before after action (safe.1 _ after front there) taken
  · intro orderly
    have sound (seen : List (LockAction Process)) (s : LogLock Process) (front : seen <+: actions)
        (reached : Steps.run LogLock.step (.initial now) seen = some s) : s.Sound := by
      apply Steps.run_invariant_along LogLock.step LogLock.Orderly (fun _ s => s.Sound) (.initial now)
        (sound_initial now) (fun _ s action after => sound_step s after action) seen s _ reached
      obtain ⟨rest, rfl⟩ := front
      exact orderly.earlier
    constructor
    · exact fun seen s front reached => (sound seen s front reached).exclusive
    · intro seen action before after front reached taken
      have held := sound seen before ((List.prefix_append seen [action]).trans front) reached
      cases action with
      | unlock process =>
          exact unlock_frees_own before held process (step_unlock before after process taken).1
      | _ => trivial

end Exclusion

/-- A process that waited for a second comes inside beside the holder, and frees its lock. -/
theorem lock_times_out :
    let waited : List (LockAction Nat) :=
      [.call 0, .exchange 0, .call 1, .exchange 1, .time 1, .wake 1]
    ∃ s after, Steps.run LogLock.step (.initial 0) waited = some s ∧ s.Inside 0 ∧ s.Inside 1 ∧
      s.holder = some 0 ∧ s.step (.unlock 1) = some after ∧ after.holder = none ∧
      ¬ LockSafe 0 (waited ++ [.unlock 1]) := by
  intro waited
  refine ⟨_, _, rfl, .inl (by decide), .inr (by decide), rfl, rfl, rfl, ?_⟩
  intro safe
  have frees := safe.2 waited (.unlock 1) _ _ (List.prefix_refl _) rfl rfl 0 rfl
  cases frees

end Pgprtdbg
