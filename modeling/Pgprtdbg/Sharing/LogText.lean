import Mathlib.Data.List.Induction
import Pgprtdbg.Model.LogFile
import Pgprtdbg.Sharing.LogLock

set_option autoImplicit false

namespace Pgprtdbg

section Sections

structure LogSections where
  whole : List (List UInt8)
  current : Option (List UInt8)
  deriving DecidableEq, Repr

def LogSections.initial : LogSections := ⟨[], none⟩

-- There is none where a line stands outside of a section, or a section inside another one.
def LogSections.read (t : LogSections) : LogOp → Option LogSections
  | .lock => if t.current = none then some { t with current := some [] } else none
  | .print text => t.current.map fun shown => { t with current := some (shown ++ (text ++ [10])) }
  | .unlock => t.current.map fun shown => ⟨t.whole ++ [shown], none⟩

def Spells (ops : List LogOp) (t : LogSections) : Prop :=
  Steps.run LogSections.read .initial ops = some t

theorem spells_append (front back : List LogOp) (t : LogSections) :
    Spells (front ++ back) t ↔
      ∃ middle, Spells front middle ∧ Steps.run LogSections.read middle back = some t :=
  Steps.run_append LogSections.read _ front back t

theorem spells_same {ops : List LogOp} {t other : LogSections} (here : Spells ops t)
    (there : Spells ops other) : t = other := by
  rw [Spells, there] at here
  exact (Option.some.inj here).symm

end Sections

section Merge

variable {Process : Type} [DecidableEq Process]

def LogAction.opOf (process : Process) : LogAction Process → Option LogOp
  | .lock (.call caller) => if caller = process then some .lock else none
  | .lock (.unlock caller) => if caller = process then some .unlock else none
  | .print caller text => if caller = process then some (.print text) else none
  | _ => none

def opsOf (process : Process) (actions : List (LogAction Process)) : List LogOp :=
  actions.filterMap (LogAction.opOf process)

def LogAction.onLock : LogAction Process → Option (LockAction Process)
  | .lock action => some action
  | _ => none

def locksOf (actions : List (LogAction Process)) : List (LockAction Process) :=
  actions.filterMap LogAction.onLock

def textsOf (process : Process) (log : List (Process × List UInt8)) : List (List UInt8) :=
  log.filterMap fun entry => if entry.1 = process then some entry.2 else none

@[simp] theorem textsOf_append (process : Process) (log more : List (Process × List UInt8)) :
    textsOf process (log ++ more) = textsOf process log ++ textsOf process more := by
  simp [textsOf]

theorem opsOf_snoc (process : Process) (actions : List (LogAction Process))
    (action : LogAction Process) :
    opsOf process (actions ++ [action]) =
      opsOf process actions ++ (action.opOf process).toList := by
  simp only [opsOf, List.filterMap_append]
  cases asked : action.opOf process <;> simp [asked]

omit [DecidableEq Process] in
theorem locksOf_snoc (actions : List (LogAction Process)) (action : LogAction Process) :
    locksOf (actions ++ [action]) = locksOf actions ++ action.onLock.toList := by
  simp only [locksOf, List.filterMap_append]
  cases on_lock : action.onLock <;> simp [on_lock]

/--
How far a process is: inside, what it has printed of its section is the part that the file
ends in and what its buffer still holds.
-/
inductive Place (part : List UInt8) : LockPhase → List UInt8 → Option (List UInt8) → Prop
  | outside : Place part .outside [] none
  | exchanging (start : Int) : Place part (.exchanging start) [] (some [])
  | sleeping (start : Int) : Place part (.sleeping start) [] (some [])
  | acquired (buffer : List UInt8) : Place part .acquired buffer (some (part ++ buffer))
  | timedOut (buffer : List UInt8) : Place part .timedOut buffer (some (part ++ buffer))

theorem Place.elsewhere {part buffer : List UInt8} {phase : LockPhase}
    {current : Option (List UInt8)} (place : Place part phase buffer current)
    (acquired : phase ≠ .acquired) (timed_out : phase ≠ .timedOut) (other : List UInt8) :
    Place other phase buffer current := by
  cases place with
  | outside => exact .outside
  | exchanging start => exact .exchanging start
  | sleeping start => exact .sleeping start
  | acquired => exact absurd rfl acquired
  | timedOut => exact absurd rfl timed_out

-- Outside and on the way in there is nothing in the buffer.
theorem Place.buffered {part buffer : List UInt8} {phase : LockPhase}
    {current : Option (List UInt8)} (place : Place part phase buffer current)
    (some_bytes : buffer ≠ []) :
    (phase = .acquired ∨ phase = .timedOut) ∧ current = some (part ++ buffer) := by
  cases place with
  | acquired => exact ⟨.inl rfl, rfl⟩
  | timedOut => exact ⟨.inr rfl, rfl⟩
  | _ => exact absurd rfl some_bytes

theorem Place.inside {part buffer : List UInt8} {phase : LockPhase}
    {current : Option (List UInt8)} (place : Place part phase buffer current)
    (inside : phase = .acquired ∨ phase = .timedOut) : current = some (part ++ buffer) := by
  cases place with
  | acquired => rfl
  | timedOut => rfl
  | _ => simp at inside

theorem Place.away {part buffer : List UInt8} {phase : LockPhase} {current : Option (List UInt8)}
    (place : Place part phase buffer current) (outside : phase = .outside) :
    current = none ∧ buffer = [] := by
  cases place with
  | outside => exact ⟨rfl, rfl⟩
  | _ => cases outside

theorem Place.waits {part buffer : List UInt8} {phase : LockPhase} {current : Option (List UInt8)}
    (place : Place part phase buffer current) (start : Int)
    (waiting : phase = .exchanging start ∨ phase = .sleeping start) :
    current = some [] ∧ buffer = [] := by
  cases place with
  | exchanging => exact ⟨rfl, rfl⟩
  | sleeping => exact ⟨rfl, rfl⟩
  | _ => simp at waiting

theorem Place.enters {part buffer shown : List UInt8} {phase : LockPhase}
    (inside : phase = .acquired ∨ phase = .timedOut) (split : part ++ buffer = shown) :
    Place part phase buffer (some shown) := by
  subst split
  rcases inside with rfl | rfl
  · exact .acquired buffer
  · exact .timedOut buffer

structure Sectioned (now : Int) (before : List UInt8) (actions : List (LogAction Process))
    (s : LogFile Process) (log : List (Process × List UInt8)) (part : List UInt8) : Prop where
  lock : Steps.run LogLock.step (.initial now) (locksOf actions) = some s.lock
  sound : s.lock.Sound
  file : s.file = before ++ log.flatMap Prod.snd ++ part
  each : ∀ process, ∃ t, Spells (opsOf process actions) t ∧ t.whole = textsOf process log ∧
    Place part (s.lock.phase process) (s.buffer process) t.current
  nobody : (∀ process, ¬ s.lock.Inside process) → part = []

theorem sectioned_initial (now : Int) (before : List UInt8) :
    Sectioned now before [] (.initial now before : LogFile Process) [] [] := by
  constructor
  case lock => rfl
  case sound => exact sound_initial now
  case file => simp [LogFile.initial]
  case each => exact fun _ => ⟨.initial, rfl, rfl, .outside⟩
  case nobody => exact fun _ => rfl

section Step

variable {now : Int} {before part : List UInt8} {actions : List (LogAction Process)}
  {s after : LogFile Process} {log : List (Process × List UInt8)}

-- One process goes on. The others stay where they are, and have no share in the part that changes.
theorem Sectioned.each_step (sectioned : Sectioned now before actions s log part)
    (action : LogAction Process) (actor : Process) (log' : List (Process × List UInt8))
    (part' : List UInt8)
    (others : ∀ other, other ≠ actor → action.opOf other = none ∧
      after.lock.phase other = s.lock.phase other ∧ after.buffer other = s.buffer other ∧
      textsOf other log' = textsOf other log ∧ (part' = part ∨ ¬ s.lock.Inside other))
    (here : ∀ t, Spells (opsOf actor actions) t → t.whole = textsOf actor log →
      Place part (s.lock.phase actor) (s.buffer actor) t.current →
      ∃ t', Steps.run LogSections.read t (action.opOf actor).toList = some t' ∧
        t'.whole = textsOf actor log' ∧
        Place part' (after.lock.phase actor) (after.buffer actor) t'.current) (process : Process) :
    ∃ t, Spells (opsOf process (actions ++ [action])) t ∧ t.whole = textsOf process log' ∧
      Place part' (after.lock.phase process) (after.buffer process) t.current := by
  obtain ⟨t, spells, whole, place⟩ := sectioned.each process
  rw [opsOf_snoc]
  by_cases same : process = actor
  case pos =>
    subst same
    obtain ⟨t', read, whole', place'⟩ := here t spells whole place
    exact ⟨t', (spells_append _ _ _).mpr ⟨t, spells, read⟩, whole', place'⟩
  case neg =>
    obtain ⟨silent, phase, buffer, texts, apart⟩ := others process same
    rw [silent, phase, buffer, texts]
    refine ⟨t, by simpa using spells, whole, ?_⟩
    cases apart with
    | inl same_part => rwa [same_part]
    | inr outside =>
        have away := not_or.mp outside
        exact place.elsewhere away.1 away.2 part'

theorem step_onLock (action : LockAction Process) (taken : s.step (.lock action) = some after) :
    action.caller.elim [] s.buffer = [] ∧
      ∃ lock, s.lock.step action = some lock ∧ after = { s with lock := lock } := by
  by_cases empty : action.caller.elim [] s.buffer = []
  case neg => simp [LogFile.step, empty] at taken
  case pos =>
    simp only [LogFile.step, empty, if_true, Option.map_eq_some_iff] at taken
    obtain ⟨lock, moved, rfl⟩ := taken
    exact ⟨empty, lock, moved, rfl⟩

-- The lock goes on as it does without a file.
theorem Sectioned.lock_step (sectioned : Sectioned now before actions s log part)
    (action : LockAction Process) (lock : LogLock Process)
    (moved : s.lock.step action = some lock) :
    Steps.run LogLock.step (.initial now) (locksOf (actions ++ [.lock action])) = some lock := by
  rw [locksOf_snoc]
  exact (Steps.run_snoc LogLock.step _ _ _ _).mpr ⟨s.lock, sectioned.lock, moved⟩

theorem sectioned_time (sectioned : Sectioned now before actions s log part) (time : Int)
    (taken : s.step (.lock (.time time)) = some after) :
    Sectioned now before (actions ++ [.lock (.time time)]) after log part := by
  obtain ⟨_, lock, moved, rfl⟩ := step_onLock (.time time) taken
  have steps := sectioned.lock_step (.time time) lock moved
  have sound := sound_step s.lock lock (.time time) sectioned.sound trivial moved
  cases moved
  constructor
  case lock => exact steps
  case sound => exact sound
  case file => exact sectioned.file
  case nobody => exact sectioned.nobody
  case each =>
    intro process
    apply sectioned.each_step (.lock (.time time)) process log part
    case others => exact fun _ _ => ⟨rfl, rfl, rfl, rfl, .inl rfl⟩
    case here => exact fun t _ whole place => ⟨t, rfl, whole, place⟩

theorem sectioned_call (sectioned : Sectioned now before actions s log part) (process : Process)
    (taken : s.step (.lock (.call process)) = some after) :
    Sectioned now before (actions ++ [.lock (.call process)]) after log part := by
  obtain ⟨_, lock, moved, rfl⟩ := step_onLock (.call process) taken
  have steps := sectioned.lock_step (.call process) lock moved
  have sound := sound_step s.lock lock (.call process) sectioned.sound trivial moved
  obtain ⟨outside, rfl⟩ := step_call s.lock lock process moved
  constructor
  case lock => exact steps
  case sound => exact sound
  case file => exact sectioned.file
  case nobody =>
    intro nobody
    apply sectioned.nobody
    intro other inside
    apply nobody other
    by_cases same : other = process
    · simp [LogLock.Inside, same, outside] at inside
    · simpa [LogLock.Inside, same] using inside
  case each =>
    apply sectioned.each_step (.lock (.call process)) process log part
    case others =>
      intro other different
      exact ⟨by simp [LogAction.opOf, Ne.symm different], by simp [different], rfl, rfl, .inl rfl⟩
    case here =>
      intro t _ whole place
      obtain ⟨current, empty⟩ := place.away outside
      refine ⟨{ t with current := some [] }, ?_, whole, ?_⟩
      · simp [LogAction.opOf, Steps.run, LogSections.read, current]
      · simp only [enter_phase, if_true, empty]
        exact .exchanging s.lock.now

-- A process moves on from a phase in which it waits.
theorem sectioned_waiter (sectioned : Sectioned now before actions s log part)
    (action : LogAction Process) (process : Process) (lock : LogLock Process) (start : Int)
    (phase : LockPhase) (silent : ∀ other, action.opOf other = none)
    (waiting : s.lock.phase process = .exchanging start ∨ s.lock.phase process = .sleeping start)
    (phases : ∀ other, lock.phase other = if other = process then phase else s.lock.phase other)
    (steps : Steps.run LogLock.step (.initial now) (locksOf (actions ++ [action])) = some lock)
    (sound : lock.Sound) (still : phase ≠ .outside)
    (alone : phase = .acquired ∨ phase = .timedOut → part = []) :
    Sectioned now before (actions ++ [action]) { s with lock := lock } log part := by
  constructor
  case lock => exact steps
  case sound => exact sound
  case file => exact sectioned.file
  case nobody =>
    intro nobody
    by_cases inside : phase = .acquired ∨ phase = .timedOut
    case pos => exact alone inside
    case neg =>
      apply sectioned.nobody
      intro other other_inside
      apply nobody other
      by_cases same : other = process
      · subst same
        rcases waiting with here | here <;> simp [LogLock.Inside, here] at other_inside
      · simpa [LogLock.Inside, phases, same] using other_inside
  case each =>
    apply sectioned.each_step action process log part
    case others =>
      intro other different
      exact ⟨silent other, by simp [phases, different], rfl, rfl, .inl rfl⟩
    case here =>
      intro t _ whole place
      obtain ⟨current, empty⟩ := place.waits start waiting
      refine ⟨t, by rw [silent process]; rfl, whole, ?_⟩
      simp only [phases, if_true, empty, current]
      cases phase with
      | outside => exact absurd rfl still
      | exchanging start => exact .exchanging start
      | sleeping start => exact .sleeping start
      | acquired => exact .enters (.inl rfl) (by simp [alone])
      | timedOut => exact .enters (.inr rfl) (by simp [alone])

theorem sectioned_exchange (sectioned : Sectioned now before actions s log part)
    (process : Process) (orderly : s.lock.Orderly (.exchange process))
    (taken : s.step (.lock (.exchange process)) = some after) :
    Sectioned now before (actions ++ [.lock (.exchange process)]) after log part := by
  obtain ⟨_, lock, moved, rfl⟩ := step_onLock (.exchange process) taken
  have steps := sectioned.lock_step (.exchange process) lock moved
  have sound := sound_step s.lock lock (.exchange process) sectioned.sound orderly moved
  obtain ⟨start, waiting, ⟨free, same⟩ | ⟨_, same⟩⟩ := step_exchange s.lock lock process moved
  · have phases (other : Process) :
        lock.phase other = if other = process then .acquired else s.lock.phase other := by
      rw [same]
      exact enter_phase s.lock process other .acquired
    apply sectioned_waiter sectioned _ process lock start .acquired (fun _ => rfl) (.inl waiting)
      phases steps sound (by simp)
    intro _
    apply sectioned.nobody
    rintro other (acquired | timed_out)
    · have held := (sectioned.sound.holder other).mpr acquired
      rw [free] at held
      cases held
    · exact orderly free other timed_out
  · have phases (other : Process) :
        lock.phase other = if other = process then .sleeping start else s.lock.phase other := by
      rw [same]
      exact enter_phase s.lock process other _
    exact sectioned_waiter sectioned _ process lock start (.sleeping start) (fun _ => rfl)
      (.inl waiting) phases steps sound (by simp) (by simp)

theorem sectioned_wake (sectioned : Sectioned now before actions s log part) (process : Process)
    (orderly : s.lock.Orderly (.wake process))
    (taken : s.step (.lock (.wake process)) = some after) :
    Sectioned now before (actions ++ [.lock (.wake process)]) after log part := by
  obtain ⟨_, lock, moved, rfl⟩ := step_onLock (.wake process) taken
  have steps := sectioned.lock_step (.wake process) lock moved
  have sound := sound_step s.lock lock (.wake process) sectioned.sound orderly moved
  obtain ⟨start, waiting, ⟨late, same⟩ | ⟨_, same⟩⟩ := step_wake s.lock lock process moved
  · have phases (other : Process) :
        lock.phase other = if other = process then .timedOut else s.lock.phase other := by
      rw [same]
      exact enter_phase s.lock process other .timedOut
    exact sectioned_waiter sectioned _ process lock start .timedOut (fun _ => rfl) (.inr waiting)
      phases steps sound (by simp) (fun _ => sectioned.nobody (orderly late))
  · have phases (other : Process) :
        lock.phase other = if other = process then .exchanging start else s.lock.phase other := by
      rw [same]
      exact enter_phase s.lock process other _
    exact sectioned_waiter sectioned _ process lock start (.exchanging start) (fun _ => rfl)
      (.inr waiting) phases steps sound (by simp) (by simp)

theorem sectioned_unlock (sectioned : Sectioned now before actions s log part)
    (process : Process) (taken : s.step (.lock (.unlock process)) = some after) :
    Sectioned now before (actions ++ [.lock (.unlock process)]) after
      (log ++ [(process, part)]) [] := by
  obtain ⟨empty, lock, moved, rfl⟩ := step_onLock (.unlock process) taken
  have steps := sectioned.lock_step (.unlock process) lock moved
  have sound := sound_step s.lock lock (.unlock process) sectioned.sound trivial moved
  obtain ⟨inside, rfl⟩ := step_unlock s.lock lock process moved
  change s.buffer process = [] at empty
  constructor
  case lock => exact steps
  case sound => exact sound
  case file => simpa using sectioned.file
  case nobody => exact fun _ => rfl
  case each =>
    apply sectioned.each_step (.lock (.unlock process)) process
    case others =>
      intro other different
      refine ⟨by simp [LogAction.opOf, Ne.symm different], ?_, rfl, ?_, .inr ?_⟩
      · simp [LogLock.enter, different]
      · simp [textsOf, Ne.symm different]
      · exact fun also => different (sectioned.sound.exclusive other process also inside)
    case here =>
      intro t _ whole place
      have current := place.inside inside
      refine ⟨⟨t.whole ++ [part], none⟩, ?_, ?_, ?_⟩
      · simp [LogAction.opOf, Steps.run, LogSections.read, current, empty]
      · simp [whole, textsOf]
      · simp only [LogLock.enter, Function.update_self, empty]
        exact .outside

theorem step_print (process : Process) (text : List UInt8)
    (taken : s.step (.print process text) = some after) :
    (s.lock.phase process = .outside ∨ s.lock.Inside process) ∧ s.buffer process = [] ∧
      after = s.hold process (text ++ [10]) := by
  have buffered (entered : (if s.buffer process = [] then
      some (s.hold process (text ++ [10])) else none) = some after) :
      s.buffer process = [] ∧ after = s.hold process (text ++ [10]) := by
    by_cases empty : s.buffer process = []
    · simp only [empty, if_true, Option.some.injEq] at entered
      exact ⟨empty, entered.symm⟩
    · simp [empty] at entered
  unfold LogFile.step at taken
  cases phase : s.lock.phase process with
  | outside => exact ⟨.inl rfl, buffered (by simpa only [phase] using taken)⟩
  | exchanging start => simp [phase] at taken
  | sleeping start => simp [phase] at taken
  | acquired => exact ⟨.inr (.inl phase), buffered (by simpa only [phase] using taken)⟩
  | timedOut => exact ⟨.inr (.inr phase), buffered (by simpa only [phase] using taken)⟩

theorem step_append (process : Process) (count : Nat)
    (taken : s.step (.append process count) = some after) :
    (0 < count ∧ count ≤ (s.buffer process).length) ∧
      after = { s.hold process ((s.buffer process).drop count) with
        file := s.file ++ (s.buffer process).take count } := by
  by_cases fits : 0 < count ∧ count ≤ (s.buffer process).length
  · simp only [LogFile.step, fits, and_self, if_true, Option.some.injEq] at taken
    exact ⟨fits, taken.symm⟩
  · simp [LogFile.step, fits] at taken

theorem sectioned_print (sectioned : Sectioned now before actions s log part) (process : Process)
    (text : List UInt8)
    (stands : ∃ t, Spells (opsOf process (actions ++ [.print process text])) t)
    (taken : s.step (.print process text) = some after) :
    Sectioned now before (actions ++ [.print process text]) after log part := by
  obtain ⟨at_rest, empty, rfl⟩ := step_print process text taken
  -- A line outside of a section is one that the process does not print.
  have inside : s.lock.Inside process := by
    obtain ⟨t, spells, _, place⟩ := sectioned.each process
    rcases at_rest with outside | inside
    · obtain ⟨t', spells'⟩ := stands
      rw [opsOf_snoc, spells_append] at spells'
      obtain ⟨middle, front, read⟩ := spells'
      rw [spells_same front spells] at read
      have current := (place.away outside).1
      simp [LogAction.opOf, Steps.run, LogSections.read, current] at read
    · exact inside
  constructor
  case lock => simpa [locksOf_snoc, LogAction.onLock] using sectioned.lock
  case sound => exact sectioned.sound
  case file => exact sectioned.file
  case nobody => exact sectioned.nobody
  case each =>
    apply sectioned.each_step (.print process text) process
    case others =>
      intro other different
      exact ⟨by simp [LogAction.opOf, Ne.symm different], rfl, by simp [different], rfl, .inl rfl⟩
    case here =>
      intro t _ whole place
      have current := place.inside inside
      refine ⟨{ t with current := some (part ++ (text ++ [10])) }, ?_, whole, ?_⟩
      · simp [LogAction.opOf, Steps.run, LogSections.read, current, empty]
      · exact .enters inside (by simp)

theorem sectioned_append (sectioned : Sectioned now before actions s log part)
    (process : Process) (count : Nat) (taken : s.step (.append process count) = some after) :
    Sectioned now before (actions ++ [.append process count]) after log
      (part ++ (s.buffer process).take count) := by
  obtain ⟨⟨positive, fits⟩, rfl⟩ := step_append process count taken
  have inside : s.lock.Inside process := by
    obtain ⟨t, _, _, place⟩ := sectioned.each process
    apply (place.buffered _).1
    intro empty
    rw [empty, List.length_nil] at fits
    omega
  constructor
  case lock => simpa [locksOf_snoc, LogAction.onLock] using sectioned.lock
  case sound => exact sectioned.sound
  case file => simp [sectioned.file]
  case nobody => exact fun nobody => absurd inside (nobody process)
  case each =>
    apply sectioned.each_step (.append process count) process
    case others =>
      intro other different
      refine ⟨rfl, rfl, by simp [different], rfl, .inr ?_⟩
      exact fun also => different (sectioned.sound.exclusive other process also inside)
    case here =>
      intro t _ whole place
      refine ⟨t, rfl, whole, ?_⟩
      rw [place.inside inside]
      exact .enters inside (by simp [List.append_assoc])

theorem sectioned_step (sectioned : Sectioned now before actions s log part)
    (action : LogAction Process)
    (orderly : ∀ on_lock, action = .lock on_lock → s.lock.Orderly on_lock)
    (stands : ∀ process, ∃ t, Spells (opsOf process (actions ++ [action])) t)
    (taken : s.step action = some after) :
    ∃ log part, Sectioned now before (actions ++ [action]) after log part := by
  cases action with
  | print process text =>
      exact ⟨log, part, sectioned_print sectioned process text (stands process) taken⟩
  | append process count => exact ⟨log, _, sectioned_append sectioned process count taken⟩
  | lock action =>
      have here := orderly action rfl
      cases action with
      | time time => exact ⟨log, part, sectioned_time sectioned time taken⟩
      | call process => exact ⟨log, part, sectioned_call sectioned process taken⟩
      | exchange process => exact ⟨log, part, sectioned_exchange sectioned process here taken⟩
      | wake process => exact ⟨log, part, sectioned_wake sectioned process here taken⟩
      | unlock process => exact ⟨_, [], sectioned_unlock sectioned process taken⟩

end Step

/-- In a run whose lock is in order, a file to which lines go in sections consists of sections. -/
theorem sectioned_run (now : Int) (before : List UInt8) (actions : List (LogAction Process))
    (s : LogFile Process)
    (orderly : Steps.Along LogLock.step LogLock.Orderly (.initial now) (locksOf actions))
    (stands : ∀ process, ∃ t, Spells (opsOf process actions) t)
    (reached : Steps.run LogFile.step (.initial now before) actions = some s) :
    ∃ log part, Sectioned now before actions s log part := by
  induction actions using List.reverseRecOn generalizing s with
  | nil =>
      cases reached
      exact ⟨[], [], sectioned_initial now before⟩
  | append_singleton actions action ih =>
      obtain ⟨middle, earlier, taken⟩ := (Steps.run_snoc LogFile.step _ _ _ _).mp reached
      have stood (process : Process) : ∃ t, Spells (opsOf process actions) t := by
        obtain ⟨t, spells⟩ := stands process
        rw [opsOf_snoc, spells_append] at spells
        obtain ⟨front, here, _⟩ := spells
        exact ⟨front, here⟩
      rw [locksOf_snoc] at orderly
      obtain ⟨log, part, sectioned⟩ := ih middle (orderly.earlier LogLock.step) stood earlier
      refine sectioned_step sectioned action ?_ stands taken
      intro on_lock same
      subst same
      obtain ⟨_, lock, moved, _⟩ := step_onLock on_lock taken
      exact orderly.last LogLock.step sectioned.lock moved

end Merge

end Pgprtdbg
