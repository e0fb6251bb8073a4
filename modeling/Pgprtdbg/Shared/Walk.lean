import Mathlib.Data.List.TakeWhile
import Mathlib.Tactic.Common

set_option autoImplicit false

/-!
Programs that walk a cursor over a block of memory. A walk keeps every offset it
reads, so that where it reads can be stated apart from what it returns.
-/

inductive Walk.Stop (Halt : Type) where
  | outside (offset : Nat)
  | spent
  | halted (reason : Halt)
  deriving DecidableEq, Repr

structure Walk.Outcome (Entry Halt Value : Type) where
  value : Except (Walk.Stop Halt) Value
  offset : Nat
  reads : List Nat
  log : List Entry

def Walk (Cell Entry Halt Value : Type) : Type :=
  List Cell → Nat → Walk.Outcome Entry Halt Value

namespace Walk

variable {Cell Entry Halt Value Result : Type}

def andThen (walk : Walk Cell Entry Halt Value) (rest : Value → Walk Cell Entry Halt Result) :
    Walk Cell Entry Halt Result := fun data offset =>
  let first := walk data offset
  match first.value with
  | .ok value =>
      let second := rest value data first.offset
      { second with reads := first.reads ++ second.reads, log := first.log ++ second.log }
  | .error stop => { first with value := .error stop }

instance : Monad (Walk Cell Entry Halt) where
  pure value := fun _ offset => ⟨.ok value, offset, [], []⟩
  bind := andThen

def offset : Walk Cell Entry Halt Nat := fun _ offset => ⟨.ok offset, offset, [], []⟩

-- The block from the cursor on, without reading it.
def ahead : Walk Cell Entry Halt (List Cell) := fun data offset =>
  ⟨.ok (data.drop offset), offset, [], []⟩

def seek (offset : Nat) : Walk Cell Entry Halt Unit := fun _ _ => ⟨.ok (), offset, [], []⟩

def skip (count : Nat) : Walk Cell Entry Halt Unit := fun _ offset =>
  ⟨.ok (), offset + count, [], []⟩

def emit (entry : Entry) : Walk Cell Entry Halt Unit := fun _ offset =>
  ⟨.ok (), offset, [], [entry]⟩

def halt (reason : Halt) : Walk Cell Entry Halt Value := fun _ offset =>
  ⟨.error (.halted reason), offset, [], []⟩

def fail (stop : Stop Halt) : Walk Cell Entry Halt Value := fun _ offset =>
  ⟨.error stop, offset, [], []⟩

/-- Read `count` cells at the cursor, in order, up to the first one that is not there. -/
def read (count : Nat) : Walk Cell Entry Halt (List Cell) := fun data offset =>
  let here := data.drop offset
  if count ≤ here.length then
    ⟨.ok (here.take count), offset + count, List.range' offset count, []⟩
  else
    ⟨.error (.outside (offset + here.length)), offset, List.range' offset (here.length + 1), []⟩

def readUntil [DecidableEq Cell] (terminator : Cell) : Walk Cell Entry Halt (List Cell) :=
  fun data offset =>
    let here := data.drop offset
    let text := here.takeWhile (· ≠ terminator)
    if text.length < here.length then
      ⟨.ok text, offset + text.length + 1, List.range' offset (text.length + 1), []⟩
    else
      ⟨.error (.outside (offset + here.length)), offset, List.range' offset (here.length + 1), []⟩

def times (body : Walk Cell Entry Halt Unit) : Nat → Walk Cell Entry Halt Unit
  | 0 => pure ()
  | count + 1 => andThen body fun _ => times body count

-- Repeat a body that hands on its loop variables, or ends the loop.
def loop {Vars : Type} (body : Vars → Walk Cell Entry Halt (Option Vars)) :
    Nat → Vars → Walk Cell Entry Halt Unit
  | 0, _ => fail .spent
  | fuel + 1, vars => andThen (body vars) fun
      | some more => loop body fuel more
      | none => pure ()

def Inside (limit : Nat) (walk : Walk Cell Entry Halt Value) (data : List Cell)
    (offset : Nat) : Prop :=
  ∀ position ∈ (walk data offset).reads, position < limit

-- What is left of the first `limit` cells at an offset.
def window (data : List Cell) (limit offset : Nat) : List Cell := (data.take limit).drop offset

@[simp] theorem bind_eq (walk : Walk Cell Entry Halt Value)
    (rest : Value → Walk Cell Entry Halt Result) : walk >>= rest = andThen walk rest := rfl

theorem pure_andThen (value : Value) (rest : Value → Walk Cell Entry Halt Result) :
    andThen (pure value) rest = rest value := rfl

theorem andThen_assoc {Last : Type} (walk : Walk Cell Entry Halt Value)
    (middle : Value → Walk Cell Entry Halt Result) (rest : Result → Walk Cell Entry Halt Last) :
    andThen (andThen walk middle) rest = andThen walk fun value => andThen (middle value) rest := by
  funext data offset
  simp only [andThen]
  cases (walk data offset).value with
  | error stop => rfl
  | ok value =>
      dsimp only
      cases (middle value data (walk data offset).offset).value <;> simp

theorem value_andThen {walk : Walk Cell Entry Halt Value} {data : List Cell} {offset : Nat}
    {value : Value} (ended : (walk data offset).value = .ok value)
    (rest : Value → Walk Cell Entry Halt Result) :
    (andThen walk rest data offset).value = (rest value data (walk data offset).offset).value := by
  simp only [andThen, ended]

theorem andThen_ok {walk : Walk Cell Entry Halt Value}
    {rest : Value → Walk Cell Entry Halt Result} {data : List Cell} {offset : Nat} {result : Result}
    (ended : (andThen walk rest data offset).value = .ok result) :
    ∃ value after, (walk data offset).value = .ok value ∧
      (rest value data after).value = .ok result := by
  cases first : (walk data offset).value with
  | error stop =>
      simp [andThen, first] at ended
  | ok value =>
      rw [value_andThen first] at ended
      exact ⟨value, _, rfl, ended⟩

-- A loop that keeps to variables with which its body does not end it.
theorem loop_endless {Vars : Type} (body : Vars → Walk Cell Entry Halt (Option Vars))
    (inside : Vars → Prop) (goes_on : ∀ vars, inside vars → ∀ data offset next,
      (body vars data offset).value = .ok next → ∃ more, next = some more ∧ inside more)
    (fuel : Nat) (vars : Vars) (start : inside vars) (data : List Cell) (offset : Nat) :
    ∃ stop, (loop body fuel vars data offset).value = .error stop := by
  induction fuel generalizing vars offset with
  | zero => exact ⟨.spent, rfl⟩
  | succ fuel ih =>
      rw [loop]
      cases ended : (body vars data offset).value with
      | error stop => exact ⟨stop, by simp [andThen, ended]⟩
      | ok next =>
          obtain ⟨more, rfl, still⟩ := goes_on vars start data offset next ended
          rw [value_andThen ended]
          exact ih more still _

def HaltsOnly (allowed : Halt → Prop) (walk : Walk Cell Entry Halt Value) : Prop :=
  ∀ data offset reason, (walk data offset).value = .error (.halted reason) → allowed reason

theorem haltsOnly_andThen {allowed : Halt → Prop} {walk : Walk Cell Entry Halt Value}
    {rest : Value → Walk Cell Entry Halt Result} (first : HaltsOnly allowed walk)
    (second : ∀ value, HaltsOnly allowed (rest value)) :
    HaltsOnly allowed (andThen walk rest) := by
  intro data offset reason halted
  cases ended : (walk data offset).value with
  | error stop =>
      simp only [andThen, ended, Except.error.injEq] at halted
      exact first data offset reason (ended.trans (congrArg _ halted))
  | ok value =>
      rw [value_andThen ended] at halted
      exact second value _ _ reason halted

theorem haltsOnly_read (allowed : Halt → Prop) (count : Nat) :
    HaltsOnly allowed (read count : Walk Cell Entry Halt (List Cell)) := by
  intro data offset reason halted
  unfold read at halted
  dsimp only at halted
  split at halted <;> simp at halted

theorem haltsOnly_readUntil [DecidableEq Cell] (allowed : Halt → Prop) (terminator : Cell) :
    HaltsOnly allowed (readUntil terminator : Walk Cell Entry Halt (List Cell)) := by
  intro data offset reason halted
  unfold readUntil at halted
  dsimp only at halted
  split at halted <;> simp at halted

theorem haltsOnly_returns {walk : Walk Cell Entry Halt Value} (allowed : Halt → Prop)
    (returns : ∀ data offset, ∃ value, (walk data offset).value = .ok value) :
    HaltsOnly allowed walk := by
  intro data offset reason halted
  obtain ⟨value, ended⟩ := returns data offset
  cases ended.symm.trans halted

theorem haltsOnly_pure (allowed : Halt → Prop) (value : Value) :
    HaltsOnly allowed (pure value : Walk Cell Entry Halt Value) :=
  haltsOnly_returns allowed fun _ _ => ⟨value, rfl⟩

theorem haltsOnly_emit (allowed : Halt → Prop) (entry : Entry) :
    HaltsOnly allowed (emit entry : Walk Cell Entry Halt Unit) :=
  haltsOnly_returns allowed fun _ _ => ⟨(), rfl⟩

theorem haltsOnly_halt {allowed : Halt → Prop} (reason : Halt) (fine : allowed reason) :
    HaltsOnly allowed (halt reason : Walk Cell Entry Halt Value) := by
  intro data offset other halted
  cases halted
  exact fine

theorem haltsOnly_loop {Vars : Type} {allowed : Halt → Prop}
    (body : Vars → Walk Cell Entry Halt (Option Vars)) (fuel : Nat) (vars : Vars)
    (fine : ∀ vars, HaltsOnly allowed (body vars)) : HaltsOnly allowed (loop body fuel vars) := by
  induction fuel generalizing vars with
  | zero =>
      intro data offset reason halted
      cases halted
  | succ fuel ih =>
      refine haltsOnly_andThen (fine vars) fun more => ?_
      cases more with
      | none => exact haltsOnly_pure allowed ()
      | some more => exact ih more

def LogsOnly (allowed : Entry → Prop) (walk : Walk Cell Entry Halt Value) : Prop :=
  ∀ data offset, ∀ entry ∈ (walk data offset).log, allowed entry

section LogsOnly

variable {allowed : Entry → Prop}

theorem logsOnly_andThen {walk : Walk Cell Entry Halt Value}
    {rest : Value → Walk Cell Entry Halt Result} (first : LogsOnly allowed walk)
    (second : ∀ value, LogsOnly allowed (rest value)) : LogsOnly allowed (andThen walk rest) := by
  intro data offset entry member
  cases ended : (walk data offset).value with
  | error stop =>
      simp only [andThen, ended] at member
      exact first data offset entry member
  | ok value =>
      simp only [andThen, ended, List.mem_append] at member
      cases member with
      | inl before => exact first data offset entry before
      | inr after => exact second value _ _ entry after

theorem logsOnly_mono {other : Entry → Prop} {walk : Walk Cell Entry Halt Value}
    (first : LogsOnly allowed walk) (wider : ∀ entry, allowed entry → other entry) :
    LogsOnly other walk :=
  fun data offset entry member => wider entry (first data offset entry member)

theorem logsOnly_silent {walk : Walk Cell Entry Halt Value}
    (silent : ∀ data offset, (walk data offset).log = []) : LogsOnly allowed walk := by
  intro data offset entry member
  rw [silent] at member
  cases member

@[simp] theorem logsOnly_pure (value : Value) :
    LogsOnly allowed (pure value : Walk Cell Entry Halt Value) :=
  logsOnly_silent fun _ _ => rfl

@[simp] theorem logsOnly_offset : LogsOnly allowed (Walk.offset : Walk Cell Entry Halt Nat) :=
  logsOnly_silent fun _ _ => rfl

@[simp] theorem logsOnly_ahead : LogsOnly allowed (ahead : Walk Cell Entry Halt (List Cell)) :=
  logsOnly_silent fun _ _ => rfl

@[simp] theorem logsOnly_seek (target : Nat) :
    LogsOnly allowed (seek target : Walk Cell Entry Halt Unit) :=
  logsOnly_silent fun _ _ => rfl

@[simp] theorem logsOnly_skip (count : Nat) :
    LogsOnly allowed (skip count : Walk Cell Entry Halt Unit) :=
  logsOnly_silent fun _ _ => rfl

@[simp] theorem logsOnly_halt (reason : Halt) :
    LogsOnly allowed (halt reason : Walk Cell Entry Halt Value) :=
  logsOnly_silent fun _ _ => rfl

@[simp] theorem logsOnly_fail (stop : Stop Halt) :
    LogsOnly allowed (fail stop : Walk Cell Entry Halt Value) :=
  logsOnly_silent fun _ _ => rfl

@[simp] theorem logsOnly_emit (entry : Entry) (fine : allowed entry) :
    LogsOnly allowed (emit entry : Walk Cell Entry Halt Unit) := by
  intro data offset other member
  rw [List.mem_singleton.mp member]
  exact fine

@[simp] theorem logsOnly_read (count : Nat) :
    LogsOnly allowed (read count : Walk Cell Entry Halt (List Cell)) := by
  refine logsOnly_silent fun data offset => ?_
  unfold read
  dsimp only
  split <;> rfl

@[simp] theorem logsOnly_readUntil [DecidableEq Cell] (terminator : Cell) :
    LogsOnly allowed (readUntil terminator : Walk Cell Entry Halt (List Cell)) := by
  refine logsOnly_silent fun data offset => ?_
  unfold readUntil
  dsimp only
  split <;> rfl

@[simp] theorem logsOnly_loop {Vars : Type} (body : Vars → Walk Cell Entry Halt (Option Vars))
    (fuel : Nat) (vars : Vars) (fine : ∀ vars, LogsOnly allowed (body vars)) :
    LogsOnly allowed (loop body fuel vars) := by
  induction fuel generalizing vars with
  | zero => exact logsOnly_fail _
  | succ fuel ih =>
      refine logsOnly_andThen (fine vars) fun more => ?_
      cases more with
      | none => exact logsOnly_pure ()
      | some more => exact ih more

-- Of two walks that return, the second one has written what the first one never writes.
theorem andThen_writes {walk : Walk Cell Entry Halt Value}
    {rest : Value → Walk Cell Entry Halt Result} {data : List Cell} {offset : Nat} {result : Result}
    {entry : Entry} (silent : LogsOnly (· ≠ entry) walk)
    (ended : (andThen walk rest data offset).value = .ok result)
    (written : entry ∈ (andThen walk rest data offset).log) :
    ∃ value after, (rest value data after).value = .ok result ∧
      entry ∈ (rest value data after).log := by
  cases first : (walk data offset).value with
  | error stop =>
      simp [andThen, first] at ended
  | ok value =>
      rw [value_andThen first] at ended
      simp only [andThen, first, List.mem_append] at written
      cases written with
      | inl before => exact absurd rfl (silent data offset entry before)
      | inr behind => exact ⟨value, _, ended, behind⟩

end LogsOnly

-- What a walk comes to by itself: it returns, or halts with a reason of its own.
def Ended : Except (Stop Halt) Value → Prop
  | .ok _ => True
  | .error (.halted _) => True
  | .error _ => False

/-- A walk that ends in a block does the same where more cells follow. -/
def Local (walk : Walk Cell Entry Halt Value) : Prop :=
  ∀ data more offset, Ended (walk data offset).value → walk (data ++ more) offset = walk data offset

section Local

theorem local_silent {walk : Walk Cell Entry Halt Value}
    (blind : ∀ data other offset, walk data offset = walk other offset) : Local walk :=
  fun data more offset _ => blind (data ++ more) data offset

theorem local_andThen {walk : Walk Cell Entry Halt Value}
    {rest : Value → Walk Cell Entry Halt Result} (first : Local walk)
    (second : ∀ value, Local (rest value)) : Local (andThen walk rest) := by
  intro data more offset ended
  cases here : (walk data offset).value with
  | error stop =>
      have halted : Ended (walk data offset).value := by
        simp only [andThen, here] at ended
        rw [here]
        cases stop <;> exact ended
      simp only [andThen, first data more offset halted, here]
  | ok value =>
      have returned : Ended (walk data offset).value := by
        rw [here]
        trivial
      simp only [andThen, here] at ended
      have later := second value data more _ ended
      simp only [andThen, first data more offset returned, here, later]

theorem local_pure (value : Value) : Local (pure value : Walk Cell Entry Halt Value) :=
  local_silent fun _ _ _ => rfl

theorem local_offset : Local (Walk.offset : Walk Cell Entry Halt Nat) :=
  local_silent fun _ _ _ => rfl

theorem local_seek (target : Nat) : Local (seek target : Walk Cell Entry Halt Unit) :=
  local_silent fun _ _ _ => rfl

theorem local_skip (count : Nat) : Local (skip count : Walk Cell Entry Halt Unit) :=
  local_silent fun _ _ _ => rfl

theorem local_emit (entry : Entry) : Local (emit entry : Walk Cell Entry Halt Unit) :=
  local_silent fun _ _ _ => rfl

theorem local_halt (reason : Halt) : Local (halt reason : Walk Cell Entry Halt Value) :=
  local_silent fun _ _ _ => rfl

theorem local_fail (stop : Stop Halt) : Local (fail stop : Walk Cell Entry Halt Value) :=
  local_silent fun _ _ _ => rfl

-- Within what is there, looking from an offset on is looking into the longer block.
theorem drop_append_of_some (data more : List Cell) (offset : Nat)
    (some_left : 0 < (data.drop offset).length) :
    (data ++ more).drop offset = data.drop offset ++ more := by
  rw [List.length_drop] at some_left
  exact List.drop_append_of_le_length (by omega)

theorem local_read (count : Nat) :
    Local (read count : Walk Cell Entry Halt (List Cell)) := by
  intro data more offset ended
  unfold read at ended ⊢
  dsimp only at ended ⊢
  by_cases here : count ≤ (data.drop offset).length
  · have there : count ≤ ((data ++ more).drop offset).length := by
      rw [List.length_drop] at here ⊢
      rw [List.length_append]
      omega
    rw [if_pos here, if_pos there]
    cases count with
    | zero => simp
    | succ count =>
        rw [drop_append_of_some data more offset (by omega), List.take_append_of_le_length here]
  · rw [if_neg here] at ended
    exact ended.elim

theorem local_readUntil [DecidableEq Cell] (terminator : Cell) :
    Local (readUntil terminator : Walk Cell Entry Halt (List Cell)) := by
  intro data more offset ended
  unfold readUntil at ended ⊢
  dsimp only at ended ⊢
  by_cases here : ((data.drop offset).takeWhile (· ≠ terminator)).length < (data.drop offset).length
  · have same : ((data ++ more).drop offset).takeWhile (· ≠ terminator) =
        (data.drop offset).takeWhile (· ≠ terminator) := by
      rw [drop_append_of_some data more offset (by omega), List.takeWhile_append, if_neg (by omega)]
    have there : ((data.drop offset).takeWhile (· ≠ terminator)).length <
        ((data ++ more).drop offset).length := by
      rw [List.length_drop] at here ⊢
      rw [List.length_append]
      omega
    rw [same, if_pos here, if_pos there]
  · rw [if_neg here] at ended
    exact ended.elim

theorem local_loop {Vars : Type} (body : Vars → Walk Cell Entry Halt (Option Vars)) (fuel : Nat)
    (vars : Vars) (fine : ∀ vars, Local (body vars)) : Local (loop body fuel vars) := by
  induction fuel generalizing vars with
  | zero => exact local_fail _
  | succ fuel ih =>
      refine local_andThen (fine vars) fun next => ?_
      cases next with
      | none => exact local_pure ()
      | some next => exact ih next

-- A loop that has ended leaves no use for more fuel.
theorem loop_fuel {Vars : Type} (body : Vars → Walk Cell Entry Halt (Option Vars)) (fuel more : Nat)
    (vars : Vars) (data : List Cell) (offset : Nat)
    (ended : Ended (loop body fuel vars data offset).value) :
    loop body (fuel + more) vars data offset = loop body fuel vars data offset := by
  induction fuel generalizing vars offset with
  | zero => exact ended.elim
  | succ fuel ih =>
      rw [Nat.add_right_comm]
      simp only [loop, andThen] at ended ⊢
      cases here : (body vars data offset).value with
      | error stop => rfl
      | ok next =>
          rw [here] at ended
          cases next with
          | none => rfl
          | some next => simp only [ih next _ ended]

-- The fuel of such a loop grows with the block, which a loop that has ended does not see.
theorem local_repeated {Vars : Type} (body : Vars → Walk Cell Entry Halt (Option Vars))
    (vars : Vars) (fine : ∀ vars, Local (body vars)) :
    Local (andThen ahead fun block => loop body (block.length + 1) vars) := by
  have unrolled (data : List Cell) (offset : Nat) :
      andThen ahead (fun block => loop body (block.length + 1) vars) data offset =
        loop body ((data.drop offset).length + 1) vars data offset := rfl
  intro data more offset ended
  rw [unrolled] at ended ⊢
  rw [unrolled]
  have same := local_loop body ((data.drop offset).length + 1) vars fine data more offset ended
  obtain ⟨extra, longer⟩ : ∃ extra, ((data ++ more).drop offset).length + 1 =
      (data.drop offset).length + 1 + extra := by
    refine Nat.exists_eq_add_of_le ?_
    rw [List.length_drop, List.length_drop, List.length_append]
    omega
  rw [longer, loop_fuel body _ extra vars _ offset (by rwa [same]), same]

end Local

/-- The walks that are put together from the ones above, with loops over the cells ahead. -/
inductive Built [DecidableEq Cell] (writes : Entry → Prop) (halts : Halt → Prop) :
    {Value : Type} → Walk Cell Entry Halt Value → Prop
  | pure {Value : Type} (value : Value) : Built writes halts (Pure.pure value)
  | offset : Built writes halts Walk.offset
  | seek (target : Nat) : Built writes halts (Walk.seek target)
  | skip (count : Nat) : Built writes halts (Walk.skip count)
  | emit (entry : Entry) (fine : writes entry) : Built writes halts (Walk.emit entry)
  | halt {Value : Type} (reason : Halt) (fine : halts reason) :
      Built writes halts (Walk.halt reason : Walk Cell Entry Halt Value)
  | read (count : Nat) : Built writes halts (Walk.read count)
  | readUntil (terminator : Cell) : Built writes halts (Walk.readUntil terminator)
  | andThen {Value Result : Type} {walk : Walk Cell Entry Halt Value}
      {rest : Value → Walk Cell Entry Halt Result} (first : Built writes halts walk)
      (second : ∀ value, Built writes halts (rest value)) : Built writes halts (Walk.andThen walk rest)
  | repeated {Vars : Type} (body : Vars → Walk Cell Entry Halt (Option Vars)) (vars : Vars)
      (fine : ∀ vars, Built writes halts (body vars)) :
      Built writes halts (Walk.andThen ahead fun block => loop body (block.length + 1) vars)

section Built

variable [DecidableEq Cell] {writes : Entry → Prop} {halts : Halt → Prop}
  {walk : Walk Cell Entry Halt Value}

attribute [simp] Built.pure Built.offset Built.seek Built.skip Built.emit Built.halt Built.read
  Built.readUntil

@[simp] theorem Built.times {body : Walk Cell Entry Halt Unit} (built : Built writes halts body)
    (count : Nat) : Built writes halts (times body count) := by
  induction count with
  | zero => exact .pure ()
  | succ count ih => exact built.andThen fun _ => ih

theorem Built.logsOnly (built : Built writes halts walk) : LogsOnly writes walk := by
  induction built with
  | pure value => exact logsOnly_pure value
  | offset => exact logsOnly_offset
  | seek target => exact logsOnly_seek target
  | skip count => exact logsOnly_skip count
  | emit entry fine => exact logsOnly_emit entry fine
  | halt reason fine => exact logsOnly_halt reason
  | read count => exact logsOnly_read count
  | readUntil terminator => exact logsOnly_readUntil terminator
  | andThen _ _ first second => exact logsOnly_andThen first second
  | repeated body vars _ ih =>
      exact logsOnly_andThen logsOnly_ahead fun _ => logsOnly_loop body _ vars ih

theorem Built.haltsOnly (built : Built writes halts walk) : HaltsOnly halts walk := by
  induction built with
  | pure value => exact haltsOnly_pure halts value
  | offset => exact haltsOnly_returns halts fun _ offset => ⟨offset, rfl⟩
  | seek target => exact haltsOnly_returns halts fun _ _ => ⟨(), rfl⟩
  | skip count => exact haltsOnly_returns halts fun _ _ => ⟨(), rfl⟩
  | emit entry fine => exact haltsOnly_emit halts entry
  | halt reason fine => exact haltsOnly_halt reason fine
  | read count => exact haltsOnly_read halts count
  | readUntil terminator => exact haltsOnly_readUntil halts terminator
  | andThen _ _ first second => exact haltsOnly_andThen first second
  | repeated body vars _ ih =>
      exact haltsOnly_andThen (haltsOnly_returns halts fun _ _ => ⟨_, rfl⟩) fun _ =>
        haltsOnly_loop body _ vars ih

theorem Built.isLocal (built : Built writes halts walk) : Local walk := by
  induction built with
  | pure value => exact local_pure value
  | offset => exact local_offset
  | seek target => exact local_seek target
  | skip count => exact local_skip count
  | emit entry fine => exact local_emit entry
  | halt reason fine => exact local_halt reason
  | read count => exact local_read count
  | readUntil terminator => exact local_readUntil terminator
  | andThen _ _ first second => exact local_andThen first second
  | repeated body vars _ ih => exact local_repeated body vars ih

end Built

section Inside

variable {data : List Cell} {limit offset : Nat}

@[simp] theorem inside_pure (value : Value) :
    Inside limit (pure value : Walk Cell Entry Halt Value) data offset := by
  intro position member
  simp [pure] at member

@[simp] theorem inside_emit (entry : Entry) :
    Inside limit (emit entry : Walk Cell Entry Halt Unit) data offset := by
  intro position member
  simp [emit] at member

@[simp] theorem inside_halt (reason : Halt) :
    Inside limit (halt reason : Walk Cell Entry Halt Value) data offset := by
  intro position member
  simp [halt] at member

@[simp] theorem inside_skip (count : Nat) :
    Inside limit (skip count : Walk Cell Entry Halt Unit) data offset := by
  intro position member
  simp [skip] at member

@[simp] theorem inside_seek (target : Nat) :
    Inside limit (seek target : Walk Cell Entry Halt Unit) data offset := by
  intro position member
  simp [seek] at member

theorem inside_andThen (walk : Walk Cell Entry Halt Value)
    (rest : Value → Walk Cell Entry Halt Result) :
    Inside limit (andThen walk rest) data offset ↔
      Inside limit walk data offset ∧
        ∀ value, (walk data offset).value = .ok value →
          Inside limit (rest value) data (walk data offset).offset := by
  unfold Inside andThen
  cases ended : (walk data offset).value with
  | error stop => simp [ended]
  | ok value => simp [ended, or_imp, forall_and]

theorem inside_silent {walk : Walk Cell Entry Halt Value} {value : Value} {after : Nat}
    {log : List Entry} (silent : walk data offset = ⟨.ok value, after, [], log⟩)
    (rest : Value → Walk Cell Entry Halt Result) :
    Inside limit (andThen walk rest) data offset ↔ Inside limit (rest value) data after := by
  rw [inside_andThen, Inside, silent]
  simp

@[simp] theorem inside_pure_andThen (value : Value)
    (rest : Value → Walk Cell Entry Halt Result) :
    Inside limit (andThen (pure value) rest) data offset ↔ Inside limit (rest value) data offset :=
  inside_silent rfl rest

@[simp] theorem inside_emit_andThen (entry : Entry)
    (rest : Unit → Walk Cell Entry Halt Result) :
    Inside limit (andThen (emit entry) rest) data offset ↔ Inside limit (rest ()) data offset :=
  inside_silent rfl rest

@[simp] theorem inside_skip_andThen (count : Nat)
    (rest : Unit → Walk Cell Entry Halt Result) :
    Inside limit (andThen (skip count) rest) data offset ↔
      Inside limit (rest ()) data (offset + count) :=
  inside_silent rfl rest

@[simp] theorem inside_seek_andThen (target : Nat)
    (rest : Unit → Walk Cell Entry Halt Result) :
    Inside limit (andThen (seek target) rest) data offset ↔ Inside limit (rest ()) data target :=
  inside_silent rfl rest

@[simp] theorem inside_offset_andThen (rest : Nat → Walk Cell Entry Halt Result) :
    Inside limit (andThen Walk.offset rest) data offset ↔
      Inside limit (rest offset) data offset :=
  inside_silent rfl rest

@[simp] theorem inside_ahead_andThen (rest : List Cell → Walk Cell Entry Halt Result) :
    Inside limit (andThen ahead rest) data offset ↔
      Inside limit (rest (data.drop offset)) data offset :=
  inside_silent rfl rest

@[simp] theorem inside_halt_andThen (reason : Halt)
    (rest : Value → Walk Cell Entry Halt Result) :
    Inside limit (andThen (halt reason) rest) data offset := by
  rw [inside_andThen]
  simp [Inside, halt]

theorem window_length (data : List Cell) (limit offset : Nat) (fits : limit ≤ data.length) :
    (window data limit offset).length = limit - offset := by
  simp [window, Nat.min_eq_left fits]

@[simp] theorem window_drop (data : List Cell) (limit offset count : Nat) :
    (window data limit offset).drop count = window data limit (offset + count) := by
  simp [window]

theorem inside_range (limit offset count : Nat) :
    (∀ position ∈ List.range' offset count, position < limit) ↔ count ≤ limit - offset := by
  constructor
  · intro inside
    by_contra beyond
    have member : offset + (limit - offset) ∈ List.range' offset count :=
      List.mem_range'_1.mpr (by omega)
    have := inside _ member
    omega
  · intro bounded position member
    have := List.mem_range'_1.mp member
    omega

theorem take_window (data : List Cell) (limit offset count : Nat)
    (bounded : count ≤ limit - offset) :
    (data.drop offset).take count = (window data limit offset).take count := by
  rw [window, List.drop_take, List.take_take, Nat.min_eq_left bounded]

theorem read_window (fits : limit ≤ data.length) (count : Nat)
    (room : count ≤ (window data limit offset).length) :
    (read count data offset : Outcome Entry Halt (List Cell)) =
      ⟨.ok ((window data limit offset).take count), offset + count, List.range' offset count, []⟩ := by
  have bounded : count ≤ limit - offset := by rwa [window_length data limit offset fits] at room
  have there : count ≤ (data.drop offset).length := by
    rw [List.length_drop]
    omega
  simp only [read, there, if_true, take_window data limit offset count bounded]

theorem inside_read_andThen (fits : limit ≤ data.length) (count : Nat)
    (rest : List Cell → Walk Cell Entry Halt Result) :
    Inside limit (andThen (read count) rest) data offset ↔
      count ≤ (window data limit offset).length ∧
        Inside limit (rest ((window data limit offset).take count)) data (offset + count) := by
  rw [inside_andThen, window_length data limit offset fits]
  by_cases there : count ≤ (data.drop offset).length
  · simp only [Inside, read, there, if_true, inside_range, Except.ok.injEq, forall_eq']
    refine and_congr_right fun bounded => ?_
    rw [take_window data limit offset count bounded]
  · have beyond : ¬ count ≤ limit - offset := by
      rw [List.length_drop] at there
      omega
    simp only [Inside, read, there, if_false, inside_range, beyond, false_and, iff_false]
    rw [List.length_drop] at there ⊢
    omega

theorem inside_read (fits : limit ≤ data.length) (count : Nat) :
    Inside limit (read count : Walk Cell Entry Halt (List Cell)) data offset ↔
      count ≤ (window data limit offset).length := by
  have ended : Inside limit (andThen (read count) fun cells =>
      (pure cells : Walk Cell Entry Halt (List Cell))) data offset ↔ _ :=
    inside_read_andThen fits count _
  simp only [inside_pure, and_true] at ended
  rw [← ended, inside_andThen]
  simp

theorem takeWhile_split [DecidableEq Cell] (terminator : Cell) (cells : List Cell)
    (short : (cells.takeWhile (· ≠ terminator)).length < cells.length) :
    ∃ tail, cells = cells.takeWhile (· ≠ terminator) ++ terminator :: tail := by
  induction cells with
  | nil => simp at short
  | cons cell cells ih =>
      by_cases same : cell = terminator
      · exact ⟨cells, by simp [same]⟩
      · simp only [List.takeWhile_cons, same, ne_eq, not_false_eq_true, decide_true, if_true,
          List.length_cons, Nat.add_lt_add_iff_right] at short ⊢
        obtain ⟨tail, split⟩ := ih (by simpa using short)
        exact ⟨tail, by simpa using split⟩

theorem takeWhile_free [DecidableEq Cell] (terminator : Cell) (cells : List Cell) :
    terminator ∉ cells.takeWhile (· ≠ terminator) := by
  intro member
  simpa using List.mem_takeWhile_imp member

theorem takeWhile_text [DecidableEq Cell] (terminator : Cell) (text tail : List Cell)
    (free : terminator ∉ text) :
    (text ++ terminator :: tail).takeWhile (· ≠ terminator) = text := by
  have all : ∀ cell ∈ text, decide (cell ≠ terminator) = true := by
    intro cell member
    simp only [decide_eq_true_eq]
    rintro rfl
    exact free member
  rw [List.takeWhile_append_of_pos all]
  simp

theorem drop_eq_window (data : List Cell) (limit offset : Nat) (fits : limit ≤ data.length) :
    ∃ behind, data.drop offset = window data limit offset ++ behind := by
  by_cases before : offset ≤ limit
  · refine ⟨data.drop limit, ?_⟩
    have front : (data.take limit ++ data.drop limit).drop offset = data.drop offset := by simp
    rw [← front, List.drop_append_of_le_length (by simp; omega), window]
  · have empty : window data limit offset = [] := by
      apply List.eq_nil_of_length_eq_zero
      rw [window_length data limit offset fits]
      omega
    exact ⟨data.drop offset, by rw [empty, List.nil_append]⟩

theorem readUntil_window [DecidableEq Cell] (fits : limit ≤ data.length) (terminator : Cell)
    (front rest : List Cell) (here : window data limit offset = front ++ terminator :: rest)
    (free : terminator ∉ front) :
    (readUntil terminator data offset : Outcome Entry Halt (List Cell)) =
      ⟨.ok front, offset + front.length + 1, List.range' offset (front.length + 1), []⟩ := by
  obtain ⟨behind, split⟩ := drop_eq_window data limit offset fits
  have whole : (data.drop offset).takeWhile (· ≠ terminator) = front := by
    rw [split, here, List.append_assoc]
    exact takeWhile_text terminator front _ free
  have found : front.length < (data.drop offset).length := by
    rw [split, here]
    simp
  simp only [readUntil, whole, found, if_true]

theorem inside_readUntil [DecidableEq Cell] (fits : limit ≤ data.length) (terminator : Cell) :
    Inside limit (readUntil terminator : Walk Cell Entry Halt (List Cell)) data offset ↔
      ∃ front rest, window data limit offset = front ++ terminator :: rest ∧ terminator ∉ front := by
  constructor
  · intro inside
    by_cases found : ((data.drop offset).takeWhile (· ≠ terminator)).length < (data.drop offset).length
    · simp only [Inside, readUntil, found, if_true, inside_range] at inside
      obtain ⟨tail, whole⟩ := takeWhile_split terminator _ found
      have free := takeWhile_free terminator (data.drop offset)
      generalize (data.drop offset).takeWhile (· ≠ terminator) = front at *
      refine ⟨front, tail.take (limit - offset - (front.length + 1)), ?_, free⟩
      have taken : window data limit offset = (data.drop offset).take (limit - offset) := by
        rw [window, List.drop_take]
      rw [taken, whole, List.take_append, List.take_of_length_le (by omega)]
      obtain ⟨extra, room⟩ : ∃ extra, limit - offset - front.length = extra + 1 :=
        ⟨limit - offset - front.length - 1, by omega⟩
      rw [room, List.take_succ_cons]
      congr 3
      omega
    · simp only [Inside, readUntil, found, if_false, inside_range] at inside
      rw [List.length_drop] at inside
      omega
  · rintro ⟨front, rest, here, free⟩
    have bound : front.length + 1 ≤ limit - offset := by
      rw [← window_length data limit offset fits, here]
      simp
    rw [Inside, readUntil_window fits terminator front rest here free]
    exact (inside_range limit offset _).mpr bound

end Inside

end Walk
