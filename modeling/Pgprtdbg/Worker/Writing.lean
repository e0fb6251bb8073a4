import Pgprtdbg.Model.Message
import Pgprtdbg.Shared.Steps

set_option autoImplicit false

namespace Pgprtdbg

theorem writeLoop_congr (msg other : Message) (same : msg.bytes = other.bytes)
    (offset totalbytes remaining : Nat) (outcomes : List WriteOutcome) :
    writeLoop msg offset totalbytes remaining outcomes =
      writeLoop other offset totalbytes remaining outcomes := by
  have length : msg.length = other.length := by
    simpa using congrArg List.length same
  induction outcomes generalizing offset totalbytes remaining with
  | nil => rfl
  | cons outcome outcomes ih =>
      cases outcome with
      | count numbytes => simp only [writeLoop, same, length, ih]
      | error errno => cases errno <;> simp only [writeLoop, ih]

theorem writeMessage_congr (msg other : Message) (same : msg.bytes = other.bytes)
    (outcomes : List WriteOutcome) :
    pgprtdbgWriteMessage outcomes msg = pgprtdbgWriteMessage outcomes other := by
  have length : msg.length = other.length := by
    simpa using congrArg List.length same
  rw [pgprtdbgWriteMessage, pgprtdbgWriteMessage, length]
  exact writeLoop_congr msg other same _ _ _ outcomes

-- The loop goes on where the bytes accepted so far end.
theorem writeLoop_accepts (msg : Message) (outcomes : List WriteOutcome) (offset : Nat) :
    (writeLoop msg offset offset (msg.length - offset) outcomes).accepted <+: msg.bytes.drop offset ∧
      ((writeLoop msg offset offset (msg.length - offset) outcomes).status = some .ok →
        (writeLoop msg offset offset (msg.length - offset) outcomes).accepted =
          msg.bytes.drop offset) := by
  have size := msg.bytes_length
  induction outcomes generalizing offset with
  | nil => simp [writeLoop]
  | cons outcome outcomes ih =>
      cases outcome with
      | error errno =>
          cases errno with
          | again => exact ih offset
          | clear => simp [writeLoop]
          | pipe => simp [writeLoop]
          | other number => simp [writeLoop]
      | count numbytes =>
          have rest_all : (msg.bytes.drop offset).take (msg.length - offset) =
              msg.bytes.drop offset := by
            apply List.take_of_length_le
            rw [List.length_drop, size]
          have all (enough : msg.length - offset ≤ numbytes) :
              (msg.bytes.drop offset).take (min numbytes (msg.length - offset)) =
                msg.bytes.drop offset := by
            rw [min_eq_right enough, rest_all]
          by_cases whole : numbytes = msg.length
          · simp [writeLoop, whole, rest_all]
          · by_cases last : offset + numbytes = msg.length
            · simp [writeLoop, whole, last, all (by omega)]
            · have rest := ih (offset + numbytes)
              have left : msg.length - (offset + numbytes) = msg.length - offset - numbytes := by omega
              rw [left] at rest
              have joined : (msg.bytes.drop offset).take (min numbytes (msg.length - offset)) ++
                  msg.bytes.drop (offset + numbytes) = msg.bytes.drop offset := by
                by_cases enough : msg.length - offset ≤ numbytes
                · have nothing : msg.bytes.drop (offset + numbytes) = [] :=
                    List.drop_of_length_le (by omega)
                  rw [all enough, nothing, List.append_nil]
                · rw [min_eq_left (by omega), ← List.drop_drop, List.take_append_drop]
              simp only [writeLoop, whole, last, if_false, Written.before]
              constructor
              · obtain ⟨more, rest_eq⟩ := rest.1
                exact ⟨more, by rw [List.append_assoc, rest_eq, joined]⟩
              · intro ok
                rw [rest.2 ok, joined]

theorem writeMessage_accepts (outcomes : List WriteOutcome) (msg : Message) :
    (pgprtdbgWriteMessage outcomes msg).accepted <+: msg.bytes ∧
      ((pgprtdbgWriteMessage outcomes msg).status = some .ok →
        (pgprtdbgWriteMessage outcomes msg).accepted = msg.bytes) := by
  simpa [pgprtdbgWriteMessage] using writeLoop_accepts msg outcomes 0

theorem writeLoop_not_zero (msg : Message) (outcomes : List WriteOutcome)
    (offset totalbytes remaining : Nat) :
    (writeLoop msg offset totalbytes remaining outcomes).status ≠ some .zero := by
  induction outcomes generalizing offset totalbytes remaining with
  | nil => simp [writeLoop]
  | cons outcome outcomes ih =>
      cases outcome with
      | error errno =>
          cases errno with
          | again => exact ih offset totalbytes remaining
          | clear => simp [writeLoop]
          | pipe => simp [writeLoop]
          | other number => simp [writeLoop]
      | count numbytes =>
          simp only [writeLoop]
          split
          · simp
          · split
            · simp
            · exact ih _ _ _

-- The signal comes where the answers before it leave some of the message to be written.
theorem writeLoop_pipe_iff (msg : Message) (outcomes : List WriteOutcome)
    (offset totalbytes remaining : Nat) :
    ((writeLoop msg offset totalbytes remaining outcomes).status = none ∧
      (writeLoop msg offset totalbytes remaining outcomes).errno = .pipe) ↔
    ∃ taken rest, outcomes = taken ++ .error .pipe :: rest ∧
      (writeLoop msg offset totalbytes remaining taken).status = none := by
  induction outcomes generalizing offset totalbytes remaining with
  | nil => simp [writeLoop]
  | cons outcome outcomes ih =>
      have shift (closed : outcome ≠ .error .pipe) (goes_on : List WriteOutcome → Prop) :
          (∃ taken rest, outcome :: outcomes = taken ++ .error .pipe :: rest ∧ goes_on taken) ↔
            ∃ taken rest, outcomes = taken ++ .error .pipe :: rest ∧
              goes_on (outcome :: taken) := by
        constructor
        · rintro ⟨taken, rest, same, unfinished⟩
          cases taken with
          | nil => exact absurd (List.cons.inj same).1 closed
          | cons first taken =>
              obtain ⟨rfl, behind⟩ := List.cons.inj same
              exact ⟨taken, rest, behind, unfinished⟩
        · rintro ⟨taken, rest, rfl, unfinished⟩
          exact ⟨outcome :: taken, rest, rfl, unfinished⟩
      cases outcome with
      | count numbytes =>
          rw [shift (by simp)]
          by_cases whole : numbytes = msg.length
          · simp [writeLoop, whole]
          · by_cases last : totalbytes + numbytes = msg.length
            · simp [writeLoop, whole, last]
            · simpa only [writeLoop, whole, last, if_false, Written.before] using
                ih (offset + numbytes) (totalbytes + numbytes) (remaining - numbytes)
      | error errno =>
          cases errno with
          | pipe => exact iff_of_true ⟨rfl, rfl⟩ ⟨[], outcomes, rfl, rfl⟩
          | again =>
              rw [shift (by simp)]
              exact ih offset totalbytes remaining
          | clear =>
              rw [shift (by simp)]
              simp [writeLoop]
          | other number =>
              rw [shift (by simp)]
              simp [writeLoop]

section Delivery

-- The counters of write_message at the head of its loop, where it calls write(). None of them
-- passes the length of the message, so offset fits the int that it is.
structure WriteVars where
  offset : Nat
  totalbytes : Nat
  remaining : Nat
  deriving DecidableEq, Repr

def writeStart (msg : Message) : WriteVars := ⟨0, 0, msg.length⟩

def WriteVars.add (numbytes : Nat) (vars : WriteVars) : WriteVars :=
  { offset := vars.offset + numbytes
    totalbytes := vars.totalbytes + numbytes
    remaining := vars.remaining - numbytes }

-- What write() says it took.
def WriteOutcome.taken : WriteOutcome → Nat
  | .count numbytes => numbytes
  | .error _ => 0

-- One round of the loop: none when the function goes no further.
def writeStep (msg : Message) (vars : WriteVars) : WriteOutcome → Option WriteVars
  | .count numbytes =>
      if numbytes = msg.length then
        none
      else if vars.totalbytes + numbytes = msg.length then
        none
      else
        some (vars.add numbytes)
  | .error .again => some vars
  | .error _ => none

/-- No write() takes more than it is asked to. -/
def Obliging (msg : Message) (outcomes : List WriteOutcome) : Prop :=
  ∀ seen numbytes vars, seen ++ [.count numbytes] <+: outcomes →
    Steps.run (writeStep msg) (writeStart msg) seen = some vars → numbytes ≤ vars.remaining

-- The same, asked of one outcome of the list.
def obligesAt (msg : Message) (outcomes : List WriteOutcome) (index : Nat) : Bool :=
  match outcomes[index]?, Steps.run (writeStep msg) (writeStart msg) (outcomes.take index) with
  | some (.count numbytes), some vars => decide (numbytes ≤ vars.remaining)
  | _, _ => true

theorem obliging_iff (msg : Message) (outcomes : List WriteOutcome) :
    (∀ index ∈ List.range outcomes.length, obligesAt msg outcomes index = true) ↔
      Obliging msg outcomes := by
  constructor
  · intro each seen numbytes vars front reached
    obtain ⟨rest, rfl⟩ := front
    have here := each seen.length (by simp)
    simpa [obligesAt, reached] using here
  · intro obliging index _
    unfold obligesAt
    split
    next numbytes vars here reached =>
      have front : outcomes.take index ++ [.count numbytes] <+: outcomes := by
        rw [← Option.toList_some, ← here, ← List.take_add_one]
        exact List.take_prefix _ _
      exact decide_eq_true (obliging _ numbytes vars front reached)
    · rfl

instance (msg : Message) (outcomes : List WriteOutcome) : Decidable (Obliging msg outcomes) :=
  decidable_of_iff _ (obliging_iff msg outcomes)

structure WriteVars.Balanced (msg : Message) (vars : WriteVars) : Prop where
  offset : vars.offset = vars.totalbytes
  whole : vars.totalbytes + vars.remaining = msg.length

structure WriteVars.Counted (msg : Message) (vars : WriteVars) : Prop
    extends WriteVars.Balanced msg vars where
  unfinished : vars.totalbytes < msg.length

def WriteVars.goOn (msg : Message) (vars : WriteVars) (outcomes : List WriteOutcome) : Written :=
  writeLoop msg vars.offset vars.totalbytes vars.remaining outcomes

theorem before_before (front back : List UInt8) (rest : Written) :
    (rest.before back).before front = rest.before (front ++ back) := by
  simp [Written.before]

theorem WriteVars.Balanced.add {msg : Message} {vars : WriteVars} (balanced : vars.Balanced msg)
    (numbytes : Nat) (asked : numbytes ≤ vars.remaining) : (vars.add numbytes).Balanced msg := by
  have whole := balanced.whole
  constructor
  · simp only [WriteVars.add, balanced.offset]
  · simp only [WriteVars.add]
    omega

theorem writeStep_counted (msg : Message) (vars next : WriteVars) (outcome : WriteOutcome)
    (counted : vars.Counted msg)
    (obliging : ∀ numbytes, outcome = .count numbytes → numbytes ≤ vars.remaining)
    (step : writeStep msg vars outcome = some next) : next.Counted msg := by
  cases outcome with
  | count numbytes =>
      have asked := obliging numbytes rfl
      have balanced := counted.toBalanced.add numbytes asked
      have whole := counted.whole
      simp only [writeStep] at step
      split at step
      · cases step
      · split at step
        · cases step
        next unfinished =>
          cases step
          refine ⟨balanced, ?_⟩
          simp only [WriteVars.add]
          omega
  | error errno =>
      cases errno with
      | again =>
          cases step
          exact counted
      | clear => cases step
      | pipe => cases step
      | other number => cases step

-- The bytes accepted up to the next round are the message up to its counters.
theorem writeStep_goOn (msg : Message) (vars next : WriteVars) (outcome : WriteOutcome)
    (outcomes : List WriteOutcome) (counted : vars.Counted msg)
    (obliging : ∀ numbytes, outcome = .count numbytes → numbytes ≤ vars.remaining)
    (step : writeStep msg vars outcome = some next) :
    (vars.goOn msg (outcome :: outcomes)).before (msg.bytes.take vars.totalbytes) =
      (next.goOn msg outcomes).before (msg.bytes.take next.totalbytes) := by
  cases outcome with
  | count numbytes =>
      have asked := obliging numbytes rfl
      have joined : msg.bytes.take vars.totalbytes ++ (msg.bytes.drop vars.offset).take numbytes =
          msg.bytes.take (vars.totalbytes + numbytes) := by
        rw [counted.offset, List.take_add]
      simp only [writeStep] at step
      split at step
      · cases step
      · split at step
        · cases step
        next other unfinished =>
          cases step
          simp only [WriteVars.goOn, WriteVars.add, writeLoop, other, unfinished, if_false,
            before_before, min_eq_left asked, joined]
  | error errno =>
      cases errno with
      | again =>
          cases step
          rfl
      | clear => cases step
      | pipe => cases step
      | other number => cases step

theorem Obliging.asked {msg : Message} {outcomes seen rest : List WriteOutcome}
    {outcome : WriteOutcome} {vars : WriteVars} (obliging : Obliging msg outcomes)
    (split : outcomes = seen ++ outcome :: rest)
    (reached : Steps.run (writeStep msg) (writeStart msg) seen = some vars) (numbytes : Nat)
    (same : outcome = .count numbytes) : numbytes ≤ vars.remaining := by
  apply obliging seen numbytes vars _ reached
  exact ⟨rest, by rw [split, same, List.append_assoc, List.singleton_append]⟩

theorem write_run (msg : Message) (nonempty : 1 ≤ msg.length) (outcomes : List WriteOutcome)
    (obliging : Obliging msg outcomes) (seen rest : List WriteOutcome) (vars : WriteVars)
    (split : outcomes = seen ++ rest)
    (reached : Steps.run (writeStep msg) (writeStart msg) seen = some vars) :
    vars.Counted msg ∧ pgprtdbgWriteMessage outcomes msg =
      (vars.goOn msg rest).before (msg.bytes.take vars.totalbytes) := by
  induction seen using List.reverseRecOn generalizing rest vars with
  | nil =>
      cases reached
      subst split
      refine ⟨⟨⟨rfl, Nat.zero_add _⟩, nonempty⟩, ?_⟩
      simp [WriteVars.goOn, writeStart, pgprtdbgWriteMessage, Written.before]
  | append_singleton seen outcome ih =>
      obtain ⟨before, earlier, step⟩ := (Steps.run_snoc _ _ _ _ _).mp reached
      rw [List.append_assoc, List.singleton_append] at split
      have held := ih (outcome :: rest) before split earlier
      have asked := obliging.asked split earlier
      refine ⟨writeStep_counted msg before vars outcome held.1 asked step, ?_⟩
      rw [held.2, writeStep_goOn msg before vars outcome rest held.1 asked step]

-- The last round: an error, the signal, or the last bytes of the message.
theorem writeStep_ends (msg : Message) (vars : WriteVars) (outcome : WriteOutcome)
    (outcomes : List WriteOutcome) (counted : vars.Counted msg)
    (obliging : ∀ numbytes, outcome = .count numbytes → numbytes ≤ vars.remaining)
    (ends : writeStep msg vars outcome = none) :
    (∃ errno, outcome = .error errno ∧ errno ≠ .again ∧
        vars.goOn msg (outcome :: outcomes) = ⟨some .error, [], errno⟩) ∨
      (outcome = .error .pipe ∧ vars.goOn msg (outcome :: outcomes) = ⟨none, [], .pipe⟩) ∨
      (msg.length ≤ vars.totalbytes + outcome.taken ∧ vars.goOn msg (outcome :: outcomes) =
        ⟨some .ok, msg.bytes.drop vars.totalbytes, .clear⟩) := by
  have offset := counted.offset
  have whole := counted.whole
  cases outcome with
  | count numbytes =>
      right
      right
      have asked := obliging numbytes rfl
      have last (enough : vars.remaining ≤ numbytes) :
          (msg.bytes.drop vars.offset).take (min numbytes vars.remaining) =
            msg.bytes.drop vars.totalbytes := by
        rw [offset, min_eq_right enough, List.take_of_length_le]
        rw [List.length_drop, msg.bytes_length]
        omega
      simp only [writeStep] at ends
      split at ends
      next all =>
        refine ⟨by simp only [WriteOutcome.taken]; omega, ?_⟩
        simp only [WriteVars.goOn, writeLoop, all, if_true]
        rw [← all, last (by omega)]
      next other =>
        split at ends
        next rest =>
          refine ⟨by simp only [WriteOutcome.taken]; omega, ?_⟩
          simp only [WriteVars.goOn, writeLoop, other, rest, if_true, if_false, last (by omega)]
        · cases ends
  | error errno =>
      cases errno with
      | again => cases ends
      | pipe => exact .inr (.inl ⟨rfl, rfl⟩)
      | clear => exact .inl ⟨.clear, rfl, by decide, rfl⟩
      | other number => exact .inl ⟨.other number, rfl, by simp, rfl⟩

theorem writeStep_total (msg : Message) (vars next : WriteVars) (outcome : WriteOutcome)
    (step : writeStep msg vars outcome = some next) :
    next.totalbytes = vars.totalbytes + outcome.taken := by
  cases outcome with
  | count numbytes =>
      simp only [writeStep] at step
      split at step
      · cases step
      · split at step
        · cases step
        · cases step
          rfl
  | error errno =>
      cases errno <;> cases step
      rfl

theorem write_total (msg : Message) (seen : List WriteOutcome) (vars : WriteVars)
    (reached : Steps.run (writeStep msg) (writeStart msg) seen = some vars) :
    vars.totalbytes = (seen.map WriteOutcome.taken).sum := by
  induction seen using List.reverseRecOn generalizing vars with
  | nil =>
      cases reached
      rfl
  | append_singleton seen outcome ih =>
      obtain ⟨before, earlier, step⟩ := (Steps.run_snoc _ _ _ _ _).mp reached
      rw [writeStep_total msg before vars outcome step, ih before earlier]
      simp

/-- The calls of write() that are made: all of them, or those up to the last round. -/
structure Asked (msg : Message) (outcomes asked : List WriteOutcome) : Prop where
  front : asked <+: outcomes
  before : ∀ seen outcome, asked = seen ++ [outcome] →
    (Steps.run (writeStep msg) (writeStart msg) seen).isSome
  last : asked = outcomes ∨ Steps.run (writeStep msg) (writeStart msg) asked = none

theorem write_asked (msg : Message) (nonempty : 1 ≤ msg.length) (outcomes : List WriteOutcome)
    (obliging : Obliging msg outcomes) :
    ∃ asked, Asked msg outcomes asked ∧ (pgprtdbgWriteMessage outcomes msg).accepted =
      msg.bytes.take (asked.map WriteOutcome.taken).sum := by
  cases run : Steps.run (writeStep msg) (writeStart msg) outcomes with
  | some vars =>
      have held := write_run msg nonempty outcomes obliging outcomes [] vars (by simp) run
      refine ⟨outcomes, ⟨List.prefix_refl _, ?_, .inl rfl⟩, ?_⟩
      · rintro seen outcome rfl
        obtain ⟨before, earlier, _⟩ := (Steps.run_snoc _ _ _ _ _).mp run
        rw [earlier]
        rfl
      · rw [held.2, ← write_total msg outcomes vars run]
        simp [WriteVars.goOn, writeLoop, Written.before]
  | none =>
      obtain ⟨seen, outcome, rest, vars, split, reached, ends⟩ := Steps.run_none _ _ _ run
      have held := write_run msg nonempty outcomes obliging seen (outcome :: rest) vars split reached
      have asked := obliging.asked split reached
      have total := write_total msg seen vars reached
      refine ⟨seen ++ [outcome], ⟨⟨rest, by simp [split]⟩, ?_, .inr ?_⟩, ?_⟩
      · intro earlier other same
        obtain ⟨rfl, _⟩ := List.append_inj' same rfl
        rw [reached]
        rfl
      · exact Steps.run_stops _ _ _ _ _ reached ends
      · rw [held.2, List.map_append, List.sum_append, ← total]
        rcases writeStep_ends msg vars outcome rest held.1 asked ends with
          ⟨errno, rfl, other, finished⟩ | ⟨rfl, finished⟩ | ⟨whole, finished⟩
        · simp [finished, Written.before, WriteOutcome.taken]
        · simp [finished, Written.before, WriteOutcome.taken]
        · have all : msg.bytes.take (vars.totalbytes + outcome.taken) = msg.bytes :=
            List.take_of_length_le (by rwa [msg.bytes_length])
          simp [finished, Written.before, all]

/--
Every byte of the message is accepted once and in order, or the write fails cleanly; what is
accepted are as many bytes as the calls of write() say.
-/
theorem write_delivers (msg : Message) (nonempty : 1 ≤ msg.length) (outcomes : List WriteOutcome)
    (obliging : Obliging msg outcomes) :
    let written := pgprtdbgWriteMessage outcomes msg
    (written.status = some .ok → written.accepted = msg.bytes) ∧
      (written.status = some .error →
        (∃ errno, .error errno ∈ outcomes ∧ errno ≠ .again ∧ written.errno = errno) ∧
          written.accepted <+: msg.bytes ∧ written.accepted ≠ msg.bytes) ∧
      (∀ seen rest vars, outcomes = seen ++ rest →
        Steps.run (writeStep msg) (writeStart msg) seen = some vars → vars.Balanced msg ∧
          ∀ numbytes, rest.head? = some (.count numbytes) → (vars.add numbytes).Balanced msg) ∧
      ∃ asked, Asked msg outcomes asked ∧
        written.accepted = msg.bytes.take (asked.map WriteOutcome.taken).sum := by
  intro written
  have accepts := writeMessage_accepts outcomes msg
  refine ⟨accepts.2, ?_, ?_, write_asked msg nonempty outcomes obliging⟩
  · intro failed
    cases run : Steps.run (writeStep msg) (writeStart msg) outcomes with
    | some vars =>
        have held := write_run msg nonempty outcomes obliging outcomes [] vars (by simp) run
        have waiting : written.status = none := by
          simp [written, held.2, WriteVars.goOn, writeLoop, Written.before]
        rw [waiting] at failed
        cases failed
    | none =>
        obtain ⟨seen, outcome, rest, vars, split, reached, ends⟩ := Steps.run_none _ _ _ run
        have held := write_run msg nonempty outcomes obliging seen (outcome :: rest) vars split reached
        have asked := obliging.asked split reached
        rcases writeStep_ends msg vars outcome rest held.1 asked ends with
          ⟨errno, same, other, finished⟩ | ⟨_, finished⟩ | ⟨_, finished⟩
        · have result : written = ⟨some .error, msg.bytes.take vars.totalbytes, errno⟩ := by
            simp [written, held.2, finished, Written.before]
          refine ⟨⟨errno, ?_, other, by rw [result]⟩, accepts.1, ?_⟩
          · rw [split, same]
            simp
          · intro whole
            have unfinished := held.1.unfinished
            have size := congrArg List.length whole
            rw [result, List.length_take, msg.bytes_length] at size
            omega
        · have killed : written.status = none := by
            simp [written, held.2, finished, Written.before]
          rw [killed] at failed
          cases failed
        · have done : written.status = some .ok := by
            simp [written, held.2, finished, Written.before]
          rw [done] at failed
          cases failed
  · intro seen rest vars split reached
    have held := write_run msg nonempty outcomes obliging seen rest vars split reached
    refine ⟨held.1.toBalanced, ?_⟩
    intro numbytes first
    obtain ⟨more, rfl⟩ := List.head?_eq_some_iff.mp first
    exact held.1.toBalanced.add numbytes (obliging.asked split reached numbytes rfl)

def threeBytes : Message := ⟨0, 3, 3, fun i => UInt8.ofNat i⟩

def threeWrites : List WriteOutcome := [.count 1, .error .again, .count 0, .count 2]

theorem write_delivers_threeBytes :
    Obliging threeBytes threeWrites ∧
      (pgprtdbgWriteMessage threeWrites threeBytes).accepted = threeBytes.bytes :=
  ⟨by decide, (write_delivers threeBytes (by decide) threeWrites (by decide)).1 (by decide)⟩

end Delivery

end Pgprtdbg
