import Pgprtdbg.Decode.Passes

set_option autoImplicit false

namespace Pgprtdbg

open Framing

section Loop

variable (clientFd serverFd : Int) (side : Side)

-- What a loop writes while it cuts `frames` off and leaves `rest`.
def cutEvents (events : List UInt8 → List Event) : List (List UInt8) → List UInt8 → List Event
  | [], _ => []
  | frame :: frames, rest =>
      events (frame ++ (frames.flatten ++ rest)) ++ cutEvents events frames rest

def Side.parting : Side → List UInt8 → List Event
  | .client => exitEvents clientFd
  | .server => fun _ => []

theorem pass_cut (d : Decoder) (xs : List UInt8) (size : Nat) (holds : d.Holds xs)
    (head : side.next xs = some size) (fits : size ≤ xs.length) :
    ∃ after, side.pass clientFd serverFd d = .next after ∧ after.Holds (xs.drop size) ∧
      after.trace = d.trace ++ side.events clientFd serverFd xs ∧ after.counter = d.counter := by
  cases side with
  | client => exact clientPass_cut clientFd serverFd d xs size holds head fits
  | server => exact serverPass_cut clientFd serverFd d xs size holds head

theorem pass_outside (d : Decoder) (xs : List UInt8) (size : Nat) (holds : d.Holds xs)
    (head : side.next xs = some size) (beyond : xs.length < size) :
    ∃ after, side.pass clientFd serverFd d = .leave after ∧ after.status = .faulted ∧
      after.trace = d.trace ++ side.events clientFd serverFd xs := by
  cases side with
  | client => exact clientPass_outside clientFd serverFd d xs size holds head beyond
  | server =>
      have fits := serverNext_fits xs size head
      omega

theorem pass_exit (d : Decoder) (xs : List UInt8) (holds : d.Holds xs) (gone : side.Exits xs) :
    ∃ after, side.pass clientFd serverFd d = .leave after ∧ after.status = .exited 1 ∧
      after.trace = d.trace ++ side.parting clientFd xs := by
  cases side with
  | client => exact clientPass_exit clientFd serverFd d xs holds gone
  | server => exact gone.elim

theorem pass_stop (d : Decoder) (xs : List UInt8) (holds : d.Holds xs)
    (head : side.next xs = none) (stays : ¬ side.Exits xs) :
    ∃ after, side.pass clientFd serverFd d = .leave after ∧ after.Holds xs ∧
      after.trace = d.trace ∧ after.counter = d.counter := by
  cases side with
  | client => exact clientPass_stop clientFd serverFd d xs holds head stays
  | server => exact serverPass_stop clientFd serverFd d xs holds head

theorem loop_reaches (d : Decoder) (xs rest : List UInt8) (frames : List (List UInt8))
    (holds : d.Holds xs) (cuts : Cuts side.next xs frames rest) :
    ∃ after, Loop.Passes (side.pass clientFd serverFd) frames.length d after ∧ after.Holds rest ∧
      after.trace = d.trace ++ cutEvents (side.events clientFd serverFd) frames rest ∧
      after.counter = d.counter := by
  induction cuts generalizing d with
  | nil xs => exact ⟨d, .refl d, holds, by simp [cutEvents], rfl⟩
  | @cons xs rest frames size head positive whole more ih =>
      obtain ⟨middle, pass, left, written, counted⟩ :=
        pass_cut clientFd serverFd side d xs size holds head whole
      obtain ⟨after, passes, final, trace, counter⟩ := ih middle left
      refine ⟨after, .step pass passes, final, ?_, counter.trans counted⟩
      rw [trace, written, cutEvents, more.flatten, List.take_append_drop, List.append_assoc]

theorem decodeLoop_leave (d after : Decoder) (xs rest : List UInt8) (frames : List (List UInt8))
    (holds : d.Holds xs) (cuts : Cuts side.next xs frames rest) (middle : Decoder)
    (passes : Loop.Passes (side.pass clientFd serverFd) frames.length d middle)
    (pass : side.pass clientFd serverFd middle = .leave after) :
    decodeLoop (side.pass clientFd serverFd) d = after := by
  have bound := cuts.length_le
  have enough : frames.length < d.dataSize + 1 := by
    rw [holds.size]
    omega
  rw [decodeLoop, passes.leave pass _ enough]

theorem decodeLoop_stop (d : Decoder) (xs rest : List UInt8) (frames : List (List UInt8))
    (holds : d.Holds xs) (splits : Splits side.next xs frames rest) (stays : ¬ side.Exits rest) :
    (decodeLoop (side.pass clientFd serverFd) d).Holds rest ∧
      (decodeLoop (side.pass clientFd serverFd) d).trace =
        d.trace ++ cutEvents (side.events clientFd serverFd) frames rest ∧
      (decodeLoop (side.pass clientFd serverFd) d).counter = d.counter := by
  obtain ⟨middle, passes, left, written, counted⟩ :=
    loop_reaches clientFd serverFd side d xs rest frames holds splits.1
  obtain ⟨after, pass, final, trace, counter⟩ :=
    pass_stop clientFd serverFd side middle rest left splits.2 stays
  rw [decodeLoop_leave clientFd serverFd side d after xs rest frames holds splits.1 middle passes pass]
  exact ⟨final, trace.trans written, counter.trans counted⟩

theorem decodeLoop_exit (d : Decoder) (xs rest : List UInt8) (frames : List (List UInt8))
    (holds : d.Holds xs) (cuts : Cuts side.next xs frames rest) (gone : side.Exits rest) :
    (decodeLoop (side.pass clientFd serverFd) d).status = .exited 1 ∧
      (decodeLoop (side.pass clientFd serverFd) d).trace =
        d.trace ++ cutEvents (side.events clientFd serverFd) frames rest ++
          side.parting clientFd rest := by
  obtain ⟨middle, passes, left, written, _⟩ :=
    loop_reaches clientFd serverFd side d xs rest frames holds cuts
  obtain ⟨after, pass, final, trace⟩ := pass_exit clientFd serverFd side middle rest left gone
  rw [decodeLoop_leave clientFd serverFd side d after xs rest frames holds cuts middle passes pass]
  exact ⟨final, by rw [trace, written]⟩

theorem decodeLoop_outside (d : Decoder) (xs rest : List UInt8) (frames : List (List UInt8))
    (size : Nat) (holds : d.Holds xs) (cuts : Cuts side.next xs frames rest)
    (head : side.next rest = some size) (beyond : rest.length < size) :
    (decodeLoop (side.pass clientFd serverFd) d).status = .faulted ∧
      (decodeLoop (side.pass clientFd serverFd) d).trace =
        d.trace ++ cutEvents (side.events clientFd serverFd) frames rest ++
          side.events clientFd serverFd rest := by
  obtain ⟨middle, passes, left, written, _⟩ :=
    loop_reaches clientFd serverFd side d xs rest frames holds cuts
  obtain ⟨after, pass, final, trace⟩ :=
    pass_outside clientFd serverFd side middle rest size left head beyond
  rw [decodeLoop_leave clientFd serverFd side d after xs rest frames holds cuts middle passes pass]
  exact ⟨final, by rw [trace, written]⟩

-- A frame of size zero is found again on every pass.
theorem spins (rest : List UInt8) (head : side.next rest = some 0) (fuel : Nat) (d : Decoder)
    (holds : d.Holds rest) :
    ∃ after, Loop.run (side.pass clientFd serverFd) fuel d = .spent after ∧
      after.trace =
        d.trace ++ (List.replicate fuel (side.events clientFd serverFd rest)).flatten := by
  induction fuel generalizing d with
  | zero => exact ⟨d, rfl, by simp⟩
  | succ fuel ih =>
      obtain ⟨middle, pass, left, written, _⟩ :=
        pass_cut clientFd serverFd side d rest 0 holds head (Nat.zero_le _)
      obtain ⟨after, spent, trace⟩ := ih middle left
      refine ⟨after, ?_, ?_⟩
      · rw [Loop.run_next _ _ _ _ pass, spent]
      · rw [trace, written, List.replicate_succ, List.flatten_cons, List.append_assoc]

theorem loop_never_leaves (d : Decoder) (xs rest : List UInt8) (frames : List (List UInt8))
    (holds : d.Holds xs) (cuts : Cuts side.next xs frames rest) (head : side.next rest = some 0) :
    ¬ Loop.Terminates (side.pass clientFd serverFd) d := by
  obtain ⟨middle, passes, left, _, _⟩ :=
    loop_reaches clientFd serverFd side d xs rest frames holds cuts
  refine passes.not_terminates (Loop.not_terminates_of_invariant (·.Holds rest) ?_ middle left)
  intro state same
  obtain ⟨after, pass, again, _, _⟩ :=
    pass_cut clientFd serverFd side state rest 0 same head (Nat.zero_le _)
  exact ⟨after, pass, again⟩

theorem decodeLoop_spin (d : Decoder) (xs rest : List UInt8) (frames : List (List UInt8))
    (holds : d.Holds xs) (cuts : Cuts side.next xs frames rest) (head : side.next rest = some 0) :
    (decodeLoop (side.pass clientFd serverFd) d).status = .spinning ∧
      (decodeLoop (side.pass clientFd serverFd) d).trace =
        d.trace ++ cutEvents (side.events clientFd serverFd) frames rest ++
          (List.replicate (xs.length + 1 - frames.length)
            (side.events clientFd serverFd rest)).flatten := by
  obtain ⟨middle, passes, left, written, _⟩ :=
    loop_reaches clientFd serverFd side d xs rest frames holds cuts
  have bound := cuts.length_le
  obtain ⟨after, spent, trace⟩ :=
    spins clientFd serverFd side rest head (xs.length + 1 - frames.length) middle left
  have whole : Loop.run (side.pass clientFd serverFd) (d.dataSize + 1) d = .spent after := by
    rw [holds.size, show xs.length + 1 = frames.length + (xs.length + 1 - frames.length) by omega,
      passes.run, spent]
  rw [decodeLoop, whole]
  exact ⟨rfl, by rw [trace, written]⟩

inductive Ending (rest : List UInt8) : Prop where
  | stop (head : side.next rest = none) (stays : ¬ side.Exits rest)
  | exit (gone : side.Exits rest)
  | outside (size : Nat) (head : side.next rest = some size) (beyond : rest.length < size)
  | spin (head : side.next rest = some 0)

theorem cuts_to_ending (xs : List UInt8) :
    ∃ frames rest, Cuts side.next xs frames rest ∧ Ending side rest := by
  rcases cuts_to_end side.next xs with ⟨frames, rest, cuts, head | ⟨size, head, zero | beyond⟩⟩
  · by_cases gone : side.Exits rest
    · exact ⟨frames, rest, cuts, .exit gone⟩
    · exact ⟨frames, rest, cuts, .stop head gone⟩
  · exact ⟨frames, rest, cuts, .spin (zero ▸ head)⟩
  · exact ⟨frames, rest, cuts, .outside size head beyond⟩

end Loop

section Call

variable (clientFd serverFd : Int)

def Side.title : Side → String
  | .client => "FE/Message (%d):"
  | .server => "BE/Message (%d):"

def Side.counted (msg : Message) : Side → EventCounter → EventCounter
  | .client => EventCounter.sent msg
  | .server => EventCounter.rcvd msg

def Side.receive (msg : Message) : Side → Decoder → Decoder
  | .client => clientReceive msg
  | .server => serverReceive msg

theorem call_running (side : Side) (msg : Message) (d : Decoder) (running : d.status = .running) :
    d.call clientFd serverFd ⟨side, msg⟩ =
      (decodeLoop (side.pass clientFd serverFd) (side.receive msg d)).unlock := by
  rw [Decoder.call, if_pos running]
  cases side <;> rfl

theorem call_gone (c : Call) (d : Decoder) (gone : d.status ≠ .running) :
    d.call clientFd serverFd c = d := by
  rw [Decoder.call, if_neg gone]

theorem receive_holds (side : Side) (msg : Message) (d : Decoder) (xs : List UInt8)
    (holds : d.Holds xs) (nonempty : 0 < msg.length) :
    (side.receive msg d).Holds (xs ++ msg.bytes) ∧
      (side.receive msg d).trace = d.trace ++ chunkEvents side.title msg ∧
      (side.receive msg d).counter = side.counted msg d.counter := by
  have some_bytes : xs ++ msg.bytes ≠ [] := by
    intro empty
    have length := congrArg List.length empty
    rw [List.length_append, msg.bytes_length, List.length_nil] at length
    omega
  have appended : pgprtdbgDataAppend d.data d.dataSize msg.bytes =
      (some (xs ++ msg.bytes), (xs ++ msg.bytes).length) := by
    rw [holds.data, holds.size]
    by_cases empty : xs = [] <;> simp [empty, pgprtdbgDataAppend]
  cases side <;>
    simp only [Side.receive, clientReceive, serverReceive, Decoder.append, Decoder.emit, appended] <;>
    exact ⟨⟨holds.running, by simp only [some_bytes, if_false], rfl⟩, rfl, rfl⟩

theorem call_stop (side : Side) (msg : Message) (d : Decoder) (xs rest : List UInt8)
    (frames : List (List UInt8)) (holds : d.Holds xs) (nonempty : 0 < msg.length)
    (splits : Splits side.next (xs ++ msg.bytes) frames rest) (stays : ¬ side.Exits rest) :
    (d.call clientFd serverFd ⟨side, msg⟩).Holds rest ∧
      (d.call clientFd serverFd ⟨side, msg⟩).trace =
        d.trace ++ chunkEvents side.title msg ++
          cutEvents (side.events clientFd serverFd) frames rest ++ [.logUnlock] ∧
      (d.call clientFd serverFd ⟨side, msg⟩).counter = side.counted msg d.counter := by
  obtain ⟨received, written, counted⟩ := receive_holds side msg d xs holds nonempty
  obtain ⟨left, trace, counter⟩ :=
    decodeLoop_stop clientFd serverFd side _ _ rest frames received splits stays
  rw [call_running clientFd serverFd side msg d holds.running, Decoder.unlock, if_pos left.running]
  refine ⟨⟨left.running, left.data, left.size⟩, ?_, counter.trans counted⟩
  rw [Decoder.emit, trace, written]

theorem unlock_gone (d : Decoder) (gone : d.status ≠ .running) : d.unlock = d := by
  rw [Decoder.unlock, if_neg gone]

theorem call_exit (side : Side) (msg : Message) (d : Decoder) (xs rest : List UInt8)
    (frames : List (List UInt8)) (holds : d.Holds xs) (nonempty : 0 < msg.length)
    (cuts : Cuts side.next (xs ++ msg.bytes) frames rest) (gone : side.Exits rest) :
    (d.call clientFd serverFd ⟨side, msg⟩).status = .exited 1 ∧
      (d.call clientFd serverFd ⟨side, msg⟩).trace =
        d.trace ++ chunkEvents side.title msg ++
          cutEvents (side.events clientFd serverFd) frames rest ++ side.parting clientFd rest := by
  obtain ⟨received, written, _⟩ := receive_holds side msg d xs holds nonempty
  obtain ⟨status, trace⟩ :=
    decodeLoop_exit clientFd serverFd side _ _ rest frames received cuts gone
  rw [call_running clientFd serverFd side msg d holds.running,
    unlock_gone _ (by simp only [status, ne_eq, reduceCtorEq, not_false_eq_true])]
  exact ⟨status, by rw [trace, written]⟩

theorem call_outside (side : Side) (msg : Message) (d : Decoder) (xs rest : List UInt8)
    (frames : List (List UInt8)) (size : Nat) (holds : d.Holds xs) (nonempty : 0 < msg.length)
    (cuts : Cuts side.next (xs ++ msg.bytes) frames rest) (head : side.next rest = some size)
    (beyond : rest.length < size) :
    (d.call clientFd serverFd ⟨side, msg⟩).status = .faulted ∧
      (d.call clientFd serverFd ⟨side, msg⟩).trace =
        d.trace ++ chunkEvents side.title msg ++
          cutEvents (side.events clientFd serverFd) frames rest ++
          side.events clientFd serverFd rest := by
  obtain ⟨received, written, _⟩ := receive_holds side msg d xs holds nonempty
  obtain ⟨status, trace⟩ :=
    decodeLoop_outside clientFd serverFd side _ _ rest frames size received cuts head beyond
  rw [call_running clientFd serverFd side msg d holds.running,
    unlock_gone _ (by simp only [status, ne_eq, reduceCtorEq, not_false_eq_true])]
  exact ⟨status, by rw [trace, written]⟩

theorem call_spin (side : Side) (msg : Message) (d : Decoder) (xs rest : List UInt8)
    (frames : List (List UInt8)) (holds : d.Holds xs) (nonempty : 0 < msg.length)
    (cuts : Cuts side.next (xs ++ msg.bytes) frames rest) (head : side.next rest = some 0) :
    (d.call clientFd serverFd ⟨side, msg⟩).status = .spinning ∧
      (d.call clientFd serverFd ⟨side, msg⟩).trace =
        d.trace ++ chunkEvents side.title msg ++
          cutEvents (side.events clientFd serverFd) frames rest ++
          (List.replicate ((xs ++ msg.bytes).length + 1 - frames.length)
            (side.events clientFd serverFd rest)).flatten := by
  obtain ⟨received, written, _⟩ := receive_holds side msg d xs holds nonempty
  obtain ⟨status, trace⟩ :=
    decodeLoop_spin clientFd serverFd side _ _ rest frames received cuts head
  rw [call_running clientFd serverFd side msg d holds.running,
    unlock_gone _ (by simp only [status, ne_eq, reduceCtorEq, not_false_eq_true])]
  exact ⟨status, by rw [trace, written]⟩

theorem exits_next (side : Side) (xs : List UInt8) (gone : side.Exits xs) : side.next xs = none := by
  cases side with
  | client =>
      rcases gone with ⟨untyped, _, unknown⟩
      change clientNext xs = none
      rw [clientNext, if_pos untyped, if_neg fun here => unknown here.2]
  | server => exact gone.elim

theorem mem_cutEvents {side : Side} {xs rest : List UInt8} {frames : List (List UInt8)}
    (cuts : Cuts side.next xs frames rest) (event : Event) :
    event ∈ cutEvents (side.events clientFd serverFd) frames rest ↔
      ∃ done ys more, Cuts side.next xs done ys ∧ Cuts side.next ys more rest ∧ more ≠ [] ∧
        event ∈ side.events clientFd serverFd ys := by
  induction cuts with
  | nil xs =>
      constructor
      · intro member
        simp [cutEvents] at member
      · rintro ⟨done, ys, more, front, back, nonempty, _⟩
        have shorter := front.length_le
        have shortest := back.length_le
        have positive := List.length_pos_iff.mpr nonempty
        omega
  | @cons xs rest frames size head positive whole more ih =>
      have joined : xs.take size ++ (frames.flatten ++ rest) = xs := by
        rw [more.flatten, List.take_append_drop]
      rw [cutEvents, List.mem_append, joined, ih]
      constructor
      · rintro (here | ⟨done, ys, after, front, back, nonempty, member⟩)
        · exact ⟨[], xs, _, .nil xs, .cons head positive whole more, by simp, here⟩
        · exact ⟨_, ys, after, .cons head positive whole front, back, nonempty, member⟩
      · rintro ⟨done, ys, after, front, back, nonempty, member⟩
        cases front with
        | nil => exact .inl member
        | @cons _ _ done other head' _ _ front =>
            have same : size = other := by simpa [head] using head'
            subst same
            exact .inr ⟨done, ys, after, front, back, nonempty, member⟩

theorem reached_cases {side : Side} {xs rest ys : List UInt8} {frames done : List (List UInt8)}
    {size : Nat} (cuts : Cuts side.next xs frames rest)
    (final : ∀ other, side.next rest = some other → other = 0 ∨ rest.length < other)
    (front : Cuts side.next xs done ys) (head : side.next ys = some size) :
    (∃ more, Cuts side.next ys more rest ∧ more ≠ []) ∨ ys = rest := by
  rcases front.extends cuts with ⟨more, _, back⟩ | ⟨more, _, back⟩
  · cases more with
    | nil =>
        cases back
        exact .inr rfl
    | cons frame more => exact .inl ⟨_, back, by simp⟩
  · exact .inr (back.eq_of_no_more final).2.symm

-- What a loop writes at the heads it comes to: those it cuts, and the one it is stuck at.
theorem mem_headEvents {side : Side} {xs rest : List UInt8} {frames : List (List UInt8)}
    (cuts : Cuts side.next xs frames rest)
    (final : ∀ other, side.next rest = some other → other = 0 ∨ rest.length < other)
    (event : Event) :
    (∃ done ys size, Cuts side.next xs done ys ∧ side.next ys = some size ∧
      event ∈ side.events clientFd serverFd ys) ↔
    event ∈ cutEvents (side.events clientFd serverFd) frames rest ∨
      ((side.next rest).isSome ∧ event ∈ side.events clientFd serverFd rest) := by
  rw [mem_cutEvents clientFd serverFd cuts]
  constructor
  · rintro ⟨done, ys, size, front, head, member⟩
    rcases reached_cases cuts final front head with ⟨more, back, some_more⟩ | same
    · exact .inl ⟨done, ys, more, front, back, some_more, member⟩
    · rw [same] at head member
      exact .inr ⟨by simp [head], member⟩
  · rintro (⟨done, ys, more, front, back, some_more, member⟩ | ⟨head, member⟩)
    · cases back with
      | nil => exact absurd rfl some_more
      | cons head _ _ _ => exact ⟨done, ys, _, front, head, member⟩
    · obtain ⟨size, head⟩ := Option.isSome_iff_exists.mp head
      exact ⟨frames, rest, size, cuts, head, member⟩

/--
Everything a call can do. What it writes and where it ends depend on the bytes in the buffer
and on the message alone.
-/
theorem call_outcome (side : Side) (msg : Message) (xs : List UInt8) (nonempty : 0 < msg.length) :
    ∃ frames rest written final,
      Cuts side.next (xs ++ msg.bytes) frames rest ∧
      (final = Status.running ↔ side.next rest = none ∧ ¬ side.Exits rest) ∧
      (∀ event, event ∈ written ↔
        event ∈ chunkEvents side.title msg ∨ (final = .running ∧ event = .logUnlock) ∨
        (side.Exits rest ∧ event ∈ side.parting clientFd rest) ∨
        ∃ done ys size, Cuts side.next (xs ++ msg.bytes) done ys ∧ side.next ys = some size ∧
          event ∈ side.events clientFd serverFd ys) ∧
      ∀ d : Decoder, d.Holds xs →
        (d.call clientFd serverFd ⟨side, msg⟩).status = final ∧
        (d.call clientFd serverFd ⟨side, msg⟩).trace = d.trace ++ written ∧
        (final = .running → (d.call clientFd serverFd ⟨side, msg⟩).Holds rest) := by
  obtain ⟨frames, rest, cuts, ending⟩ := cuts_to_ending side (xs ++ msg.bytes)
  let body := chunkEvents side.title msg ++ cutEvents (side.events clientFd serverFd) frames rest
  cases ending with
  | stop head stays =>
      refine ⟨frames, rest, body ++ [.logUnlock], .running, cuts, by simp [head, stays],
        fun event => ?_, fun d holds => ?_⟩
      · rw [mem_headEvents clientFd serverFd cuts (by simp [head])]
        simp only [body, List.mem_append, List.mem_singleton, head, Option.isSome_none, stays]
        tauto
      · have stop := call_stop clientFd serverFd side msg d xs rest frames holds nonempty
          ⟨cuts, head⟩ stays
        refine ⟨stop.1.running, ?_, fun _ => stop.1⟩
        simp only [stop.2.1, body, List.append_assoc]
  | exit gone =>
      have head := exits_next side rest gone
      refine ⟨frames, rest, body ++ side.parting clientFd rest, .exited 1, cuts, by simp [gone],
        fun event => ?_, fun d holds => ?_⟩
      · rw [mem_headEvents clientFd serverFd cuts (by simp [head])]
        simp only [body, List.mem_append, head, Option.isSome_none, gone, reduceCtorEq]
        tauto
      · have stop := call_exit clientFd serverFd side msg d xs rest frames holds nonempty cuts gone
        refine ⟨stop.1, ?_, by simp⟩
        simp only [stop.2, body, List.append_assoc]
  | outside size head beyond =>
      have stays : ¬ side.Exits rest := fun gone => by simp [exits_next side rest gone] at head
      refine ⟨frames, rest, body ++ side.events clientFd serverFd rest, .faulted, cuts,
        by simp [head], fun event => ?_, fun d holds => ?_⟩
      · rw [mem_headEvents clientFd serverFd cuts (by simp [head, beyond])]
        simp only [body, List.mem_append, head, Option.isSome_some, stays, reduceCtorEq]
        tauto
      · have stop := call_outside clientFd serverFd side msg d xs rest frames size holds nonempty cuts
          head beyond
        refine ⟨stop.1, ?_, by simp⟩
        simp only [stop.2, body, List.append_assoc]
  | spin head =>
      have stays : ¬ side.Exits rest := fun gone => by simp [exits_next side rest gone] at head
      let turns := (xs ++ msg.bytes).length + 1 - frames.length
      refine ⟨frames, rest,
        body ++ (List.replicate turns (side.events clientFd serverFd rest)).flatten, .spinning, cuts,
        by simp [head], fun event => ?_, fun d holds => ?_⟩
      · have bound := cuts.length_le
        have some_turns : turns ≠ 0 := by
          change (xs ++ msg.bytes).length + 1 - frames.length ≠ 0
          omega
        rw [mem_headEvents clientFd serverFd cuts (by simp [head])]
        simp only [body, List.mem_append, head, Option.isSome_some, stays, reduceCtorEq,
          List.mem_flatten, List.mem_replicate, some_turns, ne_eq, not_false_eq_true, true_and,
          exists_eq_left]
        tauto
      · have stop := call_spin clientFd serverFd side msg d xs rest frames holds nonempty cuts head
        refine ⟨stop.1, ?_, by simp⟩
        simp only [stop.2, body, turns, List.append_assoc]

/-- Between two calls the process is gone, or its buffer holds some bytes. -/
def Decoder.Settled (d : Decoder) : Prop := d.status = .running → ∃ xs, d.Holds xs

theorem Decoder.Holds.settled {d : Decoder} {xs : List UInt8} (holds : d.Holds xs) : d.Settled :=
  fun _ => ⟨xs, holds⟩

theorem call_settled (c : Call) (d : Decoder) (settled : d.Settled) (nonempty : 0 < c.msg.length) :
    (d.call clientFd serverFd c).Settled ∧
      ∃ written, (d.call clientFd serverFd c).trace = d.trace ++ written := by
  by_cases running : d.status = .running
  · obtain ⟨xs, holds⟩ := settled running
    obtain ⟨_, rest, written, final, _, _, _, outcome⟩ :=
      call_outcome clientFd serverFd c.side c.msg xs nonempty
    have here := outcome d holds
    exact ⟨fun still => ⟨rest, here.2.2 (here.1.symm.trans still)⟩, written, here.2.1⟩
  · rw [call_gone clientFd serverFd c d running]
    exact ⟨settled, [], by simp⟩

theorem calls_settled (cs : List Call) (d : Decoder) (settled : d.Settled)
    (nonempty : ∀ c ∈ cs, 0 < c.msg.length) :
    (d.calls clientFd serverFd cs).Settled ∧
      ∃ written, (d.calls clientFd serverFd cs).trace = d.trace ++ written := by
  induction cs generalizing d with
  | nil => exact ⟨settled, [], by simp⟩
  | cons c cs ih =>
      have first := call_settled clientFd serverFd c d settled (nonempty c (by simp))
      have rest := ih _ first.1 fun other member => nonempty other (List.mem_cons_of_mem c member)
      rcases first.2 with ⟨written, front⟩
      rcases rest.2 with ⟨more, back⟩
      exact ⟨rest.1, written ++ more, by rw [Decoder.calls_cons, back, front, List.append_assoc]⟩

end Call

end Pgprtdbg
