import Pgprtdbg.Decode.Reassembly

set_option autoImplicit false

namespace Pgprtdbg

section Isolation

variable (clientFd serverFd : Int)

/--
Every call is made while the worker is there, and finds the buffer empty or as a call of the
same direction left it.
-/
def Clean (last : Side) (d : Decoder) : List Call → Prop
  | [] => True
  | c :: cs =>
      d.status = .running ∧ (d.dataSize = 0 ∨ c.side = last) ∧
        Clean c.side (d.call clientFd serverFd c) cs

theorem output_chunkEvents (title : String) (msg : Message) (event : Event)
    (member : event ∈ chunkEvents title msg) : event.output = none := by
  simp only [chunkEvents, List.mem_cons, List.not_mem_nil, or_false] at member
  rcases member with rfl | rfl | rfl | rfl <;> rfl

theorem output_parsed (outcome : Walk.Outcome Effect Halt Unit) (event : Event)
    (member : event ∈ parsed outcome) : event.output = none := by
  have silent := outputs_parsed outcome
  rw [outputs, List.filterMap_eq_nil_iff] at silent
  exact silent event member

theorem output_typedEvents (id : Side) (switch : Int8 → Int → Parser Unit) (fromFd toFd : Int)
    (xs : List UInt8) (event : Event) (member : event ∈ typedEvents id switch fromFd toFd xs)
    (o : Output) (written : event.output = some o) : o.id = id := by
  rw [typedEvents, List.mem_append] at member
  cases member with
  | inl logged => simp [output_parsed _ event logged] at written
  | inr member =>
      simp only [List.mem_cons, List.not_mem_nil, or_false] at member
      rcases member with rfl | rfl
      · cases written
        rfl
      · simp [Event.output] at written

theorem output_events (side : Side) (xs : List UInt8) (event : Event)
    (member : event ∈ side.events clientFd serverFd xs) (o : Output)
    (written : event.output = some o) : o.id = side := by
  cases side with
  | client =>
      change event ∈ clientEvents clientFd serverFd xs at member
      rw [clientEvents] at member
      split at member
      · rw [untypedEvents, List.mem_append, List.mem_singleton] at member
        rcases member with logged | rfl
        · simp [output_parsed _ event logged] at written
        · simp [Event.output] at written
      · exact output_typedEvents _ _ _ _ xs event member o written
  | server =>
      change event ∈ serverEvents serverFd clientFd xs at member
      rw [serverEvents] at member
      split at member
      · rw [List.mem_append, List.mem_singleton] at member
        rcases member with logged | rfl
        · simp [output_parsed _ event logged] at written
        · simp [Event.output] at written
      · exact output_typedEvents _ _ _ _ xs event member o written

theorem call_lines (side : Side) (msg : Message) (xs : List UInt8) (nonempty : 0 < msg.length) :
    ∃ rest written final, (∀ o ∈ written, Output.id o = side) ∧
      ∀ d : Decoder, d.Holds xs →
        (d.call clientFd serverFd ⟨side, msg⟩).status = final ∧
        outputs (d.call clientFd serverFd ⟨side, msg⟩).trace = outputs d.trace ++ written ∧
        (final = .running → (d.call clientFd serverFd ⟨side, msg⟩).Holds rest) := by
  obtain ⟨_, rest, written, final, _, _, written_iff, outcome⟩ :=
    call_outcome clientFd serverFd side msg xs nonempty
  refine ⟨rest, outputs written, final, ?_, fun d holds => ?_⟩
  · intro o member
    obtain ⟨event, inside, shown⟩ := List.mem_filterMap.mp member
    rcases (written_iff event).mp inside with chunk | ⟨_, rfl⟩ | ⟨_, parting⟩ | ⟨_, ys, _, _, _, here⟩
    · simp [output_chunkEvents _ _ event chunk] at shown
    · simp [Event.output] at shown
    · cases side with
      | client => simp [output_parsed _ event parting] at shown
      | server => simp [Side.parting] at parting
    · exact output_events clientFd serverFd side ys event here o shown
  · have here := outcome d holds
    exact ⟨here.1, by rw [here.2.1, outputs_append], here.2.2⟩

structure Linked (last : Side) (d : Decoder) (alone : Side → Decoder) : Prop where
  lines : ∀ side, d.lines side = (alone side).lines side
  holds : d.status = .running →
    ∃ xs, d.Holds xs ∧ ∀ side, (alone side).Holds (if side = last then xs else [])

theorem lines_append (d : Decoder) (written : List Output) (trace : List Event) (side : Side)
    (grown : outputs trace = outputs d.trace ++ written) :
    (outputs trace).filter (·.id = side) = d.lines side ++ written.filter (·.id = side) := by
  rw [grown, List.filter_append, Decoder.lines]

-- Where the buffer is empty, either direction may be the next to fill it.
theorem Linked.turn {last : Side} {d : Decoder} {alone : Side → Decoder}
    (linked : Linked last d alone) (running : d.status = .running) (next : Side)
    (clean : d.dataSize = 0 ∨ next = last) :
    ∃ xs, d.Holds xs ∧ ∀ side, (alone side).Holds (if side = next then xs else []) := by
  obtain ⟨xs, holds, apart⟩ := linked.holds running
  refine ⟨xs, holds, ?_⟩
  cases clean with
  | inl empty =>
      have nothing : xs = [] := List.eq_nil_of_length_eq_zero (holds.size.symm.trans empty)
      rw [nothing] at apart ⊢
      simpa using apart
  | inr same =>
      rw [same]
      exact apart

theorem linked_call (last : Side) (d : Decoder) (alone : Side → Decoder) (c : Call)
    (nonempty : 0 < c.msg.length) (linked : Linked last d alone) (running : d.status = .running)
    (clean : d.dataSize = 0 ∨ c.side = last) :
    Linked c.side (d.call clientFd serverFd c)
      fun side => if c.side = side then (alone side).call clientFd serverFd c else alone side := by
  obtain ⟨xs, holds, apart⟩ := linked.turn running c.side clean
  have own : (alone c.side).Holds xs := by simpa using apart c.side
  obtain ⟨rest, written, final, sided, outcome⟩ :=
    call_lines clientFd serverFd c.side c.msg xs nonempty
  have both := outcome d holds
  have single := outcome (alone c.side) own
  constructor
  · intro side
    by_cases mine : c.side = side
    · subst mine
      rw [if_pos rfl, Decoder.lines, Decoder.lines, lines_append d written _ _ both.2.1,
        lines_append (alone c.side) written _ _ single.2.1, linked.lines]
    · have none_here : written.filter (·.id = side) = [] := by
        rw [List.filter_eq_nil_iff]
        intro o member
        simp [sided o member, mine]
      rw [if_neg mine, Decoder.lines, lines_append d written _ _ both.2.1, none_here,
        List.append_nil, linked.lines]
  · intro still
    have ended := both.1.symm.trans still
    refine ⟨rest, both.2.2 ended, fun side => ?_⟩
    by_cases mine : c.side = side
    · subst mine
      simpa using single.2.2 ended
    · have other : ¬ side = c.side := fun same => mine same.symm
      have held := apart side
      rw [if_neg other] at held
      rwa [if_neg mine, if_neg other]

theorem linked_run (cs : List Call) (nonempty : ∀ c ∈ cs, 0 < c.msg.length) (last : Side)
    (d : Decoder) (alone : Side → Decoder) (linked : Linked last d alone)
    (clean : Clean clientFd serverFd last d cs) (side : Side) :
    (d.calls clientFd serverFd cs).lines side =
      ((alone side).calls clientFd serverFd (cs.filter (·.side = side))).lines side := by
  induction cs generalizing last d alone with
  | nil => exact linked.lines side
  | cons c cs ih =>
      have next := linked_call clientFd serverFd last d alone c (nonempty c (by simp)) linked
        clean.1 clean.2.1
      have rest := ih (fun other member => nonempty other (List.mem_cons_of_mem c member)) c.side _ _
        next clean.2.2
      by_cases mine : c.side = side
      · simpa [mine] using rest
      · simpa [mine] using rest

/--
The lines of each direction are those of the run that has only its calls, as long as no call
finds the buffer with bytes of the other direction in it.
-/
theorem directions_isolated (cs : List Call) (nonempty : ∀ c ∈ cs, 0 < c.msg.length)
    (start : Decoder) (empty : start.Holds []) (last : Side)
    (clean : Clean clientFd serverFd last start cs) (side : Side) :
    (start.calls clientFd serverFd cs).lines side =
      (start.calls clientFd serverFd (cs.filter (·.side = side))).lines side := by
  refine linked_run clientFd serverFd cs nonempty last start (fun _ => start) ⟨fun _ => rfl, ?_⟩
    clean side
  intro _
  exact ⟨[], empty, fun other => by simpa using empty⟩

end Isolation

def interleaved (first second third : List UInt8) : List Call :=
  [⟨.client, readChunk first⟩, ⟨.server, readChunk second⟩, ⟨.client, readChunk third⟩]

theorem directions_isolated_between_frames :
    (Decoder.initial.calls 5 6
        (interleaved [81, 0, 0, 0, 6, 65, 0] [90, 0, 0, 0, 5, 73] [88, 0, 0, 0, 4])).lines .server =
      (Decoder.initial.calls 5 6 [⟨.server, readChunk [90, 0, 0, 0, 5, 73]⟩]).lines .server :=
  directions_isolated 5 6 (interleaved [81, 0, 0, 0, 6, 65, 0] [90, 0, 0, 0, 5, 73] [88, 0, 0, 0, 4])
    (by decide) Decoder.initial initial_holds .client
    ⟨rfl, .inl rfl, by decide, .inl (by decide), by decide, .inl (by decide), trivial⟩ .server

/-- A query that is half read hides the answer that comes in between. -/
theorem directions_not_isolated :
    (Decoder.initial.calls 5 6
        (interleaved [81, 0, 0] [90, 0, 0, 0, 5, 73] [0, 6, 65, 0])).lines .server ≠
      (Decoder.initial.calls 5 6 ((interleaved [81, 0, 0] [90, 0, 0, 0, 5, 73] [0, 6, 65, 0]).filter
        (·.side = .server))).lines .server := by
  decide

end Pgprtdbg
