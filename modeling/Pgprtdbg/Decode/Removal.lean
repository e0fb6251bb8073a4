import Pgprtdbg.Decode.Logs
import Pgprtdbg.Decode.Reassembly

set_option autoImplicit false

namespace Pgprtdbg

open MachineInt Framing

def Event.RemovesWithin : Event → Prop
  | .dataRemove dataSize removeSize => removeSize ≤ dataSize
  | _ => True

def Bounded (trace : List Event) : Prop := ∀ event ∈ trace, event.RemovesWithin

theorem bounded_append (first second : List Event) :
    Bounded (first ++ second) ↔ Bounded first ∧ Bounded second := by
  simp [Bounded, or_imp, forall_and]

theorem bounded_parsed (outcome : Walk.Outcome Effect Halt Unit) : Bounded (parsed outcome) := by
  intro event member
  rcases (mem_parsed outcome event).mp member with ⟨effect, _, rfl⟩ | ⟨stop, _, rfl⟩
  · trivial
  · trivial

theorem remove_trace (d : Decoder) (removeSize : Nat) :
    (d.remove removeSize).state.trace = d.trace ++ [.dataRemove d.dataSize removeSize] := by
  simp only [Decoder.remove, Decoder.emit]
  split <;> rfl

theorem leave_trace (d : Decoder) (length : Int) :
    (Loop.Pass.leave { d with length := length } : Loop.Pass Decoder).state.trace = d.trace := rfl

section TypedBranch

variable (fromFd toFd : Int) (id : Side) (switch : Int8 → Int → Parser Unit)

-- The removal converts the same int to a size_t as the guard in front of it, whatever its sign is.
theorem taken_bounded (d : Decoder) (fits : frameSize d.length ≤ d.dataSize) :
    let logged := d.emit (parsed (switch d.kind d.length d.bytes 0))
    let shown := logged.emit [.outputWrite id fromFd toFd logged.kind none]
    ∃ events, (shown.remove (frameSize shown.length)).state.trace = d.trace ++ events ∧
      Bounded events := by
  intro logged shown
  have trace : shown.trace = d.trace ++ (parsed (switch d.kind d.length d.bytes 0) ++
      [.outputWrite id fromFd toFd d.kind none]) := List.append_assoc _ _ _
  have size : shown.dataSize = d.dataSize := rfl
  have length : shown.length = d.length := rfl
  refine ⟨_, by rw [remove_trace, trace, List.append_assoc], ?_⟩
  rw [bounded_append, bounded_append]
  refine ⟨⟨bounded_parsed _, by simp [Bounded, Event.RemovesWithin]⟩, ?_⟩
  intro event member
  rw [List.mem_singleton.mp member, size, length]
  exact fits

theorem typedBranch_bounded (d : Decoder) :
    ∃ events, (typedBranch id switch fromFd toFd d).state.trace = d.trace ++ events ∧
      Bounded events := by
  rw [typedBranch]
  generalize pgprtdbgReadInt32 (d.bytes.drop 1) = length
  by_cases short : d.dataSize < frameSize length
  · rw [if_pos short]
    have same := leave_trace d length
    refine ⟨[], ?_, by simp [Bounded]⟩
    rw [same, List.append_nil]
  · rw [if_neg short]
    exact taken_bounded fromFd toFd id switch { d with length := length } (Nat.not_lt.mp short)

end TypedBranch

theorem typedEvents_bounded (id : Side) (switch : Int8 → Int → Parser Unit) (fromFd toFd : Int)
    (xs : List UInt8) (fits : frameSize (declaredLength xs) ≤ xs.length) :
    Bounded (typedEvents id switch fromFd toFd xs) := by
  rw [typedEvents, bounded_append]
  constructor
  · exact bounded_parsed _
  · intro event member
    simp only [List.mem_cons, List.not_mem_nil, or_false] at member
    rcases member with rfl | rfl
    · trivial
    · exact fits

theorem serverEvents_bounded (fromFd toFd : Int) (xs : List UInt8) (size : Nat)
    (head : serverNext xs = some size) : Bounded (serverEvents fromFd toFd xs) := by
  rw [serverEvents]
  split
  next lone =>
    rw [bounded_append]
    constructor
    · exact bounded_parsed _
    · simp [Bounded, Event.RemovesWithin]
  next other =>
    rw [serverNext_eq xs other] at head
    obtain ⟨_, _, same, fits⟩ := typedNext_some xs size head
    exact typedEvents_bounded _ _ _ _ xs (same ▸ fits)

section Server

variable (clientFd serverFd : Int)

structure Decoder.Tails (received : List UInt8) (d : Decoder) : Prop where
  holds : ∃ xs, d.Holds xs ∧ xs <:+ received
  bounded : Bounded d.trace

theorem serverPass_tails (received : List UInt8) (d : Decoder) (tails : d.Tails received) :
    (serverPass serverFd clientFd d).state.Tails received := by
  obtain ⟨xs, holds, behind⟩ := tails.holds
  cases head : serverNext xs with
  | none =>
      obtain ⟨after, pass, left, trace, _⟩ := serverPass_stop clientFd serverFd d xs holds head
      rw [pass]
      constructor
      · exact ⟨xs, left, behind⟩
      · have same : (Loop.Pass.leave after).state.trace = d.trace := trace
        rw [same]
        exact tails.bounded
  | some size =>
      obtain ⟨after, pass, left, trace, _⟩ := serverPass_cut clientFd serverFd d xs size holds head
      rw [pass]
      constructor
      · exact ⟨xs.drop size, left, (List.drop_suffix size xs).trans behind⟩
      · have grown : (Loop.Pass.next after).state.trace =
            d.trace ++ serverEvents serverFd clientFd xs := trace
        rw [grown, bounded_append]
        exact ⟨tails.bounded, serverEvents_bounded serverFd clientFd xs size head⟩

theorem passes_tails (received : List UInt8) (count : Nat) (d after : Decoder)
    (passes : Loop.Passes (serverPass serverFd clientFd) count d after) (tails : d.Tails received) :
    after.Tails received := by
  induction passes with
  | refl => exact tails
  | @step count d middle after pass rest ih =>
      have next := serverPass_tails clientFd serverFd received d tails
      rw [pass] at next
      exact ih next

-- A loop that comes to an end leaves a tail; one that does not returns to no caller.
theorem decodeLoop_tails (received : List UInt8) (d : Decoder) (tails : d.Tails received)
    (returns : (decodeLoop (serverPass serverFd clientFd) d).status = .running) :
    (decodeLoop (serverPass serverFd clientFd) d).Tails received := by
  rcases Loop.run_cases (serverPass serverFd clientFd) (d.dataSize + 1) d with
    ⟨count, head, after, passes, leaves, ran⟩ | ⟨after, passes, ran⟩
  · have there := passes_tails clientFd serverFd received count d head passes tails
    have last := serverPass_tails clientFd serverFd received head there
    rw [leaves] at last
    rw [decodeLoop, ran]
    exact last
  · rw [decodeLoop, ran] at returns
    exact Status.noConfusion returns

theorem receive_tails (msg : Message) (nonempty : 0 < msg.length) (received : List UInt8)
    (d : Decoder) (tails : d.Tails received) :
    (serverReceive msg d).Tails (received ++ msg.bytes) := by
  obtain ⟨xs, holds, behind⟩ := tails.holds
  obtain ⟨more, rfl⟩ := behind
  obtain ⟨left, trace, _⟩ := receive_holds .server msg d xs holds nonempty
  constructor
  · exact ⟨xs ++ msg.bytes, left, more, (List.append_assoc more xs msg.bytes).symm⟩
  · have grown : (serverReceive msg d).trace = d.trace ++ chunkEvents Side.server.title msg := trace
    rw [grown, bounded_append]
    constructor
    · exact tails.bounded
    · simp [Bounded, chunkEvents, Event.RemovesWithin]

theorem unlock_tails (received : List UInt8) (d : Decoder) (tails : d.Tails received) :
    d.unlock.Tails received := by
  obtain ⟨xs, holds, behind⟩ := tails.holds
  rw [Decoder.unlock, if_pos holds.running]
  constructor
  · exact ⟨xs, ⟨holds.running, holds.data, holds.size⟩, behind⟩
  · rw [Decoder.emit, bounded_append]
    exact ⟨tails.bounded, by simp [Bounded, Event.RemovesWithin]⟩

theorem unlock_status (d : Decoder) : d.unlock.status = d.status := by
  rw [Decoder.unlock]
  split <;> rfl

theorem call_tails (msg : Message) (nonempty : 0 < msg.length) (received : List UInt8) (d : Decoder)
    (tails : d.Tails received)
    (returned : (d.call clientFd serverFd ⟨.server, msg⟩).status = .running) :
    (d.call clientFd serverFd ⟨.server, msg⟩).Tails (received ++ msg.bytes) := by
  obtain ⟨xs, holds, _⟩ := tails.holds
  rw [call_running clientFd serverFd .server msg d holds.running] at returned ⊢
  rw [unlock_status] at returned
  have start := receive_tails msg nonempty received d tails
  exact unlock_tails _ _ (decodeLoop_tails clientFd serverFd _ _ start returned)

theorem calls_gone (cs : List Call) (d : Decoder) (gone : d.status ≠ .running) :
    d.calls clientFd serverFd cs = d := by
  induction cs with
  | nil => rfl
  | cons c cs ih => rw [Decoder.calls_cons, call_gone clientFd serverFd c d gone, ih]

theorem calls_tails (msgs : List Message) (nonempty : ∀ msg ∈ msgs, 0 < msg.length)
    (received : List UInt8) (d : Decoder) (tails : d.Tails received)
    (returned : (d.calls clientFd serverFd (Side.server.calls msgs)).status = .running) :
    (d.calls clientFd serverFd (Side.server.calls msgs)).Tails (received ++ stream msgs) := by
  induction msgs generalizing received d with
  | nil =>
      rw [stream, List.flatMap_nil, List.append_nil]
      exact tails
  | cons msg msgs ih =>
      have calls : Side.server.calls (msg :: msgs) = ⟨.server, msg⟩ :: Side.server.calls msgs := rfl
      rw [calls, Decoder.calls_cons] at returned ⊢
      rw [stream_cons, ← List.append_assoc]
      by_cases running : (d.call clientFd serverFd ⟨.server, msg⟩).status = .running
      · have first :=
          call_tails clientFd serverFd msg (nonempty msg (by simp)) received d tails running
        have rest (other : Message) (member : other ∈ msgs) : 0 < other.length :=
          nonempty other (List.mem_cons_of_mem msg member)
        exact ih rest (received ++ msg.bytes) _ first returned
      · rw [calls_gone clientFd serverFd _ _ running] at returned
        exact absurd returned running

theorem initial_tails : Decoder.initial.Tails [] := by
  constructor
  · exact ⟨[], initial_holds, List.suffix_refl []⟩
  · simp [Bounded, Decoder.initial]

def AtServerHead (earlier : List Message) (msg : Message) (d : Decoder) : Prop :=
  let before := Decoder.initial.calls clientFd serverFd (Side.server.calls earlier)
  before.status = .running ∧
    ∃ count, Loop.Passes (serverPass serverFd clientFd) count (serverReceive msg before) d

theorem head_tails (earlier : List Message) (msg : Message)
    (nonempty : ∀ chunk ∈ earlier ++ [msg], 0 < chunk.length) (d : Decoder)
    (head : AtServerHead clientFd serverFd earlier msg d) :
    d.Tails (stream (earlier ++ [msg])) := by
  obtain ⟨running, count, passes⟩ := head
  have before := calls_tails clientFd serverFd earlier
    (fun chunk member => nonempty chunk (List.mem_append_left _ member)) [] _ initial_tails running
  rw [List.nil_append] at before
  have received := receive_tails msg (nonempty msg (by simp)) (stream earlier) _ before
  have whole : stream (earlier ++ [msg]) = stream earlier ++ msg.bytes := by simp [stream]
  rw [whole]
  exact passes_tails clientFd serverFd _ count _ d passes received

/--
Whatever the backend sends and however it is cut into chunks, a pass of its loop starts from an
end of what was received and takes no more off than there is. The typed branch of the frontend
takes no more off than there is from any state.
-/
theorem removal_bounded (earlier : List Message) (msg : Message)
    (nonempty : ∀ chunk ∈ earlier ++ [msg], 0 < chunk.length) (d : Decoder)
    (head : AtServerHead clientFd serverFd earlier msg d) :
    d.bytes <:+ stream (earlier ++ [msg]) ∧ d.dataSize = d.bytes.length ∧
      (d.data = none ↔ d.dataSize = 0) ∧
      (∀ event ∈ (serverPass serverFd clientFd d).state.trace, event.RemovesWithin) ∧
      ∀ other : Decoder, ∃ events,
        (typedBranch .client clientSwitch clientFd serverFd other).state.trace =
            other.trace ++ events ∧
          ∀ event ∈ events, event.RemovesWithin := by
  have tails := head_tails clientFd serverFd earlier msg nonempty d head
  obtain ⟨xs, holds, behind⟩ := tails.holds
  refine ⟨?_, ?_, holds.data_none_iff, ?_, ?_⟩
  · rw [holds.bytes]
    exact behind
  · rw [holds.bytes]
    exact holds.size
  · exact (serverPass_tails clientFd serverFd _ d tails).bounded
  · exact typedBranch_bounded clientFd serverFd .client clientSwitch

end Server

-- A whole frame, and behind it the head of one that says it is -2 bytes long.
theorem removal_bounded_negative :
    let msg := readChunk [0, 0, 5, 73, 65, 255, 255, 255, 254]
    let before := Decoder.initial.calls 5 6 (Side.server.calls [readChunk [90, 0]])
    let d := (serverPass 6 5 (serverReceive msg before)).state
    d.bytes = [65, 255, 255, 255, 254] ∧
      d.bytes <:+ stream [readChunk [90, 0], msg] ∧
      ∀ event ∈ (serverPass 6 5 d).state.trace, event.RemovesWithin := by
  intro msg before d
  have head : AtServerHead 5 6 [readChunk [90, 0]] msg d := by
    constructor
    · decide +kernel
    · exact ⟨1, .step (by decide +kernel) (.refl d)⟩
  have bounded := removal_bounded 5 6 [readChunk [90, 0]] msg (by decide) d head
  exact ⟨by decide +kernel, bounded.1, bounded.2.2.2.1⟩

end Pgprtdbg
