import Mathlib.Data.List.Induction
import Pgprtdbg.Decode.Logs
import Pgprtdbg.Worker.Handling
import Pgprtdbg.Worker.Writing

set_option autoImplicit false

namespace Pgprtdbg

open Framing

def Event.bytesTo (socket : Int) : Event → List UInt8
  | .written target bytes => if target = socket then bytes else []
  | .effect (.writeMessage target bytes) => if target = socket then bytes else []
  | _ => []

def bytesTo (socket : Int) (trace : List Event) : List UInt8 := trace.flatMap (Event.bytesTo socket)

@[simp] theorem bytesTo_append (socket : Int) (first second : List Event) :
    bytesTo socket (first ++ second) = bytesTo socket first ++ bytesTo socket second := by
  simp [bytesTo]

-- Only fe_zero writes while it decodes, and only to a client of protocol version 2.
def Event.IsRefusal : Event → Prop
  | .effect (.writeMessage _ _) => True
  | _ => False

/-- An event that gives no socket a byte, except for the client when it is refused. -/
def Event.Silent (clientFd : Int) (event : Event) : Prop :=
  ∀ socket, (socket = clientFd → ¬ event.IsRefusal) → event.bytesTo socket = []

theorem bytesTo_silent (clientFd : Int) (trace : List Event)
    (silent : ∀ event ∈ trace, event.Silent clientFd) (socket : Int)
    (accepted : socket = clientFd → ∀ event ∈ trace, ¬ event.IsRefusal) :
    bytesTo socket trace = [] := by
  simp only [bytesTo, List.flatMap_eq_nil_iff]
  intro event member
  exact silent event member socket fun same => accepted same event member

section Decoding

variable (clientFd serverFd : Int)

theorem silent_effect (effect : Effect)
    (logged : LineOrDump effect ∨ ∃ bytes, effect = .writeMessage clientFd bytes) :
    (Event.effect effect).Silent clientFd := by
  intro socket accepted
  rcases logged with (⟨format, args, rfl⟩ | ⟨block, size, rfl⟩) | ⟨bytes, rfl⟩
  · rfl
  · rfl
  · have other : clientFd ≠ socket := fun same => accepted same.symm trivial
    simp [Event.bytesTo, other]

theorem silent_parsed (outcome : Walk.Outcome Effect Halt Unit)
    (logged : ∀ effect ∈ outcome.log,
      LineOrDump effect ∨ ∃ bytes, effect = .writeMessage clientFd bytes) :
    ∀ event ∈ parsed outcome, event.Silent clientFd := by
  intro event member
  rcases (mem_parsed outcome event).mp member with ⟨effect, entry, rfl⟩ | ⟨stop, _, rfl⟩
  · exact silent_effect clientFd effect (logged effect entry)
  · exact fun _ _ => rfl

theorem silent_fe_zero (length : Int) (xs : List UInt8) :
    ∀ event ∈ parsed (fe_zero clientFd length xs 0), event.Silent clientFd := by
  apply silent_parsed
  intro effect member
  cases (built_fe_zero clientFd length).logsOnly xs 0 effect member with
  | inl plain => exact .inl (.inl plain)
  | inr write => exact .inr write

theorem silent_typedEvents (id : Side) (switch : Int8 → Int → Parser Unit) (fromFd toFd : Int)
    (logs : ∀ kind length, Walk.LogsOnly LineOrDump (switch kind length)) (xs : List UInt8) :
    ∀ event ∈ typedEvents id switch fromFd toFd xs, event.Silent clientFd := by
  intro event member
  simp only [typedEvents, List.mem_append, List.mem_cons, List.not_mem_nil, or_false] at member
  rcases member with logged | rfl | rfl
  · exact silent_parsed clientFd _ (fun effect entry => .inl (logs _ _ xs 0 effect entry)) event logged
  · exact fun _ _ => rfl
  · exact fun _ _ => rfl

theorem silent_events (side : Side) (xs : List UInt8) :
    ∀ event ∈ side.events clientFd serverFd xs, event.Silent clientFd := by
  have plain {parser : Parser Unit} (built : Walk.Built Plain IsArray parser) :
      Walk.LogsOnly LineOrDump parser := Walk.logsOnly_mono built.logsOnly fun _ => .inl
  intro event member
  cases side with
  | client =>
      simp only [Side.events, clientEvents] at member
      split at member
      · simp only [untypedEvents, List.mem_append, List.mem_singleton] at member
        cases member with
        | inl logged => exact silent_fe_zero clientFd _ xs event logged
        | inr removal =>
            subst removal
            exact fun _ _ => rfl
      · exact silent_typedEvents clientFd _ _ _ _ logs_clientSwitch xs event member
  | server =>
      simp only [Side.events, serverEvents] at member
      split at member
      · simp only [List.mem_append, List.mem_singleton] at member
        cases member with
        | inl logged =>
            exact silent_parsed clientFd _ (fun effect entry =>
              .inl (plain (built_headerOnly "BE: N") xs 0 effect entry)) event logged
        | inr removal =>
            subst removal
            exact fun _ _ => rfl
      · exact silent_typedEvents clientFd _ _ _ _
          (fun kind length => plain (built_serverSwitch kind length)) xs event member

theorem silent_call (side : Side) (msg : Message) (xs : List UInt8) (nonempty : 0 < msg.length)
    (d : Decoder) (holds : d.Holds xs) :
    ∃ written, (d.call clientFd serverFd ⟨side, msg⟩).trace = d.trace ++ written ∧
      ∀ event ∈ written, event.Silent clientFd := by
  obtain ⟨frames, rest, written, final, _, _, events, outcome⟩ :=
    call_outcome clientFd serverFd side msg xs nonempty
  have called := outcome d holds
  refine ⟨written, called.2.1, ?_⟩
  intro event member
  rcases (events event).mp member with chunk | ⟨_, rfl⟩ | ⟨_, parting⟩ | ⟨done, frame, size, _, _, logged⟩
  · simp only [chunkEvents, List.mem_cons, List.not_mem_nil, or_false] at chunk
    rcases chunk with rfl | rfl | rfl | rfl <;> exact fun _ _ => rfl
  · exact fun _ _ => rfl
  · cases side with
    | client => exact silent_fe_zero clientFd _ rest event parting
    | server => cases parting
  · exact silent_events clientFd serverFd side frame event logged

end Decoding

section Writing

-- What the socket on the other side does with the chunk of an arrival.
def Arrival.written (a : Arrival) : Written :=
  pgprtdbgWriteMessage a.transfer.writes (readChunk a.chunk)

theorem readChunk_bytes (chunk : List UInt8) (nonempty : chunk ≠ []) :
    (readChunk chunk).bytes = chunk := by
  rw [readChunk, readMessage_bytes chunk _ nonempty]
  exact received_bytes chunk _

theorem Arrival.written_received (a : Arrival) (nonempty : a.chunk ≠ []) (message : Message) :
    pgprtdbgWriteMessage a.transfer.writes (received a.chunk message) = a.written :=
  writeMessage_congr _ _ (by rw [received_bytes, readChunk_bytes a.chunk nonempty]) _

theorem Arrival.written_prefix (a : Arrival) (nonempty : a.chunk ≠ []) :
    a.written.accepted <+: a.chunk ∧ (a.written.status = some .ok → a.written.accepted = a.chunk) := by
  have accepts := writeMessage_accepts a.transfer.writes (readChunk a.chunk)
  rwa [readChunk_bytes a.chunk nonempty] at accepts

end Writing

def Event.Idle (event : Event) : Prop := (∀ socket, event.bytesTo socket = []) ∧ ¬ event.IsRefusal

def Idles (before after : Worker) : Prop :=
  ∃ written, after.decoder = before.decoder.emit written ∧ ∀ event ∈ written, event.Idle

section Idle

theorem Idles.refl (w : Worker) : Idles w w := ⟨[], by simp [Decoder.emit], by simp⟩

theorem Idles.trans {first second third : Worker} (front : Idles first second)
    (back : Idles second third) : Idles first third := by
  obtain ⟨early, first_eq, idle⟩ := front
  obtain ⟨late, second_eq, idle'⟩ := back
  refine ⟨early ++ late, ?_, ?_⟩
  · simp [second_eq, first_eq, Decoder.emit]
  · intro event member
    cases List.mem_append.mp member with
    | inl before => exact idle event before
    | inr after => exact idle' event after

theorem idles_emit (w : Worker) (events : List Event) (idle : ∀ event ∈ events, event.Idle) :
    Idles w (w.emit events) := ⟨events, rfl, idle⟩

theorem idles_report (w : Worker) (format : String) (args : List Arg) :
    Idles w (w.report format args) :=
  idles_emit w _ (by simp [Event.Idle, Event.bytesTo, Event.IsRefusal])

theorem idles_save (side : Side) (w : Worker) : Idles w (side.save w) := by
  cases side with
  | client =>
      simp only [Side.save, Worker.saveClient]
      split
      · exact ⟨[_], rfl, by simp [Event.Idle, Event.bytesTo, Event.IsRefusal]⟩
      · exact .refl w
  | server =>
      simp only [Side.save, Worker.saveServer]
      split
      · exact idles_emit w _ (by simp [Event.Idle, Event.bytesTo, Event.IsRefusal])
      · exact .refl w

theorem bytesTo_idle (socket : Int) (trace : List Event) (idle : ∀ event ∈ trace, event.Idle) :
    bytesTo socket trace = [] := by
  simp only [bytesTo, List.flatMap_eq_nil_iff]
  intro event member
  exact (idle event member).1 socket

theorem emit_settled (d : Decoder) (events : List Event) (settled : d.Settled) :
    (d.emit events).Settled := by
  intro running
  obtain ⟨xs, holds⟩ := settled running
  exact ⟨xs, holds.emit events⟩

theorem Idles.decoder {before after : Worker} (idles : Idles before after)
    (settled : before.decoder.Settled) :
    (∃ more, after.decoder.trace = before.decoder.trace ++ more ∧ ∀ event ∈ more, event.Idle) ∧
      after.decoder.status = before.decoder.status ∧ after.decoder.Settled := by
  obtain ⟨more, same, idle⟩ := idles
  rw [same]
  exact ⟨⟨more, rfl, idle⟩, rfl, emit_settled _ more settled⟩

theorem Finishes.decoder {errno : Errno} {status : Option MessageStatus} {before after : Worker}
    (finishes : Finishes errno status before after) (running : before.decoder.status = .running)
    (settled : before.decoder.Settled) :
    (∃ more, after.decoder.trace = before.decoder.trace ++ more ∧ ∀ event ∈ more, event.Idle) ∧
      (after.decoder.status = .running ↔ status ≠ none) ∧ after.decoder.Settled := by
  cases finishes with
  | ok => exact ⟨⟨[], by simp⟩, by simp [running], settled⟩
  | stop _ code => exact ⟨⟨[], by simp [Worker.stop]⟩, by simp [Worker.stop, running], settled⟩
  | failed _ status other format args code =>
      obtain ⟨trace, status, left⟩ := (idles_report before format args).decoder settled
      exact ⟨trace, by simp [Worker.stop, status, running], left⟩
  | inWrite =>
      have stops := inWrite_stops errno before
      constructor
      · exact ⟨[], by simp [Worker.inWrite]⟩
      · exact ⟨by simpa using stops, fun running => absurd running stops⟩

end Idle

section Handle

variable (clientFd serverFd : Int)

def Arrival.TakesErrorPath (a : Arrival) : Prop := a.chunk = [] ∨ a.written.status = some .error

structure Handled (w : Worker) (a : Arrival) (xs : List UInt8) (decoded rest : List Event)
    (after : Worker) : Prop where
  trace : after.decoder.trace = w.decoder.trace ++ (decoded ++ rest)
  silent : ∀ event ∈ decoded, event.Silent clientFd
  call : a.chunk ≠ [] →
    (w.decoder.call clientFd serverFd ⟨a.side, received a.chunk w.message⟩).trace =
      w.decoder.trace ++ decoded
  accepts : ∀ event ∈ rest, ¬ event.IsRefusal
  sends : a.chunk ≠ [] → Returns a.side (xs ++ a.chunk) → ∀ socket, bytesTo socket rest =
    if socket = a.side.target clientFd serverFd then a.written.accepted else []
  keeps : (a.chunk ≠ [] → ¬ Returns a.side (xs ++ a.chunk)) → ∀ socket, bytesTo socket rest = []
  running : after.decoder.status = .running ↔
    a.chunk = [] ∨ (Returns a.side (xs ++ a.chunk) ∧ a.written.status ≠ none)
  settled : after.decoder.Settled

theorem handled_nothing (w : Worker) (a : Arrival) (xs : List UInt8) (holds : w.decoder.Holds xs)
    (nothing : a.chunk = []) :
    ∃ decoded rest, Handled clientFd serverFd w a xs decoded rest (w.handle clientFd serverFd a) := by
  rw [handle_running clientFd serverFd w a holds.running]
  obtain ⟨message, format, args, code, same⟩ :=
    handler_nothing clientFd serverFd a.side a.transfer w ((chunk_nil_iff a).mp nothing)
  obtain ⟨written, decoder, idle⟩ := idles_report { w with message := message } format args
  rw [same]
  refine ⟨[], written, ?_⟩
  constructor
  case trace => exact congrArg Decoder.trace decoder
  case silent => simp
  case call => exact fun some_bytes => absurd nothing some_bytes
  case accepts => exact fun event member => (idle event member).2
  case sends => exact fun some_bytes => absurd nothing some_bytes
  case keeps => exact fun _ socket => bytesTo_idle socket written idle
  case running =>
    have status := congrArg Decoder.status decoder
    simp only [nothing, true_or, iff_true]
    exact status.trans holds.running
  case settled =>
    change Decoder.Settled (({ w with message := message }.report format args).decoder)
    rw [decoder]
    exact (holds.emit written).settled

theorem handled_chunk (w : Worker) (a : Arrival) (xs : List UInt8) (holds : w.decoder.Holds xs)
    (nonempty : a.chunk ≠ []) :
    ∃ decoded rest, Handled clientFd serverFd w a xs decoded rest (w.handle clientFd serverFd a) := by
  rw [handle_running clientFd serverFd w a holds.running]
  obtain ⟨chunk, here⟩ := Classical.not_forall.mp ((chunk_nil_iff a).not.mp nonempty)
  obtain ⟨read, some_bytes⟩ := Classical.not_imp.mp here
  have chunk_eq : a.chunk = chunk := by rw [Arrival.chunk, read]
  let msg := received a.chunk w.message
  have positive : 0 < msg.length := List.length_pos_iff.mpr nonempty
  obtain ⟨decoded, call, silent⟩ :=
    silent_call clientFd serverFd a.side msg xs positive w.decoder holds
  have settled := (call_settled clientFd serverFd ⟨a.side, msg⟩ w.decoder holds.settled positive).1
  have returns := call_returns_iff clientFd serverFd a.side msg w.decoder xs holds positive
  rw [received_bytes] at returns
  have outcome := handler_chunk clientFd serverFd a.side a.transfer w chunk read some_bytes
  dsimp only at outcome
  rw [← chunk_eq, a.written_received nonempty,
    ← call_decode clientFd serverFd a.side msg w.decoder holds.running] at outcome
  obtain ⟨gone, back⟩ := outcome
  by_cases running : (w.decoder.call clientFd serverFd ⟨a.side, msg⟩).status = .running
  · have comes_back := returns.mp running
    let called : Worker := { w with
      message := msg
      decoder := w.decoder.call clientFd serverFd ⟨a.side, msg⟩ }
    obtain ⟨⟨saved, saved_eq, saved_idle⟩, status, still⟩ := (idles_save a.side called).decoder settled
    let sent : List Event := [.written (a.side.target clientFd serverFd) a.written.accepted]
    obtain ⟨⟨more, more_eq, more_idle⟩, ended, left⟩ :=
      (back running).decoder (status.trans running) (emit_settled _ sent still)
    have sent_bytes (socket : Int) : bytesTo socket sent =
        if socket = a.side.target clientFd serverFd then a.written.accepted else [] := by
      simp [sent, bytesTo, Event.bytesTo, eq_comm]
    refine ⟨decoded, saved ++ sent ++ more, ?_⟩
    constructor
    case trace =>
      have whole : (a.side.handler clientFd serverFd a.transfer w).decoder.trace =
          w.decoder.trace ++ decoded ++ saved ++ sent ++ more := by
        rw [more_eq, ← call]
        exact congrArg (· ++ sent ++ more) saved_eq
      simpa using whole
    case silent => exact silent
    case call => exact fun _ => call
    case accepts =>
      intro event member
      simp only [List.mem_append, sent, List.mem_singleton] at member
      rcases member with (early | rfl) | late
      · exact (saved_idle event early).2
      · exact id
      · exact (more_idle event late).2
    case sends =>
      intro _ _ socket
      simp [bytesTo_idle socket saved saved_idle, bytesTo_idle socket more more_idle, sent_bytes]
    case keeps => exact fun stays => absurd comes_back (stays nonempty)
    case running => simp [ended, nonempty, comes_back]
    case settled => exact left
  · have stays : ¬ Returns a.side (xs ++ a.chunk) := fun comes_back => running (returns.mpr comes_back)
    rw [gone running]
    refine ⟨decoded, [], ?_⟩
    constructor
    case trace => simpa using call
    case silent => exact silent
    case call => exact fun _ => call
    case accepts => simp
    case sends => exact fun _ comes_back => absurd comes_back stays
    case keeps => simp [bytesTo]
    case running => simp [nonempty, stays, running, msg]
    case settled => exact settled

end Handle

section Transparency

variable (clientFd serverFd : Int)

def Worker.taken (side : Side) : List Arrival → Worker → List UInt8
  | [], _ => []
  | a :: arrivals, w =>
      (if w.decoder.status = .running ∧ a.side = side then a.chunk else []) ++
        Worker.taken side arrivals (w.handle clientFd serverFd a)

theorem taken_snoc (side : Side) (seen : List Arrival) (a : Arrival) (w : Worker) :
    w.taken clientFd serverFd side (seen ++ [a]) = w.taken clientFd serverFd side seen ++
      if (w.run clientFd serverFd seen).decoder.status = .running ∧ a.side = side then a.chunk
      else [] := by
  induction seen generalizing w with
  | nil =>
      simp only [List.nil_append, Worker.taken, List.append_nil]
      rfl
  | cons first seen ih =>
      have rest := ih (w.handle clientFd serverFd first)
      simp only [List.cons_append, Worker.taken, rest, List.append_assoc]
      rfl

-- The handler clears `running` and breaks the loop, so its side brings nothing more.
def NotInvokedAgain (arrivals : List Arrival) : Prop :=
  arrivals.Pairwise fun a b => a.TakesErrorPath → b.side ≠ a.side

def Undisturbed (side : Side) (trace : List Event) : Prop :=
  side = .server → ∀ event ∈ trace, ¬ event.IsRefusal

structure Transparent (side : Side) (arrivals : List Arrival) (read : List UInt8) (w : Worker) :
    Prop where
  settled : w.decoder.Settled
  front : Undisturbed side w.decoder.trace →
    bytesTo (side.target clientFd serverFd) w.decoder.trace <+: read
  whole : Undisturbed side w.decoder.trace → w.decoder.status = .running →
    (∀ a ∈ arrivals, a.side = side → ¬ a.TakesErrorPath) →
    bytesTo (side.target clientFd serverFd) w.decoder.trace = read

theorem target_inj (distinct : clientFd ≠ serverFd) (side other : Side) :
    side.target clientFd serverFd = other.target clientFd serverFd ↔ side = other := by
  cases side <;> cases other <;> simp [Side.target, distinct, distinct.symm]

theorem handled_exists (w : Worker) (a : Arrival) (xs : List UInt8) (holds : w.decoder.Holds xs) :
    ∃ decoded rest, Handled clientFd serverFd w a xs decoded rest (w.handle clientFd serverFd a) := by
  by_cases nothing : a.chunk = []
  · exact handled_nothing clientFd serverFd w a xs holds nothing
  · exact handled_chunk clientFd serverFd w a xs holds nothing

theorem handle_keeps_settled (w : Worker) (a : Arrival) (settled : w.decoder.Settled) :
    (w.handle clientFd serverFd a).decoder.Settled := by
  by_cases running : w.decoder.status = .running
  · obtain ⟨xs, holds⟩ := settled running
    obtain ⟨_, _, handled⟩ := handled_exists clientFd serverFd w a xs holds
    exact handled.settled
  · rw [Worker.handle, if_neg running]
    exact settled

-- One handler gives its own target a part of its chunk, and the other socket nothing.
theorem handle_sends (distinct : clientFd ≠ serverFd) (side : Side) (w : Worker) (a : Arrival)
    (running : w.decoder.status = .running) (settled : w.decoder.Settled) :
    let after := w.handle clientFd serverFd a
    ∃ more, after.decoder.trace = w.decoder.trace ++ more ∧ after.decoder.Settled ∧
      (Undisturbed side more →
        (a.side ≠ side → bytesTo (side.target clientFd serverFd) more = []) ∧
        (a.side = side → bytesTo (side.target clientFd serverFd) more <+: a.chunk ∧
          (after.decoder.status = .running → ¬ a.TakesErrorPath →
            bytesTo (side.target clientFd serverFd) more = a.chunk))) := by
  obtain ⟨xs, holds⟩ := settled running
  obtain ⟨decoded, rest, handled⟩ := handled_exists clientFd serverFd w a xs holds
  refine ⟨decoded ++ rest, handled.trace, handled.settled, ?_⟩
  intro undisturbed
  have silent : bytesTo (side.target clientFd serverFd) decoded = [] := by
    apply bytesTo_silent clientFd decoded handled.silent
    intro same event member
    cases side with
    | client => exact absurd same.symm distinct
    | server => exact undisturbed rfl event (List.mem_append_left rest member)
  rw [bytesTo_append, silent, List.nil_append]
  by_cases sent : a.chunk ≠ [] ∧ Returns a.side (xs ++ a.chunk)
  case pos =>
    have sends := handled.sends sent.1 sent.2 (side.target clientFd serverFd)
    have front := a.written_prefix sent.1
    have towards := target_inj clientFd serverFd distinct side a.side
    rw [sends]
    constructor
    · intro other
      rw [if_neg (towards.not.mpr other.symm)]
    · intro same
      rw [if_pos (towards.mpr same.symm)]
      refine ⟨front.1, fun still unharmed => front.2 ?_⟩
      have ended := (handled.running.mp still).resolve_left sent.1
      cases status : a.written.status with
      | none => exact absurd status ended.2
      | some status' =>
          cases status' with
          | ok => rfl
          | zero => exact absurd status (writeLoop_not_zero _ _ _ _ _)
          | error => exact absurd (.inr status) unharmed
  case neg =>
    have keeps := handled.keeps (fun some_bytes returns => sent ⟨some_bytes, returns⟩)
      (side.target clientFd serverFd)
    rw [keeps]
    constructor
    · intro _
      rfl
    · intro _
      refine ⟨List.nil_prefix, fun still unharmed => ?_⟩
      have nonempty : a.chunk ≠ [] := fun nothing => unharmed (.inl nothing)
      have ended := (handled.running.mp still).resolve_left nonempty
      exact absurd ⟨nonempty, ended.1⟩ sent

theorem undisturbed_append (side : Side) (first second : List Event) :
    Undisturbed side (first ++ second) ↔ Undisturbed side first ∧ Undisturbed side second := by
  simp only [Undisturbed, List.mem_append, or_imp, forall_and]

theorem transparent_start (side : Side) (w : Worker) (settled : w.decoder.Settled)
    (fresh : w.decoder.trace = []) : Transparent clientFd serverFd side [] [] w := by
  constructor
  case settled => exact settled
  case front => simp [fresh, bytesTo]
  case whole => simp [fresh, bytesTo]

theorem transparent_handle (distinct : clientFd ≠ serverFd) (side : Side) (seen : List Arrival)
    (a : Arrival) (read : List UInt8) (w : Worker)
    (transparent : Transparent clientFd serverFd side seen read w)
    (unharmed : a.side = side → ∀ b ∈ seen, b.side = side → ¬ b.TakesErrorPath) :
    Transparent clientFd serverFd side (seen ++ [a])
      (read ++ if w.decoder.status = .running ∧ a.side = side then a.chunk else [])
      (w.handle clientFd serverFd a) := by
  by_cases running : w.decoder.status = .running
  case neg =>
    rw [Worker.handle, if_neg running]
    simp only [running, false_and, if_false, List.append_nil]
    constructor
    case settled => exact transparent.settled
    case front => exact transparent.front
    case whole => exact fun _ still => absurd still running
  case pos =>
    obtain ⟨more, trace, settled, sends⟩ :=
      handle_sends clientFd serverFd distinct side w a running transparent.settled
    simp only [running, true_and]
    by_cases same : a.side = side
    · rw [if_pos same]
      have before (undisturbed : Undisturbed side w.decoder.trace) :
          bytesTo (side.target clientFd serverFd) w.decoder.trace = read :=
        transparent.whole undisturbed running (unharmed same)
      constructor
      case settled => exact settled
      case front =>
        rw [trace, undisturbed_append, bytesTo_append]
        intro undisturbed
        rw [before undisturbed.1, List.prefix_append_right_inj]
        exact ((sends undisturbed.2).2 same).1
      case whole =>
        rw [trace, undisturbed_append, bytesTo_append]
        intro undisturbed still unharmed_here
        rw [before undisturbed.1]
        have fine : ¬ a.TakesErrorPath := unharmed_here a (by simp) same
        rw [((sends undisturbed.2).2 same).2 still fine]
    · rw [if_neg same, List.append_nil]
      constructor
      case settled => exact settled
      case front =>
        rw [trace, undisturbed_append, bytesTo_append]
        intro undisturbed
        rw [(sends undisturbed.2).1 same, List.append_nil]
        exact transparent.front undisturbed.1
      case whole =>
        rw [trace, undisturbed_append, bytesTo_append]
        intro undisturbed _ unharmed_here
        rw [(sends undisturbed.2).1 same, List.append_nil]
        exact transparent.whole undisturbed.1 running fun b member =>
          unharmed_here b (List.mem_append_left [a] member)

theorem transparent_run (distinct : clientFd ≠ serverFd) (side : Side) (w : Worker)
    (settled : w.decoder.Settled) (fresh : w.decoder.trace = []) (arrivals : List Arrival)
    (again : NotInvokedAgain arrivals) :
    Transparent clientFd serverFd side arrivals (w.taken clientFd serverFd side arrivals)
      (w.run clientFd serverFd arrivals) := by
  induction arrivals using List.reverseRecOn with
  | nil => exact transparent_start clientFd serverFd side w settled fresh
  | append_singleton seen a ih =>
      have earlier := List.pairwise_append.mp again
      rw [taken_snoc, run_snoc]
      apply transparent_handle clientFd serverFd distinct side seen a _ _ (ih earlier.1)
      intro same b member harmed path
      exact earlier.2.2 b member a (by simp) path (same.trans harmed.symm)

theorem start_run_settled (bufferSize : Nat) (saveTraffic : Bool) (heap : Nat → UInt8)
    (arrivals : List Arrival) :
    ((Worker.start bufferSize saveTraffic heap).run clientFd serverFd arrivals).decoder.Settled := by
  induction arrivals using List.reverseRecOn with
  | nil => exact initial_holds.settled
  | append_singleton seen a ih =>
      rw [run_snoc]
      exact handle_keeps_settled clientFd serverFd _ a ih

/--
Whatever is read on either side, and however the writes go, the server has a prefix of the
client's chunks, and all of them after each client chunk that took no error path. The same
holds the other way round until a client is refused.
-/
theorem forwarding_transparent (distinct : clientFd ≠ serverFd) (bufferSize : Nat)
    (saveTraffic : Bool) (heap : Nat → UInt8) (side : Side) (arrivals : List Arrival)
    (again : NotInvokedAgain arrivals) :
    let start := Worker.start bufferSize saveTraffic heap
    let after := start.run clientFd serverFd arrivals
    Undisturbed side after.decoder.trace →
      bytesTo (side.target clientFd serverFd) after.decoder.trace <+:
        start.taken clientFd serverFd side arrivals ∧
      ∀ seen a, arrivals = seen ++ [a] → a.side = side → ¬ a.TakesErrorPath →
        after.decoder.status = .running →
        bytesTo (side.target clientFd serverFd) after.decoder.trace =
          start.taken clientFd serverFd side arrivals := by
  intro start after undisturbed
  have transparent : Transparent clientFd serverFd side arrivals
      (start.taken clientFd serverFd side arrivals) after :=
    transparent_run clientFd serverFd distinct side start initial_holds.settled rfl arrivals again
  constructor
  · exact transparent.front undisturbed
  · intro seen a last same unharmed running
    apply transparent.whole undisturbed running
    rw [last] at again ⊢
    intro b member harmed
    cases List.mem_append.mp member with
    | inl before =>
        intro path
        exact (List.pairwise_append.mp again).2.2 b before a (by simp) path (same.trans harmed.symm)
    | inr here => rwa [List.mem_singleton.mp here]

end Transparency

def queryArrival : Arrival := arrival .client [81, 0, 0, 0, 5, 0]

theorem queryArrival_unharmed : ¬ queryArrival.TakesErrorPath := by
  rintro (nothing | failed)
  · cases nothing
  · cases failed

theorem forwarding_transparent_query :
    bytesTo 6 ((Worker.start maxBufferSize true fun _ => 0).run 5 6 [queryArrival]).decoder.trace =
      (Worker.start maxBufferSize true fun _ => 0).taken 5 6 .client [queryArrival] :=
  (forwarding_transparent 5 6 (by decide) maxBufferSize true (fun _ => 0) .client
    [queryArrival] (List.pairwise_singleton _ _) (fun other => by cases other)).2 [] queryArrival rfl
    rfl queryArrival_unharmed (by decide)

end Pgprtdbg
