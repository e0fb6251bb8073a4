import Pgprtdbg.Decode.Hazards

set_option autoImplicit false

namespace Pgprtdbg

open Framing MachineInt

/-- What a frontend sends: untyped packets while the session opens, typed frames after that. -/
inductive ClientFrame where
  | untyped (packet : UntypedPacket)
  | typed (frame : TypedFrame)

def ClientFrame.encode : ClientFrame → List UInt8
  | .untyped packet => packet.encode
  | .typed frame => frame.encode

-- Only typed frames are written to the trace.
def ClientFrame.lines (clientFd serverFd : Int) : ClientFrame → List Output
  | .untyped _ => []
  | .typed frame => [Side.client.line clientFd serverFd frame]

-- The amounts that pgprtdbg_data_remove was asked to take off.
def View.removed : View Nat where
  sees
    | .dataRemove _ removeSize => some removeSize
    | _ => none
  logLock := rfl
  logUnlock := rfl
  effect _ := rfl
  stopped _ := rfl

-- Those among them that the buffer did not have.
def View.oversized : View Nat where
  sees
    | .dataRemove dataSize removeSize => if removeSize ≤ dataSize then none else some removeSize
    | _ => none
  logLock := rfl
  logUnlock := rfl
  effect _ := rfl
  stopped _ := rfl

theorem reads_client : Reads clientNext ClientFrame.encode := by
  intro frame rest
  cases frame with
  | untyped packet => exact reads_client_untyped packet rest
  | typed frame => exact reads_client_typed frame rest

theorem UntypedPacket.size (packet : UntypedPacket) (rest : List UInt8) :
    sizeT (pgprtdbgReadInt32 (packet.encode ++ rest)) = packet.encode.length := by
  have head := (reads_client_untyped packet rest).1
  exact (clientNext_untyped _ _ (packet.head_zero rest) head).2.2

theorem look_untypedEvents {Sight : Type} (view : View Sight) (clientFd : Int)
    (packet : UntypedPacket) (rest : List UInt8) :
    view.look (untypedEvents clientFd (packet.encode ++ rest)) =
      view.look [.dataRemove (packet.encode ++ rest).length packet.encode.length] := by
  simp only [untypedEvents, packet.size, View.look_append, View.look_parsed, List.nil_append]

section Shows

variable (clientFd serverFd : Int)

theorem shows_client {Sight : Type} (view : View Sight) (shown : ClientFrame → List Sight)
    (untyped : ∀ packet rest, view.look [.dataRemove (UntypedPacket.encode packet ++ rest).length
      packet.encode.length] = shown (.untyped packet))
    (typed : ∀ frame rest, view.look [.outputWrite .client clientFd serverFd
      (TypedFrame.kind frame).toInt8 none,
      .dataRemove (frame.encode ++ rest).length frame.encode.length] = shown (.typed frame)) :
    Shows clientFd serverFd .client ClientFrame.encode view shown := by
  intro frame rest
  cases frame with
  | untyped packet =>
      change view.look (clientEvents clientFd serverFd (packet.encode ++ rest)) = _
      rw [clientEvents, if_pos (packet.head_zero rest), look_untypedEvents, untyped]
  | typed frame =>
      change view.look (clientEvents clientFd serverFd (frame.encode ++ rest)) = _
      rw [clientEvents, if_neg (frame.head_ne_zero rest), look_typedEvents, typed]

theorem shows_client_lines :
    Shows clientFd serverFd .client ClientFrame.encode View.lines
      (ClientFrame.lines clientFd serverFd) :=
  shows_client clientFd serverFd _ _ (fun _ _ => rfl) fun _ _ => rfl

theorem shows_client_removed :
    Shows clientFd serverFd .client ClientFrame.encode View.removed
      fun frame => [frame.encode.length] :=
  shows_client clientFd serverFd _ _ (fun _ _ => rfl) fun _ _ => rfl

theorem shows_client_oversized :
    Shows clientFd serverFd .client ClientFrame.encode View.oversized fun _ => [] := by
  apply shows_client
  · intro packet rest
    simp [View.look, View.oversized]
  · intro frame rest
    simp [View.look, View.oversized]

end Shows

theorem untyped_part_head (part : List UInt8) (packet : UntypedPacket)
    (under : ProperPrefix part packet.encode) : part.getD 0 0 = 0 := by
  rcases under with ⟨more, _, whole⟩
  have zero := packet.head_zero []
  rw [List.append_nil, ← whole] at zero
  cases part with
  | nil => rfl
  | cons byte part => exact zero

theorem untyped_part_waits (part : List UInt8) (packet : UntypedPacket)
    (under : ProperPrefix part packet.encode) (short : part.length < 8) :
    clientNext part = none ∧ ¬ ClientExits part := by
  constructor
  · rw [clientNext, if_pos (untyped_part_head part packet under), if_neg]
    omega
  · intro gone
    have long := gone.2.1
    omega

theorem untyped_part_taken (part : List UInt8) (packet : UntypedPacket)
    (under : ProperPrefix part packet.encode) (long : 8 ≤ part.length) :
    clientNext part = some packet.encode.length := by
  have zero := untyped_part_head part packet under
  rcases under with ⟨more, _, whole⟩
  have request : requestOf part = packet.request := by
    have read := packet.requestOf []
    rw [List.append_nil, ← whole, requestOf, List.drop_append_of_le_length (by omega),
      readInt32_append _ _ (by rw [List.length_drop]; omega)] at read
    exact read
  have size := packet.size []
  rw [List.append_nil, ← whole, readInt32_append _ _ (by omega)] at size
  have known : KnownRequest (requestOf part) := by
    rw [request]
    exact packet.knownRequest
  rw [clientNext, if_pos zero, if_pos ⟨long, known⟩, size, whole]

-- What a boundary leaves of a frame: a part that is waited for, or eight bytes of a packet.
theorem client_boundary {frames done more : List ClientFrame} {front part back : List UInt8}
    (breaks : Breaks ClientFrame.encode frames [] front done more part back) :
    (clientNext part = none ∧ ¬ ClientExits part) ∨
      ∃ packet rest, more = .untyped packet :: rest ∧ ProperPrefix part packet.encode ∧
        8 ≤ part.length := by
  cases more with
  | nil =>
      have empty : part = [] := by
        have left := breaks.back
        simp only [List.flatMap_nil, List.append_nil, List.append_eq_nil_iff] at left
        exact left.1
      rw [empty]
      exact .inl ⟨rfl, fun gone => by simp [ClientExits] at gone⟩
  | cons frame rest =>
      have under := breaks.under frame rest rfl
      cases frame with
      | typed frame => exact .inl ⟨clientNext_part part frame under, client_part_stays part frame under⟩
      | untyped packet =>
          by_cases short : part.length < 8
          · exact .inl (untyped_part_waits part packet under short)
          · exact .inr ⟨packet, rest, rfl, under, by omega⟩

section Packets

variable (clientFd serverFd : Int)

theorem packet_oversized (d : Decoder) (msg : Message) (part left : List UInt8)
    (done : List ClientFrame) (packet : UntypedPacket) (holds : d.Holds part)
    (nonempty : 0 < msg.length) (cut : part ++ msg.bytes = done.flatMap ClientFrame.encode ++ left)
    (under : ProperPrefix left packet.encode) (long : 8 ≤ left.length) :
    ∃ size, View.oversized.look (d.call clientFd serverFd ⟨.client, msg⟩).trace =
      View.oversized.look d.trace ++ [size] := by
  have cuts := cuts_encoded reads_client done left
  rw [← cut] at cuts
  have head := untyped_part_taken left packet under long
  have call := call_outside clientFd serverFd .client msg d part left _ _ holds nonempty cuts head
    under.length_lt
  have size := (clientNext_untyped left _ (untyped_part_head left packet under) head).2.2
  have frames := shows_frames clientFd serverFd .client
    (shows_client_oversized clientFd serverFd) done left
  have last : View.oversized.look (Side.client.events clientFd serverFd left) =
      [packet.encode.length] := by
    change View.oversized.look (clientEvents clientFd serverFd left) = _
    rw [clientEvents, if_pos (untyped_part_head left packet under), untypedEvents, View.look_append,
      View.look_parsed, size]
    have shorter := under.length_lt
    simp only [View.look, View.oversized, List.nil_append, List.filterMap_cons, List.filterMap_nil,
      if_neg (Nat.not_le.mpr shorter)]
  refine ⟨packet.encode.length, ?_⟩
  rw [call.2]
  simp only [View.look_append, View.look_chunkEvents, frames, last, List.append_nil]
  simp

theorem packet_oversized_run (d : Decoder) (msg : Message) (msgs : List Message)
    (part left : List UInt8) (done : List ClientFrame) (packet : UntypedPacket) (holds : d.Holds part)
    (nonempty : ∀ other ∈ msg :: msgs, 0 < other.length)
    (cut : part ++ msg.bytes = done.flatMap ClientFrame.encode ++ left)
    (under : ProperPrefix left packet.encode) (long : 8 ≤ left.length) :
    View.oversized.look (d.calls clientFd serverFd (Side.client.calls (msg :: msgs))).trace ≠
      View.oversized.look d.trace := by
  have here : 0 < msg.length := nonempty msg (by simp)
  obtain ⟨size, shown⟩ :=
    packet_oversized clientFd serverFd d msg part left done packet holds here cut under long
  have settled := (call_settled clientFd serverFd ⟨.client, msg⟩ d holds.settled here).1
  have later : ∀ c ∈ Side.client.calls msgs, 0 < c.msg.length := by
    intro c member
    obtain ⟨other, inside, rfl⟩ := List.mem_map.mp member
    exact nonempty other (List.mem_cons_of_mem msg inside)
  obtain ⟨written, trace⟩ := (calls_settled clientFd serverFd _ _ settled later).2
  intro kept
  have grown := congrArg List.length kept
  rw [Side.calls, List.map_cons, Decoder.calls_cons, ← Side.calls, trace, View.look_append,
    shown] at grown
  simp at grown

-- Before the first read nothing has been cut off yet.
theorem start_waits (frames done more : List ClientFrame) (part left back : List UInt8)
    (waiting : clientNext part = none)
    (breaks : Breaks ClientFrame.encode frames [] (part ++ stream []) done more left back) :
    clientNext left = none := by
  cases done with
  | nil =>
      have same : part = left := by simpa [stream] using breaks.front
      rwa [← same]
  | cons frame done =>
      have whole : part = frame.encode ++ (done.flatMap ClientFrame.encode ++ left) := by
        simpa [stream] using breaks.front
      have head := (reads_client frame (done.flatMap ClientFrame.encode ++ left)).1
      rw [← whole, waiting] at head
      exact absurd head (by simp)

theorem boundaries_wait (msgs : List Message) (nonempty : ∀ msg ∈ msgs, 0 < msg.length)
    (frames : List ClientFrame) (part : List UInt8) (d : Decoder) (holds : d.Holds part)
    (waiting : clientNext part = none)
    (cut : part ++ stream msgs = frames.flatMap ClientFrame.encode)
    (kept : View.oversized.look (d.calls clientFd serverFd (Side.client.calls msgs)).trace =
      View.oversized.look d.trace)
    (seen : List Message) (done more : List ClientFrame) (left back : List UInt8)
    (before : seen <+: msgs)
    (breaks : Breaks ClientFrame.encode frames [] (part ++ stream seen) done more left back) :
    clientNext left = none := by
  induction msgs generalizing d part frames seen done more left back with
  | nil =>
      rw [List.prefix_nil.mp before] at breaks
      exact start_waits frames done more part left back waiting breaks
  | cons msg msgs ih =>
      cases seen with
      | nil => exact start_waits frames done more part left back waiting breaks
      | cons first seen =>
          obtain ⟨rfl, later⟩ := List.cons_prefix_cons.mp before
          have whole : part ++ first.bytes ++ stream msgs =
              frames.flatMap ClientFrame.encode ++ [] := by
            rw [List.append_nil, ← cut, stream_cons, List.append_assoc]
          obtain ⟨finished, next, piece, split⟩ :=
            break_encoded ClientFrame.encode frames [] (part ++ first.bytes) (stream msgs) whole
          rcases client_boundary split with ⟨waits, stays⟩ | ⟨packet, rest, _, under, long⟩
          · rcases call_reassembles clientFd serverFd .client reads_client
              (shows_client_oversized clientFd serverFd) first d part piece finished holds
              (nonempty first (by simp)) split.front waits stays with ⟨held, shown⟩
            have none_shown : finished.flatMap (fun _ => ([] : List Nat)) = [] := by simp
            rw [none_shown, List.append_nil] at shown
            rcases later with ⟨others, rfl⟩
            have remaining : piece ++ stream seen ++ stream others =
                next.flatMap ClientFrame.encode ++ [] := by
              rw [← split.back, List.append_assoc, stream, stream, stream, List.flatMap_append]
            rcases break_encoded ClientFrame.encode next [] (piece ++ stream seen) (stream others)
              remaining with ⟨further, final, last, after⟩
            have joined := split.trans after
            rw [List.append_assoc, ← stream_cons] at joined
            have same := breaks.unique joined
            have kept_on : View.oversized.look ((d.call clientFd serverFd ⟨.client, first⟩).calls
                clientFd serverFd (Side.client.calls (seen ++ others))).trace =
                View.oversized.look (d.call clientFd serverFd ⟨.client, first⟩).trace := by
              rw [shown, ← kept]
              rfl
            have back_eq := split.back
            rw [List.append_nil] at back_eq
            rw [same.2]
            exact ih (fun other member => nonempty other (List.mem_cons_of_mem first member)) next
              piece _ held waits back_eq kept_on seen further final last (stream others)
              (List.prefix_append _ _) after
          · exact absurd kept (packet_oversized_run clientFd serverFd d first msgs part piece finished
              packet holds nonempty split.front under long)

def TakenWhole (hazards : Hazards) (frames : List ClientFrame) (msgs : List Message)
    (start : Decoder) : Prop :=
  let after := start.calls clientFd serverFd (Side.client.calls msgs)
  start.Survives hazards after ∧
    View.oversized.look after.trace = View.oversized.look start.trace ∧
    View.removed.look after.trace =
      View.removed.look start.trace ++ frames.map (·.encode.length) ∧
    outputs after.trace = outputs start.trace ++ frames.flatMap (ClientFrame.lines clientFd serverFd)

-- No read ends inside an untyped packet with eight or more of its bytes.
def CutEarly (frames : List ClientFrame) (msgs : List Message) : Prop :=
  ∀ seen done packet more part, seen <+: msgs → frames = done ++ .untyped packet :: more →
    stream seen = done.flatMap ClientFrame.encode ++ part →
    ProperPrefix part (UntypedPacket.encode packet) → part.length < 8

theorem CutEarly.waits {frames : List ClientFrame} {msgs : List Message}
    (early : CutEarly frames msgs) (seen : List Message) (done more : List ClientFrame)
    (left back : List UInt8) (before : seen <+: msgs)
    (breaks : Breaks ClientFrame.encode frames [] (stream seen) done more left back) :
    clientNext left = none ∧ ¬ ClientExits left := by
  rcases client_boundary breaks with waiting | ⟨packet, rest, next, under, long⟩
  · exact waiting
  · have frames_eq := breaks.frames
    rw [next] at frames_eq
    have cut_early := early seen done packet rest left before frames_eq breaks.front under
    omega

theorem TakenWhole.cutEarly {hazards : Hazards} {frames : List ClientFrame} {msgs : List Message}
    {start : Decoder} (whole : TakenWhole clientFd serverFd hazards frames msgs start)
    (nonempty : ∀ msg ∈ msgs, 0 < msg.length)
    (cut : stream msgs = frames.flatMap ClientFrame.encode) (empty : start.Holds []) :
    CutEarly frames msgs := by
  intro seen done packet more part before frames_eq front under
  by_contra long
  have head := untyped_part_taken part packet under (by omega)
  rcases before with ⟨others, rfl⟩
  have breaks : Breaks ClientFrame.encode frames [] ([] ++ stream seen) done
      (.untyped packet :: more) part (stream others) := by
    refine ⟨frames_eq, front, ?_, ?_⟩
    · have joined : stream seen ++ stream others = frames.flatMap ClientFrame.encode := by
        rw [← cut, stream, stream, stream, List.flatMap_append]
      rw [front, frames_eq, List.flatMap_append, List.append_assoc,
        List.append_cancel_left_eq] at joined
      rw [joined, List.append_nil]
    · intro frame rest same
      obtain ⟨rfl, rfl⟩ := List.cons.inj same
      exact under
  have waits := boundaries_wait clientFd serverFd (seen ++ others) nonempty frames [] start empty rfl
    cut whole.2.1 seen done _ part _ (List.prefix_append _ _) breaks
  rw [waits] at head
  exact absurd head (by simp)

/--
Opening packets and typed frames are taken off whole exactly when no read ends inside an untyped
packet with eight or more of its bytes, and the process survives the dump of each read and the
parser of each frame.
-/
theorem takenWhole_iff (hazards : Hazards) (frames : List ClientFrame) (msgs : List Message)
    (nonempty : ∀ msg ∈ msgs, 0 < msg.length)
    (cut : stream msgs = frames.flatMap ClientFrame.encode) (start : Decoder)
    (empty : start.Holds []) :
    TakenWhole clientFd serverFd hazards frames msgs start ↔
      CutEarly frames msgs ∧
        ReadsSurvived clientFd .client hazards ClientFrame.encode frames msgs := by
  have all : [] ++ stream msgs = frames.flatMap ClientFrame.encode ++ [] := by simpa using cut
  have survives_iff_reads (early : CutEarly frames msgs) :
      start.Survives hazards (start.calls clientFd serverFd (Side.client.calls msgs)) ↔
        ReadsSurvived clientFd .client hazards ClientFrame.encode frames msgs :=
    run_survives_iff clientFd serverFd .client reads_client frames [] start empty msgs nonempty all
      early.waits
  constructor
  · intro whole
    have early := whole.cutEarly clientFd serverFd nonempty cut empty
    exact ⟨early, (survives_iff_reads early).mp whole.1⟩
  · rintro ⟨early, survived⟩
    have lines := run_reassembles clientFd serverFd .client reads_client
      (shows_client_lines clientFd serverFd) msgs nonempty frames [] [] start empty rfl all early.waits
    have removed := run_reassembles clientFd serverFd .client reads_client
      (shows_client_removed clientFd serverFd) msgs nonempty frames [] [] start empty rfl all
      early.waits
    have oversized := run_reassembles clientFd serverFd .client reads_client
      (shows_client_oversized clientFd serverFd) msgs nonempty frames [] [] start empty rfl all
      early.waits
    refine ⟨(survives_iff_reads early).mpr survived, ?_, ?_, lines.2⟩
    · have none_shown : frames.flatMap (fun _ => ([] : List Nat)) = [] := by simp
      rw [oversized.2, none_shown, List.append_nil]
    · rw [removed.2, ← List.map_eq_flatMap]

end Packets

def startupPacket : UntypedPacket := ⟨196608, [97, 0, 98, 0, 0, 0, 0, 0], by decide, by decide⟩

theorem takenWhole_startup :
    TakenWhole 5 6 .outside [.untyped startupPacket]
      [readChunk [0, 0, 0, 16, 0, 3, 0], readChunk [0, 97, 0, 98, 0, 0, 0, 0, 0]] Decoder.initial := by
  refine (takenWhole_iff 5 6 .outside _ _ (by decide) (by decide) _ initial_holds).mpr ⟨?_, ?_⟩
  · intro seen done packet more part before frames_eq front under
    cases done with
    | nil =>
        have same : startupPacket = packet := by simpa using congrArg List.head? frames_eq
        have shorter := under.length_lt
        rw [← same] at shorter
        simp only [List.prefix_cons_iff, List.prefix_nil] at before
        rcases before with rfl | ⟨rest, rfl, rfl | ⟨_, rfl, rfl⟩⟩
        · cases front
          decide
        · cases front
          decide
        · cases front
          exact absurd shorter (by decide)
    | cons frame done =>
        have long := congrArg List.length frames_eq
        simp at long
  · refine readsSurvived_of_frames 5 .client _ _ (by decide) fun frame member earlier behind here => ?_
    rw [List.mem_singleton.mp member] at here ⊢
    have room := here.length_le
    have all : (ClientFrame.untyped startupPacket).encode.length = 16 := by decide
    have some_read : (stream [readChunk [0, 0, 0, 16, 0, 3, 0],
      readChunk [0, 97, 0, 98, 0, 0, 0, 0, 0]]).length = 16 := by decide
    rw [List.length_append, List.length_append, all, some_read] at room
    have alone : behind = [] := List.eq_nil_of_length_eq_zero (by omega)
    rw [alone]
    exact (unharmed_outside _).mpr (by decide)

theorem startup_not_takenWhole :
    stream [readChunk [0, 0, 0, 16, 0, 3, 0, 0], readChunk [97, 0, 98, 0, 0, 0, 0, 0]] =
        (ClientFrame.untyped startupPacket).encode ∧
      ¬ TakenWhole 5 6 .least [.untyped startupPacket]
        [readChunk [0, 0, 0, 16, 0, 3, 0, 0], readChunk [97, 0, 98, 0, 0, 0, 0, 0]]
        Decoder.initial := by
  constructor
  · decide
  · intro whole
    exact absurd whole.2.1 (by decide)

end Pgprtdbg
