import Pgprtdbg.Worker.Forwarding

set_option autoImplicit false

namespace Pgprtdbg

open MachineInt Framing

def Event.forwardedTo (socket : Int) : Event → List UInt8
  | .written target bytes => if target = socket then bytes else []
  | _ => []

/-- What the handlers wrote on to a socket, without what fe_zero answers by itself. -/
def forwarded (socket : Int) (trace : List Event) : List UInt8 :=
  trace.flatMap (Event.forwardedTo socket)

@[simp] theorem forwarded_append (socket : Int) (first second : List Event) :
    forwarded socket (first ++ second) = forwarded socket first ++ forwarded socket second := by
  simp [forwarded]

theorem forwardedTo_accepted (socket : Int) (event : Event) (accepted : ¬ event.IsRefusal) :
    event.forwardedTo socket = event.bytesTo socket := by
  cases event with
  | effect effect =>
      cases effect with
      | writeMessage target bytes => exact absurd trivial accepted
      | _ => rfl
  | _ => rfl

theorem forwarded_accepted (socket : Int) (trace : List Event)
    (accepted : ∀ event ∈ trace, ¬ event.IsRefusal) : forwarded socket trace = bytesTo socket trace := by
  simp only [forwarded, bytesTo]
  exact List.flatMap_congr fun event member =>
    forwardedTo_accepted socket event (accepted event member)

theorem forwarded_silent (clientFd socket : Int) (trace : List Event)
    (silent : ∀ event ∈ trace, event.Silent clientFd) : forwarded socket trace = [] := by
  simp only [forwarded, List.flatMap_eq_nil_iff]
  intro event member
  by_cases refusal : event.IsRefusal
  · cases event with
    | effect effect => rfl
    | _ => exact absurd refusal id
  · rw [forwardedTo_accepted socket event refusal]
    exact silent event member socket fun _ => refusal

section Refusal

variable (clientFd serverFd : Int)

def Worker.Forwards (w : Worker) (a : Arrival) : Prop :=
  w.decoder.status = .running ∧ a.chunk ≠ [] ∧ Returns a.side (w.decoder.bytes ++ a.chunk)

theorem handle_forwards (w : Worker) (a : Arrival) (settled : w.decoder.Settled) :
    let after := w.handle clientFd serverFd a
    ∃ more, after.decoder.trace = w.decoder.trace ++ more ∧ after.decoder.Settled ∧
      (w.Forwards a → ∀ socket, forwarded socket more =
        if socket = a.side.target clientFd serverFd then a.written.accepted else []) ∧
      (¬ w.Forwards a → ∀ socket, forwarded socket more = []) := by
  intro after
  by_cases running : w.decoder.status = .running
  case neg =>
    have same : after = w := if_neg running
    rw [same]
    refine ⟨[], by simp, settled, fun forwards => absurd forwards.1 running, ?_⟩
    exact fun _ socket => by simp [forwarded]
  case pos =>
    obtain ⟨xs, holds⟩ := settled running
    obtain ⟨decoded, rest, handled⟩ := handled_exists clientFd serverFd w a xs holds
    have forwarded_eq (socket : Int) : forwarded socket (decoded ++ rest) = bytesTo socket rest := by
      rw [forwarded_append, forwarded_silent clientFd socket decoded handled.silent,
        forwarded_accepted socket rest handled.accepts, List.nil_append]
    refine ⟨decoded ++ rest, handled.trace, handled.settled, ?_, ?_⟩
    · rintro ⟨_, nonempty, returns⟩ socket
      rw [holds.bytes] at returns
      rw [forwarded_eq, handled.sends nonempty returns]
    · intro stays socket
      rw [forwarded_eq]
      apply handled.keeps
      intro nonempty returns
      exact stays ⟨running, nonempty, holds.bytes.symm ▸ returns⟩

/-- No socket takes a byte of what the later handlers write. -/
def Worker.Blocked : List Arrival → Worker → Prop
  | [], _ => True
  | a :: arrivals, w => (w.Forwards a → a.written.accepted = []) ∧
      Worker.Blocked arrivals (w.handle clientFd serverFd a)

theorem run_forwards_nothing_iff (arrivals : List Arrival) (w : Worker)
    (settled : w.decoder.Settled) :
    let after := w.run clientFd serverFd arrivals
    ∃ more, after.decoder.trace = w.decoder.trace ++ more ∧
      ((∀ side : Side, forwarded (side.target clientFd serverFd) more = []) ↔
        w.Blocked clientFd serverFd arrivals) := by
  induction arrivals generalizing w with
  | nil => exact ⟨[], by simp [Worker.run], by simp [forwarded, Worker.Blocked]⟩
  | cons a arrivals ih =>
      obtain ⟨first, trace, still, sends, keeps⟩ := handle_forwards clientFd serverFd w a settled
      obtain ⟨second, later, rest⟩ := ih (w.handle clientFd serverFd a) still
      refine ⟨first ++ second, ?_, ?_⟩
      · rw [trace, List.append_assoc] at later
        exact later
      · have head : (∀ side : Side, forwarded (side.target clientFd serverFd) first = []) ↔
            (w.Forwards a → a.written.accepted = []) := by
          by_cases forwards : w.Forwards a
          · constructor
            · intro nothing _
              have here := nothing a.side
              rwa [sends forwards, if_pos rfl] at here
            · intro nothing side
              rw [sends forwards, nothing forwards, ite_self]
          · simp [forwards, keeps forwards]
        simp only [forwarded_append, List.append_eq_nil_iff, forall_and, head, rest, Worker.Blocked]

def AsksVersion2 (xs : List UInt8) : Prop :=
  xs.getD 0 0 = 0 ∧ 8 ≤ xs.length ∧ requestOf xs = 131072

theorem fe_zero_refuses (length : Int) (xs : List UInt8) (asks : AsksVersion2 xs) :
    .writeMessage clientFd connectionRefused ∈ (fe_zero clientFd length xs 0).log := by
  have read := readInt32_run xs 4 (by have long := asks.2.1; omega)
  have request : pgprtdbgReadInt32 (xs.drop 4) = 131072 := asks.2.2
  rw [request] at read
  simp [fe_zero, fe_zeroRequest, Walk.bind_eq, Walk.andThen, Walk.skip, read, logLine, Walk.emit]

theorem refusal_logged (packet : List UInt8) (asks : AsksVersion2 packet) :
    Event.effect (.writeMessage clientFd connectionRefused) ∈
      Side.client.events clientFd serverFd packet := by
  have logged := fe_zero_refuses clientFd (pgprtdbgReadInt32 packet) packet asks
  simp only [Side.events, clientEvents, asks.1, if_true, untypedEvents, List.mem_append]
  left
  rw [mem_parsed]
  exact .inl ⟨_, logged, rfl⟩

structure Refuses (w : Worker) (a : Arrival) (packet : List UInt8) : Prop where
  client : a.side = .client
  running : w.decoder.status = .running
  nonempty : a.chunk ≠ []
  opens : ∃ frames, Cuts clientNext (w.decoder.bytes ++ a.chunk) frames packet
  asks : AsksVersion2 packet

theorem Refuses.logged {w : Worker} {a : Arrival} {packet : List UInt8}
    (refuses : Refuses w a packet) (settled : w.decoder.Settled) :
    Event.effect (.writeMessage clientFd connectionRefused) ∈
      (w.handle clientFd serverFd a).decoder.trace := by
  obtain ⟨xs, holds⟩ := settled refuses.running
  obtain ⟨decoded, rest, handled⟩ := handled_exists clientFd serverFd w a xs holds
  obtain ⟨done, opens⟩ := refuses.opens
  have positive : 0 < (received a.chunk w.message).length :=
    List.length_pos_iff.mpr refuses.nonempty
  obtain ⟨_, _, written, _, _, _, events, outcome⟩ :=
    call_outcome clientFd serverFd a.side (received a.chunk w.message) xs positive
  have call := handled.call refuses.nonempty
  rw [(outcome w.decoder holds).2.1, List.append_cancel_left_eq] at call
  have head : clientNext packet = some (sizeT (pgprtdbgReadInt32 packet)) := by
    obtain ⟨untyped, long, request⟩ := refuses.asks
    have known : KnownRequest (requestOf packet) := by simp [KnownRequest, request]
    rw [clientNext, if_pos untyped, if_pos ⟨long, known⟩]
  have member : Event.effect (.writeMessage clientFd connectionRefused) ∈ written := by
    rw [events]
    refine .inr (.inr (.inr ⟨done, packet, sizeT (pgprtdbgReadInt32 packet), ?_, ?_, ?_⟩))
    · rw [refuses.client, received_bytes, ← holds.bytes]
      exact opens
    · rw [refuses.client]
      exact head
    · rw [refuses.client]
      exact refusal_logged clientFd serverFd packet refuses.asks
  rw [handled.trace, ← call]
  simp [member]

/--
After the refusal the server gets nothing of the packet, of which `earlier` bytes of the chunk
come first, and of what follows; the client gets nothing of what the server sends.
-/
structure NotForwarded (before refused after : Worker) (earlier : Nat) : Prop where
  packet : (forwarded serverFd refused.decoder.trace).length ≤
    (forwarded serverFd before.decoder.trace).length + earlier
  server : forwarded serverFd after.decoder.trace = forwarded serverFd refused.decoder.trace
  client : forwarded clientFd after.decoder.trace = forwarded clientFd before.decoder.trace

/--
A refused connection is not forwarded exactly when the decoder does not come back from the
chunk, or the server takes no byte of it from the packet on, and no socket takes a byte of
what the worker writes later.
-/
theorem refused_not_forwarded_iff (distinct : clientFd ≠ serverFd) (bufferSize : Nat)
    (saveTraffic : Bool) (heap : Nat → UInt8) (seen later : List Arrival) (a : Arrival)
    (packet : List UInt8)
    (refuses : Refuses ((Worker.start bufferSize saveTraffic heap).run clientFd serverFd seen) a
      packet) :
    let before := (Worker.start bufferSize saveTraffic heap).run clientFd serverFd seen
    let refused := before.handle clientFd serverFd a
    let after := refused.run clientFd serverFd later
    Event.effect (.writeMessage clientFd connectionRefused) ∈ refused.decoder.trace ∧
      (NotForwarded clientFd serverFd before refused after (a.chunk.length - packet.length) ↔
        (before.Forwards a → a.written.accepted.length ≤ a.chunk.length - packet.length) ∧
          refused.Blocked clientFd serverFd later) := by
  intro before refused after
  have settled : before.decoder.Settled :=
    start_run_settled clientFd serverFd bufferSize saveTraffic heap seen
  refine ⟨refuses.logged clientFd serverFd settled, ?_⟩
  obtain ⟨more, trace, still, sends, keeps⟩ := handle_forwards clientFd serverFd before a settled
  obtain ⟨rest, last, nothing⟩ := run_forwards_nothing_iff clientFd serverFd later refused still
  have to_server : (forwarded serverFd refused.decoder.trace).length ≤
      (forwarded serverFd before.decoder.trace).length + (a.chunk.length - packet.length) ↔
        (before.Forwards a → a.written.accepted.length ≤ a.chunk.length - packet.length) := by
    rw [trace, forwarded_append, List.length_append, Nat.add_le_add_iff_left]
    by_cases forwards : before.Forwards a
    · simp [sends forwards, refuses.client, Side.target, forwards]
    · simp [keeps forwards, forwards]
  have to_client : forwarded clientFd more = [] := by
    by_cases forwards : before.Forwards a
    · simp [sends forwards, refuses.client, Side.target, distinct]
    · exact keeps forwards clientFd
  have both : (∀ side : Side, forwarded (side.target clientFd serverFd) rest = []) ↔
      forwarded serverFd rest = [] ∧ forwarded clientFd rest = [] := by
    constructor
    · exact fun each => ⟨each .client, each .server⟩
    · rintro ⟨server, client⟩ (_ | _)
      · exact server
      · exact client
  have last_eq (socket : Int) : forwarded socket after.decoder.trace =
      forwarded socket refused.decoder.trace ++ forwarded socket rest := by
    rw [last, forwarded_append]
  rw [← to_server, ← nothing, both]
  constructor
  · intro quiet
    refine ⟨quiet.packet, ?_, ?_⟩
    · simpa [last_eq] using quiet.server
    · have client := quiet.client
      rw [last_eq, trace, forwarded_append, to_client, List.append_nil] at client
      simpa using client
  · rintro ⟨front, server, client⟩
    constructor
    case packet => exact front
    case server => rw [last_eq, server, List.append_nil]
    case client => rw [last_eq, client, trace, forwarded_append, to_client, List.append_nil,
      List.append_nil]

end Refusal

-- A startup packet of protocol version 2, of eight bytes.
def version2Packet : List UInt8 := [0, 0, 0, 8, 0, 2, 0, 0]

theorem version2_refuses :
    Refuses (Worker.start maxBufferSize false fun _ => 0) (arrival .client version2Packet)
      version2Packet := by
  constructor
  case client => rfl
  case running => rfl
  case nonempty => decide
  case opens => exact ⟨[], .nil _⟩
  case asks => exact ⟨rfl, by decide, by decide⟩

theorem refused_not_forwarded_version2 :
    let start : Worker := Worker.start maxBufferSize false fun _ => 0
    let a := arrival .client version2Packet
    let later := [arrival .client [81, 0, 0, 0, 5, 0]]
    let refused := start.handle 5 6 a
    Event.effect (.writeMessage 5 connectionRefused) ∈ refused.decoder.trace ∧
      (NotForwarded 5 6 start refused (refused.run 5 6 later) 0 ↔
        (start.Forwards a → a.written.accepted.length ≤ 0) ∧ refused.Blocked 5 6 later) :=
  refused_not_forwarded_iff 5 6 (by decide) maxBufferSize false (fun _ => 0) []
    [arrival .client [81, 0, 0, 0, 5, 0]] (arrival .client version2Packet) version2Packet
    version2_refuses

/-- The client is refused, and the server is sent all that the client sent. -/
theorem version2_forwarded :
    let start : Worker := Worker.start maxBufferSize false fun _ => 0
    let refused := start.handle 5 6 (arrival .client version2Packet)
    let after := refused.run 5 6 [arrival .client [81, 0, 0, 0, 5, 0], arrival .server [90, 0, 0, 0, 5, 73]]
    Event.effect (.writeMessage 5 connectionRefused) ∈ refused.decoder.trace ∧
      forwarded 6 refused.decoder.trace = version2Packet ∧
      forwarded 6 after.decoder.trace = version2Packet ++ [81, 0, 0, 0, 5, 0] ∧
      forwarded 5 after.decoder.trace = [90, 0, 0, 0, 5, 73] ∧
      ¬ NotForwarded 5 6 start refused after 0 := by
  intro start refused after
  refine ⟨by decide, by decide, by decide, by decide, ?_⟩
  intro quiet
  have packet := quiet.packet
  revert packet
  decide

end Pgprtdbg
