import Mathlib.Data.Int.ModEq
import Pgprtdbg.Decode.OpeningPackets
import Pgprtdbg.Worker.Handling

set_option autoImplicit false

namespace Pgprtdbg

open Framing

section Keeping

variable (fromFd toFd : Int)

theorem remove_counter (removeSize : Nat) (d : Decoder) :
    (d.remove removeSize).state.counter = d.counter := by
  unfold Decoder.remove
  dsimp only
  split <;> rfl

theorem typedBranch_counter (id : Side) (switch : Int8 → Int → Parser Unit) (d : Decoder) :
    (typedBranch id switch fromFd toFd d).state.counter = d.counter := by
  by_cases short : d.dataSize < frameSize (pgprtdbgReadInt32 (d.bytes.drop 1))
  · rw [typedBranch]
    dsimp only
    rw [if_pos short, Loop.Pass.state]
  · rw [typedBranch]
    dsimp only
    rw [if_neg short, remove_counter, Decoder.emit, Decoder.emit]

theorem clientPass_counter (d : Decoder) : (clientPass fromFd toFd d).state.counter = d.counter := by
  unfold clientPass
  dsimp only
  split
  · rfl
  · split
    · split
      · rfl
      · rw [remove_counter]
        rfl
    · split
      · rw [typedBranch_counter]
      · rfl

theorem serverPass_counter (d : Decoder) : (serverPass fromFd toFd d).state.counter = d.counter := by
  unfold serverPass
  dsimp only
  split
  · rfl
  · split
    · rw [remove_counter]
      rfl
    · split
      · rw [typedBranch_counter]
      · rfl

theorem decodeLoop_counter (body : Decoder → Loop.Pass Decoder)
    (keeps : ∀ d, (body d).state.counter = d.counter) (d : Decoder) :
    (decodeLoop body d).counter = d.counter := by
  have kept := Loop.run_keeps Decoder.counter body keeps (d.dataSize + 1) d
  unfold decodeLoop
  cases ended : Loop.run body (d.dataSize + 1) d with
  | left after => rwa [ended] at kept
  | spent after => rwa [ended] at kept

theorem unlock_counter (d : Decoder) : d.unlock.counter = d.counter := by
  unfold Decoder.unlock
  split <;> rfl

end Keeping

section Counting

variable (clientFd serverFd : Int)

-- A call counts its message once, whatever it decodes and however it ends.
theorem decode_counter (side : Side) (msg : Message) (d : Decoder) :
    (side.decode clientFd serverFd msg d).counter = side.counted msg d.counter := by
  cases side with
  | client =>
      change (pgprtdbgClient clientFd serverFd msg d).counter = _
      rw [pgprtdbgClient, unlock_counter, decodeLoop_counter _ (clientPass_counter _ _)]
      rfl
  | server =>
      change (pgprtdbgServer serverFd clientFd msg d).counter = _
      rw [pgprtdbgServer, unlock_counter, decodeLoop_counter _ (serverPass_counter _ _)]
      rfl

theorem finishes_counter {errno : Errno} {status : Option MessageStatus} {before after : Worker}
    (finishes : Finishes errno status before after) :
    after.decoder.counter = before.decoder.counter := by
  cases finishes <;> rfl

theorem save_counter (side : Side) (w : Worker) :
    (side.save w).decoder.counter = w.decoder.counter := by
  cases side with
  | client =>
      simp only [Side.save, Worker.saveClient]
      split <;> rfl
  | server =>
      simp only [Side.save, Worker.saveServer]
      split <;> rfl

/-- The handler gets as far as decoding what it read. -/
def Worker.Decodes (w : Worker) (side : Side) (a : Arrival) : Prop :=
  w.decoder.status = .running ∧ a.side = side ∧ a.chunk ≠ []

instance (w : Worker) (side : Side) (a : Arrival) : Decidable (w.Decodes side a) :=
  inferInstanceAs (Decidable (_ ∧ _ ∧ _))

theorem handle_counts (w : Worker) (a : Arrival) (decodes : w.Decodes a.side a) :
    (w.handle clientFd serverFd a).decoder.counter =
      a.side.counted (received a.chunk w.message) w.decoder.counter := by
  obtain ⟨running, _, nonempty⟩ := decodes
  obtain ⟨chunk, here⟩ := Classical.not_forall.mp ((chunk_nil_iff a).not.mp nonempty)
  obtain ⟨read, some_bytes⟩ := Classical.not_imp.mp here
  have chunk_eq : a.chunk = chunk := by rw [Arrival.chunk, read]
  rw [handle_running clientFd serverFd w a running, chunk_eq]
  have outcome := handler_chunk clientFd serverFd a.side a.transfer w chunk read some_bytes
  dsimp only at outcome
  obtain ⟨gone, back⟩ := outcome
  by_cases still :
      (a.side.decode clientFd serverFd (received chunk w.message) w.decoder).status = .running
  · rw [finishes_counter (back still)]
    change (a.side.save _).decoder.counter = _
    rw [save_counter]
    exact decode_counter clientFd serverFd a.side _ w.decoder
  · rw [gone still]
    exact decode_counter clientFd serverFd a.side _ w.decoder

theorem handle_counts_nothing (w : Worker) (a : Arrival) (stays : ¬ w.Decodes a.side a) :
    (w.handle clientFd serverFd a).decoder.counter = w.decoder.counter := by
  by_cases running : w.decoder.status = .running
  · have nothing : a.chunk = [] := by
      by_contra nonempty
      exact stays ⟨running, rfl, nonempty⟩
    obtain ⟨message, format, args, code, same⟩ :=
      handler_nothing clientFd serverFd a.side a.transfer w ((chunk_nil_iff a).mp nothing)
    rw [handle_running clientFd serverFd w a running, same]
    rfl
  · rw [Worker.handle, if_neg running]

def Worker.decodedChunks (side : Side) : List Arrival → Worker → Nat
  | [], _ => 0
  | a :: arrivals, w =>
      (if w.Decodes side a then 1 else 0) +
        Worker.decodedChunks side arrivals (w.handle clientFd serverFd a)

def Side.messages : Side → EventCounter → UInt32
  | .client => EventCounter.sentMessages
  | .server => EventCounter.rcvdMessages

theorem handle_messages (side : Side) (w : Worker) (a : Arrival) :
    side.messages (w.handle clientFd serverFd a).decoder.counter =
      side.messages w.decoder.counter + UInt32.ofNat (if w.Decodes side a then 1 else 0) := by
  by_cases decodes : w.Decodes a.side a
  · rw [handle_counts clientFd serverFd w a decodes]
    by_cases same : a.side = side
    · rw [if_pos ⟨decodes.1, same, decodes.2.2⟩, same]
      cases side <;> rfl
    · rw [if_neg fun here => same here.2.1]
      cases here : a.side <;> cases side <;> simp [here] at same <;>
        simp [Side.messages, Side.counted, EventCounter.sent, EventCounter.rcvd]
  · rw [handle_counts_nothing clientFd serverFd w a decodes]
    have none_here : ¬ w.Decodes side a := fun here => decodes ⟨here.1, rfl, here.2.2⟩
    simp [none_here]

theorem run_messages (side : Side) (arrivals : List Arrival) (w : Worker) :
    side.messages (w.run clientFd serverFd arrivals).decoder.counter =
      side.messages w.decoder.counter +
        UInt32.ofNat (w.decodedChunks clientFd serverFd side arrivals) := by
  induction arrivals generalizing w with
  | nil => simp [Worker.run, Worker.decodedChunks]
  | cons a arrivals ih =>
      have rest := ih (w.handle clientFd serverFd a)
      rw [handle_messages, UInt32.add_assoc, ← UInt32.ofNat_add] at rest
      exact rest

structure Streams where
  clients : List ClientFrame
  clientRest : List UInt8
  clientPart : clientRest = [] ∨ ∃ frame : ClientFrame, ProperPrefix clientRest frame.encode
  servers : List TypedFrame
  serverRest : List UInt8
  serverPart : serverRest = [] ∨ ∃ frame : TypedFrame, ProperPrefix serverRest frame.encode

def Streams.messages (streams : Streams) : Side → Nat
  | .client => streams.clients.length
  | .server => streams.servers.length

structure Fragmentation (streams : Streams) where
  arrivals : List Arrival
  client : sideStream .client arrivals =
    streams.clients.flatMap ClientFrame.encode ++ streams.clientRest
  server : sideStream .server arrivals =
    streams.servers.flatMap TypedFrame.encode ++ streams.serverRest

def StatisticsAgree (start : Worker) (streams : Streams) (first second : Fragmentation streams) :
    Prop :=
  ∀ side : Side,
    side.messages (start.run clientFd serverFd first.arrivals).decoder.counter =
      side.messages (start.run clientFd serverFd second.arrivals).decoder.counter ∧
    side.messages (start.run clientFd serverFd first.arrivals).decoder.counter =
      UInt32.ofNat (streams.messages side)

end Counting

theorem query_kind_ne_zero : (81 : UInt8) ≠ 0 := by decide

def queryFrame : TypedFrame := ⟨81, [0], query_kind_ne_zero, by decide⟩

def queryStreams : Streams :=
  ⟨[.typed queryFrame], [], .inl rfl, [], [], .inl rfl⟩

def queryAtOnce : Fragmentation queryStreams :=
  ⟨[arrival .client [81, 0, 0, 0, 5, 0]], by decide, by decide⟩

def queryInTwo : Fragmentation queryStreams :=
  ⟨[arrival .client [81, 0, 0], arrival .client [0, 5, 0]], by decide, by decide⟩

end Pgprtdbg
