import Pgprtdbg.Decode.Termination
import Pgprtdbg.Model.Pipeline

set_option autoImplicit false

namespace Pgprtdbg

open Framing

/-- Cutting comes to an end by itself: at no bad header, and at no request that exits. -/
def Returns (side : Side) (xs : List UInt8) : Prop :=
  ∀ frames rest, Cuts side.next xs frames rest → ¬ BadHeader side rest ∧ ¬ side.Exits rest

theorem returns_splits (side : Side) (xs rest : List UInt8) (frames : List (List UInt8))
    (splits : Splits side.next xs frames rest) : Returns side xs ↔ ¬ side.Exits rest := by
  constructor
  · intro returns
    exact (returns frames rest splits.1).2
  · intro stays others last cuts
    have free := splits.not_stuck cuts
    refine ⟨fun bad => free ((stuck_iff side last).mpr bad), fun gone => ?_⟩
    have same := splits.unique ⟨cuts, exits_next side last gone⟩
    exact stays (same.2 ▸ gone)

section Call

variable (clientFd serverFd : Int)

theorem call_returns_iff (side : Side) (msg : Message) (d : Decoder) (xs : List UInt8)
    (holds : d.Holds xs) (nonempty : 0 < msg.length) :
    (d.call clientFd serverFd ⟨side, msg⟩).status = .running ↔ Returns side (xs ++ msg.bytes) := by
  obtain ⟨frames, rest, cuts, ending⟩ := cuts_to_ending side (xs ++ msg.bytes)
  cases ending with
  | stop head stays =>
      have left := (call_stop clientFd serverFd side msg d xs rest frames holds nonempty
        ⟨cuts, head⟩ stays).1
      have returns := (returns_splits side _ rest frames ⟨cuts, head⟩).mpr stays
      simp [left.running, returns]
  | exit gone =>
      have left := (call_exit clientFd serverFd side msg d xs rest frames holds nonempty cuts gone).1
      have stays : ¬ Returns side (xs ++ msg.bytes) := fun returns => (returns frames rest cuts).2 gone
      simp [left, stays]
  | outside size head beyond =>
      have left := (call_outside clientFd serverFd side msg d xs rest frames size holds nonempty cuts
        head beyond).1
      have bad := (stuck_iff side rest).mp ⟨size, head, .inr beyond⟩
      have stays : ¬ Returns side (xs ++ msg.bytes) := fun returns => (returns frames rest cuts).1 bad
      simp [left, stays]
  | spin head =>
      have left := (call_spin clientFd serverFd side msg d xs rest frames holds nonempty cuts head).1
      have bad := (stuck_iff side rest).mp ⟨0, head, .inl rfl⟩
      have stays : ¬ Returns side (xs ++ msg.bytes) := fun returns => (returns frames rest cuts).1 bad
      simp [left, stays]

end Call

def Arrival.chunk (a : Arrival) : List UInt8 :=
  match a.transfer.read with
  | .bytes chunk => chunk
  | _ => []

theorem chunk_nil_iff (a : Arrival) :
    a.chunk = [] ↔ ∀ chunk, a.transfer.read = .bytes chunk → chunk = [] := by
  unfold Arrival.chunk
  cases a.transfer.read <;> simp

def Arrival.Succeeds (a : Arrival) : Prop :=
  (∃ chunk, a.transfer.read = .bytes chunk ∧ chunk ≠ []) ∧
    ∀ msg : Message, msg.length = a.chunk.length →
      (pgprtdbgWriteMessage a.transfer.writes msg).status = some .ok

def sideStream (side : Side) (arrivals : List Arrival) : List UInt8 :=
  arrivals.flatMap fun a => if a.side = side then a.chunk else []

def Completes (P : TypedFrame → Prop) (before chunk : List UInt8) : Prop :=
  ∃ (done : List TypedFrame) (frame : TypedFrame) (rest : List UInt8),
    before ++ chunk = done.flatMap TypedFrame.encode ++ (frame.encode ++ rest) ∧
    before.length < (done.flatMap TypedFrame.encode ++ frame.encode).length ∧ P frame

def Worker.Alive (w : Worker) : Prop := w.running = true ∧ w.decoder.status = .running

-- The message that a read of `chunk` leaves in the buffer.
def received (chunk : List UInt8) (message : Message) : Message :=
  { message with
    kind := (storeChunk chunk message.data 0).toInt8
    length := chunk.length
    data := storeChunk chunk message.data }

@[simp] theorem received_bytes (chunk : List UInt8) (message : Message) :
    (received chunk message).bytes = chunk :=
  storeChunk_bytes chunk message.data

theorem readMessage_bytes (chunk : List UInt8) (message : Message) (nonempty : chunk ≠ []) :
    pgprtdbgReadMessage (.bytes chunk) message = (.ok, received chunk message) := by
  have positive : 0 < chunk.length := List.length_pos_iff.mpr nonempty
  simp only [pgprtdbgReadMessage, positive, if_true, received]

theorem received_kind (chunk : List UInt8) (message : Message) (nonempty : chunk ≠ []) (byte : UInt8) :
    (received chunk message).kind = byte.toInt8 ↔ chunk.head? = some byte := by
  cases chunk with
  | nil => exact absurd rfl nonempty
  | cons first rest =>
      have first_kind : (received (first :: rest) message).kind = first.toInt8 := rfl
      rw [first_kind, List.head?_cons, Option.some.injEq]
      constructor
      · intro same
        simpa using congrArg Int8.toUInt8 same
      · intro same
        rw [same]

theorem Decoder.Holds.emit {d : Decoder} {xs : List UInt8} (holds : d.Holds xs)
    (events : List Event) : (d.emit events).Holds xs :=
  ⟨holds.running, holds.data, holds.size⟩

section Handle

variable (clientFd serverFd : Int)

def Side.handler : Side → Transfer → Worker → Worker
  | .client => pipelineClient clientFd serverFd
  | .server => pipelineServer clientFd serverFd

def Side.verdict : Side → Message → Option Int
  | .client => clientVerdict
  | .server => serverVerdict

theorem handle_running (w : Worker) (a : Arrival) (running : w.decoder.status = .running) :
    w.handle clientFd serverFd a = a.side.handler clientFd serverFd a.transfer w := by
  rw [Worker.handle, if_pos running]
  cases a.side <;> rfl

structure Keeps (save : Worker → Worker) : Prop where
  holds : ∀ w xs, Decoder.Holds w.decoder xs → (save w).decoder.Holds xs
  message : ∀ w, (save w).message = w.message
  fate : ∀ w, (save w).running = w.running ∧ (save w).exitCode = w.exitCode

theorem keeps_saveClient : Keeps Worker.saveClient where
  holds w xs holds := by
    unfold Worker.saveClient
    split
    · exact holds.emit _
    · exact holds
  message w := by
    unfold Worker.saveClient
    split <;> rfl
  fate w := by
    unfold Worker.saveClient
    split <;> exact ⟨rfl, rfl⟩

theorem keeps_saveServer : Keeps Worker.saveServer where
  holds w xs holds := by
    unfold Worker.saveServer
    split
    · exact holds.emit _
    · exact holds
  message w := by
    unfold Worker.saveServer
    split <;> rfl
  fate w := by
    unfold Worker.saveServer
    split <;> exact ⟨rfl, rfl⟩

theorem forward_gone (toFd : Int) (decode : Message → Decoder → Decoder) (save : Worker → Worker)
    (verdict : Message → Option Int) (failed : Errno → MessageStatus → Worker → Worker)
    (writes : List WriteOutcome) (w : Worker)
    (gone : (decode w.message w.decoder).status ≠ .running) :
    w.forward toFd decode save verdict failed writes =
      { w with decoder := decode w.message w.decoder } := by
  rw [Worker.forward, if_neg gone]

theorem forward_written (toFd : Int) (decode : Message → Decoder → Decoder) (save : Worker → Worker)
    (verdict : Message → Option Int) (failed : Errno → MessageStatus → Worker → Worker)
    (writes : List WriteOutcome) (w : Worker) (keeps : Keeps save) (xs : List UInt8)
    (holds : (decode w.message w.decoder).Holds xs)
    (written : (pgprtdbgWriteMessage writes w.message).status = some .ok) :
    let after := w.forward toFd decode save verdict failed writes
    after.decoder.Holds xs ∧
      after.running = (if (verdict w.message).isSome then false else w.running) ∧
      after.exitCode = (verdict w.message).getD w.exitCode := by
  let middle : Worker := { w with decoder := decode w.message w.decoder }
  have running : middle.decoder.status = .running := holds.running
  have saved := keeps.holds middle xs holds
  have same : (save middle).message = w.message := keeps.message middle
  have fate := keeps.fate middle
  simp only [Worker.forward]
  rw [if_pos running, same, written]
  have message : ((save middle).emit
      [.written toFd (pgprtdbgWriteMessage writes w.message).accepted]).message = w.message := same
  dsimp only
  rw [message]
  cases verdict w.message with
  | none => exact ⟨saved.emit _, fate.1, fate.2⟩
  | some code => exact ⟨saved.emit _, rfl, rfl⟩

def Side.decode : Side → Message → Decoder → Decoder
  | .client => pgprtdbgClient clientFd serverFd
  | .server => pgprtdbgServer serverFd clientFd

theorem call_decode (side : Side) (msg : Message) (d : Decoder) (running : d.status = .running) :
    d.call clientFd serverFd ⟨side, msg⟩ = side.decode clientFd serverFd msg d := by
  rw [Decoder.call, if_pos running]
  cases side <;> rfl

theorem handler_forwards (side : Side) (t : Transfer) (w : Worker) (chunk : List UInt8)
    (read : t.read = .bytes chunk) (nonempty : chunk ≠ []) :
    ∃ toFd save failed, Keeps save ∧ side.handler clientFd serverFd t w =
      { w with message := received chunk w.message }.forward toFd (side.decode clientFd serverFd) save
        side.verdict failed t.writes := by
  cases side with
  | client =>
      refine ⟨serverFd, Worker.saveClient, pipelineClientServerError serverFd, keeps_saveClient, ?_⟩
      change pipelineClient clientFd serverFd t w = _
      rw [pipelineClient, read, readMessage_bytes chunk w.message nonempty]
      rfl
  | server =>
      refine ⟨clientFd, Worker.saveServer, pipelineServerClientError clientFd, keeps_saveServer, ?_⟩
      change pipelineServer clientFd serverFd t w = _
      rw [pipelineServer, read, readMessage_bytes chunk w.message nonempty]
      rfl

def Side.target : Side → Int
  | .client => serverFd
  | .server => clientFd

def Side.save : Side → Worker → Worker
  | .client => Worker.saveClient
  | .server => Worker.saveServer

theorem reportError_report (w : Worker) (withErrno without : String) (fd : Int) (errno : Errno)
    (status : MessageStatus) :
    ∃ format args, w.reportError withErrno without fd errno status = w.report format args := by
  unfold Worker.reportError
  split
  · exact ⟨_, _, rfl⟩
  · exact ⟨_, _, rfl⟩

/-- What a handler does after its call of write_message, or while it is in it. -/
inductive Finishes (errno : Errno) : Option MessageStatus → Worker → Worker → Prop where
  | ok (w : Worker) : Finishes errno (some .ok) w w
  | stop (w : Worker) (code : Int) : Finishes errno (some .ok) w (w.stop code)
  | failed (w : Worker) (status : MessageStatus) (other : status ≠ .ok) (format : String)
      (args : List Arg) (code : Int) :
      Finishes errno (some status) w ((w.report format args).stop code)
  | inWrite (w : Worker) : Finishes errno none w (w.inWrite errno)

@[simp] theorem inWrite_status (errno : Errno) (w : Worker) :
    (w.inWrite errno).decoder.status = if errno = .pipe then .killed else .writing := rfl

theorem inWrite_stops (errno : Errno) (w : Worker) :
    (w.inWrite errno).decoder.status ≠ .running := by
  rw [inWrite_status]
  split <;> simp

theorem finishes_failed (w : Worker) (status : MessageStatus) (other : status ≠ .ok)
    (withErrno without : String) (fd : Int) (errno : Errno) (code : Int) :
    Finishes errno (some status) w
      ((w.reportError withErrno without fd errno status).stop code) := by
  obtain ⟨format, args, same⟩ := reportError_report w withErrno without fd errno status
  rw [same]
  exact .failed w status other format args code

-- A read that brings no bytes is reported, and ends the worker.
theorem handler_nothing (side : Side) (t : Transfer) (w : Worker)
    (nothing : ∀ chunk, t.read = .bytes chunk → chunk = []) :
    ∃ message format args code, side.handler clientFd serverFd t w =
      ({ w with message := message }.report format args).stop code := by
  have unread : ∃ status, status ≠ .ok ∧
      pgprtdbgReadMessage t.read w.message = (status, pgprtdbgMemoryFree w.message) := by
    cases read : t.read with
    | bytes chunk =>
        rw [nothing chunk read]
        exact ⟨.zero, by simp, rfl⟩
    | zero => exact ⟨.zero, by simp, rfl⟩
    | error errno => exact ⟨.error, by simp, rfl⟩
  obtain ⟨status, failed, result⟩ := unread
  cases side with
  | client =>
      simp only [Side.handler, pipelineClient, result]
      cases status with
      | ok => exact absurd rfl failed
      | zero => exact ⟨_, _, _, _, rfl⟩
      | error =>
          obtain ⟨format, args, same⟩ := reportError_report
            { w with message := pgprtdbgMemoryFree w.message }
            "[C] client_error: client_fd %d - %s (%d)" "[C] client_error: client_fd %d (%d)"
            clientFd t.read.errno .error
          exact ⟨_, format, args, _, by rw [same]⟩
  | server =>
      simp only [Side.handler, pipelineServer, result]
      cases status with
      | ok => exact absurd rfl failed
      | zero => exact ⟨_, _, _, _, rfl⟩
      | error =>
          obtain ⟨format, args, same⟩ := reportError_report
            { w with message := pgprtdbgMemoryFree w.message }
            "[S] server_error: server_fd %d - %s (%d)" "[S] server_error: server_fd %d (%d)"
            serverFd t.read.errno .error
          exact ⟨_, format, args, _, by rw [same]⟩

theorem forward_finishes (toFd : Int) (decode : Message → Decoder → Decoder) (save : Worker → Worker)
    (verdict : Message → Option Int) (failed : Errno → MessageStatus → Worker → Worker)
    (writes : List WriteOutcome) (w : Worker) (keeps : Keeps save)
    (fails : ∀ errno status w, status ≠ .ok →
      Finishes errno (some status) w (failed errno status w))
    (running : (decode w.message w.decoder).status = .running) :
    let written := pgprtdbgWriteMessage writes w.message
    Finishes written.errno written.status
      ((save { w with decoder := decode w.message w.decoder }).emit [.written toFd written.accepted])
      (w.forward toFd decode save verdict failed writes) := by
  let called : Worker := { w with decoder := decode w.message w.decoder }
  have same : (save called).message = w.message := keeps.message called
  have alive : called.decoder.status = .running := running
  simp only [Worker.forward]
  rw [if_pos alive, same]
  cases ended : (pgprtdbgWriteMessage writes w.message).status with
  | none => exact .inWrite _
  | some status =>
      by_cases ok : status = .ok
      · rw [ok]
        dsimp only
        split
        · exact .stop _ _
        · exact .ok _
      · cases status with
        | ok => exact absurd rfl ok
        | zero => exact fails _ _ _ ok
        | error => exact fails _ _ _ ok

theorem handler_chunk (side : Side) (t : Transfer) (w : Worker) (chunk : List UInt8)
    (read : t.read = .bytes chunk) (nonempty : chunk ≠ []) :
    let msg := received chunk w.message
    let called : Worker :=
      { w with message := msg, decoder := side.decode clientFd serverFd msg w.decoder }
    let written := pgprtdbgWriteMessage t.writes msg
    (called.decoder.status ≠ .running → side.handler clientFd serverFd t w = called) ∧
      (called.decoder.status = .running → Finishes written.errno written.status
        ((side.save called).emit [.written (side.target clientFd serverFd) written.accepted])
        (side.handler clientFd serverFd t w)) := by
  cases side with
  | client =>
      have unfolded : Side.client.handler clientFd serverFd t w =
          { w with message := received chunk w.message }.forward serverFd
            (pgprtdbgClient clientFd serverFd) Worker.saveClient clientVerdict
            (pipelineClientServerError serverFd) t.writes := by
        simp only [Side.handler, pipelineClient, read, readMessage_bytes chunk w.message nonempty]
      rw [unfolded]
      constructor
      · intro gone
        exact forward_gone _ _ _ _ _ _ _ gone
      · intro running
        apply forward_finishes serverFd (pgprtdbgClient clientFd serverFd) Worker.saveClient
          clientVerdict (pipelineClientServerError serverFd)
          t.writes { w with message := received chunk w.message }
        · exact keeps_saveClient
        · intro errno status w other
          exact finishes_failed w status other _ _ _ errno _
        · exact running
  | server =>
      have unfolded : Side.server.handler clientFd serverFd t w =
          { w with message := received chunk w.message }.forward clientFd
            (pgprtdbgServer serverFd clientFd) Worker.saveServer serverVerdict
            (pipelineServerClientError clientFd) t.writes := by
        simp only [Side.handler, pipelineServer, read, readMessage_bytes chunk w.message nonempty]
      rw [unfolded]
      constructor
      · intro gone
        exact forward_gone _ _ _ _ _ _ _ gone
      · intro running
        apply forward_finishes clientFd (pgprtdbgServer serverFd clientFd) Worker.saveServer
          serverVerdict (pipelineServerClientError clientFd)
          t.writes { w with message := received chunk w.message }
        · exact keeps_saveServer
        · intro errno status w other
          exact finishes_failed w status other _ _ _ errno _
        · exact running

theorem handle_succeeds (w : Worker) (a : Arrival) (succeeds : a.Succeeds) (xs : List UInt8)
    (holds : w.decoder.Holds xs) :
    let verdict := a.side.verdict (received a.chunk w.message)
    let after := w.handle clientFd serverFd a
    (Returns a.side (xs ++ a.chunk) →
      (∃ frames rest, Splits a.side.next (xs ++ a.chunk) frames rest ∧ after.decoder.Holds rest) ∧
      after.running = (if verdict.isSome then false else w.running) ∧
      after.exitCode = verdict.getD w.exitCode) ∧
    (¬ Returns a.side (xs ++ a.chunk) →
      after.decoder.status ≠ .running ∧ after.running = w.running ∧ after.exitCode = w.exitCode) := by
  rcases succeeds with ⟨⟨chunk, read, some_bytes⟩, writes⟩
  have chunk_eq : a.chunk = chunk := by rw [Arrival.chunk, read]
  rw [chunk_eq] at writes ⊢
  let msg := received chunk w.message
  have nonempty : 0 < msg.length := List.length_pos_iff.mpr some_bytes
  have returns := call_returns_iff clientFd serverFd a.side msg w.decoder xs holds nonempty
  obtain ⟨frames, rest, _, final, cuts, ends, _, outcome⟩ :=
    call_outcome clientFd serverFd a.side msg xs nonempty
  have called := outcome w.decoder holds
  rw [received_bytes, call_decode clientFd serverFd a.side msg w.decoder holds.running] at returns
  rw [call_decode clientFd serverFd a.side msg w.decoder holds.running] at called
  rw [received_bytes] at cuts
  obtain ⟨toFd, save, failed, keeps, forwards⟩ :=
    handler_forwards clientFd serverFd a.side a.transfer w chunk read some_bytes
  rw [handle_running clientFd serverFd w a holds.running, forwards]
  constructor
  · intro back
    have ended := called.1.symm.trans (returns.mpr back)
    have left := called.2.2 ended
    have forward := forward_written toFd (a.side.decode clientFd serverFd) save a.side.verdict failed
      a.transfer.writes { w with message := msg } keeps rest left (writes msg rfl)
    exact ⟨⟨frames, rest, ⟨cuts, (ends.mp ended).1⟩, forward.1⟩, forward.2⟩
  · intro stays
    have gone := fun back => stays (returns.mp back)
    rw [forward_gone toFd (a.side.decode clientFd serverFd) save a.side.verdict failed _
      { w with message := msg } gone]
    exact ⟨gone, rfl, rfl⟩

theorem handle_ends_iff (w : Worker) (a : Arrival) (succeeds : a.Succeeds) (xs : List UInt8)
    (holds : w.decoder.Holds xs) (running : w.running = true) (code : Int)
    (only : ∀ msg other, a.side.verdict msg = some other → other = code) :
    ((w.handle clientFd serverFd a).running = false ∧
      (w.handle clientFd serverFd a).exitCode = code) ↔
    (a.side.verdict (received a.chunk w.message)).isSome ∧ Returns a.side (xs ++ a.chunk) := by
  have spec := handle_succeeds clientFd serverFd w a succeeds xs holds
  by_cases back : Returns a.side (xs ++ a.chunk)
  · have here := (spec.1 back).2
    rw [here.1, here.2, running]
    cases judged : a.side.verdict (received a.chunk w.message) with
    | none => simp
    | some other => simp [back, only _ other judged]
  · have here := (spec.2 back).2
    rw [here.1, running]
    simp [back]

theorem handle_settled (w : Worker) (a : Arrival) (succeeds : a.Succeeds)
    (settled : w.decoder.Settled) : (w.handle clientFd serverFd a).decoder.Settled := by
  by_cases running : w.decoder.status = .running
  · obtain ⟨xs, holds⟩ := settled running
    have spec := handle_succeeds clientFd serverFd w a succeeds xs holds
    by_cases back : Returns a.side (xs ++ a.chunk)
    · obtain ⟨_, rest, _, left⟩ := (spec.1 back).1
      exact left.settled
    · exact fun still => absurd still (spec.2 back).1
  · rw [Worker.handle, if_neg running]
    exact settled

theorem run_settled (arrivals : List Arrival) (succeed : ∀ a ∈ arrivals, a.Succeeds) (w : Worker)
    (settled : w.decoder.Settled) : (w.run clientFd serverFd arrivals).decoder.Settled := by
  induction arrivals generalizing w with
  | nil => exact settled
  | cons a arrivals ih =>
      exact ih (fun other member => succeed other (List.mem_cons_of_mem a member)) _
        (handle_settled clientFd serverFd w a (succeed a (by simp)) settled)

theorem run_snoc (arrivals : List Arrival) (a : Arrival) (w : Worker) :
    w.run clientFd serverFd (arrivals ++ [a]) =
      (w.run clientFd serverFd arrivals).handle clientFd serverFd a := by
  simp [Worker.run]

end Handle

def arrival (side : Side) (chunk : List UInt8) : Arrival :=
  ⟨side, .bytes chunk, [.count chunk.length]⟩

theorem arrival_succeeds (side : Side) (chunk : List UInt8) (nonempty : chunk ≠ []) :
    (arrival side chunk).Succeeds := by
  refine ⟨⟨chunk, rfl, nonempty⟩, fun msg same => ?_⟩
  have whole : chunk.length = msg.length := same.symm
  simp [arrival, pgprtdbgWriteMessage, writeLoop, whole]

def freshWorker : Worker := Worker.start maxBufferSize false fun _ => 0

end Pgprtdbg
