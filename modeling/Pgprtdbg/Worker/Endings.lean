import Pgprtdbg.Model.Proxy
import Pgprtdbg.Worker.Forwarding

set_option autoImplicit false

namespace Pgprtdbg

open Framing

def Dies (side : Side) (xs : List UInt8) : Prop :=
  ∃ frames rest, Cuts side.next xs frames rest ∧
    (side.Exits rest ∨ ∃ size, side.next rest = some size ∧ rest.length < size)

def Arrival.MeetsClosed (a : Arrival) : Prop :=
  ∃ taken rest, a.transfer.writes = taken ++ .error .pipe :: rest ∧
    (pgprtdbgWriteMessage taken (readChunk a.chunk)).status = none

def Arrival.EndsProcess (a : Arrival) (xs : List UInt8) : Prop :=
  a.chunk ≠ [] ∧ (Dies a.side (xs ++ a.chunk) ∨ Returns a.side (xs ++ a.chunk) ∧ a.MeetsClosed)

section Endings

variable (clientFd serverFd : Int)

theorem call_gone_iff (side : Side) (msg : Message) (d : Decoder) (xs : List UInt8)
    (holds : d.Holds xs) (nonempty : 0 < msg.length) :
    (d.call clientFd serverFd ⟨side, msg⟩).status.isGone = true ↔ Dies side (xs ++ msg.bytes) := by
  constructor
  · intro gone
    obtain ⟨frames, rest, cuts, ending⟩ := cuts_to_ending side (xs ++ msg.bytes)
    cases ending with
    | stop head stays =>
        have left := (call_stop clientFd serverFd side msg d xs rest frames holds nonempty
          ⟨cuts, head⟩ stays).1
        rw [left.running] at gone
        cases gone
    | exit exits => exact ⟨frames, rest, cuts, .inl exits⟩
    | outside size head beyond => exact ⟨frames, rest, cuts, .inr ⟨size, head, beyond⟩⟩
    | spin head =>
        have left := (call_spin clientFd serverFd side msg d xs rest frames holds nonempty cuts head).1
        rw [left] at gone
        cases gone
  · rintro ⟨frames, rest, cuts, exits | ⟨size, head, beyond⟩⟩
    · rw [(call_exit clientFd serverFd side msg d xs rest frames holds nonempty cuts exits).1]
      rfl
    · rw [(call_outside clientFd serverFd side msg d xs rest frames size holds nonempty cuts head
        beyond).1]
      rfl

theorem Finishes.gone_iff {errno : Errno} {status : Option MessageStatus} {before after : Worker}
    (finishes : Finishes errno status before after) (running : before.decoder.status = .running) :
    after.decoder.status.isGone = true ↔ status = none ∧ errno = .pipe := by
  have stays : before.decoder.status.isGone = false := by
    rw [running]
    rfl
  cases finishes with
  | ok => simp [stays]
  | stop => simp [Worker.stop, stays]
  | failed => simp [Worker.stop, Worker.report, Worker.emit, Decoder.emit, stays]
  | inWrite =>
      rw [inWrite_status]
      by_cases closed : errno = .pipe <;> simp [closed, Status.isGone]

theorem Arrival.meetsClosed_iff (a : Arrival) :
    a.written.status = none ∧ a.written.errno = .pipe ↔ a.MeetsClosed :=
  writeLoop_pipe_iff (readChunk a.chunk) a.transfer.writes 0 0 (readChunk a.chunk).length

-- The process of a worker is gone after a read exactly when what it brought ends it.
theorem handle_gone_iff (w : Worker) (a : Arrival) (running : w.decoder.status = .running)
    (settled : w.decoder.Settled) :
    (w.handle clientFd serverFd a).decoder.status.isGone = true ↔
      a.EndsProcess w.decoder.bytes := by
  rw [handle_running clientFd serverFd w a running]
  by_cases nothing : a.chunk = []
  · obtain ⟨message, format, args, code, same⟩ :=
      handler_nothing clientFd serverFd a.side a.transfer w ((chunk_nil_iff a).mp nothing)
    have stays : (a.side.handler clientFd serverFd a.transfer w).decoder.status = .running := by
      rw [same]
      exact running
    rw [stays]
    simp [Arrival.EndsProcess, nothing, Status.isGone]
  · obtain ⟨xs, holds⟩ := settled running
    obtain ⟨chunk, here⟩ := Classical.not_forall.mp ((chunk_nil_iff a).not.mp nothing)
    obtain ⟨read, some_bytes⟩ := Classical.not_imp.mp here
    have chunk_eq : a.chunk = chunk := by rw [Arrival.chunk, read]
    have positive : 0 < (received chunk w.message).length := List.length_pos_iff.mpr some_bytes
    have gone :=
      call_gone_iff clientFd serverFd a.side (received chunk w.message) w.decoder xs holds positive
    have returns := call_returns_iff clientFd serverFd a.side (received chunk w.message) w.decoder xs
      holds positive
    rw [received_bytes, call_decode clientFd serverFd a.side _ w.decoder running] at gone returns
    obtain ⟨ended, back⟩ := handler_chunk clientFd serverFd a.side a.transfer w chunk read some_bytes
    rw [Arrival.EndsProcess, holds.bytes, chunk_eq, ← gone, ← returns]
    simp only [ne_eq, some_bytes, not_false_eq_true, true_and]
    by_cases still :
        (a.side.decode clientFd serverFd (received chunk w.message) w.decoder).status = .running
    · obtain ⟨events, same, _⟩ := idles_save a.side { w with
        message := received chunk w.message
        decoder := a.side.decode clientFd serverFd (received chunk w.message) w.decoder }
      have written := a.written_received (by rwa [chunk_eq]) w.message
      rw [chunk_eq] at written
      have finished := (back still).gone_iff (by
        change (a.side.save _).decoder.status = .running
        rw [same]
        exact still)
      rw [written, a.meetsClosed_iff] at finished
      rw [finished, still]
      simp [Status.isGone]
    · rw [ended still]
      simp [still]

end Endings

end Pgprtdbg
