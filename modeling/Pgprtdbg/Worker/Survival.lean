import Pgprtdbg.Decode.Hazards
import Pgprtdbg.Worker.Handling

set_option autoImplicit false

namespace Pgprtdbg

open Framing

section Survival

variable (clientFd serverFd : Int)

def ReadSurvived (hazards : Hazards) (side : Side) (xs chunk : List UInt8) : Prop :=
  Unharmed hazards (chunkEvents side.title (readChunk chunk)) ∧
    ∀ frames rest size, Cuts side.next (xs ++ chunk) frames rest → side.next rest = some size →
      Unharmed hazards (side.walked clientFd rest)

def ComesBack (hazards : Hazards) (side : Side) (xs chunk : List UInt8) : Prop :=
  Returns side (xs ++ chunk) ∧ ReadSurvived clientFd hazards side xs chunk

def Worker.AliveSince (hazards : Hazards) (w start : Worker) : Prop :=
  w.Alive ∧ start.decoder.Survives hazards w.decoder

def Worker.EndsWith (hazards : Hazards) (code : Int) (w start : Worker) : Prop :=
  w.running = false ∧ w.exitCode = code ∧ start.decoder.Survives hazards w.decoder

variable {hazards : Hazards}

theorem Decoder.Survives.last {start middle after : Decoder} (first : start.Survives hazards middle)
    (written : List Event) (traced : after.trace = middle.trace ++ written) :
    start.Survives hazards after ↔ Unharmed hazards written := by
  obtain ⟨front, before, fine⟩ := first
  rw [before, List.append_assoc] at traced
  rw [survives_iff traced, unharmed_append]
  exact and_iff_right fine

theorem received_chunkEvents (title : String) (chunk : List UInt8) (nonempty : chunk ≠ [])
    (message : Message) :
    chunkEvents title (received chunk message) = chunkEvents title (readChunk chunk) := by
  rw [readChunk, readMessage_bytes chunk _ nonempty, chunkEvents, chunkEvents, received_bytes,
    received_bytes]
  rfl

-- The parser of an unknown request is one of those that the loop comes to only to leave.
theorem call_unharmed_iff (side : Side) (msg : Message) (d : Decoder) (xs : List UInt8)
    (holds : d.Holds xs) (nonempty : 0 < msg.length) (back : Returns side (xs ++ msg.bytes)) :
    ∃ written, (d.call clientFd serverFd ⟨side, msg⟩).trace = d.trace ++ written ∧
      (Unharmed hazards written ↔ Unharmed hazards (chunkEvents side.title msg) ∧
        ∀ frames rest size, Cuts side.next (xs ++ msg.bytes) frames rest →
          side.next rest = some size → Unharmed hazards (side.walked clientFd rest)) := by
  obtain ⟨frames, rest, written, final, cuts, _, events, outcome⟩ :=
    call_outcome clientFd serverFd side msg xs nonempty
  refine ⟨written, (outcome d holds).2.1, ?_⟩
  have stays := (back frames rest cuts).2
  constructor
  · intro fine
    refine ⟨fun event chunk => fine event ((events event).mpr (.inl chunk)), ?_⟩
    intro done ys size front head
    rw [← unharmed_events clientFd serverFd]
    intro event member
    exact fine event ((events event).mpr (.inr (.inr (.inr ⟨done, ys, size, front, head, member⟩))))
  · rintro ⟨chunk, frames_fine⟩ event member
    rcases (events event).mp member with here | ⟨_, rfl⟩ | ⟨gone, _⟩ | ⟨done, ys, size, front, head, here⟩
    · exact chunk event here
    · trivial
    · exact absurd gone stays
    · have fine := (unharmed_events clientFd serverFd side ys).mpr (frames_fine done ys size front head)
      exact fine event here

theorem save_trace (side : Side) (w : Worker) :
    ∃ saved, (side.save w).decoder.trace = w.decoder.trace ++ saved ∧ Unharmed hazards saved := by
  cases side with
  | client =>
      unfold Side.save Worker.saveClient
      dsimp only
      split
      · exact ⟨_, rfl, by simp [Unharmed, Hazards.Spare]⟩
      · exact ⟨[], by simp, unharmed_nil⟩
  | server =>
      unfold Side.save Worker.saveServer
      dsimp only
      split
      · exact ⟨_, rfl, by simp [Unharmed, Hazards.Spare]⟩
      · exact ⟨[], by simp, unharmed_nil⟩

theorem Finishes.trace_ok {errno : Errno} {before after : Worker}
    (finishes : Finishes errno (some .ok) before after) :
    after.decoder.trace = before.decoder.trace := by
  cases finishes with
  | ok => rfl
  | stop => rfl
  | failed w status other => exact absurd rfl other

-- Behind the decoder, a chunk that is written on does nothing that could end the process.
theorem handle_survives_iff (w : Worker) (a : Arrival) (succeeds : a.Succeeds) (xs : List UInt8)
    (holds : w.decoder.Holds xs) (back : Returns a.side (xs ++ a.chunk)) :
    ∃ written, (w.handle clientFd serverFd a).decoder.trace = w.decoder.trace ++ written ∧
      (Unharmed hazards written ↔ ReadSurvived clientFd hazards a.side xs a.chunk) := by
  obtain ⟨⟨chunk, read, some_bytes⟩, writes⟩ := succeeds
  have chunk_eq : a.chunk = chunk := by rw [Arrival.chunk, read]
  rw [chunk_eq] at back writes ⊢
  let msg := received chunk w.message
  have nonempty : 0 < msg.length := List.length_pos_iff.mpr some_bytes
  have bytes : msg.bytes = chunk := received_bytes chunk w.message
  rw [← bytes] at back
  have running := (call_returns_iff clientFd serverFd a.side msg w.decoder xs holds nonempty).mpr back
  obtain ⟨decoded, traced, fine⟩ :=
    call_unharmed_iff clientFd serverFd a.side msg w.decoder xs holds nonempty back
  rw [call_decode clientFd serverFd a.side msg w.decoder holds.running] at running traced
  have finished :=
    (handler_chunk clientFd serverFd a.side a.transfer w chunk read some_bytes).2 running
  obtain ⟨saved, kept, harmless⟩ := save_trace a.side
    { w with message := msg, decoder := a.side.decode clientFd serverFd msg w.decoder }
  rw [writes msg rfl] at finished
  have last := finished.trace_ok
  refine ⟨decoded ++ (saved ++ [.written (a.side.target clientFd serverFd)
    (pgprtdbgWriteMessage a.transfer.writes msg).accepted]), ?_, ?_⟩
  · rw [handle_running clientFd serverFd w a holds.running, last]
    change (a.side.save _).decoder.trace ++ _ = _
    rw [kept, traced]
    simp only [List.append_assoc]
    rfl
  · have written (socket : Int) (accepted : List UInt8) :
        Unharmed hazards [.written socket accepted] := by
      simp [Unharmed, Hazards.Spare]
    rw [unharmed_append, unharmed_append, fine, bytes, ReadSurvived,
      received_chunkEvents a.side.title chunk some_bytes]
    exact and_iff_left ⟨harmless, written _ _⟩

theorem handle_endsWith_iff (start w : Worker) (a : Arrival) (succeeds : a.Succeeds)
    (xs : List UInt8) (holds : w.decoder.Holds xs) (alive : w.AliveSince hazards start) (code : Int)
    (only : ∀ msg other, a.side.verdict msg = some other → other = code) :
    (w.handle clientFd serverFd a).EndsWith hazards code start ↔
      (a.side.verdict (received a.chunk w.message)).isSome ∧
        ComesBack clientFd hazards a.side xs a.chunk := by
  have ends := handle_ends_iff clientFd serverFd w a succeeds xs holds alive.1.1 code only
  unfold Worker.EndsWith ComesBack
  rw [← and_assoc, ends, and_assoc]
  apply and_congr_right
  intro _
  apply and_congr_right
  intro back
  obtain ⟨written, traced, survived⟩ :=
    handle_survives_iff clientFd serverFd w a succeeds xs holds back
  rw [alive.2.last written traced, survived]

-- A chunk that is one frame leads to the parser of that frame alone.
theorem readSurvived_one (side : Side) (chunk : List UInt8)
    (next : side.next chunk = some chunk.length)
    (dumped : Unharmed hazards (chunkEvents side.title (readChunk chunk)))
    (parsed : Unharmed hazards (side.walked clientFd chunk)) :
    ReadSurvived clientFd hazards side [] chunk := by
  refine ⟨dumped, fun frames rest size cuts head => ?_⟩
  rw [List.nil_append] at cuts
  have nothing : side.next [] = none := by cases side <;> rfl
  cases cuts with
  | nil => exact parsed
  | cons first _ _ more =>
      obtain rfl := Option.some.inj (first.symm.trans next)
      rw [List.drop_length] at more
      cases more with
      | nil =>
          rw [nothing] at head
          cases head
      | cons again _ _ _ =>
          rw [nothing] at again
          cases again

end Survival

end Pgprtdbg
