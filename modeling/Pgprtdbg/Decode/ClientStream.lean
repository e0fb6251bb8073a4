import Pgprtdbg.Decode.Reassembly

set_option autoImplicit false

namespace Pgprtdbg

open Framing

/--
However a stream of typed frontend frames is cut into reads, every complete frame is written
once and in order, and the buffer holds the frame that is under way.
-/
theorem client_reassembles (clientFd serverFd : Int) (frames : List TypedFrame)
    (tail : List UInt8) (last : TypedFrame) (under : ProperPrefix tail last.encode)
    (msgs : List Message) (nonempty : ∀ msg ∈ msgs, 0 < msg.length)
    (cut : stream msgs = frames.flatMap TypedFrame.encode ++ tail)
    (start : Decoder) (empty : start.Holds []) :
    let after := start.calls clientFd serverFd (Side.client.calls msgs)
    after.status = .running ∧
      outputs after.trace =
        outputs start.trace ++ frames.map (Side.client.line clientFd serverFd) ∧
      after.bytes = tail ∧ after.dataSize = tail.length ∧
      (after.data = none ↔ after.dataSize = 0) := by
  have run := run_reassembles clientFd serverFd .client reads_client_typed
    (shows_lines clientFd serverFd .client) msgs nonempty frames tail [] start empty rfl cut (by
      intro seen done more left back _ breaks
      obtain ⟨frame, part⟩ := breaks.part_under last under
      exact ⟨clientNext_part left frame part, client_part_stays left frame part⟩)
  rw [← List.map_eq_flatMap] at run
  exact ⟨run.1.running, run.2, run.1.bytes, run.1.size, run.1.data_none_iff⟩

theorem client_reassembles_query :
    (Decoder.initial.calls 5 6 (Side.client.calls
      [readChunk [81, 0, 0], readChunk [0, 6, 65, 0, 88, 0]])).bytes = [88, 0] :=
  (client_reassembles 5 6 [⟨81, [65, 0], by decide, by decide⟩] [88, 0]
    (bareFrame 88 (by decide)) ⟨[0, 0, 4], by decide, by decide⟩ _ (by decide) (by decide)
    Decoder.initial initial_holds).2.2.1

end Pgprtdbg
