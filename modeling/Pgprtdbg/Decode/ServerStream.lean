import Pgprtdbg.Decode.Hazards

set_option autoImplicit false

namespace Pgprtdbg

open Framing

section Server

variable (clientFd serverFd : Int)

def Reassembled (hazards : Hazards) (start : Decoder) (seen : List Message) : Prop :=
  let after := start.calls clientFd serverFd (Side.server.calls seen)
  start.Survives hazards after ∧ ∃ (done : List TypedFrame) (part : List UInt8) (last : TypedFrame),
    stream seen = done.flatMap TypedFrame.encode ++ part ∧ ProperPrefix part last.encode ∧
    after.Holds part ∧
    outputs after.trace = outputs start.trace ++ done.map (Side.server.line clientFd serverFd)

theorem serverNext_part (part : List UInt8) (frame : TypedFrame)
    (under : ProperPrefix part frame.encode) (other : part ≠ [78]) : serverNext part = none := by
  rw [serverNext_eq part other]
  exact typedNext_part part frame under

theorem splits_typed (done : List TypedFrame) (part : List UInt8) (frame : TypedFrame)
    (under : ProperPrefix part frame.encode) :
    Splits typedNext (done.flatMap TypedFrame.encode ++ part) (done.map TypedFrame.encode) part :=
  ⟨cuts_encoded reads_typed done part, typedNext_part part frame under⟩

theorem call_leaves_none (side : Side) (msg : Message) (d : Decoder) (xs rest : List UInt8)
    (holds : d.Holds xs) (nonempty : 0 < msg.length)
    (left : (d.call clientFd serverFd ⟨side, msg⟩).Holds rest) : side.next rest = none := by
  obtain ⟨_, final, _, status, _, settled, _, outcome⟩ :=
    call_outcome clientFd serverFd side msg xs nonempty
  have here := outcome d holds
  have running := here.1.symm.trans left.running
  have same := (here.2.2 running).bytes.symm.trans left.bytes
  rw [← same]
  exact (settled.mp running).1

theorem waits_server (frames : List TypedFrame) (tail : List UInt8) (last : TypedFrame)
    (under : ProperPrefix tail last.encode) (msgs : List Message)
    (apart : ∀ seen (done : List TypedFrame), seen <+: msgs →
      stream seen ≠ done.flatMap TypedFrame.encode ++ [78])
    (seen : List Message) (done more : List TypedFrame) (left back : List UInt8)
    (before : seen <+: msgs)
    (breaks : Breaks TypedFrame.encode frames tail (stream seen) done more left back) :
    Side.server.next left = none ∧ ¬ Side.server.Exits left := by
  obtain ⟨frame, part⟩ := breaks.part_under last under
  refine ⟨serverNext_part left frame part ?_, id⟩
  intro lone
  exact apart seen done before (lone ▸ breaks.front)

theorem run_reassembled (frames : List TypedFrame) (tail : List UInt8) (last : TypedFrame)
    (under : ProperPrefix tail last.encode) (msgs : List Message)
    (nonempty : ∀ msg ∈ msgs, 0 < msg.length)
    (cut : stream msgs = frames.flatMap TypedFrame.encode ++ tail)
    (start : Decoder) (empty : start.Holds [])
    (apart : ∀ seen (done : List TypedFrame), seen <+: msgs →
      stream seen ≠ done.flatMap TypedFrame.encode ++ [78]) :
    (start.calls clientFd serverFd (Side.server.calls msgs)).Holds tail ∧
      outputs (start.calls clientFd serverFd (Side.server.calls msgs)).trace =
        outputs start.trace ++ frames.map (Side.server.line clientFd serverFd) := by
  have run := run_reassembles clientFd serverFd .server reads_server_typed
    (shows_lines clientFd serverFd .server) msgs nonempty frames tail [] start empty rfl cut
    (waits_server frames tail last under msgs apart)
  rw [← List.map_eq_flatMap] at run
  exact run

-- A lone 'N' is taken off as an answer, so a run that leaves one has lost the frame.
theorem reassembled_apart (hazards : Hazards) (msgs : List Message)
    (nonempty : ∀ msg ∈ msgs, 0 < msg.length) (start : Decoder)
    (reassembled : ∀ seen, seen <+: msgs → Reassembled clientFd serverFd hazards start seen)
    (seen : List Message) (done : List TypedFrame) (before : seen <+: msgs) :
    stream seen ≠ done.flatMap TypedFrame.encode ++ [78] := by
  intro lone
  have under_lone : ProperPrefix [78] (bareFrame 78 (by decide)).encode :=
    ⟨[0, 0, 0, 4], by decide, by decide⟩
  obtain ⟨_, others, part, frame, front, under_part, holds, _⟩ := reassembled seen before
  have same : part = [78] := by
    have one := splits_typed others part frame under_part
    have two := splits_typed done [78] _ under_lone
    rw [← front] at one
    rw [← lone] at two
    exact (one.unique two).2
  rw [same] at holds
  rcases List.eq_nil_or_concat seen with rfl | ⟨init, msg, rfl⟩
  · have length := congrArg List.length lone
    simp [stream] at length
  · rw [List.concat_eq_append] at before holds
    have earlier : init <+: msgs := (List.prefix_append init [msg]).trans before
    obtain ⟨_, _, held, _, _, _, held_before, _⟩ := reassembled init earlier
    have member : msg ∈ msgs := before.subset (by simp)
    rw [Side.calls, List.map_append, Decoder.calls_append] at holds
    have none_left := call_leaves_none clientFd serverFd .server msg _ held [78] held_before
      (nonempty msg member) holds
    exact absurd none_left (by decide)

/--
However a stream of typed backend frames is cut into reads, it is reassembled after every one of
them exactly when no read leaves just the byte 'N' of a frame behind, and the process survives the
dump of each read and the parser of each frame.
-/
theorem server_reassembles_iff (hazards : Hazards) (frames : List TypedFrame) (tail : List UInt8)
    (last : TypedFrame) (under : ProperPrefix tail last.encode) (msgs : List Message)
    (nonempty : ∀ msg ∈ msgs, 0 < msg.length)
    (cut : stream msgs = frames.flatMap TypedFrame.encode ++ tail)
    (start : Decoder) (empty : start.Holds []) :
    (∀ seen, seen <+: msgs → Reassembled clientFd serverFd hazards start seen) ↔
      (∀ seen (done : List TypedFrame), seen <+: msgs →
        stream seen ≠ done.flatMap TypedFrame.encode ++ [78]) ∧
      ReadsSurvived clientFd .server hazards TypedFrame.encode frames msgs := by
  have survives_iff_reads (apart : ∀ seen (done : List TypedFrame), seen <+: msgs →
      stream seen ≠ done.flatMap TypedFrame.encode ++ [78]) :
      start.Survives hazards (start.calls clientFd serverFd (Side.server.calls msgs)) ↔
        ReadsSurvived clientFd .server hazards TypedFrame.encode frames msgs :=
    run_survives_iff clientFd serverFd .server reads_server_typed frames tail start empty msgs
      nonempty cut (waits_server frames tail last under msgs apart)
  constructor
  · intro reassembled
    have apart := reassembled_apart clientFd serverFd hazards msgs nonempty start reassembled
    exact ⟨apart, (survives_iff_reads apart).mp (reassembled msgs List.prefix_rfl).1⟩
  · rintro ⟨apart, survived⟩ seen ⟨others, rfl⟩
    have whole : stream seen ++ stream others = frames.flatMap TypedFrame.encode ++ tail := by
      rw [← cut, stream, stream, stream, List.flatMap_append]
    obtain ⟨done, more, part, breaks⟩ :=
      break_encoded TypedFrame.encode frames tail (stream seen) (stream others) whole
    obtain ⟨frame, under_part⟩ := breaks.part_under last under
    have run := run_reassembled clientFd serverFd done part frame under_part seen
      (fun msg member => nonempty msg (List.mem_append_left _ member)) breaks.front start empty
      fun earlier done before => apart earlier done (before.trans (List.prefix_append _ _))
    have survives := (survives_iff_reads apart).mpr survived
    rw [Side.calls, List.map_append] at survives
    refine ⟨?_, done, part, frame, breaks.front, under_part, run.1, run.2⟩
    refine survives_of_calls clientFd serverFd start empty.settled _ _ ?_ survives
    intro c member
    rw [Side.calls, ← List.map_append] at member
    obtain ⟨msg, inside, rfl⟩ := List.mem_map.mp member
    exact nonempty msg inside

end Server

theorem server_reassembles_notice :
    stream [readChunk [78, 0], readChunk [0, 0, 5, 0]] =
        TypedFrame.encode ⟨78, [0], by decide, by decide⟩ ∧
      ∀ seen, seen <+: [readChunk [78, 0], readChunk [0, 0, 5, 0]] →
        Reassembled 5 6 .outside Decoder.initial seen := by
  refine ⟨by decide, ?_⟩
  refine (server_reassembles_iff 5 6 .outside [⟨78, [0], by decide, by decide⟩] []
    (bareFrame 90 (by decide)) ⟨[90, 0, 0, 0, 4], by decide, by decide⟩ _ (by decide) (by decide)
    _ initial_holds).mpr ⟨?_, ?_⟩
  · intro seen done before lone
    have ends := congrArg List.getLast? lone
    simp only [List.prefix_cons_iff, List.prefix_nil] at before
    rcases before with rfl | ⟨_, rfl, rfl | ⟨_, rfl, rfl⟩⟩ <;>
      simp [stream, Message.bytes, readChunk, pgprtdbgReadMessage, storeChunk, List.range_succ] at ends
  · refine readsSurvived_of_frames 5 .server _ _ (by decide) fun frame member _ behind _ => ?_
    rw [List.mem_singleton.mp member]
    have walked : Side.server.walked 5 (TypedFrame.encode ⟨78, [0], by decide, by decide⟩ ++ behind) =
        [.effect (.logLine "BE: N" [])] := rfl
    rw [walked]
    simp [Unharmed, spare_outside, Event.touchesOther]

/-- The first byte of a notice on its own is taken for the answer to an SSLRequest. -/
theorem notice_not_reassembled :
    stream [readChunk [78], readChunk [0, 0, 0, 5, 0]] =
        TypedFrame.encode ⟨78, [0], by decide, by decide⟩ ∧
      ¬ Reassembled 5 6 .least Decoder.initial [readChunk [78], readChunk [0, 0, 0, 5, 0]] := by
  constructor
  · decide
  · rintro ⟨_, done, part, last, _, under, holds, _⟩
    have left : part = [0, 0, 0, 5, 0] := holds.bytes.symm.trans (by decide)
    rw [left] at under
    exact part_head _ last under (by decide) rfl

end Pgprtdbg
