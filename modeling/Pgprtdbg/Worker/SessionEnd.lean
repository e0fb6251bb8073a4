import Pgprtdbg.Worker.Survival

set_option autoImplicit false

namespace Pgprtdbg

open Framing

def IsTerminate (frame : TypedFrame) : Prop := frame.kind = 88 ∧ frame.body = []

theorem clientVerdict_isSome (chunk : List UInt8) (message : Message) (nonempty : chunk ≠ []) :
    (clientVerdict (received chunk message)).isSome ↔ chunk.head? = some 88 := by
  rw [← received_kind chunk message nonempty, clientVerdict]
  change (if (received chunk message).kind = 88 then some workerSuccess else none).isSome ↔
    (received chunk message).kind = 88
  by_cases x : (received chunk message).kind = 88 <;> simp [x]

section SessionEnd

variable (clientFd serverFd : Int)

theorem client_chunk_ends_iff (hazards : Hazards) (start w : Worker) (a : Arrival)
    (succeeds : a.Succeeds) (client : a.side = .client) (settled : w.decoder.Settled)
    (alive : w.AliveSince hazards start) :
    (w.handle clientFd serverFd a).EndsWith hazards workerSuccess start ↔
      a.chunk.head? = some 88 ∧ ComesBack clientFd hazards .client w.decoder.bytes a.chunk := by
  obtain ⟨xs, holds⟩ := settled alive.1.2
  rcases succeeds.1 with ⟨chunk, read, nonempty⟩
  have some_bytes : a.chunk ≠ [] := by rwa [Arrival.chunk, read]
  rw [handle_endsWith_iff clientFd serverFd start w a succeeds xs holds alive, client, holds.bytes]
  · exact and_congr_left fun _ => clientVerdict_isSome a.chunk w.message some_bytes
  · intro msg other judged
    rw [client] at judged
    change (if msg.kind = 88 then some workerSuccess else none) = some other at judged
    split at judged
    · exact (Option.some.inj judged).symm
    · cases judged

/--
In every run of a worker, each client chunk ends the session exactly when it completes a
Terminate frame, if and only if the chunks that complete one are those that begin with 'X',
and the decoder comes back from them.
-/
theorem session_ends_iff (hazards : Hazards) (arrivals : List Arrival)
    (succeed : ∀ a ∈ arrivals, a.Succeeds) (start : Worker) (empty : start.decoder.Holds []) :
    (∀ seen a, seen ++ [a] <+: arrivals → a.side = .client →
      (start.run clientFd serverFd seen).AliveSince hazards start →
      ((start.run clientFd serverFd (seen ++ [a])).EndsWith hazards workerSuccess start ↔
        Completes IsTerminate (sideStream .client seen) a.chunk)) ↔
    ∀ seen a, seen ++ [a] <+: arrivals → a.side = .client →
      (start.run clientFd serverFd seen).AliveSince hazards start →
      ((a.chunk.head? = some 88 ∧ ComesBack clientFd hazards .client
          (start.run clientFd serverFd seen).decoder.bytes a.chunk) ↔
        Completes IsTerminate (sideStream .client seen) a.chunk) := by
  have step (seen : List Arrival) (a : Arrival) (before : seen ++ [a] <+: arrivals)
      (client : a.side = .client)
      (alive : (start.run clientFd serverFd seen).AliveSince hazards start) :
      (start.run clientFd serverFd (seen ++ [a])).EndsWith hazards workerSuccess start ↔
      a.chunk.head? = some 88 ∧ ComesBack clientFd hazards .client
        (start.run clientFd serverFd seen).decoder.bytes a.chunk := by
    have earlier : seen <+: arrivals := (List.prefix_append seen [a]).trans before
    have settled := run_settled clientFd serverFd seen
      (fun other member => succeed other (earlier.subset member)) start empty.settled
    rw [run_snoc]
    exact client_chunk_ends_iff clientFd serverFd hazards start _ a
      (succeed a (before.subset (by simp))) client settled alive
  constructor
  · intro ends seen a before client alive
    exact (step seen a before client alive).symm.trans (ends seen a before client alive)
  · intro aligned seen a before client alive
    exact (step seen a before client alive).trans (aligned seen a before client alive)

theorem typed_stream_returns (arrivals : List Arrival) (succeed : ∀ a ∈ arrivals, a.Succeeds)
    (clients : ∀ a ∈ arrivals, a.side = .client) (frames : List TypedFrame) (later part : List UInt8)
    (cut : part ++ sideStream .client arrivals ++ later = frames.flatMap TypedFrame.encode)
    (w : Worker) (holds : w.decoder.Holds part) (seen : List Arrival) (a : Arrival)
    (before : seen ++ [a] <+: arrivals) :
    Returns .client ((w.run clientFd serverFd seen).decoder.bytes ++ a.chunk) := by
  induction arrivals generalizing w part frames seen with
  | nil => simp at before
  | cons b arrivals ih =>
      have here := clients b (by simp)
      have stream_eq : sideStream .client (b :: arrivals) =
          b.chunk ++ sideStream .client arrivals := by
        simp [sideStream, here]
      have broken : part ++ b.chunk ++ (sideStream .client arrivals ++ later) =
          frames.flatMap TypedFrame.encode ++ [] := by
        rw [List.append_nil, ← cut, stream_eq]
        simp only [List.append_assoc]
      rcases break_encoded TypedFrame.encode frames [] (part ++ b.chunk)
        (sideStream .client arrivals ++ later) broken with ⟨done, more, left, breaks⟩
      have waits : clientNext left = none ∧ ¬ ClientExits left := by
        cases more with
        | nil =>
            have nothing : left = [] := by
              have back := breaks.back
              simp only [List.flatMap_nil, List.append_nil, List.append_eq_nil_iff] at back
              exact back.1
            rw [nothing]
            exact ⟨rfl, fun gone => by simp [ClientExits] at gone⟩
        | cons frame rest =>
            have under := breaks.under frame rest rfl
            exact ⟨clientNext_part left frame under, client_part_stays left frame under⟩
      have splits : Splits clientNext (part ++ b.chunk) (done.map TypedFrame.encode) left := by
        rw [breaks.front]
        exact ⟨cuts_encoded reads_client_typed done left, waits.1⟩
      have returns : Returns .client (part ++ b.chunk) :=
        (returns_splits .client _ left _ splits).mpr waits.2
      cases seen with
      | nil =>
          cases (List.cons_prefix_cons.mp before).1
          change Returns .client (w.decoder.bytes ++ a.chunk)
          rwa [holds.bytes]
      | cons first seen =>
          obtain ⟨rfl, rest_before⟩ := List.cons_prefix_cons.mp before
          have spec := handle_succeeds clientFd serverFd w first (succeed first (by simp)) part holds
          rw [here] at spec
          obtain ⟨others, rest, again, held⟩ := (spec.1 returns).1
          rw [← (splits.unique again).2] at held
          refine ih (fun other member => succeed other (List.mem_cons_of_mem first member))
            (fun other member => clients other (List.mem_cons_of_mem first member)) more left ?_ _ held
            seen rest_before
          have back := breaks.back
          rwa [List.append_nil, ← List.append_assoc] at back

end SessionEnd

def terminateFrame : TypedFrame := bareFrame 88 (by decide)

theorem session_ends_terminate :
    (freshWorker.run 5 6 [arrival .client [88, 0, 0, 0, 4]]).EndsWith .outside workerSuccess
      freshWorker := by
  have completes : Completes IsTerminate [] [88, 0, 0, 0, 4] :=
    ⟨[], terminateFrame, [], by decide, by decide, rfl, rfl⟩
  have returns : Returns .client ([] ++ [88, 0, 0, 0, 4]) :=
    (returns_splits .client ([terminateFrame].flatMap TypedFrame.encode ++ []) [] _
      ⟨cuts_encoded reads_client_typed [terminateFrame] [], rfl⟩).mpr fun gone => by
        simp [Side.Exits, ClientExits] at gone
  have survived : ReadSurvived 5 .outside .client [] [88, 0, 0, 0, 4] := by
    apply readSurvived_one 5 .client _ (by decide) (chunkEvents_unharmed _ _ (by decide))
    rw [unharmed_outside]
    decide
  have ends := (session_ends_iff 5 6 .outside [arrival .client [88, 0, 0, 0, 4]] (by
    intro a member
    rw [List.mem_singleton.mp member]
    exact arrival_succeeds .client _ (by decide)) freshWorker initial_holds).mpr (by
      intro seen a before _ _
      cases seen with
      | nil =>
          cases (List.cons_prefix_cons.mp before).1
          exact ⟨fun _ => completes, fun _ => ⟨rfl, returns, survived⟩⟩
      | cons first seen =>
          have long := before.length_le
          simp at long)
  exact (ends [] _ (List.prefix_refl _) rfl ⟨⟨rfl, rfl⟩, [], rfl, unharmed_nil⟩).mpr completes

def copyFrame : TypedFrame := ⟨100, [88, 89], by decide, by decide⟩

/-- A chunk of bulk data that happens to begin with 'X' ends the session. -/
theorem copy_data_ends_session :
    let seen := [arrival .client [100, 0, 0, 0, 6]]
    let after := freshWorker.run 5 6 (seen ++ [arrival .client [88, 89]])
    sideStream .client (seen ++ [arrival .client [88, 89]]) = copyFrame.encode ∧
      after.EndsWith .outside workerSuccess freshWorker ∧
      ¬ Completes IsTerminate (sideStream .client seen) [88, 89] := by
  have survived : freshWorker.decoder.Survives .outside (freshWorker.run 5 6
      [arrival .client [100, 0, 0, 0, 6], arrival .client [88, 89]]).decoder := by
    rw [survives_iff (List.nil_append _).symm, unharmed_outside]
    decide
  refine ⟨by decide, ⟨by decide, by decide, survived⟩, ?_⟩
  rintro ⟨done, frame, rest, whole, _, kind, _⟩
  have stream_eq : sideStream .client [arrival .client [100, 0, 0, 0, 6]] ++ [88, 89] =
      copyFrame.encode ++ [] := by decide
  rw [stream_eq] at whole
  cases done with
  | nil =>
      have same := congrArg List.head? whole
      simp [copyFrame, TypedFrame.encode, kind] at same
  | cons first done =>
      have head := (reads_typed copyFrame []).1
      rw [whole, List.flatMap_cons, List.append_assoc, (reads_typed first _).1] at head
      have length := congrArg List.length whole
      simp only [List.length_append, List.length_flatMap, List.flatMap_cons,
        Option.some.inj head, frame.encode_length, List.length_nil] at length
      omega

end Pgprtdbg
