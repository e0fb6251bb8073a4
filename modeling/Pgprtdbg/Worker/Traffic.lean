import Pgprtdbg.Shared.Weave
import Pgprtdbg.Worker.Forwarding

set_option autoImplicit false

namespace Pgprtdbg

/-- What one call of write_traffic is given, and which of the two files it is for. -/
structure Saved where
  side : Side
  identifier : Nat
  block : List UInt8
  deriving DecidableEq

def Event.saved : Event → Option Saved
  | .saveTraffic side identifier block _ => some ⟨side, identifier, block⟩
  | _ => none

def saves (trace : List Event) : List Saved := trace.filterMap Event.saved

-- The records of one of the two files, in the order of the file.
def fileRecords (side : Side) (records : List Saved) : List (Nat × List UInt8) :=
  (records.filter (·.side = side)).map fun record => (record.identifier, record.block)

abbrev Chunk : Type := List UInt8 ⊕ List UInt8

def Side.chunk : Side → List UInt8 → Chunk
  | .client => .inl
  | .server => .inr

-- What the reads bring, in the order of the reads.
def chunks (arrivals : List Arrival) : List Chunk :=
  arrivals.flatMap fun a => if a.chunk = [] then [] else [a.side.chunk a.chunk]

-- The records of the chunks: the client's are counted, the server's have the count so far.
def numbered : Nat → List Chunk → List Saved
  | _, [] => []
  | count, .inl block :: rest => ⟨.client, count + 1, block⟩ :: numbered (count + 1) rest
  | count, .inr block :: rest => ⟨.server, count, block⟩ :: numbered count rest

@[simp] theorem saves_append (front back : List Event) :
    saves (front ++ back) = saves front ++ saves back := by
  simp [saves]

theorem numbered_append (count : Nat) (front back : List Chunk) :
    numbered count (front ++ back) =
      numbered count front ++ numbered (count + (Weave.marks front).length) back := by
  induction front generalizing count with
  | nil => rfl
  | cons chunk front ih =>
      cases chunk with
      | inl block =>
          rw [List.cons_append, numbered, numbered, ih, Weave.marks, List.length_cons,
            List.cons_append, Nat.add_assoc, Nat.add_comm 1]
      | inr block => simp [numbered, Weave.marks, ih]

theorem numbered_client (count : Nat) (items : List Chunk) :
    (fileRecords .client (numbered count items)).map Prod.snd = Weave.marks items := by
  induction items generalizing count with
  | nil => rfl
  | cons chunk items ih =>
      cases chunk with
      | inl block => simpa [numbered, fileRecords, Weave.marks] using ih (count + 1)
      | inr block => simpa [numbered, fileRecords, Weave.marks] using ih count

theorem numbered_server (count : Nat) (items : List Chunk) :
    fileRecords .server (numbered count items) = Weave.notes count items := by
  induction items generalizing count with
  | nil => rfl
  | cons chunk items ih =>
      cases chunk with
      | inl block => simpa [numbered, fileRecords, Weave.notes] using ih (count + 1)
      | inr block => simpa [numbered, fileRecords, Weave.notes] using ih count

theorem numbered_identifiers (count : Nat) (items : List Chunk) :
    (fileRecords .client (numbered count items)).map Prod.fst =
      List.range' (count + 1) (Weave.marks items).length := by
  induction items generalizing count with
  | nil => rfl
  | cons chunk items ih =>
      cases chunk with
      | inl block =>
          simpa [numbered, fileRecords, Weave.marks, List.range'_succ] using ih (count + 1)
      | inr block => simpa [numbered, fileRecords, Weave.marks] using ih count

theorem numbered_mem (count : Nat) (items : List Chunk) (record : Saved)
    (member : record ∈ numbered count items) :
    record.identifier ≤ count + items.length ∧ record.side.chunk record.block ∈ items := by
  induction items generalizing count with
  | nil => cases member
  | cons chunk items ih =>
      cases chunk with
      | inl block =>
          cases List.mem_cons.mp member with
          | inl here =>
              subst here
              simp [Side.chunk]
          | inr behind =>
              have later := ih (count + 1) behind
              exact ⟨by rw [List.length_cons]; omega, List.mem_cons_of_mem _ later.2⟩
      | inr block =>
          cases List.mem_cons.mp member with
          | inl here =>
              subst here
              simp [Side.chunk]
          | inr behind =>
              have later := ih count behind
              exact ⟨by rw [List.length_cons]; omega, List.mem_cons_of_mem _ later.2⟩

theorem chunks_length (arrivals : List Arrival) : (chunks arrivals).length ≤ arrivals.length := by
  induction arrivals with
  | nil => simp [chunks]
  | cons a arrivals ih =>
      simp only [chunks, List.flatMap_cons, List.length_append, List.length_cons] at ih ⊢
      split
      · simp only [List.length_nil]
        omega
      · simp only [List.length_singleton]
        omega

theorem chunks_mem (arrivals : List Arrival) (side : Side) (block : List UInt8)
    (member : side.chunk block ∈ chunks arrivals) : ∃ a ∈ arrivals, a.chunk = block := by
  obtain ⟨a, here, one⟩ := List.mem_flatMap.mp member
  refine ⟨a, here, ?_⟩
  split at one
  · cases one
  · have same := List.mem_singleton.mp one
    revert same
    cases side <;> cases a.side <;> simp [Side.chunk, eq_comm]

section Decode

variable (clientFd serverFd : Int)

theorem saves_silent (trace : List Event) (none_saved : ∀ event ∈ trace, event.saved = none) :
    saves trace = [] := by
  rw [saves, List.filterMap_eq_nil_iff]
  exact none_saved

theorem saves_parsed (outcome : Walk.Outcome Effect Halt Unit) :
    ∀ event ∈ parsed outcome, event.saved = none := by
  intro event member
  rcases (mem_parsed outcome event).mp member with ⟨effect, _, rfl⟩ | ⟨stop, _, rfl⟩ <;> rfl

theorem saves_events (side : Side) (xs : List UInt8) :
    ∀ event ∈ side.events clientFd serverFd xs, event.saved = none := by
  have typed (id : Side) (switch : Int8 → Int → Parser Unit) (fromFd toFd : Int) :
      ∀ event ∈ typedEvents id switch fromFd toFd xs, event.saved = none := by
    intro event member
    simp only [typedEvents, List.mem_append, List.mem_cons, List.not_mem_nil, or_false] at member
    rcases member with logged | rfl | rfl
    · exact saves_parsed _ event logged
    · rfl
    · rfl
  have ended (outcome : Walk.Outcome Effect Halt Unit) (size removed : Nat) :
      ∀ event ∈ parsed outcome ++ [.dataRemove size removed], event.saved = none := by
    intro event member
    simp only [List.mem_append, List.mem_singleton] at member
    rcases member with logged | rfl
    · exact saves_parsed _ event logged
    · rfl
  cases side with
  | client =>
      change ∀ event ∈ clientEvents clientFd serverFd xs, event.saved = none
      unfold clientEvents
      split
      · exact ended _ _ _
      · exact typed _ _ _ _
  | server =>
      change ∀ event ∈ serverEvents serverFd clientFd xs, event.saved = none
      unfold serverEvents
      split
      · exact ended _ _ _
      · exact typed _ _ _ _

theorem saves_call (side : Side) (msg : Message) (xs : List UInt8) (nonempty : 0 < msg.length)
    (d : Decoder) (holds : d.Holds xs) :
    saves (d.call clientFd serverFd ⟨side, msg⟩).trace = saves d.trace := by
  obtain ⟨frames, rest, written, final, _, _, events, outcome⟩ :=
    call_outcome clientFd serverFd side msg xs nonempty
  rw [(outcome d holds).2.1, saves_append, saves_silent written, List.append_nil]
  intro event member
  rcases (events event).mp member with chunk | ⟨_, rfl⟩ | ⟨_, parting⟩ | ⟨_, frame, _, _, _, logged⟩
  · simp only [chunkEvents, List.mem_cons, List.not_mem_nil, or_false] at chunk
    rcases chunk with rfl | rfl | rfl | rfl <;> rfl
  · rfl
  · cases side with
    | client => exact saves_parsed _ event parting
    | server => cases parting
  · exact saves_events clientFd serverFd side frame event logged

end Decode

structure Records (w : Worker) (taken : List Chunk) : Prop where
  settled : w.decoder.Settled
  saving : w.saveTraffic = true
  saved : saves w.decoder.trace = numbered 0 taken
  identifier : w.identifier = (Weave.marks taken).length

section Records

variable {w after : Worker} {taken : List Chunk}

theorem Records.emit (records : Records w taken) (events : List Event)
    (none_saved : ∀ event ∈ events, event.saved = none) : Records (w.emit events) taken where
  settled := emit_settled _ _ records.settled
  saving := records.saving
  saved := by
    change saves (w.decoder.trace ++ events) = _
    rw [saves_append, saves_silent events none_saved, List.append_nil, records.saved]
  identifier := records.identifier

theorem Records.report (records : Records w taken) (format : String) (args : List Arg) :
    Records (w.report format args) taken := by
  apply records.emit
  intro event member
  simp only [List.mem_cons, List.not_mem_nil, or_false] at member
  rcases member with rfl | rfl | rfl <;> rfl

theorem Records.stop (records : Records w taken) (code : Int) : Records (w.stop code) taken :=
  ⟨records.settled, records.saving, records.saved, records.identifier⟩

theorem Records.finishes {errno : Errno} {status : Option MessageStatus}
    (records : Records w taken) (finishes : Finishes errno status w after) :
    Records after taken := by
  cases finishes with
  | ok => exact records
  | stop _ code => exact records.stop code
  | failed _ status other format args code => exact (records.report format args).stop code
  | inWrite =>
      refine ⟨?_, records.saving, records.saved, records.identifier⟩
      exact fun running => absurd running (inWrite_stops errno w)

-- The identifier of the client's record is the new one, that of the server's the last one.
theorem Records.save (records : Records w taken) (side : Side) :
    Records (side.save w) (taken ++ [side.chunk w.message.bytes]) := by
  have settled (events : List Event) := emit_settled _ events records.settled
  have whole := records.saved
  cases side with
  | client =>
      simp only [Side.save, Worker.saveClient, records.saving, if_true]
      refine ⟨settled _, rfl, ?_, ?_⟩
      · change saves (w.decoder.trace ++ [_]) = _
        rw [saves_append, whole, numbered_append, records.identifier, Nat.zero_add]
        rfl
      · rw [Weave.marks_append, List.length_append, ← records.identifier]
        rfl
  | server =>
      simp only [Side.save, Worker.saveServer, records.saving, if_true]
      refine ⟨settled _, records.saving, ?_, ?_⟩
      · change saves (w.decoder.trace ++ [_]) = _
        rw [saves_append, whole, numbered_append, records.identifier, Nat.zero_add]
        rfl
      · rw [Weave.marks_append, List.length_append, ← records.identifier]
        rfl

end Records

section Run

variable (clientFd serverFd : Int)

theorem handle_records (w : Worker) (taken : List Chunk) (records : Records w taken) (a : Arrival) :
    ∃ more, Records (w.handle clientFd serverFd a) (taken ++ more) ∧ more <+: chunks [a] ∧
      ((w.handle clientFd serverFd a).decoder.status = .running → more = chunks [a]) := by
  by_cases running : w.decoder.status = .running
  · rw [handle_running clientFd serverFd w a running]
    by_cases nothing : a.chunk = []
    · obtain ⟨message, format, args, code, same⟩ :=
        handler_nothing clientFd serverFd a.side a.transfer w ((chunk_nil_iff a).mp nothing)
      have unread : Records { w with message := message } taken :=
        ⟨records.settled, records.saving, records.saved, records.identifier⟩
      have none_taken : chunks [a] = [] := by simp [chunks, nothing]
      rw [same, none_taken]
      exact ⟨[], by simpa using (unread.report format args).stop code, List.prefix_rfl, fun _ => rfl⟩
    · obtain ⟨xs, holds⟩ := records.settled running
      obtain ⟨chunk, here⟩ := Classical.not_forall.mp ((chunk_nil_iff a).not.mp nothing)
      obtain ⟨read, some_bytes⟩ := Classical.not_imp.mp here
      have chunk_eq : a.chunk = chunk := by rw [Arrival.chunk, read]
      let msg := received chunk w.message
      have positive : 0 < msg.length := List.length_pos_iff.mpr some_bytes
      have one_taken : chunks [a] = [a.side.chunk chunk] := by simp [chunks, chunk_eq, some_bytes]
      have outcome := handler_chunk clientFd serverFd a.side a.transfer w chunk read some_bytes
      dsimp only at outcome
      rw [← call_decode clientFd serverFd a.side msg w.decoder running] at outcome
      have decoded : Records { w with
          message := msg
          decoder := w.decoder.call clientFd serverFd ⟨a.side, msg⟩ } taken :=
        ⟨(call_settled clientFd serverFd ⟨a.side, msg⟩ w.decoder holds.settled positive).1,
          records.saving,
          (saves_call clientFd serverFd a.side msg xs positive w.decoder holds).trans records.saved,
          records.identifier⟩
      rw [one_taken]
      by_cases back : (w.decoder.call clientFd serverFd ⟨a.side, msg⟩).status = .running
      · have saved := (decoded.save a.side).emit
          [.written (a.side.target clientFd serverFd) (pgprtdbgWriteMessage a.transfer.writes msg).accepted]
          (by simp [Event.saved])
        have bytes : msg.bytes = chunk := received_bytes chunk w.message
        refine ⟨[a.side.chunk chunk], ?_, List.prefix_rfl, fun _ => rfl⟩
        rw [← bytes]
        exact saved.finishes (outcome.2 back)
      · rw [outcome.1 back]
        refine ⟨[], by simpa using decoded, List.nil_prefix, fun still => absurd still back⟩
  · rw [Worker.handle, if_neg running]
    exact ⟨[], by simpa using records, List.nil_prefix, fun still => absurd still running⟩

theorem run_records (arrivals : List Arrival) (w : Worker) (taken : List Chunk)
    (records : Records w taken) :
    ∃ more, Records (w.run clientFd serverFd arrivals) (taken ++ more) ∧ more <+: chunks arrivals ∧
      ((w.run clientFd serverFd arrivals).decoder.status = .running → more = chunks arrivals) := by
  induction arrivals using List.reverseRecOn with
  | nil =>
      rw [← List.append_nil taken] at records
      exact ⟨[], records, List.nil_prefix, fun _ => rfl⟩
  | append_singleton arrivals a ih =>
      obtain ⟨front, held, before, all⟩ := ih
      have whole : chunks (arrivals ++ [a]) = chunks arrivals ++ chunks [a] := by simp [chunks]
      rw [run_snoc, whole]
      by_cases running : (w.run clientFd serverFd arrivals).decoder.status = .running
      · obtain ⟨back, saved, after, still⟩ := handle_records clientFd serverFd _ _ held a
        rw [all running] at saved
        refine ⟨chunks arrivals ++ back, ?_, ?_, ?_⟩
        · rwa [← List.append_assoc]
        · rwa [List.prefix_append_right_inj]
        · intro last
          rw [still last]
      · rw [Worker.handle, if_neg running]
        exact ⟨front, held, before.trans (List.prefix_append _ _), fun last => absurd last running⟩

theorem started_records (bufferSize : Nat) (heap : Nat → UInt8) (arrivals : List Arrival) :
    ∃ taken, Records ((Worker.start bufferSize true heap).run clientFd serverFd arrivals) taken ∧
      taken <+: chunks arrivals ∧
      (((Worker.start bufferSize true heap).run clientFd serverFd arrivals).decoder.status = .running →
        taken = chunks arrivals) :=
  run_records clientFd serverFd arrivals _ [] ⟨initial_holds.settled, rfl, rfl, rfl⟩

/--
The two files that a worker saves its traffic in give the reads of both sides back in the order in
which they came: client records count up from one, and server records carry the count so far.
-/
theorem saved_traffic_woven (bufferSize : Nat) (heap : Nat → UInt8) (arrivals : List Arrival) :
    let after := (Worker.start bufferSize true heap).run clientFd serverFd arrivals
    let client := fileRecords .client (saves after.decoder.trace)
    let server := fileRecords .server (saves after.decoder.trace)
    client.map Prod.fst = List.range' 1 client.length ∧
      Weave.weave 0 (client.map Prod.snd) server <+: chunks arrivals ∧
      (after.decoder.status = .running →
        Weave.weave 0 (client.map Prod.snd) server = chunks arrivals) := by
  intro after client server
  obtain ⟨taken, records, before, all⟩ :=
    started_records clientFd serverFd bufferSize heap arrivals
  have saved : saves after.decoder.trace = numbered 0 taken := records.saved
  have blocks : client.map Prod.snd = Weave.marks taken := by
    simp only [client, saved, numbered_client]
  have counts : client.map Prod.fst = List.range' 1 (Weave.marks taken).length := by
    simp only [client, saved, numbered_identifiers, Nat.zero_add]
  have length : client.length = (Weave.marks taken).length := by
    rw [← blocks, List.length_map]
  have woven : Weave.weave 0 (client.map Prod.snd) server = taken := by
    simp only [server, blocks, saved, numbered_server, Weave.weave_notes]
  rw [woven, counts, length]
  exact ⟨rfl, before, all⟩

end Run

end Pgprtdbg
