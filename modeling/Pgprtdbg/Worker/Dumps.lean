import Pgprtdbg.Decode.Logs
import Pgprtdbg.Worker.Handling
import Pgprtdbg.Worker.HexDump

set_option autoImplicit false

namespace Pgprtdbg

open Framing MachineInt

/-- Whatever lies in memory behind the block, the dump of it stays inside its array. -/
def Event.InRange : Event → Prop
  | .effect (.logMem block size) =>
      ∀ heap, ∀ write ∈ (pgprtdbgLogMem heap block size).writes, write.1 < dumpSize
  | .saveTraffic _ _ block length =>
      ∀ heap, ∀ write ∈ (writeTraffic heap block length).writes, write.1 < dumpSize
  | _ => True

theorem inRange_logMem (block : List UInt8) (size : Nat) :
    (Event.effect (.logMem block size)).InRange ↔ size ≤ dumpCapacity := by
  simp only [Event.InRange, pgprtdbgLogMem, hexDump_inside, forall_const]

theorem inRange_saveTraffic (side : Side) (identifier : Nat) (block : List UInt8) (length : Nat) :
    (Event.saveTraffic side identifier block length).InRange ↔ length ≤ dumpCapacity := by
  simp only [Event.InRange, writeTraffic, hexDump_inside, forall_const]

theorem quiet_inRange (effect : Effect) (quiet : Quiet effect) : (Event.effect effect).InRange := by
  cases effect with
  | logMem block size => exact absurd rfl (quiet block size)
  | logLine _ _ => trivial
  | writeMessage _ _ => trivial

theorem parsed_inRange (outcome : Walk.Outcome Effect Halt Unit) :
    (∀ event ∈ parsed outcome, event.InRange) ↔
      ∀ effect ∈ outcome.log, (Event.effect effect).InRange := by
  constructor
  · intro fine effect member
    exact fine _ ((mem_parsed outcome _).mpr (.inl ⟨effect, member, rfl⟩))
  · intro fine event member
    rcases (mem_parsed outcome event).mp member with ⟨effect, logged, rfl⟩ | ⟨stop, _, rfl⟩
    · exact fine effect logged
    · trivial

theorem parsed_quiet {parser : Parser Unit} (quiet : Walk.LogsOnly Quiet parser) (xs : List UInt8) :
    ∀ event ∈ parsed (parser xs 0), event.InRange :=
  (parsed_inRange _).mpr fun effect member => quiet_inRange effect (quiet xs 0 effect member)

theorem typedEvents_inRange (id : Side) (switch : Int8 → Int → Parser Unit) (fromFd toFd : Int)
    (xs : List UInt8) :
    (∀ event ∈ typedEvents id switch fromFd toFd xs, event.InRange) ↔
      ∀ event ∈ parsed (switch (pgprtdbgReadByte xs) (declaredLength xs) xs 0), event.InRange := by
  simp [typedEvents, or_imp, forall_and, Event.InRange]

theorem parsed_fe_p (length : Int) (low : -2 ^ 31 ≤ length) (high : length < 2 ^ 31)
    (xs : List UInt8) :
    (∀ event ∈ parsed (fe_p length xs 0), event.InRange) ↔ 4 ≤ length ∧ length ≤ 85602 := by
  rw [parsed_inRange, fe_p_log]
  simp only [List.mem_cons, List.not_mem_nil, or_false, forall_eq_or_imp, forall_eq, inRange_logMem,
    dumpCapacity]
  have line : (Event.effect (.logLine "FE: p" [])).InRange := trivial
  simp only [line, true_and]
  by_cases some_body : 4 ≤ length
  · have size := sizeT_of_nonneg (length - 4) (by omega) (by omega)
    omega
  · have size := sizeT_of_negative (length - 4) (by omega) (by omega)
    omega

section Worker

variable (clientFd serverFd : Int)

theorem events_inRange (side : Side) (xs : List UInt8) :
    (∀ event ∈ side.events clientFd serverFd xs, event.InRange) ↔
      (side = .client → xs.getD 0 0 = 112 → 4 ≤ declaredLength xs ∧ declaredLength xs ≤ 85602) := by
  have bounds := declaredLength_bounds xs
  cases side with
  | client =>
      change (∀ event ∈ clientEvents clientFd serverFd xs, event.InRange) ↔ _
      rw [clientEvents]
      split_ifs with untyped
      · have other : xs.getD 0 0 ≠ 112 := by
          rw [untyped]
          decide
        have quiet := parsed_quiet (quiet_fe_zero clientFd (pgprtdbgReadInt32 xs)) xs
        simp only [other, false_imp_iff, implies_true, iff_true, untypedEvents, List.mem_append,
          List.mem_singleton]
        rintro event (logged | rfl)
        · exact quiet event logged
        · trivial
      · rw [typedEvents_inRange]
        by_cases password : xs.getD 0 0 = 112
        · have kind : pgprtdbgReadByte xs = 112 := by
            rw [pgprtdbgReadByte, password]
            rfl
          rw [kind]
          simp only [password, true_imp_iff]
          exact parsed_fe_p (declaredLength xs) bounds.1 bounds.2 xs
        · have other : pgprtdbgReadByte xs ≠ 112 := by
            intro same
            have byte := congrArg Int8.toUInt8 same
            rw [pgprtdbgReadByte, UInt8.toUInt8_toInt8] at byte
            exact password byte
          simp only [password, false_imp_iff, implies_true, iff_true]
          exact parsed_quiet (quiet_plain (built_clientSwitch _ _ other)) xs
  | server =>
      simp only [reduceCtorEq, false_imp_iff, iff_true]
      change ∀ event ∈ serverEvents serverFd clientFd xs, event.InRange
      rw [serverEvents]
      split_ifs
      · simp only [List.mem_append, List.mem_singleton]
        rintro event (logged | rfl)
        · exact parsed_quiet (quiet_plain (built_headerOnly "BE: N")) xs event logged
        · trivial
      · rw [typedEvents_inRange]
        exact parsed_quiet (quiet_plain (built_serverSwitch _ _)) xs

theorem chunkEvents_inRange (title : String) (msg : Message) (small : msg.length ≤ dumpCapacity) :
    ∀ event ∈ chunkEvents title msg, event.InRange := by
  intro event member
  simp only [chunkEvents, List.mem_cons, List.not_mem_nil, or_false] at member
  rcases member with rfl | rfl | rfl | rfl
  · trivial
  · trivial
  · trivial
  · exact (inRange_logMem msg.bytes msg.length).mpr small

theorem parting_inRange (side : Side) (xs : List UInt8) :
    ∀ event ∈ side.parting clientFd xs, event.InRange := by
  cases side with
  | client => exact parsed_quiet (quiet_fe_zero clientFd (pgprtdbgReadInt32 xs)) xs
  | server =>
      intro event member
      cases member

theorem call_dumps (side : Side) (msg : Message) (xs : List UInt8) (nonempty : 0 < msg.length)
    (small : msg.length ≤ dumpCapacity) (d : Decoder) (holds : d.Holds xs) :
    (d.call clientFd serverFd ⟨side, msg⟩).Settled ∧
      ∃ written, (d.call clientFd serverFd ⟨side, msg⟩).trace = d.trace ++ written ∧
        ((∀ event ∈ written, event.InRange) ↔
          ∀ done frame size, Cuts side.next (xs ++ msg.bytes) done frame →
            side.next frame = some size → side = .client → frame.getD 0 0 = 112 →
              4 ≤ declaredLength frame ∧ declaredLength frame ≤ 85602) := by
  obtain ⟨frames, rest, written, final, cuts, _, events, outcome⟩ :=
    call_outcome clientFd serverFd side msg xs nonempty
  have called := outcome d holds
  refine ⟨fun still => ⟨rest, called.2.2 (called.1.symm.trans still)⟩, written, called.2.1, ?_⟩
  constructor
  · intro fine done frame size front head
    refine (events_inRange clientFd serverFd side frame).mp fun event member => ?_
    apply fine
    exact (events event).mpr (.inr (.inr (.inr ⟨done, frame, size, front, head, member⟩)))
  · intro fit event member
    rcases (events event).mp member with
      chunk | ⟨_, rfl⟩ | ⟨_, parting⟩ | ⟨done, frame, size, front, head, logged⟩
    · exact chunkEvents_inRange side.title msg small event chunk
    · trivial
    · exact parting_inRange clientFd side rest event parting
    · have fine := (events_inRange clientFd serverFd side frame).mpr (fit done frame size front head)
      exact fine event logged

structure Adds (before after : Worker) : Prop where
  written : ∃ written, after.decoder.trace = before.decoder.trace ++ written ∧
    ∀ event ∈ written, event.InRange
  settled : before.decoder.Settled → after.decoder.Settled

theorem adds_refl (w : Worker) : Adds w w := ⟨⟨[], by simp⟩, id⟩

theorem Adds.trans {first second third : Worker} (front : Adds first second)
    (back : Adds second third) : Adds first third := by
  rcases front.written with ⟨early, trace, fine⟩
  rcases back.written with ⟨late, trace', fine'⟩
  refine ⟨⟨early ++ late, by rw [trace', trace, List.append_assoc], ?_⟩,
    fun settled => back.settled (front.settled settled)⟩
  intro event member
  cases List.mem_append.mp member with
  | inl before => exact fine event before
  | inr after => exact fine' event after

theorem adds_emit (w : Worker) (events : List Event) (fine : ∀ event ∈ events, event.InRange) :
    Adds w (w.emit events) where
  written := ⟨events, rfl, fine⟩
  settled settled running := by
    obtain ⟨xs, holds⟩ := settled running
    exact ⟨xs, holds.emit events⟩

theorem adds_stop (w : Worker) (code : Int) : Adds w (w.stop code) := ⟨⟨[], by simp [Worker.stop]⟩, id⟩

theorem adds_event (w : Worker) (event : Event) (fine : event.InRange) : Adds w (w.emit [event]) :=
  adds_emit w [event] (by simpa using fine)

theorem adds_report (w : Worker) (format : String) (args : List Arg) :
    Adds w (w.report format args) :=
  adds_emit w _ (by simp [Event.InRange])

theorem adds_inWrite (errno : Errno) (w : Worker) : Adds w (w.inWrite errno) where
  written := ⟨[], by simp [Worker.inWrite]⟩
  settled _ running := absurd running (inWrite_stops errno w)

theorem adds_saveClient (w : Worker) (small : w.message.length ≤ dumpCapacity) :
    Adds w w.saveClient := by
  unfold Worker.saveClient
  split_ifs
  · exact ⟨(adds_event w _ ((inRange_saveTraffic _ _ _ _).mpr small)).written,
      (adds_event w _ ((inRange_saveTraffic _ _ _ _).mpr small)).settled⟩
  · exact adds_refl w

theorem adds_saveServer (w : Worker) (small : w.message.length ≤ dumpCapacity) :
    Adds w w.saveServer := by
  unfold Worker.saveServer
  split_ifs
  · exact adds_event w _ ((inRange_saveTraffic _ _ _ _).mpr small)
  · exact adds_refl w

theorem adds_save (side : Side) (w : Worker) (small : w.message.length ≤ dumpCapacity) :
    Adds w (side.save w) := by
  cases side with
  | client => exact adds_saveClient w small
  | server => exact adds_saveServer w small

theorem Finishes.adds {errno : Errno} {status : Option MessageStatus} {before after : Worker}
    (finishes : Finishes errno status before after) : Adds before after := by
  cases finishes with
  | ok => exact adds_refl _
  | stop _ code => exact adds_stop _ code
  | failed _ status other format args code =>
      exact (adds_report _ format args).trans (adds_stop _ code)
  | inWrite => exact adds_inWrite errno _

theorem chunk_fits (chunk : List UInt8) (small : chunk.length ≤ maxBufferSize) :
    chunk.length ≤ dumpCapacity := by
  unfold maxBufferSize at small
  unfold dumpCapacity
  omega

theorem adds_handler (side : Side) (t : Transfer) (w : Worker) (chunk : List UInt8)
    (read : t.read = .bytes chunk) (nonempty : chunk ≠ []) (small : chunk.length ≤ maxBufferSize) :
    Adds { w with
        message := received chunk w.message
        decoder := side.decode clientFd serverFd (received chunk w.message) w.decoder }
      (side.handler clientFd serverFd t w) := by
  have fits : (received chunk w.message).length ≤ dumpCapacity := chunk_fits chunk small
  obtain ⟨gone, back⟩ := handler_chunk clientFd serverFd side t w chunk read nonempty
  by_cases running :
      (side.decode clientFd serverFd (received chunk w.message) w.decoder).status = .running
  · exact (adds_save side _ fits).trans ((adds_event _ (.written _ _) trivial).trans
      (back running).adds)
  · rw [gone running]
    exact adds_refl _

theorem adds_handler_nothing (side : Side) (t : Transfer) (w : Worker)
    (nothing : ∀ chunk, t.read = .bytes chunk → chunk = []) :
    Adds w (side.handler clientFd serverFd t w) := by
  obtain ⟨message, format, args, code, same⟩ :=
    handler_nothing clientFd serverFd side t w nothing
  have stored : Adds w { w with message := message } := ⟨⟨[], by simp⟩, id⟩
  rw [same]
  exact stored.trans ((adds_report _ format args).trans (adds_stop _ code))

def PasswordsFit (w : Worker) (a : Arrival) : Prop :=
  w.decoder.status = .running → a.side = .client → a.chunk ≠ [] →
    ∀ done frame size, Cuts clientNext (w.decoder.bytes ++ a.chunk) done frame →
      clientNext frame = some size → frame.getD 0 0 = 112 →
        4 ≤ declaredLength frame ∧ declaredLength frame ≤ 85602

theorem handle_dumps (w : Worker) (a : Arrival) (settled : w.decoder.Settled)
    (small : a.chunk.length ≤ maxBufferSize) :
    (w.handle clientFd serverFd a).decoder.Settled ∧
      ∃ written, (w.handle clientFd serverFd a).decoder.trace = w.decoder.trace ++ written ∧
        ((∀ event ∈ written, event.InRange) ↔ PasswordsFit w a) := by
  by_cases running : w.decoder.status = .running
  · rw [handle_running clientFd serverFd w a running]
    by_cases nothing : a.chunk = []
    · have adds := adds_handler_nothing clientFd serverFd a.side a.transfer w
        ((chunk_nil_iff a).mp nothing)
      rcases adds.written with ⟨written, trace, fine⟩
      refine ⟨adds.settled settled, written, trace, fun _ _ _ some_bytes => ?_, fun _ => fine⟩
      exact absurd nothing some_bytes
    · obtain ⟨xs, holds⟩ := settled running
      obtain ⟨chunk, here⟩ := Classical.not_forall.mp ((chunk_nil_iff a).not.mp nothing)
      obtain ⟨read, nonempty⟩ := Classical.not_imp.mp here
      have chunk_eq : a.chunk = chunk := by rw [Arrival.chunk, read]
      have positive : 0 < (received chunk w.message).length := List.length_pos_iff.mpr nonempty
      rw [chunk_eq] at small
      have adds := adds_handler clientFd serverFd a.side a.transfer w chunk read nonempty small
      rcases adds.written with ⟨late, late_trace, late_fine⟩
      have called := call_dumps clientFd serverFd a.side (received chunk w.message) xs positive
        (chunk_fits chunk small) w.decoder holds
      rw [call_decode clientFd serverFd a.side _ w.decoder running, received_bytes] at called
      rcases called with ⟨left, early, early_trace, early_fine⟩
      refine ⟨adds.settled left, early ++ late, ?_, ?_⟩
      · rw [late_trace, early_trace, List.append_assoc]
      · rw [List.forall_mem_append, and_iff_left late_fine, early_fine, PasswordsFit, holds.bytes,
          chunk_eq]
        simp only [running, nonempty, ne_eq, not_false_eq_true, true_imp_iff]
        constructor
        · intro fit client done frame size front head
          rw [client] at fit
          exact fit done frame size front head rfl
        · intro fit done frame size front head client
          rw [client] at front head
          exact fit client done frame size front head
  · rw [Worker.handle, if_neg running]
    exact ⟨settled, [], by simp, fun _ still => absurd still running, by simp⟩

theorem run_dumps (arrivals : List Arrival)
    (small : ∀ a ∈ arrivals, a.chunk.length ≤ maxBufferSize) (start : Worker)
    (settled : start.decoder.Settled) :
    ∃ written, (start.run clientFd serverFd arrivals).decoder.trace = start.decoder.trace ++ written ∧
      ((∀ event ∈ written, event.InRange) ↔
        ∀ seen a, seen ++ [a] <+: arrivals → PasswordsFit (start.run clientFd serverFd seen) a) := by
  induction arrivals generalizing start with
  | nil => exact ⟨[], by simp [Worker.run], by simp⟩
  | cons a arrivals ih =>
      obtain ⟨settled', first, first_trace, first_fine⟩ :=
        handle_dumps clientFd serverFd start a settled (small a (by simp))
      obtain ⟨rest, rest_trace, rest_fine⟩ :=
        ih (fun other member => small other (List.mem_cons_of_mem a member)) _ settled'
      refine ⟨first ++ rest, ?_, ?_⟩
      · change ((start.handle clientFd serverFd a).run clientFd serverFd arrivals).decoder.trace = _
        rw [rest_trace, first_trace, List.append_assoc]
      · rw [List.forall_mem_append, first_fine, rest_fine]
        constructor
        · rintro ⟨here, later⟩ seen b before
          cases seen with
          | nil =>
              cases (List.cons_prefix_cons.mp before).1
              exact here
          | cons other seen =>
              obtain ⟨rfl, rest_before⟩ := List.cons_prefix_cons.mp before
              exact later seen b rest_before
        · intro fit
          refine ⟨fit [] a (by simp), fun seen b before => ?_⟩
          exact fit (a :: seen) b (List.cons_prefix_cons.mpr ⟨rfl, before⟩)

/--
In every run of a worker on chunks that fit its buffer, no dump leaves its array, if and only if
every password message taken off the reassembly buffer declares a length from 4 to 85602.
-/
theorem dumps_inRange_iff (arrivals : List Arrival)
    (small : ∀ a ∈ arrivals, a.chunk.length ≤ maxBufferSize) (bufferSize : Nat) (saveTraffic : Bool)
    (heap : Nat → UInt8) :
    let start := Worker.start bufferSize saveTraffic heap
    (∀ event ∈ (start.run clientFd serverFd arrivals).decoder.trace, event.InRange) ↔
      ∀ seen a, seen ++ [a] <+: arrivals → PasswordsFit (start.run clientFd serverFd seen) a := by
  intro start
  obtain ⟨written, trace, fine⟩ :=
    run_dumps clientFd serverFd arrivals small start initial_holds.settled
  rw [trace]
  exact fine

end Worker

def passwordChunk : List UInt8 := [112, 0, 0, 0, 7, 97, 98, 0]

theorem dumps_inRange_password :
    passwordChunk.length ≤ maxBufferSize ∧
      ∀ event ∈ ((Worker.start maxBufferSize true fun _ => 0).run 5 6
        [arrival .client passwordChunk]).decoder.trace, event.InRange := by
  refine ⟨by decide, ?_⟩
  refine (dumps_inRange_iff 5 6 [arrival .client passwordChunk] (by decide) maxBufferSize true
    fun _ => 0).mpr ?_
  intro seen a before _ _ _ done frame size front head password
  cases seen with
  | nil =>
      cases (List.cons_prefix_cons.mp before).1
      change Cuts clientNext passwordChunk done frame at front
      cases front with
      | nil => decide
      | cons first _ _ more =>
          have whole : clientNext passwordChunk = some 8 := by decide
          rw [whole] at first
          cases first
          change Cuts clientNext [] _ frame at more
          have short := more.length_le
          cases more with
          | nil => cases head
          | cons other _ _ _ => cases other
  | cons other seen =>
      have long := before.length_le
      simp at long

theorem short_password_dump_leaves :
    let after := freshWorker.run 5 6 [arrival .client [112, 0, 0, 0, 3]]
    let dump := Event.effect (.logMem [] (2 ^ 64 - 1))
    dump ∈ after.decoder.trace ∧ ¬ dump.InRange := by
  intro after dump
  have sixth : after.decoder.trace[5]? = some dump := by decide +kernel
  refine ⟨List.mem_of_getElem? sixth, ?_⟩
  rw [inRange_logMem, dumpCapacity]
  decide

end Pgprtdbg
