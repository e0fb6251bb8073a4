import Pgprtdbg.Body.Encodings
import Pgprtdbg.Worker.Survival

set_option autoImplicit false

namespace Pgprtdbg

open Framing

def fieldText (code : UInt8) (fields : List ErrorField) : Option (List UInt8) :=
  (fields.find? (·.code = code)).map ErrorField.text

def IsFatal (frame : TypedFrame) : Prop :=
  frame.kind = 69 ∧ ∃ fields, frame.body = errorBody fields ∧
    (fieldText 83 fields = some textFatal ∨ fieldText 83 fields = some textPanic) ∧
    fieldText 67 fields ≠ some textNotSupported

-- The chunk alone has the text at the offset.
def Has (chunk : List UInt8) (offset : Nat) (text : List UInt8) : Prop :=
  ∀ i < text.length, chunk[offset + i]? = text[i]?

-- Nothing in the chunk speaks against the text at the offset.
def MayHave (chunk : List UInt8) (offset : Nat) (text : List UInt8) : Prop :=
  ∀ i < text.length, offset + i < chunk.length → chunk[offset + i]? = text[i]?

/-- Whatever an earlier read left behind the chunk, it is taken for a fatal error. -/
def SurelyFatal (chunk : List UInt8) : Prop :=
  chunk.head? = some 69 ∧ (Has chunk 6 textFatal ∨ Has chunk 6 textPanic) ∧
    ¬ MayHave chunk 20 textNotSupported

-- With some bytes behind the chunk, it is taken for a fatal error.
def MaybeFatal (chunk : List UInt8) : Prop :=
  chunk.head? = some 69 ∧ (MayHave chunk 6 textFatal ∨ MayHave chunk 6 textPanic) ∧
    ¬ Has chunk 20 textNotSupported

theorem matchesAt_iff (data : Nat → UInt8) (offset : Nat) (text : List UInt8) :
    matchesAt data offset text = true ↔ ∀ i < text.length, some (data (offset + i)) = text[i]? := by
  rw [matchesAt, decide_eq_true_eq]
  constructor
  · intro same i bound
    rw [← same]
    simp [bound]
  · intro each
    apply List.ext_getElem
    · simp
    · intro i _ bound
      have here := each i bound
      rw [List.getElem?_eq_getElem bound] at here
      simpa using Option.some.inj here

theorem storeChunk_inside (chunk : List UInt8) (earlier : Nat → UInt8) (i : Nat)
    (inside : i < chunk.length) : some (storeChunk chunk earlier i) = chunk[i]? := by
  simp [storeChunk, inside]

theorem storeChunk_behind (chunk : List UInt8) (earlier : Nat → UInt8) (i : Nat)
    (behind : chunk.length ≤ i) : storeChunk chunk earlier i = earlier i := by
  simp [storeChunk, behind]

theorem matchesAt_of_has (chunk : List UInt8) (earlier : Nat → UInt8) (offset : Nat)
    (text : List UInt8) (has : Has chunk offset text) :
    matchesAt (storeChunk chunk earlier) offset text = true := by
  rw [matchesAt_iff]
  intro i bound
  have here := has i bound
  have inside : offset + i < chunk.length := by
    by_contra behind
    rw [List.getElem?_eq_none (by omega), List.getElem?_eq_getElem bound] at here
    cases here
  rw [storeChunk_inside chunk earlier _ inside, here]

theorem mayHave_of_matchesAt (chunk : List UInt8) (earlier : Nat → UInt8) (offset : Nat)
    (text : List UInt8) (same : matchesAt (storeChunk chunk earlier) offset text = true) :
    MayHave chunk offset text := by
  intro i bound inside
  rw [← storeChunk_inside chunk earlier _ inside]
  exact (matchesAt_iff _ _ _).mp same i bound

theorem matchesAt_of_mayHave (chunk : List UInt8) (earlier : Nat → UInt8) (offset : Nat)
    (text : List UInt8) (may : MayHave chunk offset text)
    (filled : ∀ i < text.length, some (earlier (offset + i)) = text[i]?) :
    matchesAt (storeChunk chunk earlier) offset text = true := by
  rw [matchesAt_iff]
  intro i bound
  by_cases inside : offset + i < chunk.length
  · rw [storeChunk_inside chunk earlier _ inside, may i bound inside]
  · rw [storeChunk_behind chunk earlier _ (by omega), filled i bound]

theorem has_of_matchesAt (chunk : List UInt8) (earlier : Nat → UInt8) (offset : Nat)
    (text : List UInt8) (free : 0 ∉ text) (cleared : ∀ i < text.length, earlier (offset + i) = 0)
    (same : matchesAt (storeChunk chunk earlier) offset text = true) : Has chunk offset text := by
  intro i bound
  have here := (matchesAt_iff _ _ _).mp same i bound
  by_cases inside : offset + i < chunk.length
  · rw [← storeChunk_inside chunk earlier _ inside, here]
  · rw [storeChunk_behind chunk earlier _ (by omega), cleared i bound] at here
    exact absurd (List.mem_of_getElem? here.symm) free

section Verdict

variable (chunk : List UInt8) (message : Message) (nonempty : chunk ≠ [])

-- The worker's message, with other bytes left in the buffer by an earlier read.
def Message.holding (earlier : Nat → UInt8) (message : Message) : Message :=
  { message with data := earlier }

include nonempty in
theorem serverVerdict_isSome (earlier : Nat → UInt8) :
    (serverVerdict (received chunk (message.holding earlier))).isSome ↔
      chunk.head? = some 69 ∧
        (matchesAt (storeChunk chunk earlier) 6 textFatal = true ∨
          matchesAt (storeChunk chunk earlier) 6 textPanic = true) ∧
        ¬ matchesAt (storeChunk chunk earlier) 20 textNotSupported = true := by
  have kind := received_kind chunk (message.holding earlier) nonempty 69
  have same : fatalMessage (received chunk (message.holding earlier)) = true ↔
      (received chunk (message.holding earlier)).kind = (69 : UInt8).toInt8 ∧
        (matchesAt (storeChunk chunk earlier) 6 textFatal = true ∨
          matchesAt (storeChunk chunk earlier) 6 textPanic = true) ∧
        ¬ matchesAt (storeChunk chunk earlier) 20 textNotSupported = true := by
    rw [fatalMessage, decide_eq_true_eq]
    rfl
  rw [← kind, ← same, serverVerdict]
  by_cases fatal : fatalMessage (received chunk (message.holding earlier)) <;> simp [fatal]

include nonempty in
theorem surelyFatal_iff :
    (∀ earlier, (serverVerdict (received chunk (message.holding earlier))).isSome) ↔
      SurelyFatal chunk := by
  constructor
  · intro always
    have cleared := (serverVerdict_isSome chunk message nonempty fun _ => 0).mp (always _)
    refine ⟨cleared.1, ?_, ?_⟩
    · rcases cleared.2.1 with fatal | panic
      · exact .inl (has_of_matchesAt chunk _ 6 _ (by decide) (fun _ _ => rfl) fatal)
      · exact .inr (has_of_matchesAt chunk _ 6 _ (by decide) (fun _ _ => rfl) panic)
    · intro may
      have filled := (serverVerdict_isSome chunk message nonempty
        fun j => textNotSupported.getD (j - 20) 0).mp (always _)
      refine filled.2.2 (matchesAt_of_mayHave chunk _ 20 _ may fun i bound => ?_)
      rw [Nat.add_sub_cancel_left, List.getD_eq_getElem?_getD, List.getElem?_eq_getElem bound]
      rfl
  · rintro ⟨kind, severity, code⟩ earlier
    refine (serverVerdict_isSome chunk message nonempty earlier).mpr ⟨kind, ?_, ?_⟩
    · exact severity.imp (matchesAt_of_has chunk earlier 6 _) (matchesAt_of_has chunk earlier 6 _)
    · exact fun same => code (mayHave_of_matchesAt chunk earlier 20 _ same)

include nonempty in
theorem maybeFatal_iff :
    (∃ earlier, (serverVerdict (received chunk (message.holding earlier))).isSome) ↔
      MaybeFatal chunk := by
  constructor
  · rintro ⟨earlier, fatal⟩
    obtain ⟨kind, severity, code⟩ := (serverVerdict_isSome chunk message nonempty earlier).mp fatal
    refine ⟨kind, ?_, fun has => code (matchesAt_of_has chunk earlier 20 _ has)⟩
    exact severity.imp (mayHave_of_matchesAt chunk earlier 6 _) (mayHave_of_matchesAt chunk earlier 6 _)
  · rintro ⟨kind, severity, code⟩
    have found (text : List UInt8) (may : MayHave chunk 6 text) (five : text.length = 5) :
        ∃ earlier, matchesAt (storeChunk chunk earlier) 6 text = true ∧
          ¬ matchesAt (storeChunk chunk earlier) 20 textNotSupported = true := by
      refine ⟨fun j => if j < 20 then text.getD (j - 6) 0 else 0, ?_, ?_⟩
      · refine matchesAt_of_mayHave chunk _ 6 text may fun i bound => ?_
        have low : 6 + i < 20 := by omega
        simp [low, bound]
      · intro same
        refine code (has_of_matchesAt chunk _ 20 _ (by decide) (fun i _ => ?_) same)
        have high : ¬ 20 + i < 20 := by omega
        simp only [high, if_false]
    rcases severity with may | may
    · obtain ⟨earlier, severity, other⟩ := found textFatal may rfl
      exact ⟨earlier, (serverVerdict_isSome chunk message nonempty earlier).mpr
        ⟨kind, .inl severity, other⟩⟩
    · obtain ⟨earlier, severity, other⟩ := found textPanic may rfl
      exact ⟨earlier, (serverVerdict_isSome chunk message nonempty earlier).mpr
        ⟨kind, .inr severity, other⟩⟩

end Verdict

section FatalError

variable (clientFd serverFd : Int)

-- The worker, had an earlier read left other bytes in its buffer.
def Worker.holding (earlier : Nat → UInt8) (w : Worker) : Worker :=
  { w with message := w.message.holding earlier }

-- What a server chunk has to be for its verdict to be right, whatever the buffer held before.
theorem server_chunk_ends_iff (hazards : Hazards) (start w : Worker) (a : Arrival)
    (succeeds : a.Succeeds) (server : a.side = .server) (settled : w.decoder.Settled)
    (alive : w.AliveSince hazards start) (fatal : Prop) :
    let back := ComesBack clientFd hazards .server w.decoder.bytes a.chunk
    (∀ earlier, (((w.holding earlier).handle clientFd serverFd a).EndsWith hazards
        workerServerFatal start ↔ fatal)) ↔
    (fatal ∧ back ∧ SurelyFatal a.chunk) ∨ (¬ fatal ∧ (¬ back ∨ ¬ MaybeFatal a.chunk)) := by
  intro back
  obtain ⟨xs, holds⟩ := settled alive.1.2
  rcases succeeds.1 with ⟨chunk, read, nonempty⟩
  have some_bytes : a.chunk ≠ [] := by rwa [Arrival.chunk, read]
  have surely := surelyFatal_iff a.chunk w.message some_bytes
  have maybe := maybeFatal_iff a.chunk w.message some_bytes
  have ends (earlier : Nat → UInt8) :
      ((w.holding earlier).handle clientFd serverFd a).EndsWith hazards workerServerFatal start ↔
      (serverVerdict (received a.chunk (w.message.holding earlier))).isSome ∧ back := by
    have same : (w.holding earlier).AliveSince hazards start := alive
    have one := handle_endsWith_iff clientFd serverFd start (w.holding earlier) a succeeds xs holds
      same workerServerFatal
    rw [server, ← holds.bytes] at one
    refine one fun msg other judged => ?_
    change (if fatalMessage msg then some workerServerFatal else none) = some other at judged
    split at judged
    · exact (Option.some.inj judged).symm
    · cases judged
  simp only [ends, ← surely, ← maybe]
  by_cases is_fatal : fatal
  · simp only [is_fatal, iff_true, true_and, not_true_eq_false, false_and, or_false]
    constructor
    · intro all
      exact ⟨(all fun _ => 0).2, fun earlier => (all earlier).1⟩
    · intro both earlier
      exact ⟨both.2 earlier, both.1⟩
  · simp only [is_fatal, iff_false, false_and, not_false_eq_true, true_and, false_or, not_exists]
    constructor
    · intro never
      by_cases here : back
      · exact .inr fun earlier judged => never earlier ⟨judged, here⟩
      · exact .inl here
    · rintro (stays | never) earlier ⟨judged, here⟩
      · exact stays here
      · exact never earlier judged

/--
In every run of a worker, each server chunk ends it as fatal exactly when it completes a fatal
ErrorResponse, whatever the buffer held before, if and only if the chunk shows by itself what
the fixed offsets look for.
-/
theorem fatal_errors_iff (hazards : Hazards) (arrivals : List Arrival)
    (succeed : ∀ a ∈ arrivals, a.Succeeds) (start : Worker) (empty : start.decoder.Holds []) :
    (∀ seen a, seen ++ [a] <+: arrivals → a.side = .server →
      (start.run clientFd serverFd seen).AliveSince hazards start → ∀ earlier,
      let after := ((start.run clientFd serverFd seen).holding earlier).handle clientFd serverFd a
      (after.EndsWith hazards workerServerFatal start ↔
        Completes IsFatal (sideStream .server seen) a.chunk)) ↔
    ∀ seen a, seen ++ [a] <+: arrivals → a.side = .server →
      (start.run clientFd serverFd seen).AliveSince hazards start →
      let back := ComesBack clientFd hazards .server
        (start.run clientFd serverFd seen).decoder.bytes a.chunk
      let completes := Completes IsFatal (sideStream .server seen) a.chunk
      (completes ∧ back ∧ SurelyFatal a.chunk) ∨
        (¬ completes ∧ (¬ back ∨ ¬ MaybeFatal a.chunk)) := by
  have step (seen : List Arrival) (a : Arrival) (before : seen ++ [a] <+: arrivals)
      (server : a.side = .server)
      (alive : (start.run clientFd serverFd seen).AliveSince hazards start) :=
    server_chunk_ends_iff clientFd serverFd hazards start (start.run clientFd serverFd seen) a
      (succeed a (before.subset (by simp))) server
      (run_settled clientFd serverFd seen (fun other member => succeed other
        (((List.prefix_append seen [a]).trans before).subset member)) start empty.settled)
      alive (Completes IsFatal (sideStream .server seen) a.chunk)
  constructor
  · intro ends seen a before server alive
    exact (step seen a before server alive).mp (ends seen a before server alive)
  · intro shows seen a before server alive
    exact (step seen a before server alive).mpr (shows seen a before server alive)

end FatalError

def severityField : ErrorField := ⟨83, textFatal, by decide, by decide⟩

def verboseField : ErrorField := ⟨86, textFatal, by decide, by decide⟩

def sqlstateField : ErrorField := ⟨67, [53, 55, 80, 48, 49], by decide, by decide⟩

def shutdownError : TypedFrame :=
  ⟨69, errorBody [severityField, verboseField, sqlstateField], by decide, by decide⟩

theorem isFatal_shutdownError : IsFatal shutdownError :=
  ⟨rfl, [severityField, verboseField, sqlstateField], rfl, .inl (by decide), by decide⟩

theorem completes_shutdownError : Completes IsFatal [] shutdownError.encode :=
  ⟨[], shutdownError, [], by decide, by decide, isFatal_shutdownError⟩

theorem surelyFatal_shutdownError : SurelyFatal shutdownError.encode := by
  refine ⟨rfl, .inl ?_, ?_⟩
  · unfold Has
    decide
  · unfold MayHave
    decide

theorem returns_shutdownError : Returns .server ([] ++ shutdownError.encode) :=
  (returns_splits .server ([shutdownError].flatMap TypedFrame.encode ++ []) [] _
    ⟨cuts_encoded reads_server_typed [shutdownError] [], rfl⟩).mpr id

theorem survived_shutdownError : ReadSurvived 5 .outside .server [] shutdownError.encode := by
  apply readSurvived_one 5 .server _ (by decide) (chunkEvents_unharmed _ _ (by decide))
  rw [unharmed_outside]
  decide

theorem fatal_shutdown :
    ((freshWorker.holding fun _ => 70).handle 5 6 (arrival .server shutdownError.encode)).EndsWith
      .outside workerServerFatal freshWorker := by
  have ends := (fatal_errors_iff 5 6 .outside [arrival .server shutdownError.encode] (by
    intro a member
    rw [List.mem_singleton.mp member]
    exact arrival_succeeds .server _ (by decide)) freshWorker initial_holds).mpr (by
      intro seen a before _ _
      cases seen with
      | nil =>
          cases (List.cons_prefix_cons.mp before).1
          exact .inl ⟨completes_shutdownError, ⟨returns_shutdownError, survived_shutdownError⟩,
            surelyFatal_shutdownError⟩
      | cons first seen =>
          have long := before.length_le
          simp at long)
  exact (ends [] _ (List.prefix_refl _) rfl ⟨⟨rfl, rfl⟩, [], rfl, unharmed_nil⟩ fun _ => 70).mpr
    completes_shutdownError

/-- The same error behind a ReadyForQuery in one chunk goes unnoticed. -/
theorem coalesced_fatal_missed :
    let chunk := TypedFrame.encode ⟨90, [73], by decide, by decide⟩ ++ shutdownError.encode
    let after := freshWorker.run 5 6 [arrival .server chunk]
    Completes IsFatal [] chunk ∧ ¬ (after.running = false ∧ after.exitCode = workerServerFatal) := by
  refine ⟨⟨[⟨90, [73], by decide, by decide⟩], shutdownError, [], by decide, by decide,
    isFatal_shutdownError⟩, by decide⟩

end Pgprtdbg
