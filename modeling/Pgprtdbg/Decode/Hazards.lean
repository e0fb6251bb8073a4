import Mathlib.Data.List.Induction
import Pgprtdbg.Decode.Logs
import Pgprtdbg.Decode.Reassembly
import Pgprtdbg.Worker.HexDump

set_option autoImplicit false

namespace Pgprtdbg

open Framing MachineInt

section EndlessRow

open Walk

theorem column_goes_on (i : Int) (inside : i ≤ 32767) (data : List UInt8) (offset : Nat)
    (next : Option Int) (ended : (be_DColumn 32767 i data offset).value = .ok next) :
    ∃ more, next = some more ∧ more ≤ 32767 := by
  have wrapped : int16 (i + 1) ≤ 32767 := by
    have bounds := int16_bounds (i + 1)
    omega
  rw [be_DColumn, if_pos inside] at ended
  simp only [bind_eq] at ended
  obtain ⟨size, _, _, ended⟩ := andThen_ok ended
  obtain ⟨_, _, _, ended⟩ := andThen_ok ended
  obtain ⟨_, _, _, ended⟩ := andThen_ok ended
  split_ifs at ended
  · cases ended
  · obtain ⟨_, _, _, ended⟩ := andThen_ok ended
    obtain ⟨_, _, _, ended⟩ := andThen_ok ended
    cases ended
    exact ⟨_, rfl, wrapped⟩
  · obtain ⟨_, _, _, ended⟩ := andThen_ok ended
    cases ended
    exact ⟨_, rfl, wrapped⟩

def fullRow : Effect := .logLine "    Columns: %d" [.int 32767]

theorem logsOnly_other (format : String) (args : List Arg) (other : format ≠ "    Columns: %d") :
    LogsOnly (· ≠ fullRow) (logLine format args) :=
  logsOnly_emit _ fun same => other (Effect.logLine.inj same).1

theorem column_logs (columns i : Int) : LogsOnly (· ≠ fullRow) (be_DColumn columns i) :=
  (built_be_DColumn columns i fun _ _ other same => other (Effect.logLine.inj same).1).logsOnly

-- be_D does not come back from a row of as many columns as an int16_t can count.
theorem fullRow_endless (xs : List UInt8) (full : fullRow ∈ (be_D xs 0).log) :
    ∃ stop, (be_D xs 0).value = .error stop := by
  cases ended : (be_D xs 0).value with
  | error stop => exact ⟨stop, rfl⟩
  | ok _ =>
      exfalso
      simp only [be_D, bind_eq, whileReading] at ended full
      obtain ⟨_, _, ended, full⟩ := andThen_writes (logsOnly_silent fun _ _ => rfl) ended full
      obtain ⟨columns, _, ended, full⟩ :=
        andThen_writes (logsOnly_andThen (by simp) fun _ => by simp) ended full
      obtain ⟨_, _, ended, full⟩ := andThen_writes (logsOnly_other _ _ (by decide)) ended full
      by_cases most : columns = 32767
      · rw [most] at ended
        obtain ⟨_, _, _, ended⟩ := andThen_ok ended
        obtain ⟨block, _, _, ended⟩ := andThen_ok ended
        obtain ⟨stop, endless⟩ := loop_endless (be_DColumn 32767) (· ≤ 32767)
          (fun i inside data offset next => column_goes_on i inside data offset next)
          (block.length + 1) 1 (by decide) xs _
        exact absurd (endless.symm.trans ended) (by simp)
      · have silent : LogsOnly (· ≠ fullRow) (logLine "    Columns: %d" [.int columns]) :=
          logsOnly_emit _ fun same => most (by simpa [fullRow] using same)
        obtain ⟨_, _, ended, full⟩ := andThen_writes silent ended full
        obtain ⟨block, _, _, full⟩ := andThen_writes (by simp) ended full
        exact logsOnly_loop _ _ _ (column_logs columns) _ _ _ full rfl

theorem fullRow_outside (xs : List UInt8) (full : fullRow ∈ (be_D xs 0).log) :
    ∃ stop, (be_D xs 0).value = .error stop ∧ (Event.stopped stop).touchesOther = true := by
  obtain ⟨stop, ended⟩ := fullRow_endless xs full
  refine ⟨stop, ended, ?_⟩
  cases stop with
  | outside => rfl
  | spent => rfl
  | halted reason =>
      obtain ⟨size, rfl⟩ := built_be_D.haltsOnly xs 0 reason ended
      rfl

end EndlessRow

/--
What no process survives, of all that the dumps and the parsers do. Which reads behind the block and
which arrays on the stack these are is up to the machine, so every result here is about any of them.
But the array of a column with a negative size is among them, and so is a row that be_D never gets
to the end of.
-/
structure Hazards where
  effect : Effect → Prop
  stop : Walk.Stop Halt → Prop
  negative (size : Int) : stop (.halted (.array size))
  endless (xs : List UInt8) (full : fullRow ∈ (be_D xs 0).log) :
    (∃ asked ∈ (be_D xs 0).log, effect asked) ∨
      ∃ reason, (be_D xs 0).value = .error reason ∧ stop reason

def Hazards.Spare (hazards : Hazards) : Event → Prop
  | .effect asked => ¬ hazards.effect asked
  | .stopped stop => ¬ hazards.stop stop
  | _ => True

-- Everything is survived that any machine may survive.
def Hazards.least : Hazards where
  effect asked := asked = fullRow
  stop stop := ∃ size, stop = .halted (.array size)
  negative size := ⟨size, rfl⟩
  endless _ full := .inl ⟨fullRow, full, rfl⟩

-- No access to memory outside the block and the arrays is survived.
def Hazards.outside : Hazards where
  effect asked := (Event.effect asked).touchesOther = true
  stop stop := (Event.stopped stop).touchesOther = true
  negative _ := rfl
  endless xs full := .inr (fullRow_outside xs full)

def Unharmed (hazards : Hazards) (events : List Event) : Prop :=
  ∀ event ∈ events, hazards.Spare event

def Decoder.Survives (hazards : Hazards) (start after : Decoder) : Prop :=
  ∃ written, after.trace = start.trace ++ written ∧ Unharmed hazards written

section Unharmed

variable {hazards : Hazards}

@[simp] theorem unharmed_nil : Unharmed hazards [] := by simp [Unharmed]

@[simp] theorem unharmed_append (front back : List Event) :
    Unharmed hazards (front ++ back) ↔ Unharmed hazards front ∧ Unharmed hazards back := by
  simp [Unharmed, or_imp, forall_and]

@[simp] theorem unharmed_unlock : Unharmed hazards [.logUnlock] := by
  simp [Unharmed, Hazards.Spare]

theorem survives_iff {start after : Decoder} {written : List Event}
    (traced : after.trace = start.trace ++ written) :
    start.Survives hazards after ↔ Unharmed hazards written := by
  constructor
  · rintro ⟨others, same, unharmed⟩
    rw [traced, List.append_cancel_left_eq] at same
    rwa [same]
  · exact fun unharmed => ⟨written, traced, unharmed⟩

theorem Decoder.Survives.trans {start middle after : Decoder}
    (first : start.Survives hazards middle) (second : middle.Survives hazards after) :
    start.Survives hazards after := by
  obtain ⟨front, before, fine⟩ := first
  obtain ⟨back, later, still⟩ := second
  refine ⟨front ++ back, ?_, (unharmed_append front back).mpr ⟨fine, still⟩⟩
  rw [later, before, List.append_assoc]

theorem spare_outside (event : Event) :
    Hazards.outside.Spare event ↔ event.touchesOther = false := by
  cases event <;> simp [Hazards.Spare, Hazards.outside]
  all_goals rfl

theorem unharmed_outside (events : List Event) :
    Unharmed .outside events ↔ ∀ event ∈ events, event.touchesOther = false :=
  forall₂_congr fun event _ => spare_outside event

theorem touchesOther_logMem (block : List UInt8) (size : Nat) :
    (Event.effect (.logMem block size)).touchesOther = false ↔
      size ≤ block.length ∧ size ≤ dumpCapacity := by
  have inside := hexDump_inside (fun i => block.getD i 0) size
  rw [← inside, ← Bool.not_eq_true, Event.touchesOther, decide_eq_true_eq, not_or,
    List.any_eq_true, pgprtdbgLogMem]
  simp

theorem chunkEvents_unharmed (title : String) (msg : Message) (small : msg.length ≤ dumpCapacity) :
    Unharmed .outside (chunkEvents title msg) := by
  have dump := (touchesOther_logMem msg.bytes msg.length).mpr ⟨msg.bytes_length.ge, small⟩
  rw [unharmed_outside]
  intro event member
  simp only [chunkEvents, List.mem_cons, List.not_mem_nil, or_false] at member
  rcases member with rfl | rfl | rfl | rfl
  · rfl
  · rfl
  · rfl
  · exact dump

theorem parsed_unharmed (outcome : Walk.Outcome Effect Halt Unit) :
    Unharmed hazards (parsed outcome) ↔
      (∀ effect ∈ outcome.log, ¬ hazards.effect effect) ∧
        ∀ stop, outcome.value = .error stop → ¬ hazards.stop stop := by
  unfold parsed
  rw [unharmed_append]
  apply and_congr
  · simp [Unharmed, Hazards.Spare]
  · cases outcome.value <;> simp [Unharmed, Hazards.Spare]

-- A parser that returns and dumps nothing reads only what is there.
theorem unharmed_quiet {parser : Parser Unit} (quiet : Walk.LogsOnly Quiet parser)
    (xs : List UInt8) (returns : (parser xs 0).value = .ok ()) :
    Unharmed .outside (parsed (parser xs 0)) := by
  refine (parsed_unharmed _).mpr ⟨fun effect logged => ?_, fun stop stopped => ?_⟩
  · cases effect with
    | logMem block size => exact absurd rfl (quiet xs 0 _ logged block size)
    | logLine format args => simp [Hazards.outside, Event.touchesOther]
    | writeMessage socket bytes => simp [Hazards.outside, Event.touchesOther]
  · rw [returns] at stopped
    cases stopped

end Unharmed

section Run

variable (clientFd serverFd : Int) {hazards : Hazards}

theorem survives_of_calls (start : Decoder) (settled : start.Settled) (front back : List Call)
    (nonempty : ∀ c ∈ front ++ back, 0 < c.msg.length)
    (survives : start.Survives hazards (start.calls clientFd serverFd (front ++ back))) :
    start.Survives hazards (start.calls clientFd serverFd front) := by
  obtain ⟨still, written, traced⟩ := calls_settled clientFd serverFd front start settled
    fun c member => nonempty c (List.mem_append_left _ member)
  obtain ⟨_, more, later⟩ := calls_settled clientFd serverFd back _ still
    fun c member => nonempty c (List.mem_append_right _ member)
  rw [traced, List.append_assoc, ← Decoder.calls_append] at later
  rw [survives_iff later, unharmed_append] at survives
  exact (survives_iff traced).mpr survives.1

def Side.parser (xs : List UInt8) : Side → Parser Unit
  | .client =>
      if xs.getD 0 0 = 0 then fe_zero clientFd (pgprtdbgReadInt32 xs)
      else clientSwitch (pgprtdbgReadByte xs) (declaredLength xs)
  | .server => serverSwitch (pgprtdbgReadByte xs) (declaredLength xs)

def Side.walked (side : Side) (xs : List UInt8) : List Event :=
  parsed (side.parser clientFd xs xs 0)

variable (side : Side) {Frame : Type} {encode : Frame → List UInt8}

/-- The process survives each read: the dump of it, and the parser of every frame it completes. -/
def ReadsSurvived (hazards : Hazards) (encode : Frame → List UInt8) (frames : List Frame)
    (msgs : List Message) : Prop :=
  ∀ seen msg, seen ++ [msg] <+: msgs → Unharmed hazards (chunkEvents side.title msg) ∧
    ∀ frame behind, Arrives encode frames (stream seen) msg.bytes frame behind →
      Unharmed hazards (side.walked clientFd (encode frame ++ behind))

-- Apart from its parser, taking a frame off harms nothing.
theorem unharmed_events (xs : List UInt8) :
    Unharmed hazards (side.events clientFd serverFd xs) ↔
      Unharmed hazards (side.walked clientFd xs) := by
  have typed (fromFd toFd : Int) (kind : Int8) (size removed : Nat) :
      Unharmed hazards [.outputWrite side fromFd toFd kind none, .dataRemove size removed] := by
    simp [Unharmed, Hazards.Spare]
  have other (size removed : Nat) : Unharmed hazards [.dataRemove size removed] := by
    simp [Unharmed, Hazards.Spare]
  cases side with
  | client =>
      change Unharmed hazards (clientEvents clientFd serverFd xs) ↔ _
      unfold clientEvents Side.walked Side.parser
      dsimp only
      split_ifs
      · rw [untypedEvents, unharmed_append]
        exact and_iff_left (other _ _)
      · rw [typedEvents, unharmed_append]
        exact and_iff_left (typed _ _ _ _ _)
  | server =>
      change Unharmed hazards (serverEvents serverFd clientFd xs) ↔ _
      unfold serverEvents
      split_ifs with lone
      · rw [lone, unharmed_append]
        exact and_iff_left (other _ _)
      · rw [typedEvents, unharmed_append]
        exact and_iff_left (typed _ _ _ _ _)

theorem unharmed_cutEvents (frames : List Frame) (left : List UInt8) :
    Unharmed hazards (cutEvents (side.events clientFd serverFd) (frames.map encode) left) ↔
      ∀ earlier frame rest, frames = earlier ++ frame :: rest →
        Unharmed hazards (side.walked clientFd (encode frame ++ (rest.flatMap encode ++ left))) := by
  induction frames with
  | nil => simp [cutEvents]
  | cons first frames ih =>
      have flat : (frames.map encode).flatten = frames.flatMap encode := rfl
      rw [List.map_cons, cutEvents, unharmed_append, ih, flat, unharmed_events]
      constructor
      · rintro ⟨here, later⟩ earlier frame rest split
        cases earlier with
        | nil =>
            obtain ⟨rfl, rfl⟩ := List.cons.inj split
            exact here
        | cons other earlier => exact later earlier frame rest (List.cons.inj split).2
      · intro all
        refine ⟨all [] first frames rfl, fun earlier frame rest split => ?_⟩
        exact all (first :: earlier) frame rest (by rw [split, List.cons_append])

structure Reached (encode : Frame → List UInt8) (hazards : Hazards) (frames : List Frame)
    (tail : List UInt8) (start : Decoder) (seen : List Message) (done more : List Frame)
    (left back : List UInt8) : Prop where
  breaks : Breaks encode frames tail (stream seen) done more left back
  holds : (start.calls clientFd serverFd (side.calls seen)).Holds left
  written : ∃ written,
    (start.calls clientFd serverFd (side.calls seen)).trace = start.trace ++ written ∧
      (Unharmed hazards written ↔ ReadsSurvived clientFd side hazards encode frames seen)

theorem readsSurvived_snoc (frames : List Frame) (seen : List Message) (msg : Message) :
    ReadsSurvived clientFd side hazards encode frames (seen ++ [msg]) ↔
      ReadsSurvived clientFd side hazards encode frames seen ∧
        Unharmed hazards (chunkEvents side.title msg) ∧
          ∀ frame behind, Arrives encode frames (stream seen) msg.bytes frame behind →
            Unharmed hazards (side.walked clientFd (encode frame ++ behind)) := by
  constructor
  · intro all
    exact ⟨fun earlier other before => all earlier other (before.trans (List.prefix_append _ _)),
      all seen msg List.prefix_rfl⟩
  · rintro ⟨earlier, last⟩ front other before
    rcases List.prefix_concat_iff.mp before with same | within
    · obtain ⟨rfl, one⟩ := List.append_inj' same rfl
      obtain ⟨rfl, _⟩ := List.cons.inj one
      exact last
    · exact earlier front other within

theorem reached_step (reads : Reads side.next encode)
    (frames : List Frame)
    (tail : List UInt8) (start : Decoder) (seen : List Message) (msg : Message) (later : List Message)
    (nonempty : 0 < msg.length) (done more : List Frame) (left : List UInt8)
    (reached : Reached clientFd serverFd side encode hazards frames tail start seen done more
      left (stream (msg :: later)))
    (waits : ∀ done more left back,
      Breaks encode frames tail (stream (seen ++ [msg])) done more left back →
      side.next left = none ∧ ¬ side.Exits left) :
    ∃ done more left, Reached clientFd serverFd side encode hazards frames tail start
      (seen ++ [msg]) done more left (stream later) := by
  have back : left ++ msg.bytes ++ stream later = more.flatMap encode ++ tail := by
    rw [List.append_assoc, ← stream_cons, reached.breaks.back]
  obtain ⟨further, final, piece, next⟩ :=
    break_encoded encode more tail (left ++ msg.bytes) (stream later) back
  have joined := reached.breaks.trans next
  have whole : stream seen ++ msg.bytes = stream (seen ++ [msg]) := by simp [stream]
  rw [whole] at joined
  obtain ⟨waiting, stays⟩ := waits _ _ _ _ joined
  have cuts := cuts_encoded reads further piece
  rw [← next.front] at cuts
  have stop := call_stop clientFd serverFd side msg _ left piece _ reached.holds nonempty
    ⟨cuts, waiting⟩ stays
  have last : start.calls clientFd serverFd (side.calls (seen ++ [msg])) =
      (start.calls clientFd serverFd (side.calls seen)).call clientFd serverFd ⟨side, msg⟩ := by
    simp [Side.calls]
  refine ⟨done ++ further, final, piece, joined, ?_, ?_⟩
  · rw [last]
    exact stop.1
  · obtain ⟨written, before, unharmed⟩ := reached.written
    have after := stop.2.1
    rw [before] at after
    refine ⟨written ++ (chunkEvents side.title msg ++
      cutEvents (side.events clientFd serverFd) (further.map encode) piece ++ [.logUnlock]), ?_, ?_⟩
    · rw [last, after]
      simp only [List.append_assoc]
    · rw [readsSurvived_snoc]
      simp only [unharmed_append, unharmed_unlock, and_true, unharmed,
        unharmed_cutEvents, reached.breaks.arrives_iff next]
      apply and_congr_right
      intro _
      apply and_congr_right
      intro _
      constructor
      · rintro all frame _ ⟨earlier, rest, split, rfl⟩
        exact all earlier frame rest split
      · intro all earlier frame rest split
        exact all frame _ ⟨earlier, rest, split, rfl⟩

theorem run_reached (reads : Reads side.next encode)
    (frames : List Frame)
    (tail : List UInt8) (start : Decoder) (empty : start.Holds []) (seen later : List Message)
    (nonempty : ∀ msg ∈ seen, 0 < msg.length)
    (cut : stream (seen ++ later) = frames.flatMap encode ++ tail)
    (waits : ∀ front done more left back, front <+: seen →
      Breaks encode frames tail (stream front) done more left back →
      side.next left = none ∧ ¬ side.Exits left) :
    ∃ done more left, Reached clientFd serverFd side encode hazards frames tail start seen
      done more left (stream later) := by
  induction seen using List.reverseRecOn generalizing later with
  | nil =>
      refine ⟨[], frames, [], ⟨rfl, rfl, cut, ?_⟩, empty, [], by simp [Side.calls], ?_⟩
      · intro frame rest _
        exact ⟨encode frame, (reads frame []).2, rfl⟩
      · simp [ReadsSurvived]
  | append_singleton seen msg ih =>
      have whole : stream (seen ++ msg :: later) = frames.flatMap encode ++ tail := by
        rw [← cut, List.append_assoc, List.singleton_append]
      obtain ⟨done, more, left, reached⟩ := ih (msg :: later)
        (fun other member => nonempty other (List.mem_append_left _ member)) whole
        fun front done more left back before =>
          waits front done more left back (before.trans (List.prefix_append _ _))
      exact reached_step clientFd serverFd side reads frames tail start seen msg later
        (nonempty msg (by simp)) done more left reached fun done more left back =>
          waits _ done more left back List.prefix_rfl

-- Reads that are not too long, of frames whose parsers get by with what has come by then.
theorem readsSurvived_of_frames (frames : List Frame) (msgs : List Message)
    (small : ∀ msg ∈ msgs, msg.length ≤ dumpCapacity)
    (fine : ∀ frame ∈ frames, ∀ earlier behind : List UInt8,
      earlier ++ (encode frame ++ behind) <+: stream msgs →
      Unharmed .outside (side.walked clientFd (encode frame ++ behind))) :
    ReadsSurvived clientFd side .outside encode frames msgs := by
  rintro seen msg ⟨later, rfl⟩
  refine ⟨chunkEvents_unharmed _ msg (small msg (by simp)), ?_⟩
  rintro frame behind ⟨earlier, rest, split, whole, _⟩
  refine fine frame (by simp [split]) (earlier.flatMap encode) behind ?_
  rw [← whole]
  exact ⟨stream later, by simp [stream]⟩

-- Where every part of a frame is waited for, a run is survived when each of its reads is.
theorem run_survives_iff (reads : Reads side.next encode)
    (frames : List Frame)
    (tail : List UInt8) (start : Decoder) (empty : start.Holds []) (msgs : List Message)
    (nonempty : ∀ msg ∈ msgs, 0 < msg.length)
    (cut : stream msgs = frames.flatMap encode ++ tail)
    (waits : ∀ seen done more left back, seen <+: msgs →
      Breaks encode frames tail (stream seen) done more left back →
      side.next left = none ∧ ¬ side.Exits left) :
    start.Survives hazards (start.calls clientFd serverFd (side.calls msgs)) ↔
      ReadsSurvived clientFd side hazards encode frames msgs := by
  obtain ⟨_, _, _, reached⟩ := run_reached clientFd serverFd side reads frames tail start
    empty msgs [] nonempty (by rwa [List.append_nil]) waits
  obtain ⟨written, traced, unharmed⟩ := reached.written
  rw [survives_iff traced, unharmed]

end Run

end Pgprtdbg
