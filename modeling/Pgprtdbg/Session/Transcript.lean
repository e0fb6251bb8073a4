import Pgprtdbg.Body.FrontendMessages
import Pgprtdbg.Decode.Hazards

set_option autoImplicit false

namespace Pgprtdbg

open Framing Walk

-- pgprtdbg_log_mem goes over `size` bytes of the memory that it is given, and no others.
def Effect.shown : Effect → Effect
  | .logMem block size => .logMem (block.take size) size
  | effect => effect.printed

-- What a reader of the two files learns of an event.
def Event.shown : Event → Option Event
  | .dataRemove _ _ => none
  | .effect asked => some (.effect asked.shown)
  | event => some event

def transcript (trace : List Event) : List Event := trace.filterMap Event.shown

theorem logMem_shown (heap : Nat → UInt8) (block : List UInt8) (size : Nat) :
    pgprtdbgLogMem heap (block.take size) size = pgprtdbgLogMem heap block size := by
  have same (i : Nat) (before : i ∈ List.range size) :
      (block.take size).getD i (heap i) = block.getD i (heap i) := by
    have inside := List.mem_range.mp before
    simp [List.getD, inside]
  have folds {State : Type} (step : State → UInt8 → State) (start : State) :
      (List.range size).foldl (fun state i => step state ((block.take size).getD i (heap i))) start =
        (List.range size).foldl (fun state i => step state (block.getD i (heap i))) start := by
    apply List.foldl_ext
    intro state i before
    rw [same i before]
  simp only [pgprtdbgLogMem, hexDump, folds]

theorem touchesOther_shown (asked : Effect) :
    (Event.effect asked.shown).touchesOther = (Event.effect asked).touchesOther := by
  cases asked with
  | logMem block size =>
      rw [Bool.eq_iff_iff, ← not_iff_not, Bool.not_eq_true, Bool.not_eq_true]
      change (Event.effect (.logMem (block.take size) size)).touchesOther = false ↔ _
      rw [touchesOther_logMem, touchesOther_logMem, List.length_take]
      omega
  | logLine format args => rfl
  | writeMessage socket bytes => rfl

@[simp] theorem transcript_append (front back : List Event) :
    transcript (front ++ back) = transcript front ++ transcript back := by
  simp [transcript]

@[simp] theorem transcript_chunkEvents (title : String) (msg : Message) :
    transcript (chunkEvents title msg) = chunkEvents title msg := by
  have whole : msg.bytes.take msg.length = msg.bytes := by
    rw [← msg.bytes_length, List.take_length]
  simp [transcript, chunkEvents, Event.shown, Effect.shown, Effect.printed, Arg.printed, whole]

@[simp] theorem transcript_unlock : transcript [.logUnlock] = [.logUnlock] := rfl

theorem transcript_parsed (outcome : Walk.Outcome Effect Halt Unit)
    (returned : outcome.value = .ok ()) :
    transcript (parsed outcome) = (outcome.log.map Effect.shown).map Event.effect := by
  simp [transcript, parsed, returned, List.filterMap_map, Function.comp_def, Event.shown]

-- What a read leaves in the log, from taking the lock to giving it up.
def readLog {Frame : Type} (side : Side) (story : Frame → List Event) (msg : Message)
    (group : List Frame) : List Event :=
  chunkEvents side.title msg ++ group.flatMap story ++ [.logUnlock]

def readsLog {Frame : Type} (side : Side) (story : Frame → List Event) (msgs : List Message)
    (groups : List (List Frame)) : List Event :=
  (List.zipWith (readLog side story) msgs groups).flatten

section Run

variable (clientFd serverFd : Int) (side : Side) {Frame : Type}

/-- What taking a frame off the buffer leaves in the two files, whatever is behind the frame. -/
def Tells (encode : Frame → List UInt8) (story : Frame → List Event) : Prop :=
  ∀ frame rest, transcript (side.events clientFd serverFd (encode frame ++ rest)) = story frame

variable {encode : Frame → List UInt8} {story : Frame → List Event}

theorem tells_frames (tells : Tells clientFd serverFd side encode story) (frames : List Frame)
    (rest : List UInt8) :
    transcript (cutEvents (side.events clientFd serverFd) (frames.map encode) rest) =
      frames.flatMap story := by
  induction frames with
  | nil => rfl
  | cons frame frames ih =>
      simp only [List.map_cons, cutEvents, transcript_append, ih, List.flatMap_cons]
      rw [tells]

theorem call_told (reads : Reads side.next encode)
    (tells : Tells clientFd serverFd side encode story) (msg : Message) (d : Decoder)
    (part left : List UInt8) (done : List Frame) (holds : d.Holds part) (nonempty : 0 < msg.length)
    (cut : part ++ msg.bytes = done.flatMap encode ++ left)
    (waits : side.next left = none ∧ ¬ side.Exits left) :
    (d.call clientFd serverFd ⟨side, msg⟩).Holds left ∧
      transcript (d.call clientFd serverFd ⟨side, msg⟩).trace =
        transcript d.trace ++ readLog side story msg done := by
  have cuts := cuts_encoded reads done left
  rw [← cut] at cuts
  have stop :=
    call_stop clientFd serverFd side msg d part left _ holds nonempty ⟨cuts, waits.1⟩ waits.2
  refine ⟨stop.1, ?_⟩
  simp [stop.2.1, tells_frames clientFd serverFd side tells, readLog]

theorem run_told (reads : Reads side.next encode)
    (tells : Tells clientFd serverFd side encode story) {waits : List UInt8 → Prop}
    (waiting : ∀ left, waits left → side.next left = none ∧ ¬ side.Exits left)
    (msgs : List Message) (nonempty : ∀ msg ∈ msgs, 0 < msg.length) (part tail : List UInt8)
    (groups : List (List Frame))
    (batches : Batches encode waits part (msgs.map Message.bytes) groups tail)
    (d : Decoder) (holds : d.Holds part) :
    (d.calls clientFd serverFd (side.calls msgs)).Holds tail ∧
      transcript (d.calls clientFd serverFd (side.calls msgs)).trace =
        transcript d.trace ++ readsLog side story msgs groups := by
  induction msgs generalizing part groups d with
  | nil =>
      cases batches
      exact ⟨holds, by simp [Side.calls, readsLog]⟩
  | cons msg msgs ih =>
      cases batches with
      | @cons _ left _ _ _ done groups cut waited more =>
        have first := call_told clientFd serverFd side reads tells msg d part left done holds
          (nonempty msg (by simp)) cut (waiting left waited)
        have later := ih (fun other member => nonempty other (List.mem_cons_of_mem msg member))
          left groups more _ first.1
        refine ⟨later.1, later.2.trans ?_⟩
        rw [first.2, List.append_assoc]
        rfl

end Run

section Typed

variable (clientFd serverFd : Int)

def Side.switch : Side → Int8 → Int → Parser Unit
  | .client => clientSwitch
  | .server => serverSwitch

def Side.outputWrite (side : Side) (kind : UInt8) : Event :=
  match side with
  | .client => .outputWrite .client clientFd serverFd kind.toInt8 none
  | .server => .outputWrite .server serverFd clientFd kind.toInt8 none

-- The lines of a message in the log, and the one line that it has in the trace.
def Side.story (side : Side) (kind : UInt8) (lines : List Effect) : List Event :=
  lines.map Event.effect ++ [side.outputWrite clientFd serverFd kind]

/-- The parser of a frame writes these lines, whatever is behind the frame in the buffer. -/
def Logged (side : Side) (frame : TypedFrame) (lines : List Effect) : Prop :=
  ∀ rest, let data := frame.encode ++ rest
    let walked := side.switch frame.kind.toInt8 (declaredLength data) data 0
    walked.value = .ok () ∧ walked.log.map Effect.shown = lines

theorem CString.shown (s : CString) : CText.string s.bytes = s.bytes :=
  CText.string_clean s.bytes s.clean

-- A parser that gets over some front of the frame, and that logs texts without a zero in them.
theorem logged_recovers (side : Side) (frame : TypedFrame) (lines : List Effect)
    (front : List UInt8) (here : front <+: frame.encode) (plain : lines.map Effect.shown = lines)
    (recovers : Recovers (side.switch frame.kind.toInt8 (frame.body.length + 4)) front () lines) :
    Logged side frame lines := by
  intro rest data walked
  have leads := recovers data 0 (here.trans (List.prefix_append _ rest))
  rw [← frame.declared rest] at leads
  refine ⟨leads.returns, ?_⟩
  rw [leads.logged, plain]

theorem walked_typed (side : Side) (frame : TypedFrame) (rest : List UInt8) :
    side.walked clientFd (frame.encode ++ rest) =
      parsed (side.switch frame.kind.toInt8 (declaredLength (frame.encode ++ rest))
        (frame.encode ++ rest) 0) := by
  cases side with
  | client =>
      rw [Side.walked, Side.parser, if_neg (frame.head_ne_zero rest), readByte_encode]
      rfl
  | server =>
      rw [Side.walked, Side.parser, readByte_encode]
      rfl

-- What the parser shows of its dumps tells whether they stay inside.
theorem unharmed_logged {side : Side} {frame : TypedFrame} {lines : List Effect}
    (logged : Logged side frame lines)
    (inside : ∀ line ∈ lines, (Event.effect line).touchesOther = false) (rest : List UInt8) :
    Unharmed .outside (side.walked clientFd (frame.encode ++ rest)) := by
  obtain ⟨returns, shown⟩ := logged rest
  rw [walked_typed]
  refine (parsed_unharmed _).mpr ⟨fun asked member => ?_, fun stop stopped => ?_⟩
  · have line : asked.shown ∈ lines := by
      rw [← shown]
      exact List.mem_map_of_mem member
    have fine := inside _ line
    rw [touchesOther_shown] at fine
    exact Bool.eq_false_iff.mp fine
  · rw [returns] at stopped
    cases stopped

theorem transcript_typedEvents {side : Side} {frame : TypedFrame} {lines : List Effect}
    (logged : Logged side frame lines) (fromFd toFd : Int) (rest : List UInt8) :
    transcript (typedEvents side side.switch fromFd toFd (frame.encode ++ rest)) =
      lines.map Event.effect ++ [.outputWrite side fromFd toFd frame.kind.toInt8 none] := by
  have walked := logged rest
  rw [typedEvents, readByte_encode, transcript_append, transcript_parsed _ walked.1, walked.2]
  rfl

theorem tells_typed {Content : Type} (side : Side) (frame : Content → TypedFrame)
    (lines : Content → List Effect)
    (logged : ∀ content, Logged side (frame content) (lines content)) :
    Tells clientFd serverFd side (fun content => (frame content).encode)
      (fun content => side.story clientFd serverFd (frame content).kind (lines content)) := by
  intro content rest
  cases side with
  | client =>
      change transcript (clientEvents clientFd serverFd _) = _
      rw [clientEvents, if_neg ((frame content).head_ne_zero rest)]
      exact transcript_typedEvents (logged content) clientFd serverFd rest
  | server =>
      change transcript (serverEvents serverFd clientFd _) = _
      rw [serverEvents, if_neg ((frame content).encode_ne_lone rest)]
      exact transcript_typedEvents (logged content) serverFd clientFd rest

end Typed

end Pgprtdbg
