import Pgprtdbg.Decode.Calls

set_option autoImplicit false

namespace Pgprtdbg

open Framing

def stream (msgs : List Message) : List UInt8 := msgs.flatMap Message.bytes

def Side.calls (side : Side) (msgs : List Message) : List Call := msgs.map (Call.mk side)

-- The line a typed frame is owed.
def Side.line (clientFd serverFd : Int) (side : Side) (frame : TypedFrame) : Output :=
  match side with
  | .client => ⟨.client, clientFd, serverFd, frame.kind.toInt8, none⟩
  | .server => ⟨.server, serverFd, clientFd, frame.kind.toInt8, none⟩

theorem stream_cons (msg : Message) (msgs : List Message) :
    stream (msg :: msgs) = msg.bytes ++ stream msgs := rfl

/-- Something to look for in a trace that the log and its lock have no part in. -/
structure View (Sight : Type) where
  sees : Event → Option Sight
  logLock : sees .logLock = none
  logUnlock : sees .logUnlock = none
  effect : ∀ effect, sees (.effect effect) = none
  stopped : ∀ stop, sees (.stopped stop) = none

def View.look {Sight : Type} (view : View Sight) (trace : List Event) : List Sight :=
  trace.filterMap view.sees

section View

variable {Sight : Type} (view : View Sight)

@[simp] theorem View.look_append (front back : List Event) :
    view.look (front ++ back) = view.look front ++ view.look back := by
  simp [View.look]

@[simp] theorem View.look_parsed (outcome : Walk.Outcome Effect Halt Unit) :
    view.look (parsed outcome) = [] := by
  unfold parsed View.look
  cases outcome.value <;> simp [view.effect, view.stopped]

@[simp] theorem View.look_chunkEvents (title : String) (msg : Message) :
    view.look (chunkEvents title msg) = [] := by
  simp [chunkEvents, View.look, view.effect, view.logLock]

@[simp] theorem View.look_unlock : view.look [.logUnlock] = [] := by
  simp [View.look, view.logUnlock]

end View

def View.lines : View Output where
  sees := Event.output
  logLock := rfl
  logUnlock := rfl
  effect _ := rfl
  stopped _ := rfl

section Run

variable (clientFd serverFd : Int) (side : Side) {Frame Sight : Type}

/-- Cutting a frame of the stream shows the same whatever comes after the frame. -/
def Shows (encode : Frame → List UInt8) (view : View Sight) (shown : Frame → List Sight) : Prop :=
  ∀ frame rest, view.look (side.events clientFd serverFd (encode frame ++ rest)) = shown frame

theorem shows_frames {encode : Frame → List UInt8} {view : View Sight} {shown : Frame → List Sight}
    (shows : Shows clientFd serverFd side encode view shown) (frames : List Frame)
    (rest : List UInt8) :
    view.look (cutEvents (side.events clientFd serverFd) (frames.map encode) rest) =
      frames.flatMap shown := by
  induction frames with
  | nil => rfl
  | cons frame frames ih =>
      simp only [List.map_cons, cutEvents, View.look_append, ih, List.flatMap_cons]
      rw [shows]

theorem call_reassembles {encode : Frame → List UInt8} (reads : Reads side.next encode)
    {view : View Sight} {shown : Frame → List Sight}
    (shows : Shows clientFd serverFd side encode view shown)
    (msg : Message) (d : Decoder) (part left : List UInt8) (done : List Frame)
    (holds : d.Holds part) (nonempty : 0 < msg.length)
    (cut : part ++ msg.bytes = done.flatMap encode ++ left)
    (waits : side.next left = none) (stays : ¬ side.Exits left) :
    (d.call clientFd serverFd ⟨side, msg⟩).Holds left ∧
      view.look (d.call clientFd serverFd ⟨side, msg⟩).trace =
        view.look d.trace ++ done.flatMap shown := by
  have cuts := cuts_encoded reads done left
  rw [← cut] at cuts
  have stop := call_stop clientFd serverFd side msg d part left _ holds nonempty ⟨cuts, waits⟩ stays
  refine ⟨stop.1, ?_⟩
  simp [stop.2.1, shows_frames clientFd serverFd side shows]

/--
A run of calls on a stream of frames. As long as every part that a boundary leaves is waited
for, what the run shows is what its frames show, and the tail is what the buffer holds.
-/
theorem run_reassembles {encode : Frame → List UInt8} (reads : Reads side.next encode)
    {view : View Sight} {shown : Frame → List Sight}
    (shows : Shows clientFd serverFd side encode view shown)
    (msgs : List Message) (nonempty : ∀ msg ∈ msgs, 0 < msg.length)
    (frames : List Frame) (tail part : List UInt8) (d : Decoder) (holds : d.Holds part)
    (waiting : side.next part = none)
    (cut : part ++ stream msgs = frames.flatMap encode ++ tail)
    (waits : ∀ seen done more left back, seen <+: msgs →
      Breaks encode frames tail (part ++ stream seen) done more left back →
      side.next left = none ∧ ¬ side.Exits left) :
    (d.calls clientFd serverFd (side.calls msgs)).Holds tail ∧
      view.look (d.calls clientFd serverFd (side.calls msgs)).trace =
        view.look d.trace ++ frames.flatMap shown := by
  induction msgs generalizing d part frames with
  | nil =>
      cases frames with
      | nil =>
          have same : part = tail := by simpa [stream] using cut
          rw [← same]
          exact ⟨holds, by simp [Side.calls]⟩
      | cons frame frames =>
          have head := (reads frame (frames.flatMap encode ++ tail)).1
          have whole : part = encode frame ++ (frames.flatMap encode ++ tail) := by
            simpa [stream] using cut
          rw [← whole, waiting] at head
          exact absurd head (by simp)
  | cons msg msgs ih =>
      rw [stream_cons, ← List.append_assoc] at cut
      obtain ⟨done, more, left, breaks⟩ :=
        break_encoded encode frames tail (part ++ msg.bytes) (stream msgs) cut
      have one : part ++ stream [msg] = part ++ msg.bytes := by simp [stream]
      have parted := waits [msg] done more left (stream msgs) (by simp) (by rw [one]; exact breaks)
      rcases call_reassembles clientFd serverFd side reads shows msg d part left done holds
        (nonempty msg (by simp)) breaks.front parted.1 parted.2 with ⟨held, shown_here⟩
      have later := ih (fun other member => nonempty other (List.mem_cons_of_mem msg member))
        more left (d.call clientFd serverFd ⟨side, msg⟩) held parted.1 breaks.back ?_
      · rw [Side.calls, List.map_cons, Decoder.calls_cons]
        refine ⟨later.1, later.2.trans ?_⟩
        rw [shown_here, breaks.frames, List.flatMap_append, List.append_assoc]
      · intro seen further final piece back before split
        have prefixed : msg :: seen <+: msg :: msgs := (List.prefix_cons_inj msg).mpr before
        have joined := breaks.trans split
        rw [List.append_assoc, ← stream_cons] at joined
        exact waits (msg :: seen) _ _ _ _ prefixed joined

end Run

theorem readByte_encode (frame : TypedFrame) (rest : List UInt8) :
    pgprtdbgReadByte (frame.encode ++ rest) = frame.kind.toInt8 := rfl

theorem look_typedEvents {Sight : Type} (view : View Sight) (id : Side)
    (switch : Int8 → Int → Parser Unit) (fromFd toFd : Int) (frame : TypedFrame) (rest : List UInt8) :
    view.look (typedEvents id switch fromFd toFd (frame.encode ++ rest)) =
      view.look [.outputWrite id fromFd toFd frame.kind.toInt8 none,
        .dataRemove (frame.encode ++ rest).length frame.encode.length] := by
  simp only [typedEvents, frame.frameSize, readByte_encode, View.look_append, View.look_parsed,
    List.nil_append]

theorem shows_lines (clientFd serverFd : Int) (side : Side) :
    Shows clientFd serverFd side TypedFrame.encode View.lines
      fun frame => [side.line clientFd serverFd frame] := by
  intro frame rest
  cases side with
  | client =>
      change View.lines.look (clientEvents clientFd serverFd (frame.encode ++ rest)) = _
      rw [clientEvents, if_neg (frame.head_ne_zero rest), look_typedEvents]
      rfl
  | server =>
      change View.lines.look (serverEvents serverFd clientFd (frame.encode ++ rest)) = _
      rw [serverEvents, if_neg (frame.encode_ne_lone rest), look_typedEvents]
      rfl

end Pgprtdbg
