import Mathlib.Data.List.Induction
import Pgprtdbg.Decode.Locality

set_option autoImplicit false

namespace Pgprtdbg

open Framing

-- The frame at the head of a buffer, apart from the answer to an SSLRequest.
def Side.raw : Side → List UInt8 → Option Nat
  | .client => clientNext
  | .server => typedNext

/-- Cutting the stream does not come to a lone 'N' from the server. -/
def Side.Apart (side : Side) (xs : List UInt8) : Prop :=
  side = .server → ∀ frames, ¬ Cuts typedNext xs frames [78]

-- The lines that are written for a frame, by the byte at its head.
def Side.headLines (clientFd serverFd : Int) (side : Side) (frame : List UInt8) : List Output :=
  if frame.getD 0 0 = 0 then []
  else
    match side with
    | .client => [⟨.client, clientFd, serverFd, (frame.getD 0 0).toInt8, none⟩]
    | .server => [⟨.server, serverFd, clientFd, (frame.getD 0 0).toInt8, none⟩]

section Stable

theorem head_append (xs ys : List UInt8) (some_bytes : xs ≠ []) :
    (xs ++ ys).getD 0 0 = xs.getD 0 0 := by
  cases xs with
  | nil => exact absurd rfl some_bytes
  | cons byte xs => rfl

theorem typedNext_append (xs ys : List UInt8) (size : Nat) (head : typedNext xs = some size) :
    typedNext (xs ++ ys) = some size := by
  obtain ⟨typed, long, same, whole⟩ := typedNext_some xs size head
  have nonempty : xs ≠ [] := List.ne_nil_of_length_pos (by omega)
  have length : declaredLength (xs ++ ys) = declaredLength xs := by
    rw [declaredLength, declaredLength, List.drop_append_of_le_length (by omega),
      readInt32_append _ _ (by rw [List.length_drop]; omega)]
  have room : frameSize (declaredLength xs) ≤ (xs ++ ys).length := by
    rw [List.length_append]
    omega
  have longer : 5 ≤ (xs ++ ys).length := by
    rw [List.length_append]
    omega
  rw [typedNext, length, head_append xs ys nonempty, if_pos ⟨typed, longer, room⟩, same]

theorem requestOf_append (xs ys : List UInt8) (long : 8 ≤ xs.length) :
    requestOf (xs ++ ys) = requestOf xs := by
  rw [requestOf, requestOf, List.drop_append_of_le_length (by omega),
    readInt32_append _ _ (by rw [List.length_drop]; omega)]

-- Once a frame can be cut off, more bytes behind it change nothing about it.
theorem raw_append (side : Side) (xs ys : List UInt8) (size : Nat)
    (head : side.raw xs = some size) : side.raw (xs ++ ys) = some size := by
  cases side with
  | server => exact typedNext_append xs ys size head
  | client =>
      change clientNext xs = some size at head
      change clientNext (xs ++ ys) = some size
      have nonempty : xs ≠ [] := by
        intro empty
        rw [empty] at head
        simp [clientNext] at head
      by_cases untyped : xs.getD 0 0 = 0
      · obtain ⟨long, known, same⟩ := clientNext_untyped xs size untyped head
        have longer : 8 ≤ (xs ++ ys).length := by
          rw [List.length_append]
          omega
        have known' : KnownRequest (requestOf (xs ++ ys)) := by
          rwa [requestOf_append xs ys long]
        rw [clientNext, head_append xs ys nonempty, if_pos untyped, if_pos ⟨longer, known'⟩,
          readInt32_append xs ys (by omega), same]
      · rw [clientNext_typed xs untyped] at head
        rw [clientNext_typed _ (by rwa [head_append xs ys nonempty])]
        exact typedNext_append xs ys size head

theorem typedNext_declared (xs ys : List UInt8) (size : Nat) (head : typedNext xs = some size) :
    declaredLength (xs ++ ys) = declaredLength xs := by
  obtain ⟨_, long, _, _⟩ := typedNext_some xs size head
  rw [declaredLength, declaredLength, List.drop_append_of_le_length (by omega),
    readInt32_append _ _ (by rw [List.length_drop]; omega)]

-- A parser that gets by with the bytes that are there does so when there are more.
theorem walked_grows (clientFd : Int) (side : Side) (xs ys : List UInt8) (size : Nat)
    (head : side.raw xs = some size) (unharmed : Unharmed .outside (side.walked clientFd xs)) :
    Unharmed .outside (side.walked clientFd (xs ++ ys)) := by
  have nonempty : xs ≠ [] := by
    rintro rfl
    cases side <;> simp [Side.raw, clientNext, typedNext] at head
  have first := head_append xs ys nonempty
  have kind : pgprtdbgReadByte (xs ++ ys) = pgprtdbgReadByte xs := by
    rw [pgprtdbgReadByte, pgprtdbgReadByte, first]
  unfold Side.walked Side.parser at unharmed ⊢
  cases side with
  | server =>
      have declared := typedNext_declared xs ys size head
      dsimp only at unharmed ⊢
      rw [kind, declared]
      exact unharmed_local (built_serverSwitch _ _).isLocal xs ys unharmed
  | client =>
      change clientNext xs = some size at head
      dsimp only at unharmed ⊢
      rw [first]
      by_cases untyped : xs.getD 0 0 = 0
      · have long := (clientNext_untyped xs size untyped head).1
        rw [if_pos untyped] at unharmed ⊢
        rw [readInt32_append xs ys (by omega)]
        exact unharmed_local (built_fe_zero clientFd _).isLocal xs ys unharmed
      · rw [clientNext_typed xs untyped] at head
        rw [if_neg untyped] at unharmed ⊢
        rw [kind, typedNext_declared xs ys size head]
        exact clientSwitch_grows _ _ xs ys unharmed

theorem cutEvents_append (events : List UInt8 → List Event) (frames others : List (List UInt8))
    (rest : List UInt8) :
    cutEvents events (frames ++ others) rest =
      cutEvents events frames (others.flatten ++ rest) ++ cutEvents events others rest := by
  induction frames with
  | nil => rfl
  | cons frame frames ih =>
      simp only [List.cons_append, cutEvents, ih, List.flatten_append, List.append_assoc]

theorem cut_grows (clientFd serverFd : Int) (side : Side) (xs left ys : List UInt8)
    (frames : List (List UInt8)) (cuts : Cuts side.raw xs frames left)
    (unharmed : Unharmed .outside (cutEvents (side.events clientFd serverFd) frames left)) :
    Unharmed .outside (cutEvents (side.events clientFd serverFd) frames (left ++ ys)) := by
  induction cuts with
  | nil xs => exact unharmed_nil
  | @cons xs left frames size head positive whole more ih =>
      have joined : xs.take size ++ (frames.flatten ++ left) = xs := by
        rw [more.flatten, List.take_append_drop]
      rw [cutEvents, unharmed_append, joined, unharmed_events] at unharmed
      have grown : xs.take size ++ (frames.flatten ++ (left ++ ys)) = xs ++ ys := by
        have longer := congrArg (· ++ ys) joined
        simpa only [List.append_assoc] using longer
      rw [cutEvents, unharmed_append, grown, unharmed_events]
      exact ⟨walked_grows clientFd side xs ys size head unharmed.1, ih unharmed.2⟩

end Stable

section Apart

variable {side : Side} {xs left : List UInt8} {frames : List (List UInt8)}

theorem Side.Apart.next (apart : side.Apart xs) : side.next xs = side.raw xs := by
  cases side with
  | client => rfl
  | server =>
      have other : xs ≠ [78] := by
        intro lone
        subst lone
        exact apart rfl [] (.nil [78])
      exact serverNext_eq xs other

theorem Side.Apart.after (apart : side.Apart xs) (cuts : Cuts side.raw xs frames left) :
    side.Apart left := by
  intro server more lone
  subst server
  exact apart rfl (frames ++ more) (cuts.trans lone)

theorem Side.Apart.cuts_raw (apart : side.Apart xs) (cuts : Cuts side.next xs frames left) :
    Cuts side.raw xs frames left := by
  induction cuts with
  | nil xs => exact .nil xs
  | cons head positive whole more ih =>
      rw [apart.next] at head
      exact .cons head positive whole (ih (apart.after (.cons head positive whole (.nil _))))

theorem Side.Apart.cuts_next (apart : side.Apart xs) (cuts : Cuts side.raw xs frames left) :
    Cuts side.next xs frames left := by
  induction cuts with
  | nil xs => exact .nil xs
  | cons head positive whole more ih =>
      have here := apart.next.trans head
      exact .cons here positive whole (ih (apart.after (.cons head positive whole (.nil _))))

variable (clientFd serverFd : Int)

theorem outputs_head (apart : side.Apart xs) (size : Nat) (head : side.raw xs = some size)
    (positive : 0 < size) :
    outputs (side.events clientFd serverFd xs) =
      side.headLines clientFd serverFd (xs.take size) := by
  have same : (xs.take size).getD 0 0 = xs.getD 0 0 := by
    simp [List.getD, positive]
  cases side with
  | client =>
      rw [Side.headLines, same]
      change outputs (clientEvents clientFd serverFd xs) = _
      by_cases untyped : xs.getD 0 0 = 0
      · rw [clientEvents, if_pos untyped, if_pos untyped, untypedEvents, outputs_append, outputs_parsed]
        rfl
      · rw [clientEvents, if_neg untyped, if_neg untyped, typedEvents, outputs_append, outputs_parsed]
        rfl
  | server =>
      rw [Side.headLines, same]
      have typed := (typedNext_some xs size head).1
      have other : xs ≠ [78] := by
        intro lone
        subst lone
        exact apart rfl [] (.nil [78])
      change outputs (serverEvents serverFd clientFd xs) = _
      rw [serverEvents, if_neg other, if_neg typed, typedEvents, outputs_append, outputs_parsed]
      rfl

theorem outputs_cut (apart : side.Apart xs) (cuts : Cuts side.raw xs frames left) :
    outputs (cutEvents (side.events clientFd serverFd) frames left) =
      frames.flatMap (side.headLines clientFd serverFd) := by
  induction cuts with
  | nil xs => rfl
  | @cons xs left frames size head positive whole more ih =>
      have later := ih (apart.after (.cons head positive whole (.nil _)))
      rw [cutEvents, more.flatten, List.take_append_drop, outputs_append, later,
        outputs_head clientFd serverFd apart size head positive, List.flatMap_cons]

end Apart

section Run

variable (clientFd serverFd : Int) (side : Side)

theorem outputs_chunkEvents (title : String) (msg : Message) : outputs (chunkEvents title msg) = [] :=
  rfl

-- What the process is left with after a stream, and what it has written for it.
structure Framed (start d : Decoder) (xs : List UInt8) : Prop where
  splits : ∃ frames left, Splits side.raw xs frames left ∧ ¬ side.Exits left ∧ d.Holds left ∧
    outputs d.trace = outputs start.trace ++ frames.flatMap (side.headLines clientFd serverFd) ∧
    (start.Survives .outside d →
      Unharmed .outside (cutEvents (side.events clientFd serverFd) frames left))
  written : ∃ written, d.trace = start.trace ++ written

theorem call_framed (start d : Decoder) (msg : Message) (xs : List UInt8)
    (framed : Framed clientFd serverFd side start d xs) (nonempty : 0 < msg.length)
    (apart : side.Apart (xs ++ msg.bytes))
    (survives : (d.call clientFd serverFd ⟨side, msg⟩).status = .running) :
    Framed clientFd serverFd side start (d.call clientFd serverFd ⟨side, msg⟩)
      (xs ++ msg.bytes) := by
  obtain ⟨before, part, split, _, holds, written, unharmed⟩ := framed.splits
  obtain ⟨earlier, traced⟩ := framed.written
  have front : Cuts side.raw (xs ++ msg.bytes) before (part ++ msg.bytes) :=
    split.1.append msg.bytes fun zs size head _ => raw_append side zs msg.bytes size head
  have here := apart.after front
  obtain ⟨frames, left, _, final, cuts, ending, _, outcome⟩ :=
    call_outcome clientFd serverFd side msg part nonempty
  have running : final = .running := (outcome d holds).1.symm.trans survives
  obtain ⟨waits, stays⟩ := ending.mp running
  have back := here.cuts_raw cuts
  have stop := call_stop clientFd serverFd side msg d part left frames holds nonempty
    ⟨cuts, waits⟩ stays
  have after := stop.2.1
  rw [traced, List.append_assoc, List.append_assoc, List.append_assoc] at after
  refine ⟨⟨before ++ frames, left, ⟨front.trans back, ?_⟩, stays, stop.1, ?_, ?_⟩, _, after⟩
  · rw [← (here.after back).next, waits]
  · rw [stop.2.1, outputs_append, outputs_append, outputs_append, outputs_chunkEvents,
      outputs_cut clientFd serverFd here back, written, List.flatMap_append]
    simp [outputs, Event.output]
  · rw [survives_iff traced] at unharmed
    rw [survives_iff after, unharmed_append, unharmed_append, unharmed_append]
    rintro ⟨first, _, second, _⟩
    rw [cutEvents_append, unharmed_append, back.flatten]
    exact ⟨cut_grows clientFd serverFd side xs part msg.bytes before split.1 (unharmed first), second⟩

theorem calls_framed (start : Decoder) (holds : start.Holds []) (msgs : List Message)
    (nonempty : ∀ msg ∈ msgs, 0 < msg.length)
    (apart : ∀ seen, seen <+: msgs → side.Apart (stream seen))
    (survives : (start.calls clientFd serverFd (side.calls msgs)).status = .running) :
    Framed clientFd serverFd side start (start.calls clientFd serverFd (side.calls msgs))
      (stream msgs) := by
  induction msgs using List.reverseRecOn with
  | nil =>
      refine ⟨⟨[], [], ⟨.nil [], ?_⟩, ?_, holds, ?_, fun _ => unharmed_nil⟩, [], ?_⟩
      · cases side <;> rfl
      · cases side <;> simp [Side.Exits, ClientExits]
      · simp [Side.calls]
      · simp [Side.calls]
  | append_singleton msgs msg ih =>
      have last : start.calls clientFd serverFd (side.calls (msgs ++ [msg])) =
          (start.calls clientFd serverFd (side.calls msgs)).call clientFd serverFd ⟨side, msg⟩ := by
        simp [Side.calls]
      have whole : stream (msgs ++ [msg]) = stream msgs ++ msg.bytes := by simp [stream]
      rw [last] at survives ⊢
      have still : (start.calls clientFd serverFd (side.calls msgs)).status = .running := by
        by_contra gone
        rw [call_gone clientFd serverFd _ _ gone] at survives
        exact gone survives
      have before := ih (fun other member => nonempty other (List.mem_append_left _ member))
        (fun seen front => apart seen (front.trans (List.prefix_append msgs [msg]))) still
      have all := apart (msgs ++ [msg]) (List.prefix_refl _)
      rw [whole] at all ⊢
      exact call_framed clientFd serverFd side start _ msg (stream msgs) before
        (nonempty msg (by simp)) all survives

/--
Whatever the bytes are: a worker that gets over them in pieces, and never leaves its memory on the
way, also does so in one read, with the same bytes left in its buffer and the same lines in the trace.
-/
theorem fragments_as_one (start : Decoder) (holds : start.Holds []) (msgs : List Message)
    (nonempty : ∀ msg ∈ msgs, 0 < msg.length)
    (apart : ∀ seen, seen <+: msgs → side.Apart (stream seen))
    (survives : (start.calls clientFd serverFd (side.calls msgs)).status = .running)
    (inside : start.Survives .outside (start.calls clientFd serverFd (side.calls msgs)))
    (msg : Message) (same : msg.bytes = stream msgs) (some_bytes : 0 < msg.length)
    (small : msg.length ≤ dumpCapacity) :
    let pieces := start.calls clientFd serverFd (side.calls msgs)
    let whole := start.call clientFd serverFd ⟨side, msg⟩
    whole.status = .running ∧ start.Survives .outside whole ∧ whole.data = pieces.data ∧
      whole.dataSize = pieces.dataSize ∧ outputs whole.trace = outputs pieces.trace := by
  intro pieces whole
  obtain ⟨frames, left, split, stays, held, written, unharmed⟩ :=
    (calls_framed clientFd serverFd side start holds msgs nonempty apart survives).splits
  have all := apart msgs (List.prefix_refl msgs)
  have cuts := all.cuts_next split.1
  have waits : side.next left = none := (all.after split.1).next.trans split.2
  rw [← same] at cuts
  have stop := call_stop clientFd serverFd side msg start [] left frames holds some_bytes
    ⟨cuts, waits⟩ stays
  refine ⟨stop.1.running, ?_, stop.1.data.trans held.data.symm, stop.1.size.trans held.size.symm, ?_⟩
  · have traced := stop.2.1
    rw [List.append_assoc, List.append_assoc] at traced
    rw [survives_iff traced, unharmed_append, unharmed_append]
    exact ⟨chunkEvents_unharmed _ msg small, unharmed inside, unharmed_unlock⟩
  · rw [written, stop.2.1, outputs_append, outputs_append, outputs_append, outputs_chunkEvents,
      outputs_cut clientFd serverFd all split.1]
    simp [outputs, Event.output]

end Run

theorem fragments_as_one_sync :
    let pieces := Decoder.initial.calls 5 6
      (Side.client.calls [readChunk [83, 0, 0], readChunk [0, 4, 88, 0]])
    let whole := Decoder.initial.call 5 6 ⟨.client, readChunk [83, 0, 0, 0, 4, 88, 0]⟩
    whole.status = .running ∧ Decoder.initial.Survives .outside whole ∧ whole.data = pieces.data ∧
      whole.dataSize = pieces.dataSize ∧ outputs whole.trace = outputs pieces.trace := by
  have inside : Decoder.initial.Survives .outside (Decoder.initial.calls 5 6
      (Side.client.calls [readChunk [83, 0, 0], readChunk [0, 4, 88, 0]])) := by
    rw [survives_iff (List.nil_append _).symm, unharmed_outside]
    decide
  exact fragments_as_one 5 6 .client Decoder.initial initial_holds
    [readChunk [83, 0, 0], readChunk [0, 4, 88, 0]] (by decide)
    (fun _ _ server => Side.noConfusion server) (by decide) inside
    (readChunk [83, 0, 0, 0, 4, 88, 0]) (by decide) (by decide) (by decide)

end Pgprtdbg
