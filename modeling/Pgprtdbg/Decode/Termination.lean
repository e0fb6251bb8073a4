import Pgprtdbg.Decode.Calls

set_option autoImplicit false

namespace Pgprtdbg

open Framing MachineInt

def Progresses (body : Decoder → Loop.Pass Decoder) (d : Decoder) : Prop :=
  (∃ fuel after, Loop.run body fuel d = .left after ∧ after.status ≠ .faulted) ∧
    ∀ count middle after, Loop.Passes body count d middle → body middle = .next after →
      after.dataSize < middle.dataSize

/--
A header that takes nothing off, or more than there is: a typed frame of length -1, or an
untyped packet of length 0 or of more than the buffer holds. As a size_t, any negative length
is more than that.
-/
def BadHeader (side : Side) (xs : List UInt8) : Prop :=
  (xs.getD 0 0 ≠ 0 ∧ 5 ≤ xs.length ∧ declaredLength xs = -1) ∨
    (side = .client ∧ xs.getD 0 0 = 0 ∧ 8 ≤ xs.length ∧ KnownRequest (requestOf xs) ∧
      (pgprtdbgReadInt32 xs = 0 ∨ xs.length < sizeT (pgprtdbgReadInt32 xs)))

theorem stuck_typed (xs : List UInt8) :
    Stuck typedNext xs ↔ xs.getD 0 0 ≠ 0 ∧ 5 ≤ xs.length ∧ declaredLength xs = -1 := by
  have bounds := declaredLength_bounds xs
  have zero := frameSize_eq_zero (declaredLength xs) bounds.1 bounds.2
  constructor
  · rintro ⟨size, head, stuck⟩
    obtain ⟨typed, long, same, fits⟩ := typedNext_some xs size head
    refine ⟨typed, long, zero.mp ?_⟩
    omega
  · rintro ⟨typed, long, negative⟩
    have nothing := zero.mpr negative
    refine ⟨0, ?_, .inl rfl⟩
    rw [typedNext, if_pos ⟨typed, long, by omega⟩, nothing]

theorem sizeT_eq_zero (xs : List UInt8) :
    sizeT (pgprtdbgReadInt32 xs) = 0 ↔ pgprtdbgReadInt32 xs = 0 := by
  have bounds := readInt32_bounds xs
  unfold sizeT
  omega

theorem stuck_client (xs : List UInt8) : Stuck clientNext xs ↔ BadHeader .client xs := by
  by_cases untyped : xs.getD 0 0 = 0
  · have zero := sizeT_eq_zero xs
    constructor
    · rintro ⟨size, head, stuck⟩
      obtain ⟨long, known, same⟩ := clientNext_untyped xs size untyped head
      refine .inr ⟨rfl, untyped, long, known, ?_⟩
      rw [same] at zero ⊢
      exact stuck.imp zero.mp id
    · rintro (typed | ⟨_, _, long, known, stuck⟩)
      · exact absurd untyped typed.1
      · exact ⟨_, by rw [clientNext, if_pos untyped, if_pos ⟨long, known⟩], stuck.imp zero.mpr id⟩
  · have same := stuck_typed xs
    rw [Stuck, clientNext_typed xs untyped, ← Stuck, same]
    constructor
    · exact .inl
    · rintro (typed | ⟨_, zero, _⟩)
      · exact typed
      · exact absurd zero untyped

theorem stuck_server (xs : List UInt8) : Stuck serverNext xs ↔ BadHeader .server xs := by
  have typed : BadHeader .server xs ↔ Stuck typedNext xs := by
    rw [stuck_typed]
    simp [BadHeader]
  rw [typed]
  by_cases lone : xs = [78]
  · subst lone
    constructor
    · rintro ⟨size, head, stuck⟩
      cases head
      simp at stuck
    · rintro ⟨size, head, stuck⟩
      cases head
  · rw [Stuck, serverNext_eq xs lone, Stuck]

theorem stuck_iff (side : Side) (xs : List UInt8) : Stuck side.next xs ↔ BadHeader side xs := by
  cases side with
  | client => exact stuck_client xs
  | server => exact stuck_server xs

section Progress

variable (clientFd serverFd : Int) (side : Side)

theorem pass_next (d after : Decoder) (xs : List UInt8) (holds : d.Holds xs)
    (clear : ¬ Stuck side.next xs) (pass : side.pass clientFd serverFd d = .next after) :
    ∃ size, side.next xs = some size ∧ 0 < size ∧ size ≤ xs.length ∧ after.Holds (xs.drop size) := by
  cases head : side.next xs with
  | none =>
      by_cases gone : side.Exits xs
      · obtain ⟨_, leaves, _⟩ := pass_exit clientFd serverFd side d xs holds gone
        rw [leaves] at pass
        cases pass
      · obtain ⟨_, leaves, _⟩ := pass_stop clientFd serverFd side d xs holds head gone
        rw [leaves] at pass
        cases pass
  | some size =>
      have whole : ¬ (size = 0 ∨ xs.length < size) := fun stuck => clear ⟨size, head, stuck⟩
      obtain ⟨_, goes, left, _⟩ := pass_cut clientFd serverFd side d xs size holds head (by omega)
      rw [goes] at pass
      cases pass
      exact ⟨size, rfl, by omega, by omega, left⟩

theorem passes_reach (count : Nat) (d middle : Decoder) (xs : List UInt8) (holds : d.Holds xs)
    (clear : ∀ frames rest, Cuts side.next xs frames rest → ¬ Stuck side.next rest)
    (passes : Loop.Passes (side.pass clientFd serverFd) count d middle) :
    ∃ frames ys, Cuts side.next xs frames ys ∧ middle.Holds ys := by
  induction passes generalizing xs with
  | refl state => exact ⟨[], xs, .nil xs, holds⟩
  | @step count state first last pass more ih =>
      obtain ⟨size, head, positive, fits, left⟩ :=
        pass_next clientFd serverFd side state first xs holds (clear [] xs (.nil xs)) pass
      rcases ih (xs.drop size) left (fun frames rest cuts =>
        clear _ rest (.cons head positive fits cuts)) with ⟨frames, ys, cuts, held⟩
      exact ⟨_, ys, .cons head positive fits cuts, held⟩

theorem progresses_iff (d : Decoder) (xs : List UInt8) (holds : d.Holds xs) :
    Progresses (side.pass clientFd serverFd) d ↔
      ∀ frames rest, Cuts side.next xs frames rest → ¬ BadHeader side rest := by
  constructor
  · rintro ⟨⟨fuel, after, left, sound⟩, _⟩ frames rest cuts bad
    rcases (stuck_iff side rest).mpr bad with ⟨size, head, zero | beyond⟩
    · exact loop_never_leaves clientFd serverFd side d xs rest frames holds cuts (zero ▸ head)
        ⟨fuel, after, left⟩
    · obtain ⟨middle, passes, held, _, _⟩ :=
        loop_reaches clientFd serverFd side d xs rest frames holds cuts
      obtain ⟨final, pass, faulted, _⟩ :=
        pass_outside clientFd serverFd side middle rest size held head beyond
      have other := passes.leave pass (frames.length + 1) (by omega)
      rw [Loop.left_unique left other] at sound
      exact sound faulted
  · intro clear
    have no_stuck : ∀ frames rest, Cuts side.next xs frames rest → ¬ Stuck side.next rest :=
      fun frames rest cuts stuck => clear frames rest cuts ((stuck_iff side rest).mp stuck)
    constructor
    · rcases cuts_to_end side.next xs with ⟨frames, rest, cuts, head | stuck⟩
      · obtain ⟨middle, passes, held, _, _⟩ :=
          loop_reaches clientFd serverFd side d xs rest frames holds cuts
        by_cases gone : side.Exits rest
        · obtain ⟨after, pass, status, _⟩ := pass_exit clientFd serverFd side middle rest held gone
          refine ⟨frames.length + 1, after, passes.leave pass _ (by omega), ?_⟩
          simp [status]
        · obtain ⟨after, pass, still, _⟩ :=
            pass_stop clientFd serverFd side middle rest held head gone
          refine ⟨frames.length + 1, after, passes.leave pass _ (by omega), ?_⟩
          simp [still.running]
      · exact absurd stuck (no_stuck frames rest cuts)
    · intro count middle after passes pass
      obtain ⟨frames, ys, cuts, held⟩ :=
        passes_reach clientFd serverFd side count d middle xs holds no_stuck passes
      obtain ⟨size, _, positive, fits, left⟩ :=
        pass_next clientFd serverFd side middle after ys held (no_stuck frames ys cuts) pass
      rw [left.size, held.size, List.length_drop]
      omega

/--
The loop of a call ends, and every pass takes something off the buffer, exactly when no header
that it comes to is a bad one.
-/
theorem decode_progresses_iff (msg : Message) (nonempty : 0 < msg.length) (d : Decoder)
    (xs : List UInt8) (holds : d.Holds xs) :
    Progresses (side.pass clientFd serverFd) (side.receive msg d) ↔
      ∀ frames rest, Cuts side.next (xs ++ msg.bytes) frames rest → ¬ BadHeader side rest :=
  progresses_iff clientFd serverFd side _ _ (receive_holds side msg d xs holds nonempty).1

end Progress

def emptyQuery : TypedFrame := bareFrame 81 (by decide)

theorem query_progresses :
    Progresses (Side.client.pass 5 6)
      (Side.client.receive (readChunk [81, 0, 0, 0, 4]) Decoder.initial) := by
  refine (decode_progresses_iff 5 6 .client (readChunk [81, 0, 0, 0, 4]) (by decide)
    Decoder.initial [] initial_holds).mpr ?_
  intro frames rest cuts bad
  have encoded : [] ++ (readChunk [81, 0, 0, 0, 4]).bytes =
      [emptyQuery].flatMap TypedFrame.encode ++ [] := by decide
  rw [encoded] at cuts
  have whole : Splits clientNext _ _ [] := ⟨cuts_encoded reads_client_typed [emptyQuery] [], rfl⟩
  exact whole.not_stuck cuts ((stuck_iff .client rest).mpr bad)

theorem negative_length_spins :
    ¬ Progresses (Side.client.pass 5 6)
      (Side.client.receive (readChunk [81, 255, 255, 255, 255]) Decoder.initial) := by
  intro progresses
  rcases progresses.1 with ⟨fuel, after, left, _⟩
  have received := receive_holds .client (readChunk [81, 255, 255, 255, 255]) Decoder.initial []
    initial_holds (by decide)
  exact loop_never_leaves 5 6 .client _ _ _ [] received.1 (.nil _) (by decide) ⟨fuel, after, left⟩

end Pgprtdbg
