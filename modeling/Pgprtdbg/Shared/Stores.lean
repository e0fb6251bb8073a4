import Mathlib.Data.List.GetD
import Mathlib.Logic.Function.Basic
import Mathlib.Tactic.Common

set_option autoImplicit false

-- An array that is written in pieces, of which a later one covers an earlier one.
namespace Stores

def block (start : Nat) (text : List UInt8) : List (Nat × UInt8) :=
  text.mapIdx fun index byte => (start + index, byte)

def after (cells : Nat → UInt8) (writes : List (Nat × UInt8)) : Nat → UInt8 :=
  writes.foldl (fun cells write => Function.update cells write.1 write.2) cells

/-- The string at `start`, which ends before the first zero or with the array. -/
def string (cells : Nat → UInt8) : Nat → Nat → List UInt8
  | _, 0 => []
  | start, room + 1 =>
      if cells start = 0 then [] else cells start :: string cells (start + 1) room

def Shows (cells : Nat → UInt8) (text : List UInt8) : Prop :=
  ∀ place, place < text.length → cells place = text.getD place 0

variable (cells : Nat → UInt8)

theorem after_append (first second : List (Nat × UInt8)) :
    after cells (first ++ second) = after (after cells first) second :=
  List.foldl_append

theorem block_cons (start : Nat) (byte : UInt8) (text : List UInt8) :
    block start (byte :: text) = (start, byte) :: block (start + 1) text := by
  simp [block, List.mapIdx_cons, Nat.add_comm, Nat.add_left_comm]

theorem after_block (start : Nat) (text : List UInt8) (place : Nat) :
    after cells (block start text) place =
      if start ≤ place ∧ place < start + text.length then text.getD (place - start) 0
      else cells place := by
  induction text generalizing start cells with
  | nil =>
      have outside : ¬ (start ≤ place ∧ place < start + ([] : List UInt8).length) := by simp
      rw [if_neg outside]
      rfl
  | cons byte text ih =>
      have first : after cells (block start (byte :: text)) place =
          after (Function.update cells start byte) (block (start + 1) text) place := by
        rw [block_cons]
        rfl
      rw [first, ih, List.length_cons]
      by_cases here : place = start
      · have behind : ¬ (start + 1 ≤ place ∧ place < start + 1 + text.length) := by omega
        have inside : start ≤ place ∧ place < start + (text.length + 1) := by omega
        rw [if_neg behind, if_pos inside, here, Function.update_self, Nat.sub_self,
          List.getD_cons_zero]
      · by_cases behind : start + 1 ≤ place ∧ place < start + 1 + text.length
        · have inside : start ≤ place ∧ place < start + (text.length + 1) := by omega
          have position : place - start = place - (start + 1) + 1 := by omega
          rw [if_pos behind, if_pos inside, position, List.getD_cons_succ]
        · have outside : ¬ (start ≤ place ∧ place < start + (text.length + 1)) := by omega
          rw [if_neg behind, if_neg outside, Function.update_of_ne here]

theorem after_block_outside (start : Nat) (text : List UInt8) (place : Nat)
    (outside : place < start ∨ start + text.length ≤ place) :
    after cells (block start text) place = cells place := by
  rw [after_block, if_neg]
  omega

variable {cells}

-- Of a piece that the next one covers from `kept` on, so many bytes stay.
theorem Shows.store {text : List UInt8} (shows : Shows cells text) (more : List UInt8) (kept : Nat)
    (within : kept ≤ more.length) :
    Shows (after cells (block text.length more)) (text ++ more.take kept) := by
  intro place low
  rw [List.length_append, List.length_take, Nat.min_eq_left within] at low
  rw [after_block]
  by_cases front : place < text.length
  · have before : ¬ (text.length ≤ place ∧ place < text.length + more.length) := by omega
    rw [if_neg before, shows place front, List.getD_append _ _ _ _ front]
  · have inside : text.length ≤ place ∧ place < text.length + more.length := by omega
    rw [if_pos inside, List.getD_append_right _ _ _ _ inside.1, List.getD_eq_getElem?_getD,
      List.getD_eq_getElem?_getD, List.getElem?_take_of_lt (by omega)]

theorem string_behind (text : List UInt8) (clean : 0 ∉ text) (start room : Nat)
    (fits : text.length ≤ room)
    (same : ∀ place, place < text.length → cells (start + place) = text.getD place 0) :
    string cells start room =
      text ++ string cells (start + text.length) (room - text.length) := by
  induction text generalizing start room with
  | nil => simp
  | cons byte text ih =>
      obtain ⟨left, rfl⟩ : ∃ left, room = left + 1 := ⟨room - 1, by simp at fits; omega⟩
      have first : cells start = byte := same 0 (by simp)
      have nonzero : byte ≠ 0 := fun zero => clean (by simp [zero])
      have rest := ih (fun zero => clean (by simp [zero])) (start + 1) left (by simpa using fits)
        (by
          intro place low
          have later := same (place + 1) (by simpa using low)
          rwa [List.getD_cons_succ, Nat.add_comm place 1, ← Nat.add_assoc] at later)
      rw [string, if_neg (by rw [first]; exact nonzero), first, rest, List.length_cons,
        List.cons_append]
      congr 3
      · omega
      · omega

theorem Shows.string {text : List UInt8} (shows : Shows cells text) (clean : 0 ∉ text) (room : Nat)
    (fits : text.length ≤ room) :
    Stores.string cells 0 room = text ++ Stores.string cells text.length (room - text.length) := by
  have same (place : Nat) (low : place < text.length) : cells (0 + place) = text.getD place 0 := by
    rw [Nat.zero_add]
    exact shows place low
  have whole := string_behind text clean 0 room fits same
  rwa [Nat.zero_add] at whole

theorem string_eq_nil_iff (start room : Nat) (inside : 0 < room) :
    string cells start room = [] ↔ cells start = 0 := by
  obtain ⟨left, rfl⟩ : ∃ left, room = left + 1 := ⟨room - 1, by omega⟩
  rw [string]
  split
  next zero => simp [zero]
  next other => simp [other]

end Stores
