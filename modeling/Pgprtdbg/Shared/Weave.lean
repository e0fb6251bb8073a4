import Mathlib.Data.List.Basic
import Mathlib.Tactic.Common

set_option autoImplicit false

/-!
A sequence of marks and notes that is kept as two lists: the marks, and the notes with the
number of marks before each of them. The two lists can be woven together again.
-/

namespace Weave

variable {Mark Note : Type}

def marks : List (Mark ⊕ Note) → List Mark
  | [] => []
  | .inl mark :: items => mark :: marks items
  | .inr _ :: items => marks items

def notes : Nat → List (Mark ⊕ Note) → List (Nat × Note)
  | _, [] => []
  | count, .inl _ :: items => notes (count + 1) items
  | count, .inr note :: items => (count, note) :: notes count items

-- Before each mark come the notes that were taken at the count so far.
def weave : Nat → List Mark → List (Nat × Note) → List (Mark ⊕ Note)
  | _, [], taken => taken.map fun entry => .inr entry.2
  | count, mark :: rest, taken =>
      (taken.takeWhile (·.1 = count)).map (fun entry => .inr entry.2) ++
        .inl mark :: weave (count + 1) rest (taken.dropWhile (·.1 = count))

theorem notes_counted (count : Nat) (items : List (Mark ⊕ Note)) :
    ∀ entry ∈ notes count items, count ≤ entry.1 := by
  induction items generalizing count with
  | nil => simp [notes]
  | cons item items ih =>
      cases item with
      | inl mark =>
          intro entry member
          have later := ih (count + 1) entry member
          omega
      | inr note =>
          intro entry member
          cases List.mem_cons.mp member with
          | inl here => simp [here]
          | inr behind => exact ih count entry behind

theorem weave_note (count : Nat) (rest : List Mark) (note : Note) (taken : List (Nat × Note)) :
    weave count rest ((count, note) :: taken) = .inr note :: weave count rest taken := by
  cases rest with
  | nil => rfl
  | cons mark rest => simp [weave]

theorem weave_mark (count : Nat) (mark : Mark) (rest : List Mark) (taken : List (Nat × Note))
    (later : ∀ entry ∈ taken, count < entry.1) :
    weave count (mark :: rest) taken = .inl mark :: weave (count + 1) rest taken := by
  cases taken with
  | nil => rfl
  | cons entry taken =>
      have other : ¬ entry.1 = count := by
        have := later entry List.mem_cons_self
        omega
      simp [weave, other]

/-- The marks and the counted notes of a sequence give the sequence back. -/
theorem weave_notes (count : Nat) (items : List (Mark ⊕ Note)) :
    weave count (marks items) (notes count items) = items := by
  induction items generalizing count with
  | nil => rfl
  | cons item items ih =>
      cases item with
      | inl mark =>
          rw [marks, notes, weave_mark count mark _ _ (notes_counted (count + 1) items), ih]
      | inr note => rw [marks, notes, weave_note, ih]

theorem marks_append (front back : List (Mark ⊕ Note)) :
    marks (front ++ back) = marks front ++ marks back := by
  induction front with
  | nil => rfl
  | cons item front ih => cases item <;> simp [marks, ih]

end Weave
