import Mathlib.Data.List.FinRange
import Mathlib.Logic.Function.Basic
import Mathlib.Tactic.Common

set_option autoImplicit false

namespace Table

variable {size : Nat} {Entry : Type} [DecidableEq Entry]

/-- A loop over the table that writes to the first entry that equals `old`, and stops there. -/
@[irreducible] def replaceFirst (old new : Entry) (table : Fin size → Entry) : Fin size → Entry :=
  match (List.finRange size).find? fun i => table i = old with
  | some i => Function.update table i new
  | none => table

theorem replaceFirst_found (old new : Entry) (table : Fin size → Entry) (j : Fin size)
    (there : table j = old) :
    ∃ i, table i = old ∧ replaceFirst old new table = Function.update table i new := by
  unfold replaceFirst
  cases found : (List.finRange size).find? fun i => decide (table i = old) with
  | none =>
      have missing := List.find?_eq_none.mp found j (List.mem_finRange j)
      exact absurd there (by simpa using missing)
  | some i => exact ⟨i, by simpa using List.find?_some found, rfl⟩

theorem replaceFirst_missing (old new : Entry) (table : Fin size → Entry)
    (missing : ∀ i, table i ≠ old) : replaceFirst old new table = table := by
  unfold replaceFirst
  cases found : (List.finRange size).find? fun i => decide (table i = old) with
  | none => rfl
  | some i => exact absurd (by simpa using List.find?_some found) (missing i)

theorem replaceFirst_entry (old new : Entry) (table : Fin size → Entry) (i : Fin size) :
    replaceFirst old new table i = table i ∨
      replaceFirst old new table i = new ∧ table i = old := by
  by_cases there : ∃ j, table j = old
  · obtain ⟨j, found⟩ := there
    obtain ⟨first, was_old, update⟩ := replaceFirst_found old new table j found
    rw [update]
    by_cases same : i = first
    · rw [same, Function.update_self]
      exact Or.inr ⟨rfl, was_old⟩
    · exact Or.inl (Function.update_of_ne same _ _)
  · rw [replaceFirst_missing old new table (not_exists.mp there)]
    exact Or.inl rfl

theorem replaceFirst_kept (old new : Entry) (table : Fin size → Entry) (i : Fin size)
    (other : table i ≠ old) : replaceFirst old new table i = table i :=
  (replaceFirst_entry old new table i).resolve_right fun both => other both.2

theorem replaceFirst_written (old new : Entry) (table : Fin size → Entry) (j : Fin size)
    (there : table j = old) : ∃ i, replaceFirst old new table i = new := by
  obtain ⟨first, _, update⟩ := replaceFirst_found old new table j there
  exact ⟨first, by rw [update, Function.update_self]⟩

section Once

variable {blank : Entry} {table : Fin size → Entry}

def Once (blank : Entry) (table : Fin size → Entry) : Prop :=
  ∀ i j, table i ≠ blank → table i = table j → i = j

omit [DecidableEq Entry] in
theorem once_update (once : Once blank table) (value : Entry) (unused : ∀ i, table i ≠ value)
    (slot : Fin size) : Once blank (Function.update table slot value) := by
  intro i j used equal
  by_cases same : i = slot
  · by_cases same' : j = slot
    · rw [same, same']
    · rw [same, Function.update_self, Function.update_of_ne same'] at equal
      exact absurd equal.symm (unused j)
  · rw [Function.update_of_ne same] at used equal
    by_cases same' : j = slot
    · rw [same', Function.update_self] at equal
      exact absurd equal (unused i)
    · rw [Function.update_of_ne same'] at equal
      exact once i j used equal

theorem once_claimed (once : Once blank table) (value : Entry) (unused : ∀ i, table i ≠ value) :
    Once blank (replaceFirst blank value table) := by
  by_cases free : ∃ i, table i = blank
  · obtain ⟨i, blank'⟩ := free
    obtain ⟨first, _, update⟩ := replaceFirst_found blank value table i blank'
    rw [update]
    exact once_update once value unused first
  · rw [replaceFirst_missing blank value table (not_exists.mp free)]
    exact once

-- What is left is as it was, and something else.
theorem blanked_entry (once : Once blank table) (old : Entry) (i : Fin size)
    (used : replaceFirst old blank table i ≠ blank) :
    replaceFirst old blank table i = table i ∧ table i ≠ old := by
  rcases replaceFirst_entry old blank table i with kept | ⟨blanked, _⟩
  case inr => exact absurd blanked used
  constructor
  · exact kept
  · intro same
    obtain ⟨first, was_old, update⟩ := replaceFirst_found old blank table i same
    rw [kept] at used
    have here := once i first used (same.trans was_old.symm)
    rw [update, here, Function.update_self] at kept
    exact used (here ▸ kept.symm)

theorem once_blanked (once : Once blank table) (old : Entry) :
    Once blank (replaceFirst old blank table) := by
  intro i j used equal
  obtain ⟨kept, _⟩ := blanked_entry once old i used
  obtain ⟨kept', _⟩ := blanked_entry once old j (equal ▸ used)
  rw [kept] at used
  rw [kept, kept'] at equal
  exact once i j used equal

end Once

end Table
