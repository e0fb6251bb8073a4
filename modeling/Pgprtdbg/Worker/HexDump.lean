import Pgprtdbg.Model.Logging

set_option autoImplicit false

namespace Pgprtdbg

-- How often a line of 32 is broken while `count` bytes are put into it.
def lineBreaks (count : Nat) : Nat := (count - 1) / lineLength

theorem lineBreaks_succ (count : Nat) (k : Nat) (line : k + 32 * lineBreaks count = count)
    (full : k ≤ 32) :
    lineBreaks (count + 1) = if k = 32 then lineBreaks count + 1 else lineBreaks count := by
  unfold lineBreaks lineLength at *
  split <;> omega

theorem store_mem (dump : Dump) (text : List UInt8) (write : Nat × UInt8) :
    write ∈ (dump.store text).writes ↔
      write ∈ dump.writes ∨ ∃ i, i < text.length ∧ write.1 = dump.j + i ∧ some write.2 = text[i]? := by
  simp only [Dump.store, List.mem_append, List.mem_mapIdx]
  apply or_congr_right
  constructor
  · rintro ⟨i, bound, rfl⟩
    exact ⟨i, bound, rfl, (List.getElem?_eq_getElem bound).symm⟩
  · rintro ⟨i, bound, index, byte⟩
    rw [List.getElem?_eq_getElem bound] at byte
    exact ⟨i, bound, Prod.ext index.symm (Option.some.inj byte).symm⟩

theorem sprintfHex_length (c : Int8) : (sprintfHex c).length ≤ 9 := by
  unfold sprintfHex
  split <;> simp

theorem breakLine_j (dump : Dump) :
    dump.breakLine.j = if dump.k = 32 then dump.j + 1 else dump.j := by
  unfold Dump.breakLine lineLength
  split <;> rfl

theorem breakLine_k (dump : Dump) : dump.breakLine.k = if dump.k = 32 then 0 else dump.k := by
  unfold Dump.breakLine lineLength
  split <;> rfl

theorem breakLine_mem (dump : Dump) (write : Nat × UInt8) (member : write ∈ dump.breakLine.writes) :
    write ∈ dump.writes ∨ write.1 = dump.j := by
  unfold Dump.breakLine at member
  split at member
  · rcases (store_mem dump [10] write).mp member with before | ⟨i, bound, index, _⟩
    · exact .inl before
    · simp only [List.length_cons, List.length_nil] at bound
      exact .inr (by omega)
  · exact .inl member

-- The hex loop after `count` bytes: two digits a byte, and the breaks between the lines.
theorem hexByte_run (bytes : Nat → UInt8) (count : Nat) :
    let dump := (List.range count).foldl (fun dump i => Dump.hexByte dump (bytes i)) ⟨0, 0, []⟩
    dump.j = 2 * count + lineBreaks count ∧ dump.k + 32 * lineBreaks count = count ∧ dump.k ≤ 32 ∧
      ∀ write ∈ dump.writes, write.1 < 2 * count + lineBreaks count + 7 := by
  induction count with
  | zero => simp [lineBreaks, lineLength]
  | succ count ih =>
      rw [List.range_succ, List.foldl_append]
      generalize (List.range count).foldl (fun dump i => Dump.hexByte dump (bytes i))
        ⟨0, 0, []⟩ = dump at ih ⊢
      rcases ih with ⟨j, line, full, below⟩
      have breaks := lineBreaks_succ count dump.k line full
      have hj := breakLine_j dump
      have hk := breakLine_k dump
      simp only [List.foldl_cons, List.foldl_nil, Dump.hexByte]
      rw [breaks]
      refine ⟨?_, ?_, ?_, ?_⟩
      · rw [hj]
        split <;> omega
      · rw [hk]
        split <;> omega
      · rw [hk]
        split <;> omega
      · intro write member
        rcases (store_mem _ _ write).mp member with before | ⟨i, bound, index, _⟩
        · rcases breakLine_mem dump write before with old | new
          · have := below write old
            split <;> omega
          · split <;> omega
        · have nine := sprintfHex_length (bytes count).toInt8
          rw [hj] at index
          split at index <;> split <;> omega

-- The text loop: one character a byte, and the last one is where the dump ends.
theorem asciiByte_run (bytes : Nat → UInt8) (start : Dump) (fresh : start.k = 0) (count : Nat) :
    let dump := (List.range count).foldl (fun dump i => Dump.asciiByte dump (bytes i)) start
    dump.j = start.j + count + lineBreaks count ∧ dump.k + 32 * lineBreaks count = count ∧
      dump.k ≤ 32 ∧
      (∀ write ∈ dump.writes, write ∈ start.writes ∨ write.1 < start.j + count + lineBreaks count) ∧
      (0 < count → ∃ write ∈ dump.writes, write.1 + 1 = start.j + count + lineBreaks count) := by
  induction count with
  | zero =>
      simp [lineBreaks, lineLength, fresh]
      exact fun a b member => .inl member
  | succ count ih =>
      rw [List.range_succ, List.foldl_append]
      generalize (List.range count).foldl (fun dump i => Dump.asciiByte dump (bytes i))
        start = dump at ih ⊢
      rcases ih with ⟨j, line, full, below, _⟩
      have breaks := lineBreaks_succ count dump.k line full
      have hj := breakLine_j dump
      have hk := breakLine_k dump
      simp only [List.foldl_cons, List.foldl_nil, Dump.asciiByte]
      rw [breaks]
      refine ⟨?_, ?_, ?_, ?_, ?_⟩
      · rw [hj]
        split <;> omega
      · rw [hk]
        split <;> omega
      · rw [hk]
        split <;> omega
      · intro write member
        rcases (store_mem _ _ write).mp member with before | ⟨i, bound, index, _⟩
        · rcases breakLine_mem dump write before with old | new
          · rcases below write old with older | low
            · exact .inl older
            · right
              split <;> omega
          · right
            split <;> omega
        · right
          simp only [List.length_cons, List.length_nil] at bound
          rw [hj] at index
          split at index <;> split <;> omega
      · intro _
        refine ⟨(dump.breakLine.j, _), (store_mem _ _ _).mpr (.inr ⟨0, by simp, rfl, rfl⟩), ?_⟩
        rw [hj]
        split <;> omega

def dumpCapacity : Nat := 85598

-- A dump stays inside its array exactly up to its capacity, whatever the bytes are.
theorem hexDump_inside (bytes : Nat → UInt8) (size : Nat) :
    (∀ write ∈ (hexDump bytes size).writes, write.1 < dumpSize) ↔ size ≤ dumpCapacity := by
  have hex := hexByte_run bytes size
  unfold hexDump
  dsimp only at hex ⊢
  generalize (List.range size).foldl (fun dump i => Dump.hexByte dump (bytes i))
    ⟨0, 0, []⟩ = dump at hex ⊢
  rcases hex with ⟨j, _, _, hex_below⟩
  have ascii := asciiByte_run bytes dump.newline rfl size
  dsimp only at ascii
  rcases ascii with ⟨_, _, _, below, reaches⟩
  have start : dump.newline.j = 2 * size + lineBreaks size + 1 := by
    change dump.j + 1 = _
    rw [j]
  rw [start] at below reaches
  have breaks : lineBreaks size = (size - 1) / 32 := rfl
  constructor
  · intro inside
    by_contra large
    unfold dumpCapacity at large
    obtain ⟨write, member, last⟩ := reaches (by omega)
    have low := inside write member
    unfold dumpSize at low
    omega
  · intro small write member
    unfold dumpCapacity at small
    unfold dumpSize
    rcases below write member with earlier | low
    · rcases (store_mem dump [10] write).mp earlier with hex_write | ⟨i, bound, index, _⟩
      · have low := hex_below write hex_write
        omega
      · simp only [List.length_cons, List.length_nil] at bound
        omega
    · omega

end Pgprtdbg
