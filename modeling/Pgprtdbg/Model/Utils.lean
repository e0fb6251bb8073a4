import Pgprtdbg.Shared.MachineInt

set_option autoImplicit false

namespace Pgprtdbg

open MachineInt

def miscLength : Nat := 128

def pgprtdbgReadByte (data : List UInt8) : Int8 := (data.getD 0 0).toInt8

def pgprtdbgReadInt16 (data : List UInt8) : Int :=
  int16 ((data.getD 0 0).toNat <<< 8 ||| (data.getD 1 0).toNat : Nat)

def pgprtdbgReadInt32 (data : List UInt8) : Int :=
  int32 ((data.getD 0 0).toNat <<< 24 ||| (data.getD 1 0).toNat <<< 16 |||
    (data.getD 2 0).toNat <<< 8 ||| (data.getD 3 0).toNat : Nat)

-- A block of memory holds `data_size` bytes; NULL is `none`.
def pgprtdbgDataAppend (data : Option (List UInt8)) (dataSize : Nat) (newData : List UInt8) :
    Option (List UInt8) × Nat :=
  match data with
  | some block => (some (block.take dataSize ++ newData), dataSize + newData.length)
  | none => (some newData, newData.length)

inductive Removal where
  | rest (data : Option (List UInt8)) (newSize : Nat)
  -- The copy starts or ends outside the block.
  | outside (newSize : Nat)
  deriving DecidableEq, Repr

def pgprtdbgDataRemove (data : Option (List UInt8)) (dataSize removeSize : Nat) : Removal :=
  let newSize := subSizeT dataSize removeSize
  if newSize = 0 then
    .rest none 0
  else
    let block := data.getD []
    if removeSize + newSize ≤ block.length then
      .rest (some ((block.drop removeSize).take newSize)) newSize
    else
      .outside newSize

theorem readByte_eq_zero (data : List UInt8) : pgprtdbgReadByte data = 0 ↔ data.getD 0 0 = 0 := by
  constructor
  · intro zero
    have same := congrArg Int8.toUInt8 zero
    rwa [pgprtdbgReadByte, UInt8.toUInt8_toInt8] at same
  · intro zero
    simp only [pgprtdbgReadByte, zero]
    rfl

theorem readInt32_eq (data : List UInt8) :
    pgprtdbgReadInt32 data = int32 ((data.getD 0 0).toNat * 2 ^ 24 + (data.getD 1 0).toNat * 2 ^ 16 +
      (data.getD 2 0).toNat * 2 ^ 8 + (data.getD 3 0).toNat : Nat) := by
  rw [pgprtdbgReadInt32, shifted_bytes _ _ _ _ (UInt8.toNat_lt _) (UInt8.toNat_lt _)
    (UInt8.toNat_lt _)]

theorem readInt32_bounds (data : List UInt8) :
    -2 ^ 31 ≤ pgprtdbgReadInt32 data ∧ pgprtdbgReadInt32 data < 2 ^ 31 :=
  int32_bounds _

theorem readInt32_append (data more : List UInt8) (whole : 4 ≤ data.length) :
    pgprtdbgReadInt32 (data ++ more) = pgprtdbgReadInt32 data := by
  obtain ⟨a, b, c, d, rest, rfl⟩ : ∃ a b c d rest, data = a :: b :: c :: d :: rest := by
    match data, whole with
    | a :: b :: c :: d :: rest, _ => exact ⟨a, b, c, d, rest, rfl⟩
  rfl

theorem readInt32_take (data : List UInt8) (count : Nat) (whole : 4 ≤ count) :
    pgprtdbgReadInt32 (data.take count) = pgprtdbgReadInt32 data := by
  have kept (i : Nat) (low : i < 4) : (data.take count)[i]? = data[i]? := by
    rw [List.getElem?_take, if_pos (by omega)]
  simp only [pgprtdbgReadInt32, List.getD_eq_getElem?_getD, kept _ (by omega : 0 < 4),
    kept _ (by omega : 1 < 4), kept _ (by omega : 2 < 4), kept _ (by omega : 3 < 4)]

theorem readInt32_bytes32 (value : Nat) (bound : value < 2 ^ 31) (more : List UInt8) :
    pgprtdbgReadInt32 (bytes32 value ++ more) = value := by
  rw [readInt32_append _ _ (by simp), readInt32_eq]
  have whole := bigEndian_bytes32 value (by omega)
  simp only [bigEndian, bytes32, List.foldl_cons, List.foldl_nil] at whole
  simp only [bytes32, List.getD_cons_zero, List.getD_cons_succ]
  rw [int32_of_bounds] <;> omega

theorem readInt16_bytes16 (value : Nat) : pgprtdbgReadInt16 (bytes16 value) = int16 value := by
  have high : (UInt8.ofNat (value / 2 ^ 8)).toNat = value / 2 ^ 8 % 2 ^ 8 := UInt8.toNat_ofNat'
  have low : (UInt8.ofNat value).toNat = value % 2 ^ 8 := UInt8.toNat_ofNat'
  simp only [pgprtdbgReadInt16, bytes16, List.getD_cons_zero, List.getD_cons_succ, high, low]
  rw [shifted_or _ _ 8 (by omega)]
  unfold int16
  omega

theorem readInt32_wraps (value : Nat) : pgprtdbgReadInt32 (bytes32 value) = int32 value := by
  rw [readInt32_eq]
  simp only [bytes32, List.getD_cons_zero, List.getD_cons_succ, UInt8.toNat_ofNat']
  unfold int32
  omega

theorem dataRemove_inside (block : List UInt8) (removeSize : Nat)
    (fits : removeSize ≤ block.length) :
    pgprtdbgDataRemove (some block) block.length removeSize =
      .rest (if block.drop removeSize = [] then none else some (block.drop removeSize))
        (block.length - removeSize) := by
  unfold pgprtdbgDataRemove subSizeT
  simp only [fits, if_true, Option.getD_some]
  by_cases empty : block.length - removeSize = 0
  · have nothing : block.length ≤ removeSize := by omega
    simp [empty, nothing, List.drop_eq_nil_iff]
  · have left : ¬ block.length ≤ removeSize := by omega
    have inside : removeSize + (block.length - removeSize) ≤ block.length := by omega
    simp [empty, left, inside, List.take_of_length_le]

theorem dataRemove_outside (block : List UInt8) (removeSize : Nat)
    (beyond : block.length < removeSize) (bound : removeSize < 2 ^ 64) :
    pgprtdbgDataRemove (some block) block.length removeSize =
      .outside (2 ^ 64 + block.length - removeSize) := by
  have large : ¬ removeSize ≤ block.length := by omega
  have wrapped : 2 ^ 64 + block.length - removeSize ≠ 0 := by omega
  have astray : ¬ removeSize + (2 ^ 64 + block.length - removeSize) ≤ block.length := by omega
  simp only [pgprtdbgDataRemove, subSizeT, large, wrapped, astray, if_false, Option.getD_some]

end Pgprtdbg
