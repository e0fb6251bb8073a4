import Mathlib.Algebra.Order.Ring.Int
import Mathlib.Tactic.Common

set_option autoImplicit false

namespace MachineInt

def int32 (value : Int) : Int := (value + 2 ^ 31) % 2 ^ 32 - 2 ^ 31

def int16 (value : Int) : Int := (value + 2 ^ 15) % 2 ^ 16 - 2 ^ 15

-- A negative integer converts to a huge unsigned one.
def sizeT (value : Int) : Nat := (value % 2 ^ 64).toNat

-- Subtraction of two 64-bit sizes: taking away too much wraps around.
def subSizeT (size amount : Nat) : Nat :=
  if amount ≤ size then size - amount else 2 ^ 64 + size - amount

theorem int32_bounds (value : Int) : -2 ^ 31 ≤ int32 value ∧ int32 value < 2 ^ 31 := by
  unfold int32
  omega

theorem int32_of_bounds (value : Int) (low : -2 ^ 31 ≤ value) (high : value < 2 ^ 31) :
    int32 value = value := by
  unfold int32
  omega

theorem int16_bounds (value : Int) : -2 ^ 15 ≤ int16 value ∧ int16 value < 2 ^ 15 := by
  unfold int16
  omega

theorem int16_of_bounds (value : Int) (low : -2 ^ 15 ≤ value) (high : value < 2 ^ 15) :
    int16 value = value := by
  unfold int16
  omega

theorem int16_bits (value : Int16) : int16 value.toUInt16.toNat = value.toInt := by
  have bits : value.toInt = value.toBitVec.toInt := rfl
  have nat : value.toUInt16.toNat = value.toBitVec.toNat := rfl
  have bound := value.toBitVec.isLt
  rw [bits, nat, BitVec.toInt_eq_toNat_cond, int16]
  split <;> omega

theorem int32_bits (value : Int32) : int32 value.toUInt32.toNat = value.toInt := by
  have bits : value.toInt = value.toBitVec.toInt := rfl
  have nat : value.toUInt32.toNat = value.toBitVec.toNat := rfl
  have bound := value.toBitVec.isLt
  rw [bits, nat, BitVec.toInt_eq_toNat_cond, int32]
  split <;> omega

theorem sizeT_of_nonneg (value : Int) (low : 0 ≤ value) (high : value < 2 ^ 64) :
    (sizeT value : Int) = value := by
  unfold sizeT
  omega

theorem sizeT_of_negative (value : Int) (low : -2 ^ 63 ≤ value) (high : value < 0) :
    (sizeT value : Int) = value + 2 ^ 64 := by
  unfold sizeT
  omega

def bigEndian (bytes : List UInt8) : Nat :=
  bytes.foldl (fun value byte => value * 256 + byte.toNat) 0

def bytes32 (value : Nat) : List UInt8 :=
  [UInt8.ofNat (value / 2 ^ 24), UInt8.ofNat (value / 2 ^ 16), UInt8.ofNat (value / 2 ^ 8),
    UInt8.ofNat value]

@[simp] theorem bytes32_length (value : Nat) : (bytes32 value).length = 4 := rfl

def bytes16 (value : Nat) : List UInt8 := [UInt8.ofNat (value / 2 ^ 8), UInt8.ofNat value]

@[simp] theorem bytes16_length (value : Nat) : (bytes16 value).length = 2 := rfl

theorem bigEndian_bytes32 (value : Nat) (bound : value < 2 ^ 32) :
    bigEndian (bytes32 value) = value := by
  simp only [bigEndian, bytes32, List.foldl_cons, List.foldl_nil, UInt8.toNat_ofNat']
  omega

theorem bytes32_bigEndian (a b c d : UInt8) : bytes32 (bigEndian [a, b, c, d]) = [a, b, c, d] := by
  have ha := UInt8.toNat_lt a
  have hb := UInt8.toNat_lt b
  have hc := UInt8.toNat_lt c
  have hd := UInt8.toNat_lt d
  simp only [bigEndian, bytes32, List.foldl_cons, List.foldl_nil, List.cons.injEq, and_true]
  refine ⟨?_, ?_, ?_, ?_⟩ <;> rw [← UInt8.toNat_inj, UInt8.toNat_ofNat'] <;> omega

theorem bytes32_head_zero (value : Nat) (bound : value < 2 ^ 24) :
    (bytes32 value).head? = some 0 := by
  have zero : value / 2 ^ 24 = 0 := by omega
  rw [bytes32, zero]
  rfl

theorem shifted_or (high low width : Nat) (fits : low < 2 ^ width) :
    high <<< width ||| low = high * 2 ^ width + low := by
  rw [Nat.shiftLeft_eq, Nat.mul_comm, Nat.two_pow_add_eq_or_of_lt fits]

-- Four bytes shifted into disjoint places: or-ing them is adding them.
theorem shifted_bytes (a b c d : Nat) (hb : b < 256) (hc : c < 256) (hd : d < 256) :
    a <<< 24 ||| b <<< 16 ||| c <<< 8 ||| d = a * 2 ^ 24 + b * 2 ^ 16 + c * 2 ^ 8 + d := by
  have low : c <<< 8 ||| d = c * 2 ^ 8 + d := shifted_or c d 8 hd
  have middle : b <<< 16 ||| (c * 2 ^ 8 + d) = b * 2 ^ 16 + (c * 2 ^ 8 + d) :=
    shifted_or b _ 16 (by omega)
  have top : a <<< 24 ||| (b * 2 ^ 16 + (c * 2 ^ 8 + d)) =
      a * 2 ^ 24 + (b * 2 ^ 16 + (c * 2 ^ 8 + d)) := shifted_or a _ 24 (by omega)
  rw [Nat.or_assoc, Nat.or_assoc, low, middle, top]
  omega

end MachineInt
