import Pgprtdbg.Model.Protocol
import Pgprtdbg.Shared.Framing

set_option autoImplicit false

namespace Pgprtdbg

open MachineInt Framing

structure TypedFrame where
  kind : UInt8
  body : List UInt8
  kind_ne_zero : kind ≠ 0
  fits : body.length + 4 ≤ 2 ^ 31 - 2
  deriving DecidableEq

def TypedFrame.encode (frame : TypedFrame) : List UInt8 :=
  frame.kind :: (bytes32 (frame.body.length + 4) ++ frame.body)

def bareFrame (kind : UInt8) (kind_ne_zero : kind ≠ 0) : TypedFrame :=
  ⟨kind, [], kind_ne_zero, by decide⟩

/-- An opening packet has no kind byte. Only StartupMessage has a body of free length. -/
structure UntypedPacket where
  request : Nat
  body : List UInt8
  fits : body.length + 8 < 2 ^ 24
  known : request = 196608 ∨ (request = 80877102 ∧ body.length = 8) ∨
    (request = 80877103 ∧ body = []) ∨ (request = 80877104 ∧ body = [])
  deriving DecidableEq

def UntypedPacket.encode (packet : UntypedPacket) : List UInt8 :=
  bytes32 (packet.body.length + 8) ++ (bytes32 packet.request ++ packet.body)

def declaredLength (xs : List UInt8) : Int := pgprtdbgReadInt32 (xs.drop 1)

-- The size a typed frame at the head takes off the buffer, once the buffer has that much.
def typedNext (xs : List UInt8) : Option Nat :=
  if xs.getD 0 0 ≠ 0 ∧ 5 ≤ xs.length ∧ frameSize (declaredLength xs) ≤ xs.length then
    some (frameSize (declaredLength xs))
  else
    none

def KnownRequest (request : Int) : Prop :=
  request = 196608 ∨ request = 80877102 ∨ request = 80877103 ∨ request = 80877104 ∨
    request = 131072

instance (request : Int) : Decidable (KnownRequest request) :=
  inferInstanceAs (Decidable (_ ∨ _))

def requestOf (xs : List UInt8) : Int := pgprtdbgReadInt32 (xs.drop 4)

-- An untyped packet is not waited for: eight bytes are enough to take it off.
def clientNext (xs : List UInt8) : Option Nat :=
  if xs.getD 0 0 = 0 then
    if 8 ≤ xs.length ∧ KnownRequest (requestOf xs) then some (sizeT (pgprtdbgReadInt32 xs)) else none
  else
    typedNext xs

-- fe_zero calls exit() on any other request.
def ClientExits (xs : List UInt8) : Prop :=
  xs.getD 0 0 = 0 ∧ 8 ≤ xs.length ∧ ¬ KnownRequest (requestOf xs)

-- A buffer of just 'N' is taken for the answer to an SSLRequest.
def serverNext (xs : List UInt8) : Option Nat :=
  if xs = [78] then some 1 else typedNext xs

theorem frameSize_of_nonneg (length : Int) (low : 0 ≤ length) (high : length ≤ 2 ^ 31 - 2) :
    (frameSize length : Int) = length + 1 := by
  rw [frameSize, int32_of_bounds _ (by omega) (by omega)]
  exact sizeT_of_nonneg _ (by omega) (by omega)

theorem frameSize_eq_zero (length : Int) (low : -2 ^ 31 ≤ length) (high : length < 2 ^ 31) :
    frameSize length = 0 ↔ length = -1 := by
  unfold frameSize int32 sizeT
  omega

theorem declaredLength_bounds (xs : List UInt8) :
    -2 ^ 31 ≤ declaredLength xs ∧ declaredLength xs < 2 ^ 31 := readInt32_bounds _

@[simp] theorem TypedFrame.encode_length (frame : TypedFrame) :
    frame.encode.length = frame.body.length + 5 := by
  simp [TypedFrame.encode]
  omega

@[simp] theorem UntypedPacket.encode_length (packet : UntypedPacket) :
    packet.encode.length = packet.body.length + 8 := by
  simp [UntypedPacket.encode]
  omega

theorem TypedFrame.encode_ne_nil (frame : TypedFrame) : frame.encode ≠ [] := by
  simp [TypedFrame.encode]

theorem UntypedPacket.encode_ne_nil (packet : UntypedPacket) : packet.encode ≠ [] := by
  intro empty
  simpa [empty] using packet.encode_length

theorem TypedFrame.head_ne_zero (frame : TypedFrame) (rest : List UInt8) :
    (frame.encode ++ rest).getD 0 0 ≠ 0 := frame.kind_ne_zero

theorem TypedFrame.declared (frame : TypedFrame) (rest : List UInt8) :
    declaredLength (frame.encode ++ rest) = frame.body.length + 4 := by
  have fits := frame.fits
  have read := readInt32_bytes32 (frame.body.length + 4) (by omega) (frame.body ++ rest)
  simpa [declaredLength, TypedFrame.encode] using read

theorem TypedFrame.frameSize (frame : TypedFrame) (rest : List UInt8) :
    Pgprtdbg.frameSize (declaredLength (frame.encode ++ rest)) = frame.encode.length := by
  have fits := frame.fits
  have size := frameSize_of_nonneg (declaredLength (frame.encode ++ rest))
    (by rw [frame.declared]; omega) (by rw [frame.declared]; omega)
  rw [frame.declared] at size ⊢
  rw [frame.encode_length]
  omega

theorem reads_typed : Reads typedNext TypedFrame.encode := by
  intro frame rest
  refine ⟨?_, frame.encode_ne_nil⟩
  have nonzero := frame.head_ne_zero rest
  have long : 5 ≤ (frame.encode ++ rest).length := by
    rw [List.length_append, frame.encode_length]
    omega
  have whole : frame.encode.length ≤ (frame.encode ++ rest).length := by simp
  simp only [typedNext, nonzero, long, frame.frameSize, whole, ne_eq, not_false_eq_true, and_self,
    if_true]

theorem clientNext_typed (xs : List UInt8) (typed : xs.getD 0 0 ≠ 0) :
    clientNext xs = typedNext xs := by
  simp only [clientNext, typed, if_false]

theorem reads_client_typed : Reads clientNext TypedFrame.encode := by
  intro frame rest
  rw [clientNext_typed _ (frame.head_ne_zero rest)]
  exact reads_typed frame rest

theorem serverNext_eq (xs : List UInt8) (other : xs ≠ [78]) : serverNext xs = typedNext xs := by
  simp only [serverNext, other, if_false]

theorem TypedFrame.encode_ne_lone (frame : TypedFrame) (rest : List UInt8) :
    frame.encode ++ rest ≠ [78] := by
  intro lone
  have short := congrArg List.length lone
  rw [List.length_append, frame.encode_length] at short
  simp only [List.length_cons, List.length_nil] at short
  omega

theorem reads_server_typed : Reads serverNext TypedFrame.encode := by
  intro frame rest
  rw [serverNext_eq _ (frame.encode_ne_lone rest)]
  exact reads_typed frame rest

theorem typedNext_part (part : List UInt8) (frame : TypedFrame)
    (under : ProperPrefix part frame.encode) : typedNext part = none := by
  have shorter := under.length_lt
  rcases under with ⟨more, _, whole⟩
  by_cases long : 5 ≤ part.length
  · have length : declaredLength part = declaredLength frame.encode := by
      rw [← whole, declaredLength, declaredLength, List.drop_append_of_le_length (by omega),
        readInt32_append _ _ (by rw [List.length_drop]; omega)]
    have size := frame.frameSize []
    rw [List.append_nil] at size
    have waiting : ¬ frameSize (declaredLength part) ≤ part.length := by
      rw [length, size]
      omega
    simp [typedNext, waiting]
  · simp [typedNext, long]

theorem part_head (part : List UInt8) (frame : TypedFrame)
    (under : ProperPrefix part frame.encode) (nonempty : part ≠ []) : part.getD 0 0 ≠ 0 := by
  rcases under with ⟨more, _, whole⟩
  cases part with
  | nil => exact absurd rfl nonempty
  | cons byte part =>
      have kind := frame.kind_ne_zero
      simp only [TypedFrame.encode, List.cons_append, List.cons.injEq] at whole
      rwa [← whole.1] at kind

theorem clientNext_part (part : List UInt8) (frame : TypedFrame)
    (under : ProperPrefix part frame.encode) : clientNext part = none := by
  cases part with
  | nil => rfl
  | cons byte part =>
      rw [clientNext_typed _ (part_head _ frame under (by simp))]
      exact typedNext_part _ frame under

theorem client_part_stays (part : List UInt8) (frame : TypedFrame)
    (under : ProperPrefix part frame.encode) : ¬ ClientExits part := by
  rintro ⟨untyped, long, _⟩
  exact part_head part frame under (List.ne_nil_of_length_pos (by omega)) untyped

theorem UntypedPacket.packetLength (packet : UntypedPacket) (rest : List UInt8) :
    pgprtdbgReadInt32 (packet.encode ++ rest) = packet.body.length + 8 := by
  have fits := packet.fits
  have read := readInt32_bytes32 (packet.body.length + 8) (by omega)
    (bytes32 packet.request ++ packet.body ++ rest)
  simpa [UntypedPacket.encode] using read

theorem UntypedPacket.request_lt (packet : UntypedPacket) : packet.request < 2 ^ 31 := by
  have known := packet.known
  omega

theorem UntypedPacket.requestOf (packet : UntypedPacket) (rest : List UInt8) :
    Pgprtdbg.requestOf (packet.encode ++ rest) = packet.request := by
  have read := readInt32_bytes32 packet.request packet.request_lt (packet.body ++ rest)
  simpa [Pgprtdbg.requestOf, UntypedPacket.encode, bytes32] using read

theorem UntypedPacket.head_zero (packet : UntypedPacket) (rest : List UInt8) :
    (packet.encode ++ rest).getD 0 0 = 0 := by
  have fits := packet.fits
  have zero := bytes32_head_zero (packet.body.length + 8) fits
  simpa [UntypedPacket.encode, bytes32] using zero

theorem UntypedPacket.knownRequest (packet : UntypedPacket) :
    KnownRequest (packet.request : Int) := by
  have known := packet.known
  unfold KnownRequest
  omega

theorem reads_client_untyped : Reads clientNext UntypedPacket.encode := by
  intro packet rest
  refine ⟨?_, packet.encode_ne_nil⟩
  have fits := packet.fits
  have long : 8 ≤ (packet.encode ++ rest).length := by
    rw [List.length_append, packet.encode_length]
    omega
  have size : sizeT (packet.body.length + 8 : Int) = packet.encode.length := by
    have value := sizeT_of_nonneg (packet.body.length + 8 : Int) (by omega) (by omega)
    rw [packet.encode_length]
    omega
  simp only [clientNext, packet.head_zero, long, packet.requestOf, packet.knownRequest,
    packet.packetLength, size, and_self, if_true]

end Pgprtdbg
