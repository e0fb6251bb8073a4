import Pgprtdbg.Decode.Frames
import Pgprtdbg.Shared.RoundTrip

set_option autoImplicit false

namespace Pgprtdbg

open Walk MachineInt

structure CString where
  bytes : List UInt8
  clean : 0 ∉ bytes
  deriving DecidableEq

def CString.encode (s : CString) : List UInt8 := s.bytes ++ [0]

def CString.empty : CString := ⟨[], List.not_mem_nil⟩

def encode16 (value : Int16) : List UInt8 := bytes16 value.toUInt16.toNat

def encode32 (value : Int32) : List UInt8 := bytes32 value.toUInt32.toNat

-- A list with its length in front of it.
def encodeCounted {Item : Type} (encode : Item → List UInt8) (items : List Item) : List UInt8 :=
  bytes16 items.length ++ items.flatMap encode

-- A value with its size in front of it, -1 for NULL.
def encodeSized : Option (List UInt8) → List UInt8
  | none => encode32 (-1)
  | some bytes => bytes32 bytes.length ++ bytes

def encodeFrame (kind : UInt8) (body : List UInt8) : List UInt8 :=
  kind :: (bytes32 (body.length + 4) ++ body)

structure ErrorField where
  code : UInt8
  text : List UInt8
  code_ne_zero : code ≠ 0
  text_free : 0 ∉ text

def ErrorField.encode (field : ErrorField) : List UInt8 := field.code :: (field.text ++ [0])

def errorBody (fields : List ErrorField) : List UInt8 := fields.flatMap ErrorField.encode ++ [0]

@[simp] theorem encodeFrame_length (kind : UInt8) (body : List UInt8) :
    (encodeFrame kind body).length = body.length + 5 := by
  simp [encodeFrame]
  omega

@[simp] theorem encode32_length (value : Int32) : (encode32 value).length = 4 := rfl

theorem CString.encode_ne_nil (s : CString) : s.encode ≠ [] := by
  simp [CString.encode]

theorem encodeSized_ne_nil (value : Option (List UInt8)) : encodeSized value ≠ [] := by
  cases value <;> simp [encodeSized, encode32, bytes32]

theorem TypedFrame.encode_eq (frame : TypedFrame) :
    frame.encode = encodeFrame frame.kind frame.body := rfl

theorem declaredLength_encodeFrame (kind : UInt8) (body rest : List UInt8)
    (fits : body.length + 4 < 2 ^ 31) :
    declaredLength (encodeFrame kind body ++ rest) = body.length + 4 := by
  have read := readInt32_bytes32 (body.length + 4) fits (body ++ rest)
  simpa [declaredLength, encodeFrame] using read

section Recovers

theorem reaches_log {Value : Type} {rest : Unit → Parser Value} {later : Parser Value}
    {cells : List UInt8} {log : List Effect} (second : Reaches (rest ()) cells log later)
    (format : String) (args : List Arg) :
    Reaches (andThen (logLine format args) rest) cells (.logLine format args :: log) later :=
  second.emit_andThen _

theorem recovers_logLine (format : String) (args : List Arg) :
    Recovers (logLine format args) [] () [.logLine format args] :=
  recovers_emit _

theorem recovers_header (kind : UInt8) (length : Nat) :
    Recovers header (kind :: bytes32 length) () [] := by
  change Recovers (andThen (skip [kind].length) fun _ => skip (bytes32 length).length)
    ([kind] ++ bytes32 length) () []
  exact (recovers_skip [kind]).reading (recovers_skip (bytes32 length))

theorem recovers_readByte (byte : UInt8) : Recovers readByte [byte] byte.toInt8 [] :=
  (recovers_read [byte]).map pgprtdbgReadByte

theorem recovers_readInt16 (value : Nat) : Recovers readInt16 (bytes16 value) (int16 value) [] := by
  rw [← readInt16_bytes16 value]
  exact (recovers_read (bytes16 value)).map pgprtdbgReadInt16

theorem recovers_readInt32 (value : Nat) : Recovers readInt32 (bytes32 value) (int32 value) [] := by
  rw [← readInt32_wraps value]
  exact (recovers_read (bytes32 value)).map pgprtdbgReadInt32

theorem recovers_int16 (value : Int16) : Recovers readInt16 (encode16 value) value.toInt [] := by
  rw [← int16_bits value]
  exact recovers_readInt16 _

theorem recovers_int32 (value : Int32) : Recovers readInt32 (encode32 value) value.toInt [] := by
  rw [← int32_bits value]
  exact recovers_readInt32 _

theorem recovers_count (count : Nat) (few : count ≤ 32767) :
    Recovers readInt16 (bytes16 count) count [] := by
  have read := recovers_readInt16 count
  rwa [int16_of_bounds count (by omega) (by omega)] at read

theorem recovers_size (size : Nat) (fits : size < 2 ^ 31) :
    Recovers readInt32 (bytes32 size) size [] := by
  have read := recovers_readInt32 size
  rwa [int32_of_bounds size (by omega) (by omega)] at read

theorem recovers_readString (s : CString) : Recovers readString s.encode s.bytes [] :=
  recovers_readUntil 0 s.bytes s.clean

theorem recovers_skipInt16 (value : Int16) : Recovers skipInt16 (encode16 value) () [] :=
  (recovers_int16 value).map fun _ => ()

theorem recovers_skipBytes (bytes : List UInt8) :
    Recovers (skipBytes bytes.length) bytes () [] :=
  (recovers_read bytes).map fun _ => ()

theorem reaches_message {kind : UInt8} {body : List UInt8} {rest : Unit → Parser Unit}
    {later : Parser Unit} {log : List Effect} (second : Reaches (rest ()) body log later) :
    Reaches (andThen header rest) (encodeFrame kind body) log later :=
  (recovers_header kind (body.length + 4)).reading second

theorem reaches_counted {Item : Type} {item : Parser Unit} {encode : Item → List UInt8}
    {items : List Item} {rest : Int → Unit → Parser Unit} {later : Parser Unit}
    {back : List UInt8} {log : List Effect}
    (each : ∀ one ∈ items, Recovers item (encode one) () []) (few : items.length ≤ 32767)
    (second : Reaches (rest items.length ()) back log later) :
    Reaches (andThen readInt16 fun count => andThen (times item count.toNat) (rest count))
      (encodeCounted encode items ++ back) log later := by
  have silent : items.flatMap (fun _ => ([] : List Effect)) = [] :=
    List.flatMap_eq_nil_iff.mpr fun _ _ => rfl
  have all : Recovers (times item (items.length : Int).toNat) (items.flatMap encode) () [] := by
    rw [Int.toNat_natCast, ← silent]
    exact recovers_times each
  rw [encodeCounted, List.append_assoc]
  exact (recovers_count items.length few).reading (all.reading second)

-- A parser that gets over the whole frame, from the front of the buffer.
theorem frame_decoded {parser : Parser Unit} {kind : UInt8} {body : List UInt8}
    {lines : List Effect} (recovers : Recovers parser (encodeFrame kind body) () lines)
    (fits : body.length + 4 < 2 ^ 31) (rest : List UInt8) :
    let data := encodeFrame kind body ++ rest
    (parser data 0).value = .ok () ∧ (parser data 0).log = lines ∧
      (∀ position ∈ (parser data 0).reads, position < (encodeFrame kind body).length) ∧
      ((parser data 0).offset : Int) = declaredLength data + 1 := by
  intro data
  have leads := recovers data 0 (List.prefix_append _ rest)
  refine ⟨leads.returns, ?_, ?_, ?_⟩
  · exact leads.logged
  · intro position member
    have within := leads.inside position member
    omega
  · have cursor : (parser data 0).offset = 0 + (encodeFrame kind body).length := leads.cursor
    rw [declaredLength_encodeFrame kind body rest fits, cursor, encodeFrame_length]
    omega

end Recovers

end Pgprtdbg
