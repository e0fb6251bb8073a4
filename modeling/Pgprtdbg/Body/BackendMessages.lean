import Pgprtdbg.Body.Encodings

set_option autoImplicit false

namespace Pgprtdbg

open Walk MachineInt

section Loops

variable {data cells : List UInt8} {offset : Nat}

-- A loop over the whole block has fuel for more rounds than there are bytes ahead.
theorem leads_whileReading {Vars : Type} (round : Vars → Parser (Option Vars)) (start : Vars) :
    Leads (whileReading round start) data offset [] []
      (loop round ((data.drop offset).length + 1) start) :=
  leads_of_eq rfl

-- A loop of the source that runs while its offset lies before `stop`.
theorem leads_whileBefore {Item : Type} {encode : Item → List UInt8} {lines : Item → List Effect}
    {round : Parser (Option Unit)} {items : List Item} (stop : Int) (least : Nat)
    (recovers : ∀ item ∈ items, Recovers round (encode item) (some ()) (lines item))
    (filled : ∀ item ∈ items, encode item ≠ []) (here : items.flatMap encode <+: data.drop offset)
    (ends : ((offset + (items.flatMap encode).length : Nat) : Int) = stop + least) :
    Leads (whileReading (fun _ => do
        let o ← Walk.offset
        if (o : Int) < stop then round else pure none) ()) data offset
      ((kept encode least items).flatMap encode) ((kept encode least items).flatMap lines)
      (pure ()) := by
  have within := here.length_le
  refine (leads_whileReading _ ()).trans ?_
  refine leads_kept encode recovers ?_ ?_ filled offset here rfl _ (by omega)
  · intro o before
    change (if (o : Int) < stop then round else pure none) data o = _
    rw [if_pos (by omega)]
  · intro o behind
    change (if (o : Int) < stop then round else pure none) data o = _
    rw [if_neg (by omega)]

end Loops

section ErrorResponse

def ErrorField.lines (field : ErrorField) : List Effect :=
  [.logLine "    Code: %c" [.chr field.code.toInt8],
    .logLine "    Value: %s" [.str field.text]]

structure ErrorResponse where
  fields : List ErrorField
  fits : (errorBody fields).length + 4 < 2 ^ 31

def ErrorResponse.body (response : ErrorResponse) : List UInt8 := errorBody response.fields

def ErrorResponse.encode (response : ErrorResponse) : List UInt8 := encodeFrame 69 response.body

def ErrorResponse.lines (response : ErrorResponse) : List Effect :=
  .logLine "BE: E" [] :: response.fields.flatMap ErrorField.lines

-- The fields that be_E gets to: it stops where no more than four bytes of them are left.
def ErrorResponse.shown (response : ErrorResponse) : List ErrorField :=
  kept ErrorField.encode 4 response.fields

theorem ErrorField.encode_ne_nil (field : ErrorField) : field.encode ≠ [] := by
  simp [ErrorField.encode]

theorem ErrorField.lines_ne_nil (field : ErrorField) : field.lines ≠ [] := by
  simp [ErrorField.lines]

theorem reaches_be_E (length : Int) (size : Nat) :
    Reaches (be_E length) (69 :: bytes32 size) [.logLine "BE: E" []]
      (whileReading (be_EField length) ()) := by
  simp only [be_E, bind_eq]
  rw [← List.append_nil (69 :: bytes32 size)]
  exact (recovers_header 69 size).reading (reaches_log (reaches_refl _) _ _)

theorem leads_be_E (response : ErrorResponse) (rest : List UInt8) :
    Leads (be_E (declaredLength (response.encode ++ rest))) (response.encode ++ rest) 0
      ((69 :: bytes32 (response.body.length + 4)) ++ response.shown.flatMap ErrorField.encode)
      (.logLine "BE: E" [] :: response.shown.flatMap ErrorField.lines) (pure ()) := by
  have length := declaredLength_encodeFrame 69 response.body rest response.fits
  rw [← ErrorResponse.encode] at length
  have size : response.body.length = (response.fields.flatMap ErrorField.encode).length + 1 := by
    simp [ErrorResponse.body, errorBody]
  have parts : (69 :: bytes32 (response.body.length + 4)) ++
      response.fields.flatMap ErrorField.encode <+: (response.encode ++ rest).drop 0 :=
    ⟨[0] ++ rest, by simp [ErrorResponse.encode, encodeFrame, ErrorResponse.body, errorBody]⟩
  have pieces := prefix_behind parts
  refine (reaches_be_E _ _ _ 0 pieces.1).trans ?_
  refine leads_whileBefore _ 4 ?_ (fun field _ => field.encode_ne_nil) pieces.2 ?_
  · intro field _
    have bytes : field.encode =
        [field.code] ++ (CString.encode ⟨field.text, field.text_free⟩ ++ []) := by
      simp [ErrorField.encode, CString.encode]
    rw [bytes]
    refine (recovers_readByte field.code).reading ?_
    refine (recovers_readString _).reading ?_
    refine reaches_log (reaches_log ?_ _ _) _ _
    exact recovers_pure _
  · rw [length]
    simp only [List.length_cons, bytes32_length]
    omega

/-- ErrorResponse is logged completely for as long as its last value has three bytes or more. -/
theorem error_response_logged_iff (response : ErrorResponse) (rest : List UInt8) :
    let data := response.encode ++ rest
    let walked := be_E (declaredLength data) data 0
    (walked.value = .ok () ∧ walked.log = response.lines ∧
        ∀ position ∈ walked.reads, position < response.encode.length) ↔
      ∀ field ∈ response.fields.getLast?, 3 ≤ field.text.length := by
  intro data walked
  have leads := leads_be_E response rest
  have complete : walked.log = response.lines ↔
      ∀ field ∈ response.fields.getLast?, 3 ≤ field.text.length := by
    rw [leads.logged, ErrorResponse.lines, List.cons.injEq, ErrorResponse.shown,
      kept_lines ErrorField.encode ErrorField.lines ErrorField.lines_ne_nil]
    simp only [true_and, ErrorField.encode, List.length_cons, List.length_append,
      List.length_nil]
    constructor
    · intro long field last
      have := long field last
      omega
    · intro long field last
      have := long field last
      omega
  rw [← complete]
  constructor
  · intro decoded
    exact decoded.2.1
  · intro same
    refine ⟨leads.returns, same, ?_⟩
    intro position member
    have within := leads.inside position member
    have shown := kept_cells ErrorField.encode 4 response.fields
    rw [← ErrorResponse.shown] at shown
    rw [ErrorResponse.encode, encodeFrame_length, ErrorResponse.body, errorBody, List.length_append]
    simp only [List.length_append, List.length_cons, bytes32_length] at within
    omega

theorem severity_ne_zero : (83 : UInt8) ≠ 0 := by decide

def shortResponse : ErrorResponse where
  fields := [⟨83, [69, 82, 82, 79, 82], severity_ne_zero, by decide⟩,
    ⟨77, [110, 111], by decide, by decide⟩]
  fits := by decide

theorem short_response_not_logged :
    ¬ ((be_E (declaredLength shortResponse.encode) shortResponse.encode 0).value = .ok () ∧
      (be_E (declaredLength shortResponse.encode) shortResponse.encode 0).log = shortResponse.lines ∧
      ∀ position ∈ (be_E (declaredLength shortResponse.encode) shortResponse.encode 0).reads,
        position < shortResponse.encode.length) := by
  have missing : (be_E (declaredLength shortResponse.encode) shortResponse.encode 0).log ≠
      shortResponse.lines := by decide +kernel
  intro decoded
  exact missing decoded.2.1

end ErrorResponse

section DataRow

structure DataRowMessage where
  columns : List (Option (List UInt8))
  counted : columns.length ≤ 32767
  fits : (encodeCounted encodeSized columns).length + 4 < 2 ^ 31 - 1

def DataRowMessage.encode (row : DataRowMessage) : List UInt8 :=
  encodeFrame 68 (encodeCounted encodeSized row.columns)

-- What is in front of the columns.
def DataRowMessage.head (row : DataRowMessage) : List UInt8 :=
  (68 :: bytes32 ((encodeCounted encodeSized row.columns).length + 4)) ++ bytes16 row.columns.length

def columnSize : Option (List UInt8) → Int
  | none => -1
  | some bytes => bytes.length

def columnData : Option (List UInt8) → String
  | none => "    Data: NULL"
  | some _ => "    Data: XXXX"

-- Columns are counted from one.
def columnLines (index : Nat) (column : Option (List UInt8)) : List Effect :=
  [.logLine "    Column: %d" [.int (index + 1)],
    .logLine "    Length: %d" [.int (columnSize column)],
    .logLine (columnData column) []]

def DataRowMessage.lines (row : DataRowMessage) : List Effect :=
  .logLine "BE: D" [] :: .logLine "    Columns: %d" [.int row.columns.length] ::
    (row.columns.mapIdx columnLines).flatten

theorem DataRowMessage.column_fits (row : DataRowMessage) (bytes : List UInt8)
    (member : some bytes ∈ row.columns) : bytes.length < 2 ^ 31 := by
  have within := encode_length_le encodeSized row.columns _ member
  have fits := row.fits
  simp only [encodeCounted, encodeSized, List.length_append, bytes32_length] at fits within
  omega

theorem recovers_be_DColumn (columns : Int) (index : Nat) (before : (index : Int) + 1 ≤ columns)
    (column : Option (List UInt8)) (fits : ∀ bytes ∈ column, bytes.length < 2 ^ 31) :
    Recovers (be_DColumn columns (index + 1)) (encodeSized column)
      (some (int16 (index + 1 + 1))) (columnLines index column) := by
  rw [be_DColumn, if_pos before]
  simp only [bind_eq]
  cases column with
  | none =>
      have null : ¬ (-1 : Int32).toInt ≠ -1 := by decide
      rw [encodeSized, ← List.append_nil (encode32 (-1))]
      refine (recovers_int32 (-1)).reading ?_
      refine reaches_log (reaches_log ?_ _ _) _ _
      rw [if_neg null]
      exact reaches_log (reaches_refl _) _ _
  | some bytes =>
      have sized : (bytes.length : Int) ≠ -1 := by omega
      have real : ¬ (bytes.length : Int) < 0 := by omega
      refine (recovers_size bytes.length (fits bytes rfl)).reading ?_
      refine reaches_log (reaches_log ?_ _ _) _ _
      rw [if_pos sized, if_neg real]
      exact reaches_log ((recovers_skipBytes bytes).map _) _ _

theorem reaches_columns (row : DataRowMessage) (fuel : Nat) :
    Reaches (loop (be_DColumn row.columns.length) (row.columns.length + fuel) 1)
      (row.columns.flatMap encodeSized) (row.columns.mapIdx columnLines).flatten
      (loop (be_DColumn row.columns.length) fuel (int16 (row.columns.length + 1))) := by
  have counted := row.counted
  refine reaches_loop encodeSized columnLines (fun index => int16 (index + 1)) row.columns ?_ fuel
  intro before column after split
  have size : before.length < row.columns.length := by
    rw [split]
    simp
  have member : column ∈ row.columns := by
    rw [split]
    simp
  have counter : int16 (before.length + 1) = before.length + 1 :=
    int16_of_bounds _ (by omega) (by omega)
  rw [counter, Nat.cast_add_one]
  refine recovers_be_DColumn _ before.length (by omega) column fun bytes here => ?_
  exact row.column_fits bytes (here ▸ member)

theorem DataRowMessage.encode_eq (row : DataRowMessage) :
    row.encode = row.head ++ row.columns.flatMap encodeSized := by
  simp [DataRowMessage.encode, DataRowMessage.head, encodeFrame, encodeCounted]

theorem reaches_be_D (row : DataRowMessage) :
    Reaches be_D row.head
      [.logLine "BE: D" [], .logLine "    Columns: %d" [.int row.columns.length]]
      (whileReading (be_DColumn row.columns.length) 1) := by
  simp only [be_D, bind_eq]
  rw [DataRowMessage.head, ← List.append_nil (bytes16 row.columns.length)]
  refine (recovers_header 68 _).reading ?_
  refine (recovers_count row.columns.length row.counted).reading ?_
  exact reaches_log (reaches_log (reaches_refl _) _ _) _ _

-- Behind the columns the counter is one past them, or has wrapped.
theorem leads_be_D (row : DataRowMessage) (rest : List UInt8) :
    ∃ fuel, Leads be_D (row.encode ++ rest) 0 row.encode row.lines
      (loop (be_DColumn row.columns.length) (fuel + 1) (int16 (row.columns.length + 1))) := by
  have parts : row.head ++ row.columns.flatMap encodeSized <+: (row.encode ++ rest).drop 0 := by
    rw [← row.encode_eq]
    exact List.prefix_append _ _
  have pieces := prefix_behind parts
  have few := items_le_cells encodeSized row.columns fun column _ => encodeSized_ne_nil column
  obtain ⟨fuel, left⟩ := Nat.exists_eq_add_of_le (few.trans pieces.2.length_le)
  have opened := (reaches_be_D row _ 0 pieces.1).trans
    (leads_whileReading (be_DColumn row.columns.length) 1)
  rw [left, Nat.add_assoc, List.append_nil] at opened
  have walked := opened.trans (reaches_columns row (fuel + 1) _ _ pieces.2)
  rw [← row.encode_eq] at walked
  exact ⟨fuel, walked⟩

-- A round that is still to be made runs out of the block, or logs another column.
theorem columns_go_on (columns i : Int) (before : i ≤ columns) (fuel : Nat) (data : List UInt8)
    (offset : Nat) :
    (∀ result, (loop (be_DColumn columns) (fuel + 1) i data offset).value ≠ .ok result) ∨
      (loop (be_DColumn columns) (fuel + 1) i data offset).log ≠ [] := by
  rw [loop, be_DColumn, if_pos before]
  simp only [bind_eq, andThen_assoc, logLine, readInt32]
  apply andThen_speaks
  intro bytes data offset
  rw [pure_andThen]
  exact emit_speaks _ _ _ _

theorem columns_overrun (row : DataRowMessage) (full : row.columns.length = 32767)
    (rest : List UInt8) :
    ¬ ((be_D (row.encode ++ rest) 0).value = .ok () ∧ (be_D (row.encode ++ rest) 0).log = row.lines) := by
  rintro ⟨ended, logged⟩
  obtain ⟨fuel, leads⟩ := leads_be_D row rest
  have wrapped : int16 (row.columns.length + 1) ≤ row.columns.length := by
    rw [full]
    decide
  rw [leads.returns] at ended
  rw [leads.logs, List.append_right_eq_self] at logged
  cases columns_go_on _ _ wrapped fuel (row.encode ++ rest) (0 + row.encode.length) with
  | inl astray => exact astray () ended
  | inr speaks => exact speaks logged

/-- A data row is walked exactly unless it has 32767 columns. -/
theorem row_walked_iff (row : DataRowMessage) (rest : List UInt8) :
    let data := row.encode ++ rest
    let walked := be_D data 0
    (walked.value = .ok () ∧ walked.log = row.lines ∧
        (walked.offset : Int) = declaredLength data + 1) ↔
      row.columns.length ≠ 32767 := by
  intro data walked
  constructor
  · intro decoded full
    exact columns_overrun row full rest ⟨decoded.1, decoded.2.1⟩
  · intro narrow
    have counted := row.counted
    have fits := row.fits
    obtain ⟨fuel, leads⟩ := leads_be_D row rest
    have counter : int16 (row.columns.length + 1) = row.columns.length + 1 :=
      int16_of_bounds _ (by omega) (by omega)
    have stops : be_DColumn row.columns.length (int16 (row.columns.length + 1)) = pure none := by
      rw [counter, be_DColumn, if_neg (by omega)]
    have whole := leads.trans (leads_loop_stop (by rw [stops]) fuel)
    rw [List.append_nil, List.append_nil] at whole
    refine ⟨whole.returns, whole.logged, ?_⟩
    have cursor : walked.offset = 0 + row.encode.length := whole.cursor
    have length := declaredLength_encodeFrame 68 (encodeCounted encodeSized row.columns) rest (by omega)
    rw [← DataRowMessage.encode] at length
    rw [cursor, length, DataRowMessage.encode, encodeFrame_length]
    omega

theorem nulls_length (count : Nat) :
    ((List.replicate count none).flatMap encodeSized).length = 4 * count := by
  induction count with
  | zero => rfl
  | succ count ih =>
      rw [List.replicate_succ, List.flatMap_cons, List.length_append, ih, encodeSized,
        encode32_length]
      omega

def nulls : List (Option (List UInt8)) := List.replicate 32767 none

theorem nulls_counted : nulls.length ≤ 32767 := by rw [nulls, List.length_replicate]

theorem nulls_fit : (encodeCounted encodeSized nulls).length + 4 < 2 ^ 31 - 1 := by
  rw [nulls, encodeCounted, List.length_append, bytes16_length, nulls_length]
  omega

def widestRow : DataRowMessage := ⟨nulls, nulls_counted, nulls_fit⟩

theorem widest_row_not_walked :
    ¬ ((be_D widestRow.encode 0).value = .ok () ∧ (be_D widestRow.encode 0).log = widestRow.lines ∧
      ((be_D widestRow.encode 0).offset : Int) = declaredLength widestRow.encode + 1) := by
  intro decoded
  have full : widestRow.columns.length = 32767 := List.length_replicate
  have overrun := columns_overrun widestRow full []
  rw [List.append_nil] at overrun
  exact overrun ⟨decoded.1, decoded.2.1⟩

end DataRow

section RowDescription

structure FieldDescription where
  name : CString
  oid : Int32
  attr : Int16
  typeOid : Int32
  typeLength : Int16
  typeModifier : Int32
  format : Int16

def FieldDescription.encode (field : FieldDescription) : List UInt8 :=
  field.name.encode ++ (encode32 field.oid ++ (encode16 field.attr ++ (encode32 field.typeOid ++
    (encode16 field.typeLength ++ (encode32 field.typeModifier ++ encode16 field.format)))))

def FieldDescription.lines (field : FieldDescription) : List Effect :=
  [.logLine "    Name: %s" [.str field.name.bytes],
    .logLine "    OID: %d" [.int field.oid.toInt],
    .logLine "    Attribute: %d" [.int field.attr.toInt],
    .logLine "    Type OID: %d" [.int field.typeOid.toInt],
    .logLine "    Type length: %d" [.int field.typeLength.toInt],
    .logLine "    Type modifier: %d" [.int field.typeModifier.toInt],
    .logLine "    Format: %d" [.int field.format.toInt]]

structure RowDescription where
  fields : List FieldDescription
  counted : fields.length ≤ 32767
  fits : (encodeCounted FieldDescription.encode fields).length + 4 < 2 ^ 31 - 1

def RowDescription.encode (description : RowDescription) : List UInt8 :=
  encodeFrame 84 (encodeCounted FieldDescription.encode description.fields)

def RowDescription.lines (description : RowDescription) : List Effect :=
  .logLine "BE: T" [] :: .logLine "    Number: %d" [.int description.fields.length] ::
    description.fields.flatMap FieldDescription.lines

theorem recovers_be_TField (field : FieldDescription) :
    Recovers be_TField field.encode () field.lines := by
  simp only [be_TField, bind_eq]
  rw [FieldDescription.encode, ← List.append_nil (encode16 field.format)]
  refine (recovers_readString field.name).reading ?_
  refine (recovers_int32 field.oid).reading ?_
  refine (recovers_int16 field.attr).reading ?_
  refine (recovers_int32 field.typeOid).reading ?_
  refine (recovers_int16 field.typeLength).reading ?_
  refine (recovers_int32 field.typeModifier).reading ?_
  refine (recovers_int16 field.format).reading ?_
  refine reaches_log (reaches_log (reaches_log ?_ _ _) _ _) _ _
  refine reaches_log (reaches_log (reaches_log ?_ _ _) _ _) _ _
  exact recovers_logLine _ _

theorem recovers_be_T (description : RowDescription) :
    Recovers be_T description.encode () description.lines := by
  simp only [be_T, bind_eq]
  refine reaches_message ?_
  rw [encodeCounted]
  refine (recovers_count description.fields.length description.counted).reading ?_
  refine reaches_log (reaches_log ?_ _ _) _ _
  rw [Int.toNat_natCast]
  exact recovers_times fun field _ => recovers_be_TField field

/-- RowDescription is decoded exactly, whatever is behind its frame in the buffer. -/
theorem row_description_decoded (description : RowDescription) (rest : List UInt8) :
    let data := description.encode ++ rest
    let walked := be_T data 0
    walked.value = .ok () ∧ walked.log = description.lines ∧
      (walked.offset : Int) = declaredLength data + 1 := by
  have fits := description.fits
  have whole := frame_decoded (recovers_be_T description) (by omega) rest
  exact ⟨whole.1, whole.2.1, whole.2.2.2⟩

end RowDescription

section Sasl

structure SaslMessage where
  mechanisms : List CString
  offered : mechanisms ≠ []
  named : ∀ mechanism ∈ mechanisms, mechanism.bytes ≠ []
  fits : (bytes32 10 ++ (mechanisms.flatMap CString.encode ++ [0])).length + 4 < 2 ^ 31

def SaslMessage.body (sasl : SaslMessage) : List UInt8 :=
  bytes32 10 ++ (sasl.mechanisms.flatMap CString.encode ++ [0])

def SaslMessage.encode (sasl : SaslMessage) : List UInt8 := encodeFrame 82 sasl.body

def mechanismLines (mechanism : CString) : List Effect := [.logLine "    %s" [.str mechanism.bytes]]

def SaslMessage.lines (sasl : SaslMessage) : List Effect :=
  .logLine "BE: R" [] :: .logLine "    SASL" [] :: sasl.mechanisms.flatMap mechanismLines

-- The mechanisms that be_R gets to: it stops where no more than eight bytes of them are left.
def SaslMessage.shown (sasl : SaslMessage) : List CString :=
  kept CString.encode 8 sasl.mechanisms

def SaslMessage.head (sasl : SaslMessage) : List UInt8 :=
  (82 :: bytes32 (sasl.body.length + 4)) ++ bytes32 10

theorem reaches_be_R (sasl : SaslMessage) (length : Int) :
    Reaches (be_R length) sasl.head [.logLine "BE: R" [], .logLine "    SASL" []]
      (andThen (whileReading (be_RMechanism length) ()) fun _ => skip 1) := by
  simp only [be_R, bind_eq]
  rw [SaslMessage.head, ← List.append_nil (bytes32 10)]
  refine (recovers_header 82 _).reading ?_
  refine (recovers_size 10 (by omega)).reading ?_
  refine reaches_log ?_ _ _
  exact reaches_log (reaches_refl _) _ _

theorem leads_be_R (sasl : SaslMessage) (rest : List UInt8) :
    Leads (be_R (declaredLength (sasl.encode ++ rest))) (sasl.encode ++ rest) 0
      (sasl.head ++ sasl.shown.flatMap CString.encode)
      (.logLine "BE: R" [] :: .logLine "    SASL" [] :: sasl.shown.flatMap mechanismLines)
      (skip 1) := by
  have length := declaredLength_encodeFrame 82 sasl.body rest sasl.fits
  rw [← SaslMessage.encode] at length
  have size : sasl.body.length = (sasl.mechanisms.flatMap CString.encode).length + 5 := by
    simp [SaslMessage.body]
    omega
  have parts : sasl.head ++ sasl.mechanisms.flatMap CString.encode <+:
      (sasl.encode ++ rest).drop 0 :=
    ⟨[0] ++ rest, by simp [SaslMessage.encode, SaslMessage.head, encodeFrame, SaslMessage.body]⟩
  have pieces := prefix_behind parts
  have looped : Leads (whileReading (be_RMechanism (declaredLength (sasl.encode ++ rest))) ())
      (sasl.encode ++ rest) (0 + sasl.head.length) (sasl.shown.flatMap CString.encode)
      (sasl.shown.flatMap mechanismLines) (pure ()) := by
    refine leads_whileBefore _ 8 ?_ (fun mechanism _ => mechanism.encode_ne_nil) pieces.2 ?_
    · intro mechanism _
      rw [← List.append_nil mechanism.encode]
      refine (recovers_readString mechanism).reading ?_
      exact reaches_log (reaches_refl _) _ _
    · rw [length, SaslMessage.head]
      simp only [List.length_append, List.length_cons, bytes32_length]
      omega
  exact (reaches_be_R sasl _ _ 0 pieces.1).trans (looped.andThen _)

/-- The mechanisms are logged completely as long as the name of the last has eight bytes or more. -/
theorem sasl_logged_iff (sasl : SaslMessage) (rest : List UInt8) :
    let data := sasl.encode ++ rest
    let walked := be_R (declaredLength data) data 0
    (walked.log = sasl.lines ∧ ∀ position ∈ walked.reads, position < sasl.encode.length) ↔
      8 ≤ (sasl.mechanisms.getLast sasl.offered).bytes.length := by
  intro data walked
  have leads := leads_be_R sasl rest
  have complete : walked.log = sasl.lines ↔
      8 ≤ (sasl.mechanisms.getLast sasl.offered).bytes.length := by
    have logged : walked.log = _ := leads.logs.trans (List.append_nil _)
    have speaks (mechanism : CString) : mechanismLines mechanism ≠ [] := by simp [mechanismLines]
    rw [logged, SaslMessage.lines, List.cons.injEq, List.cons.injEq, SaslMessage.shown,
      kept_lines CString.encode mechanismLines speaks, List.getLast?_eq_some_getLast sasl.offered]
    have ended (mechanism : CString) : mechanism.encode.length = mechanism.bytes.length + 1 := by
      simp [CString.encode]
    simp only [true_and, Option.mem_def, Option.some.injEq, forall_eq', ended]
    exact Nat.lt_succ_iff
  rw [← complete]
  constructor
  · intro decoded
    exact decoded.1
  · intro same
    refine ⟨same, ?_⟩
    intro position member
    cases leads.reads position member with
    | inl within =>
        have shown := kept_cells CString.encode 8 sasl.mechanisms
        rw [← SaslMessage.shown] at shown
        rw [SaslMessage.encode, encodeFrame_length, SaslMessage.body]
        simp only [SaslMessage.head, List.length_append, List.length_cons, bytes32_length] at within ⊢
        omega
    | inr nothing => cases nothing

def shortMechanism : SaslMessage where
  mechanisms := [⟨[80, 76, 65, 73, 78], by decide⟩]
  offered := by decide
  named := by decide
  fits := by decide

theorem short_mechanism_not_logged :
    ¬ ((be_R (declaredLength shortMechanism.encode) shortMechanism.encode 0).log =
        shortMechanism.lines ∧
      ∀ position ∈ (be_R (declaredLength shortMechanism.encode) shortMechanism.encode 0).reads,
        position < shortMechanism.encode.length) := by
  have missing : (be_R (declaredLength shortMechanism.encode) shortMechanism.encode 0).log ≠
      shortMechanism.lines := by decide +kernel
  intro decoded
  exact missing decoded.1

end Sasl

end Pgprtdbg
