import Pgprtdbg.Body.Encodings
import Pgprtdbg.Shared.CText

set_option autoImplicit false

namespace Pgprtdbg

open Walk MachineInt

section Bind

def bindBody (portal statement : CString) (codes : List Int16) (values : List (Option (List UInt8)))
    (results : List Int16) : List UInt8 :=
  portal.encode ++ (statement.encode ++ (encodeCounted encode16 codes ++
    (encodeCounted encodeSized values ++ encodeCounted encode16 results)))

structure BindMessage where
  portal : CString
  statement : CString
  codes : List Int16
  values : List (Option (List UInt8))
  results : List Int16
  few_codes : codes.length ≤ 32767
  few_values : values.length ≤ 32767
  few_results : results.length ≤ 32767
  fits : (bindBody portal statement codes values results).length + 4 < 2 ^ 31 - 1

def BindMessage.body (bind : BindMessage) : List UInt8 :=
  bindBody bind.portal bind.statement bind.codes bind.values bind.results

def BindMessage.encode (bind : BindMessage) : List UInt8 := encodeFrame 66 bind.body

def BindMessage.lines (bind : BindMessage) : List Effect :=
  [.logLine "FE: B" [],
    .logLine "    Destination: %s" [.str bind.portal.bytes],
    .logLine "    Source: %s" [.str bind.statement.bytes],
    .logLine "    Codes: %d" [.int bind.codes.length],
    .logLine "    Values: %d" [.int bind.values.length],
    .logLine "    Results: %d" [.int bind.results.length]]

theorem BindMessage.value_fits (bind : BindMessage) (bytes : List UInt8)
    (member : some bytes ∈ bind.values) : bytes.length < 2 ^ 31 := by
  have within := encode_length_le encodeSized bind.values _ member
  have fits := bind.fits
  simp only [bindBody, encodeCounted, encodeSized, List.length_append, bytes32_length] at fits within
  omega

theorem recovers_fe_BValue (value : Option (List UInt8))
    (fits : ∀ bytes ∈ value, bytes.length < 2 ^ 31) :
    Recovers fe_BValue (encodeSized value) () [] := by
  simp only [fe_BValue, bind_eq]
  cases value with
  | none =>
      rw [encodeSized, ← List.append_nil (encode32 (-1))]
      exact (recovers_int32 (-1)).reading (recovers_pure ())
  | some bytes =>
      refine (recovers_size bytes.length (fits bytes rfl)).reading ?_
      have sized : (bytes.length : Int) ≠ -1 := by omega
      rw [if_pos sized]
      exact recovers_skipBytes bytes

theorem recovers_fe_B (bind : BindMessage) : Recovers fe_B bind.encode () bind.lines := by
  simp only [fe_B, bind_eq]
  refine reaches_message ?_
  rw [BindMessage.body, bindBody, ← List.append_nil (encodeCounted encode16 bind.results)]
  refine (recovers_readString bind.portal).reading ?_
  refine (recovers_readString bind.statement).reading ?_
  refine reaches_counted (fun code _ => recovers_skipInt16 code) bind.few_codes ?_
  refine reaches_counted (fun value member => recovers_fe_BValue value ?_) bind.few_values ?_
  · intro bytes here
    exact bind.value_fits bytes (here ▸ member)
  · refine reaches_counted (fun result _ => recovers_skipInt16 result) bind.few_results ?_
    refine reaches_log (reaches_log (reaches_log ?_ _ _) _ _) _ _
    exact reaches_log (reaches_log (recovers_logLine _ _) _ _) _ _

/-- Bind is decoded exactly, whatever is behind its frame in the buffer. -/
theorem bind_decoded (bind : BindMessage) (rest : List UInt8) :
    let data := bind.encode ++ rest
    let walked := fe_B data 0
    walked.value = .ok () ∧ walked.log = bind.lines ∧
      (∀ position ∈ walked.reads, position < bind.encode.length) ∧
      (walked.offset : Int) = declaredLength data + 1 := by
  have fits := bind.fits
  exact frame_decoded (recovers_fe_B bind) (by rw [BindMessage.body]; omega) rest

end Bind

section Parse

def parseBody (name query : CString) (oids : List Int32) : List UInt8 :=
  name.encode ++ (query.encode ++ encodeCounted encode32 oids)

/-- The count of the types goes into sixteen bits, as an unsigned number. -/
structure ParseMessage where
  name : CString
  query : CString
  oids : List Int32
  counted : oids.length ≤ 65535
  fits : (parseBody name query oids).length + 4 < 2 ^ 31

def ParseMessage.body (parse : ParseMessage) : List UInt8 :=
  parseBody parse.name parse.query parse.oids

def ParseMessage.encode (parse : ParseMessage) : List UInt8 := encodeFrame 80 parse.body

-- What is in front of the types.
def ParseMessage.head (parse : ParseMessage) : List UInt8 :=
  (80 :: bytes32 (parse.body.length + 4)) ++
    (parse.name.encode ++ (parse.query.encode ++ bytes16 parse.oids.length))

def ParseMessage.opening (count : Int) (parse : ParseMessage) : List Effect :=
  [.logLine "FE: P" [],
    .logLine "    Destination: %s" [.str parse.name.bytes],
    .logLine "    Query: %s" [.str parse.query.bytes],
    .logLine "    Parameters: %d" [.int count]]

def oidLines (oid : Int32) : List Effect := [.logLine "    OID: %d" [.int oid.toInt]]

def ParseMessage.lines (parse : ParseMessage) : List Effect :=
  parse.opening parse.oids.length ++ parse.oids.flatMap oidLines

theorem encode32s_length (values : List Int32) :
    (values.flatMap encode32).length = 4 * values.length := by
  induction values with
  | nil => rfl
  | cons value values ih =>
      rw [List.flatMap_cons, List.length_append, ih, encode32_length, List.length_cons]
      omega

theorem parseBody_length (name query : CString) (oids : List Int32) :
    (parseBody name query oids).length =
      name.bytes.length + query.bytes.length + 4 * oids.length + 4 := by
  simp only [parseBody, CString.encode, encodeCounted, List.length_append, encode32s_length,
    bytes16_length, List.length_singleton]
  omega

theorem ParseMessage.encode_eq (parse : ParseMessage) :
    parse.encode = parse.head ++ parse.oids.flatMap encode32 := by
  simp [ParseMessage.encode, ParseMessage.head, ParseMessage.body, encodeFrame, parseBody,
    encodeCounted]

theorem recovers_fe_POid (oid : Int32) : Recovers fe_POid (encode32 oid) () (oidLines oid) := by
  rw [← List.append_nil (encode32 oid)]
  exact (recovers_int32 oid).reading (recovers_logLine _ _)

-- The types are read as often as the count says that comes out of an int16_t.
theorem reaches_fe_P (parse : ParseMessage) :
    Reaches fe_P parse.head (parse.opening (int16 parse.oids.length))
      (times fe_POid (int16 parse.oids.length).toNat) := by
  simp only [fe_P, bind_eq]
  rw [ParseMessage.head, ← List.append_nil (bytes16 parse.oids.length)]
  refine (recovers_header 80 _).reading ?_
  refine (recovers_readString parse.name).reading ?_
  refine (recovers_readString parse.query).reading ?_
  refine (recovers_readInt16 parse.oids.length).reading ?_
  refine reaches_log (reaches_log (reaches_log (reaches_log ?_ _ _) _ _) _ _) _ _
  exact reaches_refl _

theorem recovers_fe_P (parse : ParseMessage) (few : parse.oids.length ≤ 32767) :
    Recovers fe_P parse.encode () parse.lines := by
  have start := reaches_fe_P parse
  rw [int16_of_bounds parse.oids.length (by omega) (by omega), Int.toNat_natCast] at start
  rw [parse.encode_eq]
  exact start.trans (recovers_times fun oid _ => recovers_fe_POid oid)

theorem opening_count (parse : ParseMessage) (first second : Int) (one other : List Effect)
    (same : parse.opening first ++ one = parse.opening second ++ other) : first = second := by
  simp only [ParseMessage.opening, List.cons_append, List.cons.injEq, Effect.logLine.injEq,
    Arg.int.injEq, true_and] at same
  exact same.1.1

theorem parse_miscounted (parse : ParseMessage) (many : 32767 < parse.oids.length)
    (rest : List UInt8) : (fe_P (parse.encode ++ rest) 0).log ≠ parse.lines := by
  intro logged
  have front : parse.head <+: (parse.encode ++ rest).drop 0 := by
    rw [parse.encode_eq, List.append_assoc]
    exact List.prefix_append _ _
  have logs := (reaches_fe_P parse _ 0 front).logs
  rw [logged, ParseMessage.lines] at logs
  have count := opening_count parse _ _ _ _ logs
  have bounds := int16_bounds parse.oids.length
  omega

/-- Parse is decoded exactly for as long as the count of its types is no negative int16_t. -/
theorem parse_decoded_iff (parse : ParseMessage) (rest : List UInt8) :
    let data := parse.encode ++ rest
    let walked := fe_P data 0
    (walked.log = parse.lines ∧ (walked.offset : Int) = declaredLength data + 1) ↔
      parse.oids.length ≤ 32767 := by
  intro data walked
  constructor
  · intro decoded
    by_contra many
    exact parse_miscounted parse (by omega) rest decoded.1
  · intro few
    have whole := frame_decoded (recovers_fe_P parse few) parse.fits rest
    exact ⟨whole.2.1, whole.2.2.2⟩

def bulkParse : ParseMessage where
  name := .empty
  query := .empty
  oids := List.replicate 32768 0
  counted := by
    rw [List.length_replicate]
    omega
  fits := by
    rw [parseBody_length, List.length_replicate]
    simp only [CString.empty, List.length_nil]
    omega

theorem bulk_parse_not_decoded :
    ¬ ((fe_P bulkParse.encode 0).log = bulkParse.lines ∧
      ((fe_P bulkParse.encode 0).offset : Int) = declaredLength bulkParse.encode + 1) := by
  intro decoded
  have many : 32767 < bulkParse.oids.length := by
    rw [bulkParse, List.length_replicate]
    omega
  have misread := parse_miscounted bulkParse many []
  rw [List.append_nil] at misread
  exact misread decoded.1

end Parse

section Startup

structure StartupMessage where
  strings : List CString
  fits : (strings.flatMap CString.encode ++ [0]).length + 8 < 2 ^ 24

def StartupMessage.packet (startup : StartupMessage) : UntypedPacket :=
  ⟨196608, startup.strings.flatMap CString.encode ++ [0], startup.fits, .inl rfl⟩

-- "%s" shows its argument up to the first zero.
def Arg.printed : Arg → Arg
  | .str value => .str (CText.string value)
  | arg => arg

def Effect.printed : Effect → Effect
  | .logLine format args => .logLine format (args.map Arg.printed)
  | effect => effect

def StartupMessage.lines (startup : StartupMessage) : List Effect :=
  .logLine "FE: 0" [] :: .logLine "    Request: %d" [.int 196608] ::
    startup.strings.map fun s => .logLine "    Data: %s" [.str s.bytes]

theorem count_strings (strings : List CString) :
    (strings.flatMap CString.encode).count 0 = strings.length := by
  induction strings with
  | nil => rfl
  | cons s strings ih =>
      have text : s.bytes.count 0 = 0 := List.count_eq_zero_of_not_mem s.clean
      rw [List.flatMap_cons, List.count_append, ih, CString.encode, List.count_append, text,
        List.length_cons]
      simp
      omega

theorem fill_text (bytes text : List UInt8) (clean : 0 ∉ text) (p : Parameters) :
    text.foldl (Parameters.fill bytes) p = { p with stop := p.stop + text.length } := by
  induction text generalizing p with
  | nil => rfl
  | cons byte text ih =>
      have other : byte ≠ 0 := fun zero => clean (zero ▸ List.mem_cons_self ..)
      have more := ih (fun member => clean (List.mem_cons_of_mem byte member))
        { p with stop := p.stop + 1 }
      rw [List.foldl_cons, Parameters.fill, if_neg other, more, List.length_cons, Nat.add_assoc,
        Nat.add_comm 1]

-- One string and its zero, from where the string starts.
theorem fill_string (s : CString) (before after : List UInt8) (array : List (List UInt8)) :
    s.encode.foldl (Parameters.fill (before ++ (s.encode ++ after)))
        ⟨8 + before.length, 8 + before.length, array⟩ =
      ⟨8 + (before ++ s.encode).length, 8 + (before ++ s.encode).length, array ++ [s.encode]⟩ := by
  have size : s.encode.length = s.bytes.length + 1 := by simp [CString.encode]
  have start : 8 + before.length - 8 = before.length := by omega
  have stop : 8 + before.length + s.bytes.length + 1 = 8 + (before ++ s.encode).length := by
    rw [List.length_append]
    omega
  have count : 8 + (before ++ s.encode).length - (8 + before.length) = s.encode.length := by
    omega
  have element : ((before ++ (s.encode ++ after)).drop (8 + before.length - 8)).take
      (8 + (before ++ s.encode).length - (8 + before.length)) = s.encode := by
    rw [count, start, List.drop_left, List.take_left]
  generalize before ++ (s.encode ++ after) = bytes at element ⊢
  rw [CString.encode, List.foldl_append, fill_text bytes s.bytes s.clean, ← CString.encode,
    List.foldl_cons, List.foldl_nil, Parameters.fill, if_pos rfl]
  simp only [stop, element]

-- The second pass goes from string to string: start and end stay in step.
theorem fill_strings (strings : List CString) (before : List UInt8) (array : List (List UInt8)) :
    ((strings.flatMap CString.encode).foldl
      (Parameters.fill (before ++ strings.flatMap CString.encode))
      ⟨8 + before.length, 8 + before.length, array⟩).array = array ++ strings.map CString.encode := by
  induction strings generalizing before array with
  | nil => simp
  | cons s strings ih =>
      have more := ih (before ++ s.encode) (array ++ [s.encode])
      rw [List.append_assoc] at more
      rw [List.flatMap_cons, List.foldl_append, fill_string, more, List.append_assoc]
      rfl

theorem recovers_logData (texts : List (List UInt8)) :
    Recovers (logData texts) [] () (texts.map fun text => .logLine "    Data: %s" [.str text]) := by
  induction texts with
  | nil => exact recovers_pure ()
  | cons text texts ih =>
      simp only [logData, bind_eq]
      exact reaches_log ih _ _

theorem leads_fe_zeroParameters (strings : List CString) (data : List UInt8) (length : Int)
    (size : (int32 (length - 1) - 8).toNat = (strings.flatMap CString.encode).length)
    (here : strings.flatMap CString.encode <+: data.drop 8) :
    Leads (fe_zeroParameters length) data 8 (strings.flatMap CString.encode)
      ((strings.map CString.encode).map fun text => .logLine "    Data: %s" [.str text])
      (pure ()) := by
  have filled := fill_strings strings [] []
  simp only [List.length_nil, List.nil_append, Nat.add_zero] at filled
  have room : (strings.map CString.encode).length ≤ (strings.flatMap CString.encode).count 0 := by
    rw [count_strings, List.length_map]
  let cells := strings.flatMap CString.encode
  have taken : Recovers (Walk.read cells.length : Parser (List UInt8)) cells cells [] :=
    recovers_read cells
  have pass := taken data 8 here
  simp only [fe_zeroParameters, bind_eq, size]
  refine pass.rewind (pass.closing ?_)
  rw [filled, if_pos room]
  exact recovers_logData _ data _ List.nil_prefix

theorem reaches_fe_zero (clientFd length : Int) (size : Nat) :
    Reaches (fe_zero clientFd length) (bytes32 size ++ bytes32 196608)
      [.logLine "FE: 0" [], .logLine "    Request: %d" [.int 196608]] (fe_zeroParameters length) := by
  simp only [fe_zero, bind_eq]
  rw [← List.append_nil (bytes32 196608)]
  refine (recovers_skip (bytes32 size)).reading ?_
  refine (recovers_size 196608 (by omega)).reading ?_
  simp only [fe_zeroRequest, bind_eq]
  exact reaches_log (reaches_log (reaches_refl _) _ _) _ _

theorem printed_data (strings : List CString) :
    ((strings.map CString.encode).map fun text =>
      Effect.logLine "    Data: %s" [.str text]).map Effect.printed =
        strings.map fun s => .logLine "    Data: %s" [.str s.bytes] := by
  simp only [List.map_map]
  apply List.map_congr_left
  intro s _
  have shown : CText.string s.encode = s.bytes :=
    CText.string_of_clean s.bytes [0] s.clean (by simp)
  simp [Effect.printed, Arg.printed, shown]

/-- The parameters of a startup packet are recovered, whatever is behind it in the buffer. -/
theorem startup_recovered (clientFd : Int) (startup : StartupMessage) (rest : List UInt8) :
    let data := startup.packet.encode ++ rest
    let length := pgprtdbgReadInt32 data
    let walked := fe_zero clientFd length data 0
    let scanned := (data.drop 8).take (length - 1 - 8).toNat
    let filled := scanned.foldl (Parameters.fill scanned) ⟨8, 8, []⟩
    walked.value = .ok () ∧ walked.log.map Effect.printed = startup.lines ∧
      filled.array.length = scanned.count 0 ∧ scanned.count 0 = startup.strings.length ∧
      ∀ position ∈ walked.reads, (position : Int) < length := by
  intro data length walked scanned filled
  have fits := startup.fits
  have texts : (startup.strings.flatMap CString.encode ++ [0]).length =
      (startup.strings.flatMap CString.encode).length + 1 := by simp
  have announced : length = (startup.strings.flatMap CString.encode).length + 9 := by
    have read := startup.packet.packetLength rest
    rw [StartupMessage.packet, texts] at read
    simp only [length, data, StartupMessage.packet, read]
    omega
  have whole : data = (bytes32 (startup.packet.body.length + 8) ++ bytes32 196608) ++
      (startup.strings.flatMap CString.encode ++ ([0] ++ rest)) := by
    simp [data, UntypedPacket.encode, StartupMessage.packet]
  have here : startup.strings.flatMap CString.encode <+: data.drop 8 := by
    rw [whole, List.drop_left' (by simp)]
    exact List.prefix_append _ _
  have size : (int32 (length - 1) - 8).toNat = (startup.strings.flatMap CString.encode).length := by
    rw [int32_of_bounds _ (by omega) (by omega)]
    omega
  have scanned_eq : scanned = startup.strings.flatMap CString.encode := by
    have count : (length - 1 - 8).toNat = (startup.strings.flatMap CString.encode).length := by omega
    rw [List.prefix_iff_eq_take] at here
    simp only [scanned, count]
    exact here.symm
  have front : bytes32 (startup.packet.body.length + 8) ++ bytes32 196608 <+: data.drop 0 := by
    rw [whole]
    exact List.prefix_append _ _
  have leads := (reaches_fe_zero clientFd length _ data 0 front).trans
    (leads_fe_zeroParameters startup.strings data length size here)
  refine ⟨leads.returns, ?_, ?_, ?_, ?_⟩
  · rw [leads.logged, List.map_append, printed_data]
    rfl
  · have passes := fill_strings startup.strings [] []
    simp only [List.length_nil, List.nil_append, Nat.add_zero] at passes
    simp only [filled, scanned_eq, passes, List.length_map, count_strings]
  · rw [scanned_eq, count_strings]
  · intro position member
    have within := leads.inside position member
    simp only [List.length_append, bytes32_length] at within
    omega

end Startup

end Pgprtdbg
