import Pgprtdbg.Session.Transcript

set_option autoImplicit false

namespace Pgprtdbg

open Walk MachineInt Framing

def clientKinds : List UInt8 := [66, 67, 68, 69, 70, 72, 80, 81, 83, 88, 99, 100, 102, 112]

-- The types that fe_P gets to: their count comes out of an int16_t, and none are read below zero.
def ParseMessage.counted_oids (parse : ParseMessage) : List Int32 :=
  parse.oids.take (int16 parse.oids.length).toNat

def ParseMessage.told (parse : ParseMessage) : List Effect :=
  parse.opening (int16 parse.oids.length) ++ parse.counted_oids.flatMap oidLines

/--
What a frontend sends once the session is open, by the kinds of message that there are. A password
is dumped, and has to fit into the array of the dump.
-/
inductive RequestContent where
  | bind (message : BindMessage)
  | close (type : UInt8) (portal : CString)
  | describe (type : UInt8) (name : CString)
  | execute (portal : CString) (rows : Int32)
  | functionCall (arguments : List UInt8)
  | flush
  | parse (message : ParseMessage)
  | query (text : CString)
  | sync
  | terminate
  | copyDone
  | copyData (rows : List UInt8)
  | copyFail (failure : CString)
  | password (secret : List UInt8) (dumped : secret.length ≤ dumpCapacity)
  | unsupported (kind : UInt8) (body : List UInt8) (typed : kind ≠ 0) (unknown : kind ∉ clientKinds)

def RequestContent.kind : RequestContent → UInt8
  | .bind _ => 66
  | .close _ _ => 67
  | .describe _ _ => 68
  | .execute _ _ => 69
  | .functionCall _ => 70
  | .flush => 72
  | .parse _ => 80
  | .query _ => 81
  | .sync => 83
  | .terminate => 88
  | .copyDone => 99
  | .copyData _ => 100
  | .copyFail _ => 102
  | .password _ _ => 112
  | .unsupported kind _ _ _ => kind

def RequestContent.body : RequestContent → List UInt8
  | .bind message => message.body
  | .close type portal => type :: portal.encode
  | .describe type name => type :: name.encode
  | .execute portal rows => portal.encode ++ encode32 rows
  | .functionCall arguments => arguments
  | .flush => []
  | .parse message => message.body
  | .query text => text.encode
  | .sync => []
  | .terminate => []
  | .copyDone => []
  | .copyData rows => rows
  | .copyFail failure => failure.encode
  | .password secret _ => secret
  | .unsupported _ body _ _ => body

def RequestContent.lines : RequestContent → List Effect
  | .bind message => message.lines
  | .close type portal =>
      [.logLine "FE: C" [], .logLine "    Type: %c" [.chr type.toInt8],
        .logLine "    Portal: %s" [.str portal.bytes]]
  | .describe type name =>
      [.logLine "FE: D" [], .logLine "    Type: %c" [.chr type.toInt8],
        .logLine "    Name: %s" [.str name.bytes]]
  | .execute portal rows =>
      [.logLine "FE: E" [], .logLine "    Portal: %s" [.str portal.bytes],
        .logLine "    MaxRows: %d" [.int rows.toInt]]
  | .functionCall _ => []
  | .flush => [.logLine "FE: H" []]
  | .parse message => message.told
  | .query text => [.logLine "FE: Q" [], .logLine "    Query: %s" [.str text.bytes]]
  | .sync => [.logLine "FE: S" []]
  | .terminate => [.logLine "FE: X" []]
  | .copyDone => [.logLine "FE: c" []]
  | .copyData rows => [.logLine "FE: d" [], .logLine "    Size: %d" [.int rows.length]]
  | .copyFail failure => [.logLine "FE: f" [], .logLine "    Failure: %s" [.str failure.bytes]]
  | .password secret _ => [.logLine "FE: p" [], .logMem secret secret.length]
  | .unsupported kind _ _ _ =>
      [.logLine "Unsupported client message: %d" [.int kind.toInt8.toInt]]

structure Request where
  content : RequestContent
  fits : content.body.length + 4 ≤ 2 ^ 31 - 2

theorem RequestContent.kind_ne_zero (content : RequestContent) : content.kind ≠ 0 := by
  cases content with
  | unsupported kind body typed unknown => exact typed
  | _ => simp [RequestContent.kind]

def Request.frame (request : Request) : TypedFrame :=
  ⟨request.content.kind, request.content.body, request.content.kind_ne_zero, request.fits⟩

def Request.encode (request : Request) : List UInt8 := request.frame.encode

section Parsers

theorem recovers_headerString (format label : String) (kind : UInt8) (text : CString) :
    Recovers (headerString format label) (encodeFrame kind text.encode) ()
      [.logLine format [], .logLine label [.str text.bytes]] := by
  simp only [headerString, bind_eq]
  refine reaches_message ?_
  rw [← List.append_nil text.encode]
  refine (recovers_readString text).reading ?_
  exact reaches_log (recovers_logLine _ _) _ _

theorem recovers_headerTyped (format label : String) (kind type : UInt8) (text : CString) :
    Recovers (headerTyped format label) (encodeFrame kind (type :: text.encode)) ()
      [.logLine format [], .logLine "    Type: %c" [.chr type.toInt8],
        .logLine label [.str text.bytes]] := by
  simp only [headerTyped, bind_eq]
  refine reaches_message ?_
  rw [← List.append_nil text.encode]
  refine (recovers_readByte type).reading ?_
  refine (recovers_readString text).reading ?_
  exact reaches_log (reaches_log (recovers_logLine _ _) _ _) _ _

theorem recovers_headerSized (format : String) (kind : UInt8) (bytes : List UInt8) :
    Recovers (headerSized format (bytes.length + 4)) (encodeFrame kind bytes) ()
      [.logLine format [], .logLine "    Size: %d" [.int bytes.length]] := by
  simp only [headerSized, bind_eq, Int.add_sub_cancel]
  refine reaches_message ?_
  have walked : Recovers (andThen (skipBytes bytes.length) fun _ => andThen (logLine format [])
      fun _ => logLine "    Size: %d" [.int bytes.length]) (bytes ++ []) ()
        [.logLine format [], .logLine "    Size: %d" [.int bytes.length]] :=
    (recovers_skipBytes bytes).reading (reaches_log (recovers_logLine _ _) _ _)
  rwa [List.append_nil] at walked

theorem recovers_headerOnly (format : String) (kind : UInt8) (length : Nat) :
    Recovers (headerOnly format) (kind :: bytes32 length) () [.logLine format []] := by
  simp only [headerOnly, bind_eq]
  rw [← List.append_nil (kind :: bytes32 length)]
  exact (recovers_header kind length).reading (recovers_logLine _ _)

theorem recovers_fe_E (kind : UInt8) (portal : CString) (rows : Int32) :
    Recovers fe_E (encodeFrame kind (portal.encode ++ encode32 rows)) ()
      [.logLine "FE: E" [], .logLine "    Portal: %s" [.str portal.bytes],
        .logLine "    MaxRows: %d" [.int rows.toInt]] := by
  simp only [fe_E, bind_eq]
  refine reaches_message ?_
  rw [← List.append_nil (encode32 rows)]
  refine (recovers_readString portal).reading ?_
  refine (recovers_int32 rows).reading ?_
  exact reaches_log (reaches_log (recovers_logLine _ _) _ _) _ _

theorem ParseMessage.counted_oids_length (parse : ParseMessage) :
    parse.counted_oids.length = (int16 parse.oids.length).toNat := by
  have counted := parse.counted
  rw [counted_oids, List.length_take]
  unfold int16
  omega

theorem ParseMessage.told_prefix (parse : ParseMessage) :
    parse.head ++ parse.counted_oids.flatMap encode32 <+: parse.encode := by
  rw [parse.encode_eq, List.prefix_append_right_inj]
  refine ⟨(parse.oids.drop (int16 parse.oids.length).toNat).flatMap encode32, ?_⟩
  rw [counted_oids, ← List.flatMap_append, List.take_append_drop]

theorem recovers_told (parse : ParseMessage) :
    Recovers fe_P (parse.head ++ parse.counted_oids.flatMap encode32) () parse.told := by
  have types : Recovers (times fe_POid parse.counted_oids.length)
      (parse.counted_oids.flatMap encode32) () (parse.counted_oids.flatMap oidLines) :=
    recovers_times fun oid _ => recovers_fe_POid oid
  rw [parse.counted_oids_length] at types
  exact (reaches_fe_P parse).trans types

theorem reaches_fe_p (size : Nat) (fits : size < 2 ^ 31) :
    Reaches (fe_p (size + 4)) (112 :: bytes32 (size + 4)) [.logLine "FE: p" []]
      (andThen ahead fun block => andThen (emit (.logMem block size)) fun _ =>
        andThen (Walk.read size) fun _ => pure ()) := by
  have counted : sizeT (size + 4 - 4 : Int) = size := by
    have value := sizeT_of_nonneg (size : Int) (by omega) (by omega)
    rw [Int.add_sub_cancel]
    omega
  simp only [fe_p, bind_eq, counted]
  rw [← List.append_nil (112 :: bytes32 (size + 4))]
  exact (recovers_header 112 (size + 4)).reading (reaches_log (reaches_refl _) _ _)

-- The dump starts where the cursor is, so it is handed everything behind the header.
theorem leads_fe_p (secret rest : List UInt8) (fits : secret.length < 2 ^ 31) :
    Leads (fe_p (secret.length + 4)) (encodeFrame 112 secret ++ rest) 0 (encodeFrame 112 secret)
      [.logLine "FE: p" [], .logMem (secret ++ rest) secret.length] (pure ()) := by
  have pieces := @prefix_behind _ (112 :: bytes32 (secret.length + 4)) secret
    (encodeFrame 112 secret ++ rest) 0 (List.prefix_append _ rest)
  have dumped : Recovers (andThen (emit (.logMem (secret ++ rest) secret.length)) fun _ =>
      andThen (Walk.read secret.length) fun _ => pure () : Parser Unit) secret ()
        [.logMem (secret ++ rest) secret.length] :=
    ((recovers_read secret).map fun _ => ()).emit_andThen _
  have behind : (encodeFrame 112 secret ++ rest).drop
      (0 + (112 :: bytes32 (secret.length + 4)).length) = secret ++ rest := rfl
  have pointed := (reaches_fe_p secret.length fits _ 0 pieces.1).trans (leads_ahead _)
  rw [behind] at pointed
  exact pointed.trans (dumped _ _ pieces.2)

end Parsers

theorem toUInt8_ofUInt8 (byte : UInt8) : (Char.ofUInt8 byte).toUInt8 = byte := by
  change byte.toUInt32.toUInt8 = byte
  simp

theorem clientSwitch_unsupported (kind : UInt8) (length : Int) (unknown : kind ∉ clientKinds) :
    clientSwitch kind.toInt8 length =
      logLine "Unsupported client message: %d" [.int kind.toInt8.toInt] := by
  have code : (Char.ofUInt8 kind.toInt8.toUInt8).toUInt8 = kind := toUInt8_ofUInt8 kind
  unfold clientSwitch
  generalize Char.ofUInt8 kind.toInt8.toUInt8 = letter at code
  split
  case h_15 => rfl
  all_goals exact absurd (code ▸ by decide) unknown

theorem RequestContent.lines_shown (content : RequestContent) :
    content.lines.map Effect.shown = content.lines := by
  cases content with
  | parse message =>
      have types (oid : Int32) : (oidLines oid).map Effect.shown = oidLines oid := rfl
      simp [lines, ParseMessage.told, ParseMessage.opening, List.map_flatMap, types,
        Effect.shown, Effect.printed, Arg.printed, CString.shown]
  | _ =>
      simp [lines, BindMessage.lines, Effect.shown, Effect.printed, Arg.printed, CString.shown]

theorem password_logged (secret : List UInt8) (dumped : secret.length ≤ dumpCapacity)
    (fits : secret.length + 4 ≤ 2 ^ 31 - 2) :
    Logged .client ⟨112, secret, by decide, fits⟩ (RequestContent.password secret dumped).lines := by
  intro rest data walked
  have length := TypedFrame.declared ⟨112, secret, by decide, fits⟩ rest
  have leads := leads_fe_p secret rest (by omega)
  have parser : walked = fe_p (secret.length + 4) (encodeFrame 112 secret ++ rest) 0 := by
    rw [← length]
    rfl
  rw [parser]
  refine ⟨leads.returns, ?_⟩
  rw [leads.logged]
  simp [RequestContent.lines, Effect.shown, Effect.printed]

theorem Request.logged (request : Request) :
    Logged .client request.frame request.content.lines := by
  obtain ⟨content, fits⟩ := request
  have walked (front : List UInt8) (here : front <+: (Request.mk content fits).encode)
      (recovers : Recovers (clientSwitch content.kind.toInt8 (content.body.length + 4)) front ()
        content.lines) : Logged .client (Request.mk content fits).frame content.lines :=
    logged_recovers .client _ _ front here content.lines_shown recovers
  cases content with
  | bind message => exact walked _ List.prefix_rfl (recovers_fe_B message)
  | close type portal => exact walked _ List.prefix_rfl (recovers_headerTyped _ _ 67 type portal)
  | describe type name => exact walked _ List.prefix_rfl (recovers_headerTyped _ _ 68 type name)
  | execute portal rows => exact walked _ List.prefix_rfl (recovers_fe_E 69 portal rows)
  | functionCall arguments => exact walked [] List.nil_prefix (recovers_pure ())
  | flush => exact walked _ List.prefix_rfl (recovers_headerOnly _ 72 4)
  | parse message =>
      refine walked _ ?_ (recovers_told message)
      exact message.told_prefix
  | query text => exact walked _ List.prefix_rfl (recovers_headerString _ _ 81 text)
  | sync => exact walked _ List.prefix_rfl (recovers_headerOnly _ 83 4)
  | terminate => exact walked _ List.prefix_rfl (recovers_headerOnly _ 88 4)
  | copyDone => exact walked _ List.prefix_rfl (recovers_headerOnly _ 99 4)
  | copyData rows => exact walked _ List.prefix_rfl (recovers_headerSized _ 100 rows)
  | copyFail failure => exact walked _ List.prefix_rfl (recovers_headerString _ _ 102 failure)
  | password secret dumped => exact password_logged secret dumped fits
  | unsupported kind body typed unknown =>
      refine walked [] List.nil_prefix ?_
      rw [RequestContent.kind, clientSwitch_unsupported kind _ unknown]
      exact recovers_logLine _ _

theorem RequestContent.lines_inside (content : RequestContent) :
    ∀ line ∈ content.lines, (Event.effect line).touchesOther = false := by
  cases content with
  | parse message =>
      intro line member
      simp only [lines, ParseMessage.told, ParseMessage.opening, oidLines, List.mem_append,
        List.mem_flatMap, List.mem_cons, List.not_mem_nil, or_false] at member
      rcases member with (rfl | rfl | rfl | rfl) | ⟨oid, _, rfl⟩ <;> rfl
  | password secret dumped =>
      intro line member
      simp only [lines, List.mem_cons, List.not_mem_nil, or_false] at member
      rcases member with rfl | rfl
      · rfl
      · exact (touchesOther_logMem secret secret.length).mpr ⟨le_refl _, dumped⟩
  | _ => simp [lines, BindMessage.lines, Event.touchesOther]

section Run

variable (clientFd serverFd : Int)

theorem Request.unharmed (request : Request) (behind : List UInt8) :
    Unharmed .outside (Side.client.walked clientFd (request.encode ++ behind)) :=
  unharmed_logged clientFd request.logged request.content.lines_inside behind

def Request.story (request : Request) : List Event :=
  Side.client.story clientFd serverFd request.content.kind request.content.lines

-- The part of a request that is still to be completed.
def RequestPart (part : List UInt8) : Prop := ∃ request : Request, ProperPrefix part request.encode

theorem reads_requests : Reads clientNext Request.encode := fun request rest =>
  reads_client_typed request.frame rest

theorem tells_requests :
    Tells clientFd serverFd .client Request.encode (Request.story clientFd serverFd) :=
  tells_typed clientFd serverFd .client Request.frame _ Request.logged

theorem requestPart_waits (part : List UInt8) (under : RequestPart part) :
    clientNext part = none ∧ ¬ ClientExits part := by
  obtain ⟨request, proper⟩ := under
  exact ⟨clientNext_part part request.frame proper, client_part_stays part request.frame proper⟩

theorem batches_requests (requests : List Request) (tail : List UInt8) (under : RequestPart tail)
    (msgs : List Message) (cut : stream msgs = requests.flatMap Request.encode ++ tail) :
    ∃ groups, groups.flatten = requests ∧
      Batches Request.encode RequestPart [] (msgs.map Message.bytes) groups tail := by
  obtain ⟨last, proper⟩ := under
  apply batches_of_cut
  · exact cut
  · intro request rest _
    exact ⟨request.encode, request.frame.encode_ne_nil, rfl⟩
  · intro seen done more left back _ breaks
    exact breaks.part_under last proper

theorem run_requests (msgs : List Message) (nonempty : ∀ msg ∈ msgs, 0 < msg.length)
    (tail : List UInt8) (groups : List (List Request))
    (batches : Batches Request.encode RequestPart [] (msgs.map Message.bytes) groups tail)
    (start : Decoder) (empty : start.Holds []) :
    (start.calls clientFd serverFd (Side.client.calls msgs)).Holds tail ∧
      transcript (start.calls clientFd serverFd (Side.client.calls msgs)).trace =
        transcript start.trace ++ readsLog .client (Request.story clientFd serverFd) msgs groups :=
  run_told clientFd serverFd .client reads_requests (tells_requests clientFd serverFd)
    requestPart_waits msgs nonempty [] tail groups batches start empty

theorem requests_survived (requests : List Request) (tail : List UInt8) (under : RequestPart tail)
    (msgs : List Message) (nonempty : ∀ msg ∈ msgs, 0 < msg.length)
    (cut : stream msgs = requests.flatMap Request.encode ++ tail)
    (start : Decoder) (empty : start.Holds []) (small : ∀ msg ∈ msgs, msg.length ≤ dumpCapacity) :
    start.Survives .outside (start.calls clientFd serverFd (Side.client.calls msgs)) := by
  obtain ⟨last, proper⟩ := under
  refine (run_survives_iff clientFd serverFd .client reads_requests requests tail start empty msgs
    nonempty cut fun seen done more left back _ breaks => ?_).mpr ?_
  · exact requestPart_waits left (breaks.part_under last proper)
  · exact readsSurvived_of_frames clientFd .client requests msgs small
      fun request _ _ behind _ => request.unharmed clientFd behind

/--
However a session's requests are cut into reads, each read logs the requests that it completes, in
order and with all that they carry, and keeps what it has of the next one. No dump and no parser goes
outside its memory, as long as each read itself fits into a dump.
-/
theorem requests_logged (requests : List Request) (tail : List UInt8) (under : RequestPart tail)
    (msgs : List Message) (nonempty : ∀ msg ∈ msgs, 0 < msg.length)
    (cut : stream msgs = requests.flatMap Request.encode ++ tail)
    (start : Decoder) (empty : start.Holds []) :
    ∃ groups, groups.flatten = requests ∧
      Batches Request.encode RequestPart [] (msgs.map Message.bytes) groups tail ∧
      let after := start.calls clientFd serverFd (Side.client.calls msgs)
      after.Holds tail ∧
        transcript after.trace = transcript start.trace ++
          readsLog .client (Request.story clientFd serverFd) msgs groups ∧
        ((∀ msg ∈ msgs, msg.length ≤ dumpCapacity) → start.Survives .outside after) := by
  obtain ⟨groups, all, batches⟩ := batches_requests requests tail under msgs cut
  obtain ⟨holds, logged⟩ :=
    run_requests clientFd serverFd msgs nonempty tail groups batches start empty
  exact ⟨groups, all, batches, holds, logged,
    requests_survived clientFd serverFd requests tail under msgs nonempty cut start empty⟩

end Run

theorem requests_logged_query :
    ∃ groups : List (List Request),
      groups.flatten = [⟨.query ⟨[113], by decide⟩, by decide⟩, ⟨.sync, by decide⟩] ∧
      let msgs := [readChunk [81, 0, 0, 0, 6, 113], readChunk [0, 83, 0, 0, 0, 4, 88]]
      Batches Request.encode RequestPart [] (msgs.map Message.bytes) groups [88] ∧
      let after := Decoder.initial.calls 5 6 (Side.client.calls msgs)
      after.Holds [88] ∧
        transcript after.trace = readsLog .client (Request.story 5 6) msgs groups ∧
        Decoder.initial.Survives .outside after := by
  obtain ⟨groups, all, batches, holds, logged, survives⟩ := requests_logged 5 6
    [⟨.query ⟨[113], by decide⟩, by decide⟩, ⟨.sync, by decide⟩] [88]
    ⟨⟨.terminate, by decide⟩, [0, 0, 0, 4], by decide, by decide⟩
    [readChunk [81, 0, 0, 0, 6, 113], readChunk [0, 83, 0, 0, 0, 4, 88]] (by decide) (by decide)
    Decoder.initial initial_holds
  exact ⟨groups, all, batches, holds, logged, survives (by decide)⟩

end Pgprtdbg
