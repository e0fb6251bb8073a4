import Pgprtdbg.Body.BackendMessages
import Pgprtdbg.Session.Requests

set_option autoImplicit false

namespace Pgprtdbg

open Walk MachineInt Framing

-- The messages that are logged with the letter of their kind, and no more.
def bareReplies : List (UInt8 × String) :=
  [(49, "BE: 1"), (50, "BE: 2"), (51, "BE: 3"), (65, "BE: A"), (71, "BE: G"), (72, "BE: H"),
    (73, "BE: I"), (78, "BE: N"), (86, "BE: V"), (87, "BE: W"), (99, "BE: c"), (110, "BE: n"),
    (115, "BE: s"), (116, "BE: t"), (118, "BE: v")]

def serverKinds : List UInt8 :=
  [49, 50, 51, 65, 67, 68, 69, 71, 72, 73, 75, 78, 82, 83, 84, 86, 87, 90, 99, 100, 110, 115, 116, 118]

-- The line for a type of authentication; an MD5 request (5) and an unknown type have none.
def authenticationLines (type : Int) : List Effect :=
  match type with
  | 0 => [.logLine "    Success" []]
  | 2 => [.logLine "    KerberosV5" []]
  | 3 => [.logLine "    CleartextPassword" []]
  | 6 => [.logLine "    SCMCredential" []]
  | 7 => [.logLine "    GSS" []]
  | 8 => [.logLine "    GSSContinue" []]
  | 9 => [.logLine "    SSPI" []]
  | 11 => [.logLine "    SASLContinue" []]
  | 12 => [.logLine "    SASLFinal" []]
  | _ => []

inductive ReplyContent where
  | bare (kind : UInt8) (format : String) (body : List UInt8) (listed : (kind, format) ∈ bareReplies)
  | commandComplete (tag : CString)
  -- The counter of be_D cannot get past a 32767th column.
  | dataRow (message : DataRowMessage) (narrow : message.columns.length ≠ 32767)
  | errorResponse (message : ErrorResponse)
  | backendKeyData (process secret : Int32)
  | authentication (type : Int32) (more : List UInt8) (other : type ≠ 10)
  | sasl (message : SaslMessage)
  | parameterStatus (name value : CString)
  | rowDescription (message : RowDescription)
  | readyForQuery (state : UInt8)
  | copyRows (rows : List UInt8)
  | unknown (kind : UInt8) (body : List UInt8) (typed : kind ≠ 0) (other : kind ∉ serverKinds)

def ReplyContent.kind : ReplyContent → UInt8
  | .bare kind _ _ _ => kind
  | .commandComplete _ => 67
  | .dataRow _ _ => 68
  | .errorResponse _ => 69
  | .backendKeyData _ _ => 75
  | .authentication _ _ _ => 82
  | .sasl _ => 82
  | .parameterStatus _ _ => 83
  | .rowDescription _ => 84
  | .readyForQuery _ => 90
  | .copyRows _ => 100
  | .unknown kind _ _ _ => kind

def ReplyContent.body : ReplyContent → List UInt8
  | .bare _ _ body _ => body
  | .commandComplete tag => tag.encode
  | .dataRow message _ => encodeCounted encodeSized message.columns
  | .errorResponse message => message.body
  | .backendKeyData process secret => encode32 process ++ encode32 secret
  | .authentication type more _ => encode32 type ++ more
  | .sasl message => message.body
  | .parameterStatus name value => name.encode ++ value.encode
  | .rowDescription message => encodeCounted FieldDescription.encode message.fields
  | .readyForQuery state => [state]
  | .copyRows rows => rows
  | .unknown _ body _ _ => body

-- An ErrorResponse and a list of mechanisms are logged as far as their loops get.
def ReplyContent.lines : ReplyContent → List Effect
  | .bare _ format _ _ => [.logLine format []]
  | .commandComplete tag => [.logLine "BE: C" [], .logLine "    Tag: %s" [.str tag.bytes]]
  | .dataRow message _ => message.lines
  | .errorResponse message => .logLine "BE: E" [] :: message.shown.flatMap ErrorField.lines
  | .backendKeyData process secret =>
      [.logLine "BE: K" [], .logLine "    Process: %d" [.int process.toInt],
        .logLine "    Secret: %d" [.int secret.toInt]]
  | .authentication type _ _ => .logLine "BE: R" [] :: authenticationLines type.toInt
  | .sasl message =>
      .logLine "BE: R" [] :: .logLine "    SASL" [] :: message.shown.flatMap mechanismLines
  | .parameterStatus name value =>
      [.logLine "BE: S" [], .logLine "    Name: %s" [.str name.bytes],
        .logLine "    Value: %s" [.str value.bytes]]
  | .rowDescription message => message.lines
  | .readyForQuery state =>
      [.logLine "BE: Z" [], .logLine "    State: %s" [.str (CText.string [state])]]
  | .copyRows rows => [.logLine "BE: d" [], .logLine "    Size: %d" [.int rows.length]]
  | .unknown kind _ _ _ => [.logLine "Unsupported server message: %d" [.int kind.toInt8.toInt]]

structure Reply where
  content : ReplyContent
  fits : content.body.length + 4 ≤ 2 ^ 31 - 2

theorem ReplyContent.kind_ne_zero (content : ReplyContent) : content.kind ≠ 0 := by
  cases content with
  | bare kind format body listed =>
      have nonzero : ∀ pair ∈ bareReplies, pair.1 ≠ 0 := by decide
      exact nonzero _ listed
  | unknown kind body typed other => exact typed
  | _ => simp [ReplyContent.kind]

def Reply.frame (reply : Reply) : TypedFrame :=
  ⟨reply.content.kind, reply.content.body, reply.content.kind_ne_zero, reply.fits⟩

def Reply.encode (reply : Reply) : List UInt8 := reply.frame.encode

section Parsers

theorem recovers_be_K (kind : UInt8) (process secret : Int32) :
    Recovers be_K (encodeFrame kind (encode32 process ++ encode32 secret)) ()
      [.logLine "BE: K" [], .logLine "    Process: %d" [.int process.toInt],
        .logLine "    Secret: %d" [.int secret.toInt]] := by
  simp only [be_K, bind_eq]
  refine reaches_message ?_
  rw [← List.append_nil (encode32 secret)]
  refine (recovers_int32 process).reading ?_
  refine (recovers_int32 secret).reading ?_
  exact reaches_log (reaches_log (recovers_logLine _ _) _ _) _ _

theorem recovers_be_S (kind : UInt8) (name value : CString) :
    Recovers be_S (encodeFrame kind (name.encode ++ value.encode)) ()
      [.logLine "BE: S" [], .logLine "    Name: %s" [.str name.bytes],
        .logLine "    Value: %s" [.str value.bytes]] := by
  simp only [be_S, bind_eq]
  refine reaches_message ?_
  rw [← List.append_nil value.encode]
  refine (recovers_readString name).reading ?_
  refine (recovers_readString value).reading ?_
  exact reaches_log (reaches_log (recovers_logLine _ _) _ _) _ _

theorem recovers_be_Z (kind state : UInt8) :
    Recovers be_Z (encodeFrame kind [state]) ()
      [.logLine "BE: Z" [], .logLine "    State: %s" [.str (CText.string [state])]] := by
  simp only [be_Z, bind_eq]
  refine reaches_message ?_
  rw [← List.append_nil [state]]
  refine (recovers_read [state]).reading ?_
  exact reaches_log (recovers_logLine _ _) _ _

-- Behind its line a type of authentication only moves the cursor.
theorem reaches_authentication (type : Int32) (other : type ≠ 10) (length : Int) (size : Nat) :
    ∃ later, Reaches (be_R length) (82 :: bytes32 size ++ encode32 type) [.logLine "BE: R" []] later ∧
      ∀ data offset, (later data offset).value = .ok () ∧
        (later data offset).log = authenticationLines type.toInt := by
  have sasl : type.toInt ≠ 10 := fun same => other (Int32.toInt_inj.mp same)
  simp only [be_R, bind_eq]
  rw [← List.append_nil (encode32 type)]
  refine ⟨_, (recovers_header 82 size).reading ((recovers_int32 type).reading
    (reaches_log (reaches_refl _) _ _)), ?_⟩
  intro data offset
  generalize type.toInt = number at sasl
  unfold authenticationLines
  split
  case h_9 => exact absurd rfl sasl
  all_goals first | exact ⟨rfl, rfl⟩ | simp_all [pure]

theorem leads_row (row : DataRowMessage) (narrow : row.columns.length ≠ 32767) (rest : List UInt8) :
    Leads be_D (row.encode ++ rest) 0 row.encode row.lines (pure ()) := by
  have counted := row.counted
  obtain ⟨fuel, leads⟩ := leads_be_D row rest
  have counter : int16 (row.columns.length + 1) = row.columns.length + 1 :=
    int16_of_bounds _ (by omega) (by omega)
  have stops : be_DColumn row.columns.length (int16 (row.columns.length + 1)) = pure none := by
    rw [counter, be_DColumn, if_neg (by omega)]
  have whole := leads.trans (leads_loop_stop (by rw [stops]) fuel)
  rwa [List.append_nil, List.append_nil] at whole

end Parsers

theorem serverSwitch_unknown (kind : UInt8) (length : Int) (other : kind ∉ serverKinds) :
    serverSwitch kind.toInt8 length =
      logLine "Unsupported server message: %d" [.int kind.toInt8.toInt] := by
  have code : (Char.ofUInt8 kind.toInt8.toUInt8).toUInt8 = kind := toUInt8_ofUInt8 kind
  unfold serverSwitch
  generalize Char.ofUInt8 kind.toInt8.toUInt8 = letter at code
  split
  case h_25 => rfl
  all_goals exact absurd (code ▸ by decide) other

theorem serverSwitch_bare (kind : UInt8) (format : String) (length : Int)
    (listed : (kind, format) ∈ bareReplies) : serverSwitch kind.toInt8 length = headerOnly format := by
  simp only [bareReplies, List.mem_cons, Prod.mk.injEq, List.not_mem_nil, or_false] at listed
  rcases listed with ⟨rfl, rfl⟩ | ⟨rfl, rfl⟩ | ⟨rfl, rfl⟩ | ⟨rfl, rfl⟩ | ⟨rfl, rfl⟩ | ⟨rfl, rfl⟩ |
    ⟨rfl, rfl⟩ | ⟨rfl, rfl⟩ | ⟨rfl, rfl⟩ | ⟨rfl, rfl⟩ | ⟨rfl, rfl⟩ | ⟨rfl, rfl⟩ | ⟨rfl, rfl⟩ |
    ⟨rfl, rfl⟩ | ⟨rfl, rfl⟩ <;> rfl

theorem lines_flatMap_shown {Item : Type} {lines : Item → List Effect}
    (each : ∀ item, (lines item).map Effect.shown = lines item) (items : List Item) :
    (items.flatMap lines).map Effect.shown = items.flatMap lines := by
  simp only [List.map_flatMap, each]

theorem ErrorField.lines_shown (field : ErrorField) :
    field.lines.map Effect.shown = field.lines := by
  simp [lines, Effect.shown, Effect.printed, Arg.printed,
    CText.string_clean field.text field.text_free]

theorem mechanismLines_shown (mechanism : CString) :
    (mechanismLines mechanism).map Effect.shown = mechanismLines mechanism := by
  simp [mechanismLines, Effect.shown, Effect.printed, Arg.printed, mechanism.shown]

theorem FieldDescription.lines_shown (field : FieldDescription) :
    field.lines.map Effect.shown = field.lines := by
  simp [lines, Effect.shown, Effect.printed, Arg.printed, CString.shown]

theorem columnLines_shown (columns : List (Option (List UInt8))) :
    (columns.mapIdx columnLines).flatten.map Effect.shown =
      (columns.mapIdx columnLines).flatten := by
  have column (index : Nat) (column : Option (List UInt8)) :
      (columnLines index column).map Effect.shown = columnLines index column := rfl
  rw [List.map_flatten]
  congr 1
  refine (List.map_congr_left ?_).trans (List.map_id _)
  intro lines member
  obtain ⟨index, _, rfl⟩ := List.mem_mapIdx.mp member
  exact column index _

theorem authenticationLines_shown (type : Int) :
    (authenticationLines type).map Effect.shown = authenticationLines type := by
  unfold authenticationLines
  split <;> rfl

theorem ReplyContent.lines_shown (content : ReplyContent) :
    content.lines.map Effect.shown = content.lines := by
  cases content with
  | dataRow message narrow =>
      simp only [lines, DataRowMessage.lines, List.map_cons, columnLines_shown]
      rfl
  | errorResponse message =>
      simp only [lines, List.map_cons, lines_flatMap_shown ErrorField.lines_shown]
      rfl
  | authentication type more other =>
      simp only [lines, List.map_cons, authenticationLines_shown]
      rfl
  | sasl message =>
      simp only [lines, List.map_cons, lines_flatMap_shown mechanismLines_shown]
      rfl
  | rowDescription message =>
      simp only [lines, RowDescription.lines, List.map_cons,
        lines_flatMap_shown FieldDescription.lines_shown]
      rfl
  | readyForQuery state =>
      have again : CText.string (CText.string [state]) = CText.string [state] := List.takeWhile_idem
      simp [lines, Effect.shown, Effect.printed, Arg.printed, again]
  | _ => simp [lines, Effect.shown, Effect.printed, Arg.printed, CString.shown]

-- The parsers whose loops do not take the whole of the body, or that look past it.
theorem logged_leads (frame : TypedFrame) (lines : List Effect) (plain : lines.map Effect.shown = lines)
    (leads : ∀ rest, ∃ front later, (∀ data offset, ((later : Parser Unit) data offset).value = .ok () ∧
        (later data offset).log = []) ∧
      Leads (serverSwitch frame.kind.toInt8 (declaredLength (frame.encode ++ rest)))
        (frame.encode ++ rest) 0 front lines later) :
    Logged .server frame lines := by
  intro rest data walked
  obtain ⟨front, later, ends, leads⟩ := leads rest
  refine ⟨leads.returns.trans (ends _ _).1, ?_⟩
  have logs := leads.logs
  rw [(ends _ _).2, List.append_nil] at logs
  exact (congrArg (List.map Effect.shown) logs).trans plain

theorem Reply.logged (reply : Reply) : Logged .server reply.frame reply.content.lines := by
  obtain ⟨content, fits⟩ := reply
  have walked (front : List UInt8) (here : front <+: (Reply.mk content fits).encode)
      (recovers : Recovers (serverSwitch content.kind.toInt8 (content.body.length + 4)) front ()
        content.lines) : Logged .server (Reply.mk content fits).frame content.lines :=
    logged_recovers .server _ _ front here content.lines_shown recovers
  have nothing (data : List UInt8) (offset : Nat) : ((pure () : Parser Unit) data offset).value = .ok () ∧
      ((pure () : Parser Unit) data offset).log = [] := ⟨rfl, rfl⟩
  have skipped (data : List UInt8) (offset : Nat) : ((skip 1 : Parser Unit) data offset).value = .ok () ∧
      ((skip 1 : Parser Unit) data offset).log = [] := ⟨rfl, rfl⟩
  cases content with
  | bare kind format body listed =>
      refine walked (kind :: bytes32 (body.length + 4)) ⟨body, rfl⟩ ?_
      rw [ReplyContent.kind, serverSwitch_bare kind format _ listed]
      exact recovers_headerOnly format kind _
  | commandComplete tag => exact walked _ List.prefix_rfl (recovers_headerString _ _ 67 tag)
  | dataRow message narrow =>
      refine logged_leads _ _ (ReplyContent.lines_shown _) fun rest => ?_
      exact ⟨_, _, nothing, leads_row message narrow rest⟩
  | errorResponse message =>
      refine logged_leads _ _ (ReplyContent.lines_shown _) fun rest => ?_
      exact ⟨_, _, nothing, leads_be_E message rest⟩
  | backendKeyData process secret =>
      exact walked _ List.prefix_rfl (recovers_be_K 75 process secret)
  | authentication type more other =>
      intro rest data walk
      obtain ⟨later, reaches, ends⟩ := reaches_authentication type other
        (declaredLength data) ((encode32 type ++ more).length + 4)
      have leads := reaches data 0 ⟨more ++ rest, by simp [data, Reply.frame, TypedFrame.encode,
        ReplyContent.kind, ReplyContent.body]⟩
      refine ⟨leads.returns.trans (ends _ _).1, ?_⟩
      have logs : walk.log = _ := leads.logs
      rw [logs, (ends _ _).2]
      exact ReplyContent.lines_shown (.authentication type more other)
  | sasl message =>
      refine logged_leads _ _ (ReplyContent.lines_shown _) fun rest => ?_
      exact ⟨_, _, skipped, leads_be_R message rest⟩
  | parameterStatus name value => exact walked _ List.prefix_rfl (recovers_be_S 83 name value)
  | rowDescription message => exact walked _ List.prefix_rfl (recovers_be_T message)
  | readyForQuery state => exact walked _ List.prefix_rfl (recovers_be_Z 90 state)
  | copyRows rows => exact walked _ List.prefix_rfl (recovers_headerSized _ 100 rows)
  | unknown kind body typed other =>
      refine walked [] List.nil_prefix ?_
      rw [ReplyContent.kind, serverSwitch_unknown kind _ other]
      exact recovers_logLine _ _

section Run

variable (clientFd serverFd : Int)

-- Of the backend parsers none dumps, so those that return stay inside.
theorem Reply.unharmed (reply : Reply) (behind : List UInt8) :
    Unharmed .outside (Side.server.walked clientFd (reply.encode ++ behind)) := by
  have walked := walked_typed clientFd .server reply.frame behind
  have returns := (reply.logged behind).1
  rw [Reply.encode, walked]
  exact unharmed_quiet (quiet_plain (built_serverSwitch _ _)) _ returns

def Reply.story (reply : Reply) : List Event :=
  Side.server.story clientFd serverFd reply.content.kind reply.content.lines

-- A lone 'N' is not waited on, but taken for the answer to an SSLRequest.
def ReplyPart (part : List UInt8) : Prop :=
  (∃ reply : Reply, ProperPrefix part reply.encode) ∧ part ≠ [78]

theorem reads_replies : Reads serverNext Reply.encode := fun reply rest =>
  reads_server_typed reply.frame rest

theorem tells_replies :
    Tells clientFd serverFd .server Reply.encode (Reply.story clientFd serverFd) :=
  tells_typed clientFd serverFd .server Reply.frame _ Reply.logged

theorem replyPart_waits (part : List UInt8) (under : ReplyPart part) :
    serverNext part = none ∧ ¬ Side.server.Exits part := by
  obtain ⟨⟨reply, proper⟩, other⟩ := under
  refine ⟨?_, id⟩
  rw [serverNext_eq part other]
  exact typedNext_part part reply.frame proper

theorem batches_replies (replies : List Reply) (tail : List UInt8)
    (under : ∃ reply : Reply, ProperPrefix tail reply.encode) (msgs : List Message)
    (cut : stream msgs = replies.flatMap Reply.encode ++ tail)
    (apart : ∀ seen (done : List Reply), seen <+: msgs →
      stream seen ≠ done.flatMap Reply.encode ++ [78]) :
    ∃ groups, groups.flatten = replies ∧
      Batches Reply.encode ReplyPart [] (msgs.map Message.bytes) groups tail := by
  obtain ⟨last, proper⟩ := under
  apply batches_of_cut
  · exact cut
  · intro reply rest _
    exact ⟨reply.encode, reply.frame.encode_ne_nil, rfl⟩
  · intro seen done more left back before breaks
    refine ⟨breaks.part_under last proper, fun lone => ?_⟩
    obtain ⟨read, prefixed, rfl⟩ := List.prefix_map_iff.mp before
    have front := breaks.front
    rw [lone] at front
    exact apart read done prefixed front

theorem run_replies (msgs : List Message) (nonempty : ∀ msg ∈ msgs, 0 < msg.length)
    (tail : List UInt8) (groups : List (List Reply))
    (batches : Batches Reply.encode ReplyPart [] (msgs.map Message.bytes) groups tail)
    (start : Decoder) (empty : start.Holds []) :
    (start.calls clientFd serverFd (Side.server.calls msgs)).Holds tail ∧
      transcript (start.calls clientFd serverFd (Side.server.calls msgs)).trace =
        transcript start.trace ++ readsLog .server (Reply.story clientFd serverFd) msgs groups :=
  run_told clientFd serverFd .server reads_replies (tells_replies clientFd serverFd)
    replyPart_waits msgs nonempty [] tail groups batches start empty

theorem replies_survived (replies : List Reply) (tail : List UInt8)
    (under : ∃ reply : Reply, ProperPrefix tail reply.encode)
    (msgs : List Message) (nonempty : ∀ msg ∈ msgs, 0 < msg.length)
    (cut : stream msgs = replies.flatMap Reply.encode ++ tail)
    (apart : ∀ seen (done : List Reply), seen <+: msgs →
      stream seen ≠ done.flatMap Reply.encode ++ [78])
    (start : Decoder) (empty : start.Holds []) (small : ∀ msg ∈ msgs, msg.length ≤ dumpCapacity) :
    start.Survives .outside (start.calls clientFd serverFd (Side.server.calls msgs)) := by
  obtain ⟨last, proper⟩ := under
  refine (run_survives_iff clientFd serverFd .server reads_replies replies tail start empty msgs
    nonempty cut fun seen done more left back before breaks => ?_).mpr ?_
  · refine replyPart_waits left ⟨breaks.part_under last proper, fun lone => ?_⟩
    exact apart seen done before (lone ▸ breaks.front)
  · exact readsSurvived_of_frames clientFd .server replies msgs small
      fun reply _ _ behind _ => reply.unharmed clientFd behind

/--
However a session's replies are cut into reads, each read logs the replies that it completes, in
order and with all that they carry, as long as no read leaves the byte 'N' on its own.
-/
theorem replies_logged (replies : List Reply) (tail : List UInt8)
    (under : ∃ reply : Reply, ProperPrefix tail reply.encode)
    (msgs : List Message) (nonempty : ∀ msg ∈ msgs, 0 < msg.length)
    (cut : stream msgs = replies.flatMap Reply.encode ++ tail)
    (apart : ∀ seen (done : List Reply), seen <+: msgs →
      stream seen ≠ done.flatMap Reply.encode ++ [78])
    (start : Decoder) (empty : start.Holds []) :
    ∃ groups, groups.flatten = replies ∧
      Batches Reply.encode ReplyPart [] (msgs.map Message.bytes) groups tail ∧
      let after := start.calls clientFd serverFd (Side.server.calls msgs)
      after.Holds tail ∧
        transcript after.trace = transcript start.trace ++
          readsLog .server (Reply.story clientFd serverFd) msgs groups ∧
        ((∀ msg ∈ msgs, msg.length ≤ dumpCapacity) → start.Survives .outside after) := by
  obtain ⟨groups, all, batches⟩ := batches_replies replies tail under msgs cut apart
  obtain ⟨holds, logged⟩ :=
    run_replies clientFd serverFd msgs nonempty tail groups batches start empty
  exact ⟨groups, all, batches, holds, logged,
    replies_survived clientFd serverFd replies tail under msgs nonempty cut apart start empty⟩

end Run

theorem replies_logged_ready :
    ∃ groups : List (List Reply), groups.flatten = [⟨.readyForQuery 73, by decide⟩] ∧
      let msgs := [readChunk [90, 0, 0], readChunk [0, 5, 73, 78, 0]]
      Batches Reply.encode ReplyPart [] (msgs.map Message.bytes) groups [78, 0] ∧
      let after := Decoder.initial.calls 5 6 (Side.server.calls msgs)
      after.Holds [78, 0] ∧
        transcript after.trace = readsLog .server (Reply.story 5 6) msgs groups ∧
        Decoder.initial.Survives .outside after := by
  have apart (seen : List Message) (done : List Reply)
      (before : seen <+: [readChunk [90, 0, 0], readChunk [0, 5, 73, 78, 0]]) :
      stream seen ≠ done.flatMap Reply.encode ++ [78] := by
    intro lone
    have ends := congrArg List.getLast? lone
    simp only [List.prefix_cons_iff, List.prefix_nil] at before
    rcases before with rfl | ⟨_, rfl, rfl | ⟨_, rfl, rfl⟩⟩ <;>
      simp [stream, Message.bytes, readChunk, pgprtdbgReadMessage, storeChunk, List.range_succ] at ends
  obtain ⟨groups, all, batches, holds, logged, survives⟩ := replies_logged 5 6
    [⟨.readyForQuery 73, by decide⟩] [78, 0]
    ⟨⟨.bare 78 "BE: N" [] (by decide), by decide⟩, [0, 0, 4], by decide, by decide⟩
    [readChunk [90, 0, 0], readChunk [0, 5, 73, 78, 0]] (by decide) (by decide) apart
    Decoder.initial initial_holds
  exact ⟨groups, all, batches, holds, logged, survives (by decide)⟩

end Pgprtdbg
