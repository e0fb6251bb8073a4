import Pgprtdbg.Session.Replies

set_option autoImplicit false

namespace Pgprtdbg

open Walk MachineInt Framing

inductive Opening where
  | startup (message : StartupMessage)
  | cancelRequest (process secret : Int32)
  | sslRequest
  | gssEncRequest

def Opening.packet : Opening → UntypedPacket
  | .startup message => message.packet
  | .cancelRequest process secret =>
      ⟨80877102, encode32 process ++ encode32 secret, by simp, by simp⟩
  | .sslRequest => ⟨80877103, [], by simp, by simp⟩
  | .gssEncRequest => ⟨80877104, [], by simp, by simp⟩

def Opening.encode (opening : Opening) : List UInt8 := opening.packet.encode

def Opening.lines : Opening → List Effect
  | .startup message => message.lines
  | .cancelRequest process secret =>
      [.logLine "FE: 0" [], .logLine "    Request: %d" [.int 80877102],
        .logLine "    PID: %d" [.int process.toInt], .logLine "    Secret: %d" [.int secret.toInt]]
  | .sslRequest => [.logLine "FE: 0" [], .logLine "    Request: %d" [.int 80877103]]
  | .gssEncRequest => [.logLine "FE: 0" [], .logLine "    Request: %d" [.int 80877104]]

-- An opening packet has no line in the trace.
def Opening.story (opening : Opening) : List Event := opening.lines.map Event.effect

section Opening

variable (clientFd : Int)

theorem leads_startup (startup : StartupMessage) (rest : List UInt8) :
    let data := startup.packet.encode ++ rest
    Leads (fe_zero clientFd (pgprtdbgReadInt32 data)) data 0
      (bytes32 (startup.packet.body.length + 8) ++ bytes32 196608 ++
        startup.strings.flatMap CString.encode)
      ([.logLine "FE: 0" [], .logLine "    Request: %d" [.int 196608]] ++
        (startup.strings.map CString.encode).map fun text => .logLine "    Data: %s" [.str text])
      (pure ()) := by
  intro data
  have fits := startup.fits
  have texts : startup.packet.body.length = (startup.strings.flatMap CString.encode).length + 1 := by
    simp [StartupMessage.packet]
  have announced : pgprtdbgReadInt32 data = startup.packet.body.length + 8 :=
    startup.packet.packetLength rest
  have parts : bytes32 (startup.packet.body.length + 8) ++ bytes32 196608 ++
      startup.strings.flatMap CString.encode <+: data.drop 0 :=
    ⟨[0] ++ rest, by simp [data, UntypedPacket.encode, StartupMessage.packet]⟩
  have pieces := prefix_behind parts
  have size : (int32 (pgprtdbgReadInt32 data - 1) - 8).toNat =
      (startup.strings.flatMap CString.encode).length := by
    have small : startup.packet.body.length + 8 < 2 ^ 24 := startup.packet.fits
    rw [announced, int32_of_bounds _ (by omega) (by omega)]
    omega
  exact (reaches_fe_zero clientFd _ _ data 0 pieces.1).trans
    (leads_fe_zeroParameters startup.strings data _ size pieces.2)

-- A request with no parameters: SSLRequest and GSSENCRequest.
theorem reaches_request (length : Int) (size request : Nat) (small : request < 2 ^ 31) :
    Reaches (fe_zero clientFd length) (bytes32 size ++ bytes32 request)
      [] (fe_zeroRequest clientFd length request) := by
  simp only [fe_zero, bind_eq]
  rw [← List.append_nil (bytes32 request)]
  refine (recovers_skip (bytes32 size)).reading ?_
  exact (recovers_size request small).reading (reaches_refl _)

theorem recovers_encryption (length : Int) (size request : Nat)
    (asks : request = 80877103 ∨ request = 80877104) :
    Recovers (fe_zero clientFd length) (bytes32 size ++ bytes32 request) ()
      [.logLine "FE: 0" [], .logLine "    Request: %d" [.int request]] := by
  have opened := reaches_request clientFd length size request (by omega)
  have logged : Recovers (fe_zeroRequest clientFd length request) [] ()
      [.logLine "FE: 0" [], .logLine "    Request: %d" [.int request]] := by
    simp only [fe_zeroRequest, bind_eq]
    refine reaches_log (reaches_log ?_ _ _) _ _
    rcases asks with rfl | rfl <;> exact recovers_pure ()
  have whole := opened.trans logged
  rwa [List.append_nil] at whole

theorem recovers_cancel (length : Int) (size : Nat) (process secret : Int32) :
    Recovers (fe_zero clientFd length)
      ((bytes32 size ++ bytes32 80877102) ++ (encode32 process ++ encode32 secret)) ()
      (Opening.cancelRequest process secret).lines := by
  refine (reaches_request clientFd length size 80877102 (by omega)).trans ?_
  simp only [fe_zeroRequest, bind_eq]
  rw [← List.append_nil (encode32 secret)]
  refine reaches_log (reaches_log ?_ _ _) _ _
  refine (recovers_int32 process).reading (reaches_log ?_ _ _)
  exact (recovers_int32 secret).reading (recovers_logLine _ _)

theorem shown_data (strings : List CString) :
    ((strings.map CString.encode).map fun text =>
      Effect.logLine "    Data: %s" [.str text]).map Effect.shown =
        strings.map fun s => .logLine "    Data: %s" [.str s.bytes] := by
  have printed := printed_data strings
  simp only [List.map_map] at printed ⊢
  exact printed

theorem Opening.walked (opening : Opening) (rest : List UInt8) :
    let data := opening.encode ++ rest
    let walked := fe_zero clientFd (pgprtdbgReadInt32 data) data 0
    walked.value = .ok () ∧ walked.log.map Effect.shown = opening.lines := by
  intro data walked
  have front_of {front : List UInt8} {lines : List Effect} (here : front <+: opening.encode)
      (recovers : Recovers (fe_zero clientFd (pgprtdbgReadInt32 data)) front () lines)
      (plain : lines.map Effect.shown = opening.lines) :
      walked.value = .ok () ∧ walked.log.map Effect.shown = opening.lines := by
    have leads := recovers data 0 (here.trans (List.prefix_append _ rest))
    exact ⟨leads.returns, (congrArg (List.map Effect.shown) leads.logged).trans plain⟩
  cases opening with
  | startup message =>
      have leads := leads_startup clientFd message rest
      refine ⟨leads.returns, (congrArg (List.map Effect.shown) leads.logged).trans ?_⟩
      rw [List.map_append, shown_data]
      rfl
  | cancelRequest process secret =>
      refine front_of ?_ (recovers_cancel clientFd _ 16 process secret) rfl
      simp [encode, packet, UntypedPacket.encode]
  | sslRequest =>
      refine front_of ?_ (recovers_encryption clientFd _ 8 80877103 (by simp)) rfl
      simp [encode, packet, UntypedPacket.encode]
  | gssEncRequest =>
      refine front_of ?_ (recovers_encryption clientFd _ 8 80877104 (by simp)) rfl
      simp [encode, packet, UntypedPacket.encode]

theorem reads_opening : Reads clientNext Opening.encode := fun opening rest =>
  reads_client_untyped opening.packet rest

theorem tells_opening (serverFd : Int) :
    Tells clientFd serverFd .client Opening.encode Opening.story := by
  intro opening rest
  have walked := opening.walked clientFd rest
  have zero : (opening.encode ++ rest).getD 0 0 = 0 := opening.packet.head_zero rest
  change transcript (clientEvents clientFd serverFd (opening.encode ++ rest)) = _
  rw [clientEvents, if_pos zero, untypedEvents, transcript_append, transcript_parsed _ walked.1]
  exact (List.append_nil _).trans (congrArg (List.map Event.effect) walked.2)

theorem Opening.unharmed (opening : Opening) (rest : List UInt8) :
    Unharmed .outside (Side.client.walked clientFd (opening.encode ++ rest)) := by
  have zero : (opening.encode ++ rest).getD 0 0 = 0 := opening.packet.head_zero rest
  rw [Side.walked, Side.parser, if_pos zero]
  exact unharmed_quiet (quiet_fe_zero clientFd _) _ (opening.walked clientFd rest).1

end Opening

section Refusal

-- The answer to an SSLRequest or a GSSENCRequest of a server that goes on without encryption.
def refusalStory : List Event := [.effect (.logLine "BE: N" [])]

theorem refusal_call (clientFd serverFd : Int) (msg : Message) (lone : msg.bytes = [78])
    (d : Decoder) (empty : d.Holds []) :
    (d.call clientFd serverFd ⟨.server, msg⟩).Holds [] ∧
      (d.call clientFd serverFd ⟨.server, msg⟩).trace = d.trace ++
        (chunkEvents Side.server.title msg ++ (refusalStory ++ [.dataRemove 1 1]) ++
          [.logUnlock]) := by
  have size := msg.bytes_length
  rw [lone, List.length_singleton] at size
  have cuts : Cuts serverNext [78] [[78]] [] :=
    @Cuts.cons _ serverNext [78] [] [] 1 (by decide) (by decide) (by decide) (.nil [])
  have splits : Splits serverNext ([] ++ msg.bytes) [[78]] [] := by
    rw [lone]
    exact ⟨cuts, rfl⟩
  have stop := call_stop clientFd serverFd .server msg d [] [] [[78]] empty (by omega) splits id
  refine ⟨stop.1, ?_⟩
  rw [stop.2.1, List.append_assoc, List.append_assoc, List.append_assoc]
  rfl

theorem refusal_told (clientFd serverFd : Int) (msg : Message) (lone : msg.bytes = [78])
    (d : Decoder) (empty : d.Holds []) :
    (d.call clientFd serverFd ⟨.server, msg⟩).Holds [] ∧
      transcript (d.call clientFd serverFd ⟨.server, msg⟩).trace = transcript d.trace ++
        (chunkEvents Side.server.title msg ++ refusalStory ++ [.logUnlock]) := by
  obtain ⟨holds, traced⟩ := refusal_call clientFd serverFd msg lone d empty
  refine ⟨holds, ?_⟩
  rw [traced]
  simp only [transcript_append, transcript_chunkEvents, transcript_unlock, List.append_assoc]
  rfl

theorem refusal_survived (clientFd serverFd : Int) (msg : Message) (lone : msg.bytes = [78])
    (d : Decoder) (empty : d.Holds []) :
    d.Survives .outside (d.call clientFd serverFd ⟨.server, msg⟩) := by
  have small : msg.length ≤ dumpCapacity := by
    rw [← msg.bytes_length, lone]
    decide
  have answered : Unharmed .outside (refusalStory ++ [.dataRemove 1 1]) := by
    simp [Unharmed, spare_outside, refusalStory, Event.touchesOther]
  rw [survives_iff (refusal_call clientFd serverFd msg lone d empty).2, unharmed_append,
    unharmed_append]
  exact ⟨⟨chunkEvents_unharmed _ msg small, answered⟩, unharmed_unlock⟩

end Refusal

/-- What one party sends before the other one answers. -/
inductive Turn where
  | opening (packet : Opening) (msg : Message) (whole : msg.bytes = packet.encode)
  | refusal (msg : Message) (lone : msg.bytes = [78])
  | requests (requests : List Request) (msgs : List Message)
      (nonempty : ∀ msg ∈ msgs, 0 < msg.length)
      (whole : stream msgs = requests.flatMap Request.encode)
  | replies (replies : List Reply) (msgs : List Message) (nonempty : ∀ msg ∈ msgs, 0 < msg.length)
      (whole : stream msgs = replies.flatMap Reply.encode)
      (apart : ∀ seen (done : List Reply), seen <+: msgs →
        stream seen ≠ done.flatMap Reply.encode ++ [78])

def Turn.calls : Turn → List Call
  | .opening _ msg _ => [⟨.client, msg⟩]
  | .refusal msg _ => [⟨.server, msg⟩]
  | .requests _ msgs _ _ => Side.client.calls msgs
  | .replies _ msgs _ _ _ => Side.server.calls msgs

section Run

variable (clientFd serverFd : Int)

/-- The log of a turn: every message of it once, in order, at the read that completes it. -/
def Turn.Log (turn : Turn) (log : List Event) : Prop :=
  match turn with
  | .opening packet msg _ => log = readLog .client Opening.story msg [packet]
  | .refusal msg _ => log = chunkEvents Side.server.title msg ++ refusalStory ++ [.logUnlock]
  | .requests sent msgs _ _ => ∃ groups, groups.flatten = sent ∧
      Batches Request.encode RequestPart [] (msgs.map Message.bytes) groups [] ∧
      log = readsLog .client (Request.story clientFd serverFd) msgs groups
  | .replies sent msgs _ _ _ => ∃ groups, groups.flatten = sent ∧
      Batches Reply.encode ReplyPart [] (msgs.map Message.bytes) groups [] ∧
      log = readsLog .server (Reply.story clientFd serverFd) msgs groups

theorem turn_logged (turn : Turn) (d : Decoder) (empty : d.Holds []) :
    ∃ log, Turn.Log clientFd serverFd turn log ∧ (d.calls clientFd serverFd turn.calls).Holds [] ∧
      transcript (d.calls clientFd serverFd turn.calls).trace = transcript d.trace ++ log := by
  cases turn with
  | opening packet msg whole =>
      have long : 0 < msg.length := by
        rw [← msg.bytes_length, whole]
        exact List.length_pos_iff.mpr packet.packet.encode_ne_nil
      have cut : [] ++ msg.bytes = [packet].flatMap Opening.encode ++ [] := by
        simp only [whole, List.flatMap_cons, List.flatMap_nil, List.nil_append, List.append_nil]
      have told := call_told clientFd serverFd .client reads_opening (tells_opening clientFd serverFd)
        msg d [] [] [packet] empty long cut ⟨rfl, fun gone => absurd gone.2.1 (by decide)⟩
      exact ⟨_, rfl, told⟩
  | refusal msg lone => exact ⟨_, rfl, refusal_told clientFd serverFd msg lone d empty⟩
  | requests sent msgs nonempty whole =>
      have part : RequestPart [] := ⟨⟨.sync, by decide⟩, _, Request.frame _ |>.encode_ne_nil, rfl⟩
      obtain ⟨groups, all, batches⟩ :=
        batches_requests sent [] part msgs (by rw [whole, List.append_nil])
      exact ⟨_, ⟨groups, all, batches, rfl⟩,
        run_requests clientFd serverFd msgs nonempty [] groups batches d empty⟩
  | replies sent msgs nonempty whole apart =>
      have part : ∃ reply : Reply, ProperPrefix [] reply.encode :=
        ⟨⟨.readyForQuery 73, by decide⟩, _, Reply.frame _ |>.encode_ne_nil, rfl⟩
      obtain ⟨groups, all, batches⟩ :=
        batches_replies sent [] part msgs (by rw [whole, List.append_nil]) apart
      exact ⟨_, ⟨groups, all, batches, rfl⟩,
        run_replies clientFd serverFd msgs nonempty [] groups batches d empty⟩

theorem opening_survived (packet : Opening) (msg : Message) (whole : msg.bytes = packet.encode)
    (small : msg.length ≤ dumpCapacity) (d : Decoder) (empty : d.Holds []) :
    d.Survives .outside (d.calls clientFd serverFd (Side.client.calls [msg])) := by
  have long : 0 < msg.length := by
    rw [← msg.bytes_length, whole]
    exact List.length_pos_iff.mpr packet.packet.encode_ne_nil
  have cut : stream [msg] = [packet].flatMap Opening.encode ++ [] := by
    simp only [stream, whole, List.flatMap_cons, List.flatMap_nil, List.append_nil]
  refine (run_survives_iff clientFd serverFd .client reads_opening [packet] [] d empty [msg]
    (by simpa using long) cut ?_).mpr ?_
  · intro seen done more left back before breaks
    have nothing_left : left = [] := by
      cases done with
      | nil =>
          have front : stream seen = left := by simpa using breaks.front
          rcases List.prefix_cons_iff.mp before with rfl | ⟨read, rfl, none_more⟩
          · exact front.symm
          · have shorter := (breaks.under packet [] breaks.frames.symm).length_lt
            rw [← front, List.prefix_nil.mp none_more, cut] at shorter
            simp at shorter
      | cons first done =>
          have rest : more = [] := by
            have one := congrArg List.length breaks.frames
            simp only [List.length_cons, List.length_nil, List.cons_append, List.length_append] at one
            exact List.eq_nil_of_length_eq_zero (by omega)
          have none_left := breaks.back
          rw [rest, List.flatMap_nil, List.append_nil] at none_left
          exact (List.append_eq_nil_iff.mp none_left).1
    rw [nothing_left]
    exact ⟨rfl, fun gone => absurd gone.2.1 (by decide)⟩
  · exact readsSurvived_of_frames clientFd .client [packet] [msg] (by simpa using small)
      fun opening _ _ behind _ => opening.unharmed clientFd behind

theorem turn_survived (turn : Turn) (d : Decoder) (empty : d.Holds [])
    (small : ∀ c ∈ turn.calls, c.msg.length ≤ dumpCapacity) :
    d.Survives .outside (d.calls clientFd serverFd turn.calls) := by
  cases turn with
  | opening packet msg whole =>
      exact opening_survived clientFd serverFd packet msg whole (by simpa [Turn.calls] using small)
        d empty
  | refusal msg lone => exact refusal_survived clientFd serverFd msg lone d empty
  | requests sent msgs nonempty whole =>
      have part : RequestPart [] := ⟨⟨.sync, by decide⟩, _, Request.frame _ |>.encode_ne_nil, rfl⟩
      exact requests_survived clientFd serverFd sent [] part msgs nonempty
        (by rw [whole, List.append_nil]) d empty (by simpa [Turn.calls, Side.calls] using small)
  | replies sent msgs nonempty whole apart =>
      have part : ∃ reply : Reply, ProperPrefix [] reply.encode :=
        ⟨⟨.readyForQuery 73, by decide⟩, _, Reply.frame _ |>.encode_ne_nil, rfl⟩
      exact replies_survived clientFd serverFd sent [] part msgs nonempty
        (by rw [whole, List.append_nil]) apart d empty (by simpa [Turn.calls, Side.calls] using small)

end Run

end Pgprtdbg
