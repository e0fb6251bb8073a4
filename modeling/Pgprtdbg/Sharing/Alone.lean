import Pgprtdbg.Sharing.Connections

set_option autoImplicit false

namespace Pgprtdbg

section Alike

structure Decoder.Alike (d d' : Decoder) : Prop where
  status : d.status = d'.status
  trace : d.trace = d'.trace
  buffer : d.status = .running → ∃ xs, d.Holds xs ∧ d'.Holds xs

theorem Decoder.Alike.emit {d d' : Decoder} (alike : d.Alike d') (events : List Event) :
    (d.emit events).Alike (d'.emit events) where
  status := alike.status
  trace := by simp only [Decoder.emit, alike.trace]
  buffer running := by
    obtain ⟨xs, holds, holds'⟩ := alike.buffer running
    exact ⟨xs, holds.emit events, holds'.emit events⟩

theorem Decoder.Alike.recount {d d' : Decoder} (alike : d.Alike d') (counter : EventCounter) :
    Decoder.Alike { d with counter := counter } d' where
  status := alike.status
  trace := alike.trace
  buffer running := by
    obtain ⟨xs, holds, holds'⟩ := alike.buffer running
    exact ⟨xs, ⟨holds.running, holds.data, holds.size⟩, holds'⟩

structure Worker.Alike (w w' : Worker) : Prop where
  decoder : w.decoder.Alike w'.decoder
  message : w.message = w'.message
  identifier : w.identifier = w'.identifier
  saveTraffic : w.saveTraffic = w'.saveTraffic

theorem Worker.Alike.emit {w w' : Worker} (alike : w.Alike w') (events : List Event) :
    (w.emit events).Alike (w'.emit events) where
  decoder := alike.decoder.emit events
  message := alike.message
  identifier := alike.identifier
  saveTraffic := alike.saveTraffic

theorem Worker.Alike.stop {w w' : Worker} (alike : w.Alike w') (code code' : Int) :
    (w.stop code).Alike (w'.stop code') where
  decoder := alike.decoder
  message := alike.message
  identifier := alike.identifier
  saveTraffic := alike.saveTraffic

theorem Worker.Alike.reportError {w w' : Worker} (alike : w.Alike w') (withErrno without : String)
    (fd : Int) (errno : Errno) (status : MessageStatus) :
    (w.reportError withErrno without fd errno status).Alike
      (w'.reportError withErrno without fd errno status) := by
  unfold Worker.reportError
  split
  · exact alike.emit _
  · exact alike.emit _

theorem Worker.Alike.saveClient {w w' : Worker} (alike : w.Alike w') :
    w.saveClient.Alike w'.saveClient := by
  by_cases saves : w.saveTraffic
  · have saves' := alike.saveTraffic.symm.trans saves
    rw [Worker.saveClient, Worker.saveClient, if_pos saves, if_pos saves', alike.message,
      alike.identifier]
    apply Worker.Alike.emit
    exact ⟨alike.decoder, rfl, rfl, alike.saveTraffic⟩
  · have saves' : ¬ w'.saveTraffic = true := by rwa [← alike.saveTraffic]
    rw [Worker.saveClient, Worker.saveClient, if_neg saves, if_neg saves']
    exact alike

theorem Worker.Alike.saveServer {w w' : Worker} (alike : w.Alike w') :
    w.saveServer.Alike w'.saveServer := by
  by_cases saves : w.saveTraffic
  · have saves' := alike.saveTraffic.symm.trans saves
    rw [Worker.saveServer, Worker.saveServer, if_pos saves, if_pos saves', alike.message,
      alike.identifier]
    exact alike.emit _
  · have saves' : ¬ w'.saveTraffic = true := by rwa [← alike.saveTraffic]
    rw [Worker.saveServer, Worker.saveServer, if_neg saves, if_neg saves']
    exact alike

variable (clientFd serverFd : Int)

-- A call sees of a decoder no more than the bytes in its buffer.
theorem alike_call (c : Call) (d d' : Decoder) (alike : d.Alike d') (nonempty : 0 < c.msg.length) :
    (d.call clientFd serverFd c).Alike (d'.call clientFd serverFd c) := by
  by_cases running : d.status = .running
  · obtain ⟨xs, holds, holds'⟩ := alike.buffer running
    obtain ⟨_, left, written, final, _, _, _, outcome⟩ :=
      call_outcome clientFd serverFd c.side c.msg xs nonempty
    have here := outcome d holds
    have there := outcome d' holds'
    constructor
    case status => exact here.1.trans there.1.symm
    case trace => exact here.2.1.trans (alike.trace ▸ there.2.1.symm)
    case buffer =>
      intro still
      have ended : final = .running := here.1.symm.trans still
      exact ⟨left, here.2.2 ended, there.2.2 ended⟩
  · have running' : d'.status ≠ .running := by rwa [← alike.status]
    rw [call_gone clientFd serverFd c d running, call_gone clientFd serverFd c d' running']
    exact alike

-- What comes after write_message is decided by what it returned, and by the message.
theorem alike_finish (verdict : Message → Option Int) (failed : Errno → MessageStatus → Worker → Worker)
    (fails : ∀ errno status (v v' : Worker), v.Alike v' →
      (failed errno status v).Alike (failed errno status v'))
    (returned : Option MessageStatus) (errno : Errno) (w w' : Worker) (alike : w.Alike w') :
    Worker.Alike
      (match returned with
        | some .ok => match verdict w.message with
          | some code => w.stop code
          | none => w
        | some status => failed errno status w
        | none => w.inWrite errno)
      (match returned with
        | some .ok => match verdict w'.message with
          | some code => w'.stop code
          | none => w'
        | some status => failed errno status w'
        | none => w'.inWrite errno) := by
  cases returned with
  | none =>
      have inside : (w.inWrite errno).decoder.Alike (w'.inWrite errno).decoder :=
        ⟨rfl, alike.decoder.trace, fun running => absurd running (inWrite_stops errno w)⟩
      exact ⟨inside, alike.message, alike.identifier, alike.saveTraffic⟩
  | some status =>
      cases status with
      | ok =>
          rw [alike.message]
          dsimp only
          cases verdict w'.message with
          | none => exact alike
          | some code => exact alike.stop code code
      | zero => exact fails _ _ _ _ alike
      | error => exact fails _ _ _ _ alike

theorem alike_forward (toFd : Int) (side : Side) (save : Worker → Worker)
    (verdict : Message → Option Int) (failed : Errno → MessageStatus → Worker → Worker)
    (writes : List WriteOutcome) (w w' : Worker) (alike : w.Alike w')
    (running : w.decoder.status = .running) (nonempty : 0 < w.message.length) (keeps : Keeps save)
    (saves : ∀ v v' : Worker, v.Alike v' → (save v).Alike (save v'))
    (fails : ∀ errno status (v v' : Worker), v.Alike v' →
      (failed errno status v).Alike (failed errno status v')) :
    (w.forward toFd (side.decode clientFd serverFd) save verdict failed writes).Alike
      (w'.forward toFd (side.decode clientFd serverFd) save verdict failed writes) := by
  obtain ⟨d, msg, identifier, saveTraffic, _, _⟩ := w
  obtain ⟨d', msg', identifier', saveTraffic', _, _⟩ := w'
  obtain rfl : msg = msg' := alike.message
  have decoded := alike_call clientFd serverFd ⟨side, msg⟩ d d' alike.decoder nonempty
  rw [call_decode clientFd serverFd side _ d running,
    call_decode clientFd serverFd side _ d' (alike.decoder.status ▸ running)] at decoded
  simp only [Worker.forward]
  by_cases stays : (side.decode clientFd serverFd msg d).status = .running
  · have stays' := decoded.status.symm.trans stays
    rw [if_pos stays, if_pos stays', keeps.message, keeps.message]
    apply alike_finish verdict failed fails
    apply Worker.Alike.emit
    exact saves _ _ ⟨decoded, rfl, alike.identifier, alike.saveTraffic⟩
  · have stays' : ¬ (side.decode clientFd serverFd msg d').status = .running := by
      rwa [← decoded.status]
    rw [if_neg stays, if_neg stays']
    exact ⟨decoded, rfl, alike.identifier, alike.saveTraffic⟩

theorem readMessage_some (read : ReadOutcome) (message : Message)
    (ok : (pgprtdbgReadMessage read message).1 = .ok) :
    0 < (pgprtdbgReadMessage read message).2.length := by
  unfold pgprtdbgReadMessage at ok ⊢
  split at ok
  next chunk =>
    split at ok
    next positive => simp only [positive, if_true]
    next => cases ok
  next => cases ok
  next => cases ok

theorem alike_handle (a : Arrival) (w w' : Worker) (alike : w.Alike w') :
    (w.handle clientFd serverFd a).Alike (w'.handle clientFd serverFd a) := by
  by_cases running : w.decoder.status = .running
  case neg =>
    have running' : ¬ w'.decoder.status = .running := by rwa [← alike.decoder.status]
    rw [Worker.handle, Worker.handle, if_neg running, if_neg running']
    exact alike
  have running' : w'.decoder.status = .running := alike.decoder.status ▸ running
  rw [handle_running clientFd serverFd w a running, handle_running clientFd serverFd w' a running']
  have refilled (message : Message) :
      Worker.Alike { w with message := message } { w' with message := message } :=
    ⟨alike.decoder, rfl, alike.identifier, alike.saveTraffic⟩
  cases side : a.side with
  | client =>
      simp only [Side.handler, pipelineClient, ← alike.message]
      cases status : (pgprtdbgReadMessage a.transfer.read w.message).1 with
      | ok =>
          apply alike_forward clientFd serverFd serverFd .client
          · exact refilled _
          · exact running
          · exact readMessage_some _ _ status
          · exact keeps_saveClient
          · exact fun _ _ same => same.saveClient
          · exact fun _ _ _ _ same => (same.reportError _ _ _ _ _).stop _ _
      | zero => exact ((refilled _).emit _).stop _ _
      | error => exact ((refilled _).reportError _ _ _ _ _).stop _ _
  | server =>
      simp only [Side.handler, pipelineServer, ← alike.message]
      cases status : (pgprtdbgReadMessage a.transfer.read w.message).1 with
      | ok =>
          apply alike_forward clientFd serverFd clientFd .server
          · exact refilled _
          · exact running
          · exact readMessage_some _ _ status
          · exact keeps_saveServer
          · exact fun _ _ same => same.saveServer
          · exact fun _ _ _ _ same => (same.reportError _ _ _ _ _).stop _ _
      | zero => exact ((refilled _).emit _).stop _ _
      | error => exact ((refilled _).reportError _ _ _ _ _).stop _ _

end Alike

def Action.accepted : Action → Option (Int × (Nat → UInt8))
  | .accept clientFd _ heap => some (clientFd, heap)
  | _ => none

def Action.arrival (k : Nat) : Action → Option Arrival
  | .traffic j a _ => if j = k then some a else none
  | _ => none

def arrivalsOf (k : Nat) (actions : List Action) : List Arrival := actions.filterMap (Action.arrival k)

theorem arrivalsOf_snoc (k : Nat) (actions : List Action) (action : Action) :
    arrivalsOf k (actions ++ [action]) = arrivalsOf k actions ++ (action.arrival k).toList := by
  rw [arrivalsOf, List.filterMap_append]
  cases here : action.arrival k <;> simp [arrivalsOf, here]

section Alone

variable (bufferSize : Nat) (saveTraffic : Bool)

structure Own (heap : Nat → UInt8) (arrivals : List Arrival) (c : Connection) : Prop where
  quiet : c.phase = .forked ∨ c.phase = .claimed → arrivals = []
  alike : c.worker.Alike
    ((Worker.start bufferSize saveTraffic heap).run c.clientFd c.serverFd arrivals)

structure Solitary (actions : List Action) (s : Proxy) : Prop where
  size : s.bufferSize = bufferSize
  saves : s.saveTraffic = saveTraffic
  number : (actions.filterMap Action.accepted).length = s.connections.length
  nobody : ∀ k, s.connections.length ≤ k → arrivalsOf k actions = []
  own : ∀ (k : Nat) (c : Connection), s.connections[k]? = some c →
    ∃ heap, (actions.filterMap Action.accepted)[k]? = some (c.clientFd, heap) ∧
      Own bufferSize saveTraffic heap (arrivalsOf k actions) c

theorem solitary_initial : Solitary bufferSize saveTraffic [] (.initial bufferSize saveTraffic) := by
  constructor
  case size => rfl
  case saves => rfl
  case number => rfl
  case nobody => exact fun _ _ => rfl
  case own => simp [Proxy.initial]

variable {bufferSize saveTraffic} {actions : List Action} {s : Proxy}

-- A step that accepts nobody carries each connection on.
theorem Solitary.carry (solitary : Solitary bufferSize saveTraffic actions s) (after : Proxy)
    (action : Action) (accepts : action.accepted = none) (size : after.bufferSize = s.bufferSize)
    (saves : after.saveTraffic = s.saveTraffic)
    (length : after.connections.length = s.connections.length)
    (nobody : ∀ k, s.connections.length ≤ k → action.arrival k = none)
    (each : ∀ (k : Nat) (c' : Connection), after.connections[k]? = some c' →
      ∃ c, s.connections[k]? = some c ∧ c'.clientFd = c.clientFd ∧
        ∀ heap arrivals, Own bufferSize saveTraffic heap arrivals c →
          Own bufferSize saveTraffic heap (arrivals ++ (action.arrival k).toList) c') :
    Solitary bufferSize saveTraffic (actions ++ [action]) after := by
  have same : (actions ++ [action]).filterMap Action.accepted =
      actions.filterMap Action.accepted := by
    simp [accepts]
  constructor
  case size => rw [size, solitary.size]
  case saves => rw [saves, solitary.saves]
  case number => rw [same, length, solitary.number]
  case nobody =>
    intro k outside
    rw [length] at outside
    rw [arrivalsOf_snoc, solitary.nobody k outside, nobody k outside]
    rfl
  case own =>
    intro k c' here
    obtain ⟨c, before, fd, carried⟩ := each k c' here
    obtain ⟨heap, accepted, own⟩ := solitary.own k c before
    refine ⟨heap, ?_, ?_⟩
    · rw [same, accepted, fd]
    · rw [arrivalsOf_snoc]
      exact carried heap _ own

theorem Own.advance {heap : Nat → UInt8} {arrivals : List Arrival} {c c' : Connection}
    (own : Own bufferSize saveTraffic heap arrivals c) (fd : c'.clientFd = c.clientFd)
    (worker : c'.worker = c.worker) (server : c'.serverFd = c.serverFd ∨ c.phase = .claimed)
    (phase : c'.phase = .forked ∨ c'.phase = .claimed → c.phase = .forked ∨ c.phase = .claimed) :
    Own bufferSize saveTraffic heap arrivals c' := by
  constructor
  case quiet => exact fun early => own.quiet (phase early)
  case alike =>
    rcases server with same | claimed
    · rw [worker, fd, same]
      exact own.alike
    · have nothing := own.quiet (.inr claimed)
      have alike := own.alike
      rw [nothing] at alike ⊢
      rw [worker]
      simpa only [Worker.run, List.foldl_nil] using alike

theorem Own.serve {heap : Nat → UInt8} {arrivals : List Arrival} {c : Connection}
    (own : Own bufferSize saveTraffic heap arrivals c) (a : Arrival) (counter : EventCounter)
    (phase : Phase) (late : phase ≠ .forked ∧ phase ≠ .claimed) :
    Own bufferSize saveTraffic heap (arrivals ++ [a])
      { c with worker := c.handle a counter, phase := phase } := by
  constructor
  case quiet => exact fun early => absurd early (not_or.mpr late)
  case alike =>
    rw [run_snoc]
    apply alike_handle
    exact ⟨own.alike.decoder.recount counter, own.alike.message, own.alike.identifier,
      own.alike.saveTraffic⟩

theorem solitary_accept (solitary : Solitary bufferSize saveTraffic actions s) (clientFd : Int)
    (child : Option Nat) (heap : Nat → UInt8) :
    Solitary bufferSize saveTraffic (actions ++ [.accept clientFd child heap])
      (s.accept clientFd child heap) := by
  have same (k : Nat) :
      arrivalsOf k (actions ++ [.accept clientFd child heap]) = arrivalsOf k actions := by
    have quiet : (Action.accept clientFd child heap).arrival k = none := rfl
    rw [arrivalsOf_snoc, quiet, Option.toList_none, List.append_nil]
  have more : (actions ++ [Action.accept clientFd child heap]).filterMap Action.accepted =
      actions.filterMap Action.accepted ++ [(clientFd, heap)] := by
    rw [List.filterMap_append]
    rfl
  constructor
  case size => exact solitary.size
  case saves => exact solitary.saves
  case number =>
    rw [more, List.length_append, solitary.number]
    simp [Proxy.accept]
  case nobody =>
    intro k outside
    rw [same]
    apply solitary.nobody
    simp only [Proxy.accept, List.length_append, List.length_singleton] at outside
    omega
  case own =>
    intro k c here
    rw [same, more]
    rcases append_get _ _ k c here with before | ⟨rfl, rfl⟩
    · obtain ⟨first, accepted, own⟩ := solitary.own k c before
      refine ⟨first, ?_, own⟩
      obtain ⟨inside, _⟩ := List.getElem?_eq_some_iff.mp accepted
      rw [List.getElem?_append_left inside, accepted]
    · refine ⟨heap, ?_, fun _ => solitary.nobody _ (Nat.le_refl _), ?_⟩
      · rw [← solitary.number, List.getElem?_concat_length]
      · rw [solitary.nobody _ (Nat.le_refl _), solitary.size, solitary.saves]
        exact ⟨⟨rfl, rfl, fun _ => ⟨[], initial_holds, initial_holds⟩⟩, rfl, rfl, rfl⟩

-- A step of one process: the others stay what they are.
theorem Solitary.set (solitary : Solitary bufferSize saveTraffic actions s) (after : Proxy)
    (action : Action) (k : Nat) (c c' : Connection) (here : s.connections[k]? = some c)
    (connections : after.connections = s.connections.set k c') (accepts : action.accepted = none)
    (size : after.bufferSize = s.bufferSize) (saves : after.saveTraffic = s.saveTraffic)
    (others : ∀ j, j ≠ k → action.arrival j = none) (fd : c'.clientFd = c.clientFd)
    (carried : ∀ heap arrivals, Own bufferSize saveTraffic heap arrivals c →
      Own bufferSize saveTraffic heap (arrivals ++ (action.arrival k).toList) c') :
    Solitary bufferSize saveTraffic (actions ++ [action]) after := by
  obtain ⟨inside, _⟩ := List.getElem?_eq_some_iff.mp here
  apply solitary.carry after action accepts size saves
  case length => rw [connections, List.length_set]
  case nobody =>
    intro j outside
    apply others
    omega
  case each =>
    intro j d there
    rw [connections] at there
    rcases (set_get s.connections k c c' here j d).mp there with ⟨rfl, rfl⟩ | ⟨other, before⟩
    · exact ⟨c, here, fd, carried⟩
    · refine ⟨d, before, rfl, fun heap arrivals own => ?_⟩
      rw [others j other, Option.toList_none, List.append_nil]
      exact own

theorem Solitary.advance (solitary : Solitary bufferSize saveTraffic actions s) (after : Proxy)
    (action : Action) (k : Nat) (c c' : Connection) (here : s.connections[k]? = some c)
    (connections : after.connections = s.connections.set k c') (accepts : action.accepted = none)
    (quiet : ∀ j, action.arrival j = none) (size : after.bufferSize = s.bufferSize)
    (saves : after.saveTraffic = s.saveTraffic) (fd : c'.clientFd = c.clientFd)
    (worker : c'.worker = c.worker) (server : c'.serverFd = c.serverFd ∨ c.phase = .claimed)
    (phase : c'.phase = .forked ∨ c'.phase = .claimed → c.phase = .forked ∨ c.phase = .claimed) :
    Solitary bufferSize saveTraffic (actions ++ [action]) after := by
  apply solitary.set after action k c c' here connections accepts size saves (fun j _ => quiet j) fd
  intro heap arrivals own
  rw [quiet k, Option.toList_none, List.append_nil]
  exact own.advance fd worker server phase

theorem Solitary.traffic (solitary : Solitary bufferSize saveTraffic actions s) (after : Proxy)
    (k : Nat) (a : Arrival) (crashes : Bool) (c : Connection) (counter : EventCounter) (phase : Phase)
    (here : s.connections[k]? = some c) (late : phase ≠ .forked ∧ phase ≠ .claimed)
    (connections : after.connections =
      s.connections.set k { c with worker := c.handle a counter, phase := phase })
    (size : after.bufferSize = s.bufferSize) (saves : after.saveTraffic = s.saveTraffic) :
    Solitary bufferSize saveTraffic (actions ++ [.traffic k a crashes]) after := by
  apply solitary.set after _ k c _ here connections rfl size saves
  case others => exact fun j other => if_neg (Ne.symm other)
  case fd => rfl
  case carried =>
    intro heap arrivals own
    have mine : (Action.traffic k a crashes).arrival k = some a := if_pos rfl
    rw [mine]
    exact own.serve a counter phase late

theorem Own.sigquit {heap : Nat → UInt8} {arrivals : List Arrival} {c : Connection}
    (own : Own bufferSize saveTraffic heap arrivals c) :
    Own bufferSize saveTraffic heap arrivals c.sigquit := by
  unfold Connection.sigquit
  split
  · exact ⟨own.quiet, own.alike.decoder, own.alike.message, own.alike.identifier,
      own.alike.saveTraffic⟩
  · exact own.advance rfl rfl (.inl rfl) (by simp [Connection.enter])

theorem sigquit_clientFd (c : Connection) : c.sigquit.clientFd = c.clientFd := by
  unfold Connection.sigquit
  split <;> rfl

theorem solitary_moves (solitary : Solitary bufferSize saveTraffic actions s) (after : Proxy)
    (action : Action) (moves : Moves s action after) :
    Solitary bufferSize saveTraffic (actions ++ [action]) after := by
  cases moves with
  | accept clientFd child heap => exact solitary_accept solitary clientFd child heap
  | claim k c here phase =>
      exact solitary.advance _ _ k c _ here rfl rfl (fun _ => rfl) rfl rfl rfl rfl (.inl rfl)
        (fun _ => .inl phase)
  | connect k serverFd c here phase =>
      exact solitary.advance _ _ k c _ here rfl rfl (fun _ => rfl) rfl rfl rfl rfl (.inr phase)
        (fun _ => .inr phase)
  | fail k c here phase =>
      exact solitary.advance _ _ k c _ here rfl rfl (fun _ => rfl) rfl rfl rfl rfl (.inl rfl)
        (fun _ => .inr phase)
  | start k c here phase =>
      exact solitary.advance _ _ k c _ here rfl rfl (fun _ => rfl) rfl rfl rfl rfl (.inl rfl)
        (by simp [Connection.enter])
  | serve k a c worker lock here phase running handled =>
      subst handled
      exact solitary.traffic _ k a false c _ c.phase here (by simp [phase]) rfl rfl rfl
  | lose k a crashes c worker lock here phase running handled =>
      subst handled
      exact solitary.traffic _ k a crashes c _ .ended here (by simp) rfl rfl rfl
  | leave k c here phase =>
      exact solitary.advance _ _ k c _ here rfl rfl (fun _ => rfl) rfl rfl rfl rfl (.inl rfl)
        (by simp [Connection.enter])
  | finish k c counted here phase =>
      exact solitary.advance _ _ k c _ here rfl rfl (fun _ => rfl) rfl rfl rfl rfl (.inl rfl)
        (by simp [Connection.enter])
  | shutdown =>
      apply solitary.carry
      case accepts => rfl
      case size => rfl
      case saves => rfl
      case length => rfl
      case nobody => exact fun _ _ => rfl
      case each =>
        intro k c here
        refine ⟨c, here, rfl, fun heap arrivals own => ?_⟩
        rwa [show Action.shutdown.arrival k = none from rfl, Option.toList_none, List.append_nil]
  | kill slot =>
      apply solitary.carry
      case accepts => rfl
      case size => rfl
      case saves => rfl
      case length => exact List.length_map _
      case nobody => exact fun _ _ => rfl
      case each =>
        intro k c' there
        rw [List.getElem?_map] at there
        obtain ⟨c, here, same⟩ := Option.map_eq_some_iff.mp there
        subst same
        refine ⟨c, here, ?_, fun heap arrivals own => ?_⟩
        · split
          · exact sigquit_clientFd c
          · rfl
        · rw [show (Action.kill slot).arrival k = none from rfl, Option.toList_none, List.append_nil]
          split
          · exact own.sigquit
          · exact own

/--
Whatever else happens, a connection's worker has written to its sockets, its log and its files
just what it would have done as the only one, with the reads of its own sockets.
-/
theorem connection_alone (bufferSize : Nat) (saveTraffic : Bool) (actions : List Action) (s : Proxy)
    (reached : Steps.run Proxy.step (.initial bufferSize saveTraffic) actions = some s) (k : Nat)
    (c : Connection) (here : s.connections[k]? = some c) :
    ∃ heap, (actions.filterMap Action.accepted)[k]? = some (c.clientFd, heap) ∧
      let alone := (Worker.start bufferSize saveTraffic heap).run c.clientFd c.serverFd
        (arrivalsOf k actions)
      c.worker.decoder.status = alone.decoder.status ∧
        c.worker.decoder.trace = alone.decoder.trace ∧
        (c.worker.decoder.status = .running → c.worker.decoder.bytes = alone.decoder.bytes) ∧
        c.worker.message = alone.message ∧ c.worker.identifier = alone.identifier := by
  have solitary : Solitary bufferSize saveTraffic actions s := by
    apply Steps.run_invariant Proxy.step (Solitary bufferSize saveTraffic)
      (.initial bufferSize saveTraffic) (solitary_initial bufferSize saveTraffic)
    · intro actions s action after held taken
      exact solitary_moves held after action (step_moves s after action taken)
    · exact reached
  obtain ⟨heap, accepted, own⟩ := solitary.own k c here
  refine ⟨heap, accepted, own.alike.decoder.status, own.alike.decoder.trace, ?_, own.alike.message,
    own.alike.identifier⟩
  intro running
  obtain ⟨xs, holds, holds'⟩ := own.alike.decoder.buffer running
  rw [holds.bytes, holds'.bytes]

end Alone

def twoClients : List Action :=
  [.accept 5 (some 4711) fun _ => 0, .accept 7 (some 4712) fun _ => 1, .claim 1, .claim 0,
    .connect 1 (some 6), .connect 0 (some 6), .start 0, .start 1,
    .traffic 0 (arrival .client [81, 0, 0]) false, .traffic 1 (arrival .client [88, 0, 0, 0, 4]) false,
    .traffic 0 (arrival .client [0, 5, 0]) false]

theorem connection_alone_two :
    ∃ s c, Steps.run Proxy.step (.initial maxBufferSize false) twoClients = some s ∧
      s.connections[0]? = some c ∧
      c.worker.decoder.trace = ((Worker.start maxBufferSize false fun _ => 0).run 5 6
        [arrival .client [81, 0, 0], arrival .client [0, 5, 0]]).decoder.trace := by
  have alone := connection_alone maxBufferSize false twoClients _ rfl 0 _ rfl
  obtain ⟨heap, accepted, _, trace, _⟩ := alone
  have same : heap = fun _ => 0 := by
    have both := Option.some.inj accepted
    exact (congrArg Prod.snd both).symm
  subst same
  exact ⟨_, _, rfl, rfl, trace⟩

end Pgprtdbg
