import Mathlib.Data.List.Nodup
import Pgprtdbg.Shared.Steps
import Pgprtdbg.Worker.Endings

set_option autoImplicit false

namespace Pgprtdbg

def Proxy.served (s : Proxy) (k : Nat) (c : Connection) (worker : Worker) (lock : Option Nat) :
    Proxy :=
  { s.put k { c with worker := worker } with
    counters := Function.update s.counters c.clientNumber worker.decoder.counter
    logLock := lock }

def Proxy.lost (s : Proxy) (k : Nat) (c : Connection) (worker : Worker) (lock : Option Nat) : Proxy :=
  { s.put k { c with worker := worker, phase := .ended } with
    counters := Function.update s.counters c.clientNumber worker.decoder.counter
    logLock := lock }

inductive Moves (s : Proxy) : Action → Proxy → Prop where
  | accept (clientFd : Int) (child : Option Nat) (heap : Nat → UInt8)
      (admitted : s.activeConnections.toNat ≤ maxNumberOfConnections)
      (fresh : ∀ pid ∈ child, pid ≠ 0 ∧ ∀ c ∈ s.connections, c.live → c.pid ≠ pid) :
      Moves s (.accept clientFd child heap) (s.accept clientFd child heap)
  | claim (k : Nat) (c : Connection) (here : s.connections[k]? = some c)
      (phase : c.phase = .forked) :
      Moves s (.claim k) { s.put k (c.enter .claimed) with
        pids := Table.replaceFirst 0 c.pid s.pids
        logLock := none }
  | connect (k : Nat) (serverFd : Int) (c : Connection) (here : s.connections[k]? = some c)
      (phase : c.phase = .claimed) :
      Moves s (.connect k (some serverFd)) { s.put k { c.enter .connected with serverFd := serverFd }
        with activeConnections := s.activeConnections + 1 }
  | fail (k : Nat) (c : Connection) (here : s.connections[k]? = some c) (phase : c.phase = .claimed) :
      Moves s (.connect k none) { s.put k (c.enter (.leaving false)) with logLock := none }
  | start (k : Nat) (c : Connection) (here : s.connections[k]? = some c)
      (phase : c.phase = .connected) : Moves s (.start k) (s.put k (c.enter .serving))
  | serve (k : Nat) (a : Arrival) (c : Connection) (worker : Worker) (lock : Option Nat)
      (here : s.connections[k]? = some c) (phase : c.phase = .serving)
      (running : c.worker.decoder.status = .running)
      (handled : worker = c.handle a (s.counters c.clientNumber))
      (stays : worker.decoder.status.isGone = false)
      (locked : lock = none ∨ lock = s.logLock.or (some k)) :
      Moves s (.traffic k a false) (s.served k c worker lock)
  | lose (k : Nat) (a : Arrival) (crashes : Bool) (c : Connection) (worker : Worker)
      (lock : Option Nat) (here : s.connections[k]? = some c) (phase : c.phase = .serving)
      (running : c.worker.decoder.status = .running)
      (handled : worker = c.handle a (s.counters c.clientNumber))
      (gone : worker.decoder.status.isGone = true ∨ crashes = true) :
      Moves s (.traffic k a crashes) (s.lost k c worker lock)
  | leave (k : Nat) (c : Connection) (here : s.connections[k]? = some c) (phase : c.phase = .serving) :
      Moves s (.leave k) (s.put k (c.enter (.leaving true)))
  | finish (k : Nat) (c : Connection) (counted : Bool) (here : s.connections[k]? = some c)
      (phase : c.phase = .leaving counted) :
      Moves s (.finish k) { s.put k (c.enter .ended) with
        pids := Table.replaceFirst c.pid 0 s.pids
        activeConnections := if counted then s.activeConnections - 1 else s.activeConnections
        logLock := none }
  | shutdown : Moves s .shutdown { s with keepRunning := false }
  | kill (slot : Fin maxNumberOfConnections) (taken : s.pids slot ≠ 0) :
      Moves s (.kill slot) { s with
        connections := s.connections.map fun c =>
          if c.live ∧ c.pid = s.pids slot then c.sigquit else c }

theorem inPhase_eq (s after : Proxy) (k : Nat) (phase : Phase → Bool)
    (act : Connection → Option Proxy) (taken : s.inPhase k phase act = some after) :
    ∃ c, s.connections[k]? = some c ∧ phase c.phase = true ∧ act c = some after := by
  unfold Proxy.inPhase at taken
  cases here : s.connections[k]? with
  | none => simp [here] at taken
  | some c =>
      by_cases allowed : phase c.phase
      · exact ⟨c, rfl, allowed, by simpa [here, allowed] using taken⟩
      · simp [here, allowed] at taken

theorem traffic_moves (s after : Proxy) (k : Nat) (a : Arrival) (crashes : Bool) (c : Connection)
    (here : s.connections[k]? = some c) (phase : c.phase = .serving)
    (taken : s.traffic k a crashes c = some after) : Moves s (.traffic k a crashes) after := by
  by_cases running : c.worker.decoder.status = .running
  case neg => simp [Proxy.traffic, running] at taken
  simp only [Proxy.traffic, running, if_true] at taken
  generalize handled : c.handle a (s.counters c.clientNumber) = worker at taken
  split at taken
  · cases taken
  · split at taken
    next gone =>
      cases taken
      exact .lose k a crashes c worker _ here phase running handled.symm gone
    next stays =>
      cases taken
      obtain ⟨alive, fine⟩ := not_or.mp stays
      simp only [Bool.not_eq_true] at alive fine
      subst fine
      refine .serve k a c worker _ here phase running handled.symm alive ?_
      split
      · exact .inr rfl
      · exact .inl rfl

theorem step_moves (s after : Proxy) (action : Action) (taken : s.step action = some after) :
    Moves s action after := by
  cases action with
  | accept clientFd child heap =>
      simp only [Proxy.step] at taken
      split at taken
      next admitted =>
        cases taken
        exact .accept clientFd child heap (Nat.not_lt.mp admitted.2.1) admitted.2.2
      next => cases taken
  | claim k =>
      rw [Proxy.step] at taken
      obtain ⟨c, here, phase, act⟩ := inPhase_eq s after k _ _ taken
      cases act
      exact .claim k c here (by simpa using phase)
  | connect k serverFd =>
      cases serverFd with
      | none =>
          rw [Proxy.step] at taken
          obtain ⟨c, here, phase, act⟩ := inPhase_eq s after k _ _ taken
          cases act
          exact .fail k c here (by simpa using phase)
      | some serverFd =>
          rw [Proxy.step] at taken
          obtain ⟨c, here, phase, act⟩ := inPhase_eq s after k _ _ taken
          cases act
          exact .connect k serverFd c here (by simpa using phase)
  | start k =>
      rw [Proxy.step] at taken
      obtain ⟨c, here, phase, act⟩ := inPhase_eq s after k _ _ taken
      cases act
      exact .start k c here (by simpa using phase)
  | traffic k a crashes =>
      rw [Proxy.step] at taken
      obtain ⟨c, here, phase, act⟩ := inPhase_eq s after k _ _ taken
      exact traffic_moves s after k a crashes c here (by simpa using phase) act
  | leave k =>
      rw [Proxy.step] at taken
      obtain ⟨c, here, phase, act⟩ := inPhase_eq s after k _ _ taken
      split at act
      · cases act
        exact .leave k c here (by simpa using phase)
      · cases act
  | finish k =>
      rw [Proxy.step] at taken
      obtain ⟨c, here, phase, act⟩ := inPhase_eq s after k _ _ taken
      cases act
      rcases (by simpa using phase : c.phase = .leaving true ∨ c.phase = .leaving false) with left | left
      · have moved := Moves.finish k c true here left
        simpa [Connection.counted, left, Phase.counted] using moved
      · have moved := Moves.finish k c false here left
        simpa [Connection.counted, left, Phase.counted] using moved
  | shutdown =>
      cases taken
      exact .shutdown
  | kill slot =>
      simp only [Proxy.step] at taken
      split at taken
      next => cases taken
      next allowed =>
        cases taken
        exact .kill slot (not_or.mp allowed).2

section Processes

def Persists (before after : List Connection) : Prop :=
  ∀ (k : Nat) (d : Connection), after[k]? = some d →
    ∃ c, before[k]? = some c ∧ d.pid = c.pid ∧ (d.live → c.live)

theorem set_get (connections : List Connection) (k : Nat) (c c' : Connection)
    (here : connections[k]? = some c) (j : Nat) (d : Connection) :
    (connections.set k c')[j]? = some d ↔
      (j = k ∧ d = c') ∨ (j ≠ k ∧ connections[j]? = some d) := by
  obtain ⟨bound, _⟩ := List.getElem?_eq_some_iff.mp here
  rw [List.getElem?_set]
  by_cases same : k = j
  · subst same
    simp [bound, eq_comm]
  · simp [same, Ne.symm same]

theorem persists_set (connections : List Connection) (k : Nat) (c c' : Connection)
    (here : connections[k]? = some c) (pid : c'.pid = c.pid) (live : c.live = true) :
    Persists connections (connections.set k c') := by
  intro j d there
  rcases (set_get connections k c c' here j d).mp there with ⟨rfl, rfl⟩ | ⟨_, before⟩
  · exact ⟨c, here, pid, fun _ => live⟩
  · exact ⟨d, before, rfl, id⟩

theorem sigquit_keeps (c : Connection) : c.sigquit.pid = c.pid := by
  unfold Connection.sigquit
  split <;> rfl

theorem sigquit_serving (c : Connection) (serving : c.phase = .serving) :
    c.sigquit.phase = .serving := by
  unfold Connection.sigquit
  rw [serving]

theorem sigquit_ends (c : Connection) (other : c.phase ≠ .serving) : c.sigquit.phase = .ended := by
  unfold Connection.sigquit
  split
  · contradiction
  · rfl

theorem persists_kill (connections : List Connection) (pid : Nat) :
    Persists connections (connections.map fun c =>
      if c.live ∧ c.pid = pid then c.sigquit else c) := by
  intro k d there
  rw [List.getElem?_map] at there
  cases here : connections[k]? with
  | none => simp [here] at there
  | some c =>
      simp only [here, Option.map_some, Option.some.injEq] at there
      subst there
      refine ⟨c, rfl, ?_, ?_⟩
      · split
        · exact sigquit_keeps c
        · rfl
      · split
        next meant => exact fun _ => meant.1
        next => exact id

structure Distinct (s : Proxy) : Prop where
  same : ∀ (j k : Nat) (c d : Connection), s.connections[j]? = some c →
    s.connections[k]? = some d → c.live → d.live → c.pid = d.pid → j = k
  nonzero : ∀ (k : Nat) (c : Connection), s.connections[k]? = some c → c.live → c.pid ≠ 0

theorem distinct_initial (bufferSize : Nat) (saveTraffic : Bool) :
    Distinct (.initial bufferSize saveTraffic) := by
  constructor <;> simp [Proxy.initial]

theorem Persists.distinct {s after : Proxy} (persists : Persists s.connections after.connections)
    (distinct : Distinct s) : Distinct after := by
  constructor
  case same =>
    intro j k c d here there live live' pid
    obtain ⟨c', before, pid_eq, was⟩ := persists j c here
    obtain ⟨d', before', pid_eq', was'⟩ := persists k d there
    exact distinct.same j k c' d' before before' (was live) (was' live')
      (pid_eq.symm.trans (pid.trans pid_eq'))
  case nonzero =>
    intro k c here live
    obtain ⟨c', before, pid_eq, was⟩ := persists k c here
    rw [pid_eq]
    exact distinct.nonzero k c' before (was live)

theorem append_get (connections : List Connection) (new : Connection) (k : Nat) (c : Connection)
    (here : (connections ++ [new])[k]? = some c) :
    connections[k]? = some c ∨ (k = connections.length ∧ c = new) := by
  rcases Nat.lt_trichotomy k connections.length with inside | last | outside
  · rw [List.getElem?_append_left inside] at here
    exact .inl here
  · subst last
    simp only [List.getElem?_concat_length, Option.some.injEq] at here
    exact .inr ⟨rfl, here.symm⟩
  · rw [List.getElem?_eq_none (by rw [List.length_append, List.length_singleton]; omega)] at here
    cases here

theorem append_keeps (connections : List Connection) (new : Connection) (k : Nat) (c : Connection)
    (here : connections[k]? = some c) : (connections ++ [new])[k]? = some c := by
  obtain ⟨bound, _⟩ := List.getElem?_eq_some_iff.mp here
  rw [List.getElem?_append_left bound, here]

theorem distinct_accept (s : Proxy) (distinct : Distinct s) (clientFd : Int) (child : Option Nat)
    (heap : Nat → UInt8)
    (fresh : ∀ pid ∈ child, pid ≠ 0 ∧ ∀ c ∈ s.connections, c.live → c.pid ≠ pid) :
    Distinct (s.accept clientFd child heap) := by
  cases child with
  | none =>
      constructor
      case same =>
        intro j k c d here there live live' pid
        rcases append_get _ _ j c here with here | ⟨_, rfl⟩
        · rcases append_get _ _ k d there with there | ⟨_, rfl⟩
          · exact distinct.same j k c d here there live live' pid
          · cases live'
        · cases live
      case nonzero =>
        intro k c here live
        rcases append_get _ _ k c here with here | ⟨_, rfl⟩
        · exact distinct.nonzero k c here live
        · cases live
  | some pid =>
      obtain ⟨nonzero, unused⟩ := fresh pid rfl
      constructor
      case same =>
        intro j k c d here there live live' pid_eq
        rcases append_get _ _ j c here with here | ⟨rfl, rfl⟩
        · rcases append_get _ _ k d there with there | ⟨rfl, rfl⟩
          · exact distinct.same j k c d here there live live' pid_eq
          · exact absurd pid_eq (unused c (List.mem_of_getElem? here) live)
        · rcases append_get _ _ k d there with there | ⟨rfl, rfl⟩
          · exact absurd pid_eq.symm (unused d (List.mem_of_getElem? there) live')
          · rfl
      case nonzero =>
        intro k c here live
        rcases append_get _ _ k c here with here | ⟨_, rfl⟩
        · exact distinct.nonzero k c here live
        · exact nonzero

-- Only accept_cb brings a process that was not there before.
theorem persists_moves (s after : Proxy) (action : Action) (moves : Moves s action after)
    (same_processes : ∀ clientFd child heap, action ≠ .accept clientFd child heap) :
    Persists s.connections after.connections := by
  have set (k : Nat) (c c' : Connection) (next : Proxy) (here : s.connections[k]? = some c)
      (live : c.phase ≠ .ended) (same : next.connections = s.connections.set k c')
      (pid : c'.pid = c.pid) : Persists s.connections next.connections := by
    rw [same]
    exact persists_set s.connections k c c' here pid (by simp [Connection.live, live])
  cases moves with
  | accept clientFd child heap => exact absurd rfl (same_processes clientFd child heap)
  | claim k c here phase => exact set k c _ _ here (by simp [phase]) rfl rfl
  | connect k serverFd c here phase => exact set k c _ _ here (by simp [phase]) rfl rfl
  | fail k c here phase => exact set k c _ _ here (by simp [phase]) rfl rfl
  | start k c here phase => exact set k c _ _ here (by simp [phase]) rfl rfl
  | serve k a c worker lock here phase => exact set k c _ _ here (by simp [phase]) rfl rfl
  | lose k a crashes c worker lock here phase => exact set k c _ _ here (by simp [phase]) rfl rfl
  | leave k c here phase => exact set k c _ _ here (by simp [phase]) rfl rfl
  | finish k c counted here phase => exact set k c _ _ here (by simp [phase]) rfl rfl
  | shutdown => exact fun k d there => ⟨d, there, rfl, id⟩
  | kill slot => exact persists_kill s.connections (s.pids slot)

theorem distinct_moves (s after : Proxy) (action : Action) (moves : Moves s action after)
    (distinct : Distinct s) : Distinct after := by
  by_cases other : ∀ clientFd child heap, action ≠ .accept clientFd child heap
  case pos => exact (persists_moves s after action moves other).distinct distinct
  case neg =>
    push Not at other
    obtain ⟨clientFd, child, heap, rfl⟩ := other
    cases moves with
    | accept _ _ _ _ fresh => exact distinct_accept s distinct clientFd child heap fresh

end Processes

section Slots

structure Registered (s : Proxy) : Prop where
  owner : ∀ i, s.pids i ≠ 0 → ∃ (k : Nat) (c : Connection), s.connections[k]? = some c ∧
    c.live ∧ c.phase ≠ .forked ∧ c.pid = s.pids i
  once : ∀ i j, s.pids i ≠ 0 → s.pids i = s.pids j → i = j

theorem registered_initial (bufferSize : Nat) (saveTraffic : Bool) :
    Registered (.initial bufferSize saveTraffic) := by
  constructor <;> simp [Proxy.initial]

-- A process that only moves on keeps its entry.
theorem registered_set (s after : Proxy) (registered : Registered s) (k : Nat) (c c' : Connection)
    (here : s.connections[k]? = some c) (connections : after.connections = s.connections.set k c')
    (pids : after.pids = s.pids) (pid : c'.pid = c.pid) (live : c'.live)
    (phase : c'.phase ≠ .forked) : Registered after := by
  constructor
  case owner =>
    intro i used
    rw [pids] at used ⊢
    obtain ⟨j, d, there, live', phase', pid'⟩ := registered.owner i used
    by_cases same : j = k
    · have unchanged : d = c := by
        rw [same, here] at there
        exact (Option.some.inj there).symm
      refine ⟨k, c', ?_, live, phase, by rw [pid, ← unchanged, pid']⟩
      rw [connections, set_get _ k c c' here]
      exact .inl ⟨rfl, rfl⟩
    · refine ⟨j, d, ?_, live', phase', pid'⟩
      rw [connections, set_get _ k c c' here]
      exact .inr ⟨same, there⟩
  case once =>
    rw [pids]
    exact registered.once

theorem registered_claim (s after : Proxy) (registered : Registered s) (distinct : Distinct s)
    (k : Nat) (c : Connection) (here : s.connections[k]? = some c) (phase : c.phase = .forked)
    (connections : after.connections = s.connections.set k (c.enter .claimed))
    (pids : after.pids = Table.replaceFirst 0 c.pid s.pids) : Registered after := by
  have live : c.live := by simp [Connection.live, phase]
  have unused (i : Fin maxNumberOfConnections) : s.pids i ≠ c.pid := by
    intro same
    have used : s.pids i ≠ 0 := same ▸ distinct.nonzero k c here live
    obtain ⟨j, d, there, live', behind, pid⟩ := registered.owner i used
    have index := distinct.same j k d c there here live' live (pid.trans same)
    rw [index, here] at there
    exact behind (Option.some.inj there ▸ phase)
  have others (i : Fin maxNumberOfConnections) (used : s.pids i ≠ 0) :
      ∃ (j : Nat) (d : Connection), after.connections[j]? = some d ∧ d.live ∧ d.phase ≠ .forked ∧
        d.pid = s.pids i := by
    obtain ⟨j, d, there, live', behind, pid⟩ := registered.owner i used
    have different : j ≠ k := by
      intro same
      rw [same, here] at there
      exact behind (Option.some.inj there ▸ phase)
    refine ⟨j, d, ?_, live', behind, pid⟩
    rw [connections, set_get _ k c _ here]
    exact .inr ⟨different, there⟩
  constructor
  case owner =>
    intro i used
    rw [pids] at used ⊢
    rcases Table.replaceFirst_entry 0 c.pid s.pids i with kept | ⟨claimed, _⟩
    · rw [kept] at used ⊢
      exact others i used
    · rw [claimed]
      refine ⟨k, c.enter .claimed, ?_, rfl, by simp [Connection.enter], rfl⟩
      rw [connections, set_get _ k c _ here]
      exact .inl ⟨rfl, rfl⟩
  case once =>
    rw [pids]
    exact Table.once_claimed registered.once c.pid unused

theorem registered_finish (s after : Proxy) (registered : Registered s) (k : Nat) (c : Connection)
    (here : s.connections[k]? = some c)
    (connections : after.connections = s.connections.set k (c.enter .ended))
    (pids : after.pids = Table.replaceFirst c.pid 0 s.pids) : Registered after := by
  have others (i : Fin maxNumberOfConnections) (used : s.pids i ≠ 0) (different : s.pids i ≠ c.pid) :
      ∃ (j : Nat) (d : Connection), after.connections[j]? = some d ∧ d.live ∧ d.phase ≠ .forked ∧
        d.pid = s.pids i := by
    obtain ⟨j, d, there, live, behind, pid⟩ := registered.owner i used
    refine ⟨j, d, ?_, live, behind, pid⟩
    rw [connections, set_get _ k c _ here]
    right
    refine ⟨?_, there⟩
    intro same
    rw [same, here] at there
    exact different (pid.symm.trans (congrArg Connection.pid (Option.some.inj there).symm))
  constructor
  case owner =>
    intro i used
    rw [pids] at used ⊢
    obtain ⟨kept, different⟩ := Table.blanked_entry registered.once c.pid i used
    rw [kept] at used ⊢
    exact others i used different
  case once =>
    rw [pids]
    exact Table.once_blanked registered.once c.pid

end Slots

section Ending

def Proxy.connected (s : Proxy) : Nat := s.connections.countP Connection.counted

def Proxy.EndsProperly (s : Proxy) : Action → Prop
  | .traffic k a crashes => crashes = false ∧ ∀ c : Connection, s.connections[k]? = some c →
      ¬ a.EndsProcess c.worker.decoder.bytes
  | .kill slot => ∀ (k : Nat) (c : Connection), s.connections[k]? = some c → c.live →
      c.pid = s.pids slot → c.phase = .serving
  | _ => True

def Proxy.CountsOn (s : Proxy) : Action → Prop
  | .connect _ (some _) => s.connected + 1 < 2 ^ 16
  | _ => True

def Settled (s : Proxy) : Prop := ∀ c ∈ s.connections, c.worker.decoder.Settled

theorem settled_counter (d : Decoder) (counter : EventCounter) (settled : d.Settled) :
    Decoder.Settled { d with counter := counter } := by
  intro running
  obtain ⟨xs, holds⟩ := settled running
  exact ⟨xs, holds.running, holds.data, holds.size⟩

theorem settled_handle (c : Connection) (a : Arrival) (counter : EventCounter)
    (settled : c.worker.decoder.Settled) : (c.handle a counter).decoder.Settled :=
  handle_keeps_settled c.clientFd c.serverFd _ a (settled_counter c.worker.decoder counter settled)

theorem settled_set (s : Proxy) (settled : Settled s) (k : Nat) (c' : Connection)
    (here : c'.worker.decoder.Settled) (c : Connection) (member : c ∈ s.connections.set k c') :
    c.worker.decoder.Settled := by
  rcases List.mem_or_eq_of_mem_set member with before | rfl
  · exact settled c before
  · exact here

theorem settled_moves (s after : Proxy) (action : Action) (moves : Moves s action after)
    (settled : Settled s) : Settled after := by
  have old (k : Nat) (c : Connection) (here : s.connections[k]? = some c) :
      c.worker.decoder.Settled := settled c (List.mem_of_getElem? here)
  cases moves with
  | accept clientFd child heap =>
      intro c member
      rcases List.mem_append.mp member with before | new
      · exact settled c before
      · rw [List.mem_singleton.mp new]
        exact initial_holds.settled
  | claim k c here => exact settled_set s settled k _ (old k c here)
  | connect k serverFd c here => exact settled_set s settled k _ (old k c here)
  | fail k c here => exact settled_set s settled k _ (old k c here)
  | start k c here => exact settled_set s settled k _ (old k c here)
  | serve k a c worker lock here _ _ handled =>
      subst handled
      exact settled_set s settled k _ (settled_handle c a _ (old k c here))
  | lose k a crashes c worker lock here _ _ handled =>
      subst handled
      exact settled_set s settled k _ (settled_handle c a _ (old k c here))
  | leave k c here => exact settled_set s settled k _ (old k c here)
  | finish k c counted here => exact settled_set s settled k _ (old k c here)
  | shutdown => exact settled
  | kill slot =>
      intro c member
      obtain ⟨before, there, same⟩ := List.mem_map.mp member
      have kept : before.sigquit.worker.decoder = before.worker.decoder := by
        unfold Connection.sigquit
        split <;> rfl
      split at same
      · rw [← same, kept]
        exact settled before there
      · rw [← same]
        exact settled before there

theorem connection_gone_iff (c : Connection) (a : Arrival) (counter : EventCounter)
    (running : c.worker.decoder.status = .running) (settled : c.worker.decoder.Settled) :
    (c.handle a counter).decoder.status.isGone = true ↔
      a.EndsProcess c.worker.decoder.bytes :=
  handle_gone_iff c.clientFd c.serverFd _ a running
    (settled_counter c.worker.decoder counter settled)

theorem not_lose (s : Proxy) (settled : Settled s) (k : Nat) (a : Arrival) (crashes : Bool)
    (c : Connection) (here : s.connections[k]? = some c)
    (running : c.worker.decoder.status = .running) (proper : s.EndsProperly (.traffic k a crashes)) :
    ¬ ((c.handle a (s.counters c.clientNumber)).decoder.status.isGone = true ∨ crashes = true) := by
  obtain ⟨fine, stays⟩ := proper
  rintro (gone | crashed)
  · have ends :=
      (connection_gone_iff c a _ running (settled c (List.mem_of_getElem? here))).mp gone
    exact stays c here ends
  · rw [fine] at crashed
    cases crashed

-- SIGQUIT reaches only workers that serve, and these do not end of it.
theorem kill_keeps (s : Proxy) (slot : Fin maxNumberOfConnections)
    (proper : s.EndsProperly (.kill slot)) (k : Nat) (c : Connection)
    (here : s.connections[k]? = some c) (live : c.live) :
    ∃ d, (s.connections.map fun c =>
        if c.live ∧ c.pid = s.pids slot then c.sigquit else c)[k]? = some d ∧
      d.live ∧ d.pid = c.pid ∧ (c.phase ≠ .forked → d.phase ≠ .forked) := by
  rw [List.getElem?_map, here, Option.map_some]
  by_cases meant : c.live ∧ c.pid = s.pids slot
  · have serving := sigquit_serving c (proper k c here live meant.2)
    rw [if_pos meant]
    exact ⟨_, rfl, by simp [Connection.live, serving], sigquit_keeps c, by simp [serving]⟩
  · rw [if_neg meant]
    exact ⟨_, rfl, live, rfl, id⟩

theorem registered_kill (s : Proxy) (registered : Registered s) (slot : Fin maxNumberOfConnections)
    (proper : s.EndsProperly (.kill slot)) :
    Registered { s with
      connections := s.connections.map fun c =>
        if c.live ∧ c.pid = s.pids slot then c.sigquit else c } := by
  constructor
  case owner =>
    intro i used
    obtain ⟨k, c, here, live, behind, pid⟩ := registered.owner i used
    obtain ⟨d, there, live', same, behind'⟩ := kill_keeps s slot proper k c here live
    exact ⟨k, d, there, live', behind' behind, same.trans pid⟩
  case once => exact registered.once

theorem registered_moves (s after : Proxy) (action : Action) (moves : Moves s action after)
    (registered : Registered s) (distinct : Distinct s) (settled : Settled s)
    (proper : s.EndsProperly action) : Registered after := by
  cases moves with
  | accept clientFd child heap =>
      constructor
      case owner =>
        intro i used
        obtain ⟨k, c, here, rest⟩ := registered.owner i used
        exact ⟨k, c, append_keeps s.connections _ k c here, rest⟩
      case once => exact registered.once
  | claim k c here phase =>
      apply registered_claim s _ registered distinct k c here phase
      case connections => rfl
      case pids => simp only
  | connect k serverFd c here phase =>
      exact registered_set s _ registered k c _ here rfl rfl rfl rfl (by simp [Connection.enter])
  | fail k c here phase =>
      exact registered_set s _ registered k c _ here rfl rfl rfl rfl (by simp [Connection.enter])
  | start k c here phase =>
      exact registered_set s _ registered k c _ here rfl rfl rfl rfl (by simp [Connection.enter])
  | serve k a c worker lock here phase =>
      exact registered_set s _ registered k c _ here rfl rfl rfl (by simp [Connection.live, phase])
        (by simp [phase])
  | lose k a crashes c worker lock here phase running handled gone =>
      subst handled
      exact absurd gone (not_lose s settled k a crashes c here running proper)
  | leave k c here phase =>
      exact registered_set s _ registered k c _ here rfl rfl rfl rfl (by simp [Connection.enter])
  | finish k c counted here phase =>
      apply registered_finish s _ registered k c here
      case connections => rfl
      case pids => simp only
  | shutdown => exact ⟨registered.owner, registered.once⟩
  | kill slot => exact registered_kill s registered slot proper

end Ending

section Counts

theorem counted_in (c : Connection) (phase : Phase) (here : c.phase = phase) :
    c.counted = phase.counted :=
  congrArg Phase.counted here

theorem connected_set (s : Proxy) (k : Nat) (c c' : Connection) (here : s.connections[k]? = some c) :
    (s.connections.set k c').countP Connection.counted + (if c.counted then 1 else 0) =
      s.connected + (if c'.counted then 1 else 0) := by
  obtain ⟨bound, value⟩ := List.getElem?_eq_some_iff.mp here
  have positive (counted : c.counted = true) : 0 < s.connections.countP Connection.counted :=
    List.countP_pos_iff.mpr ⟨c, List.mem_of_getElem? here, counted⟩
  rw [List.countP_set bound, value, Proxy.connected]
  by_cases counted : c.counted
  · have some_counted := positive counted
    rw [if_pos counted]
    omega
  · rw [if_neg counted]
    omega

theorem connected_accept (s : Proxy) (clientFd : Int) (child : Option Nat) (heap : Nat → UInt8) :
    (s.accept clientFd child heap).connected = s.connected := by
  cases child <;> simp [Proxy.accept, Proxy.connected, Connection.counted, Phase.counted]

theorem connected_kill (s : Proxy) (slot : Fin maxNumberOfConnections)
    (proper : s.EndsProperly (.kill slot)) :
    (s.connections.map fun c =>
      if c.live ∧ c.pid = s.pids slot then c.sigquit else c).countP Connection.counted =
        s.connected := by
  rw [List.countP_map]
  apply List.countP_congr
  intro c member
  obtain ⟨k, here⟩ := List.getElem?_of_mem member
  simp only [Function.comp]
  split
  next meant =>
    have serving := proper k c here meant.1 meant.2
    simp [Connection.counted, sigquit_serving c serving, serving]
  next => exact Iff.rfl

theorem counted_moves (s after : Proxy) (action : Action) (moves : Moves s action after)
    (active : s.activeConnections.toNat = s.connected) (settled : Settled s)
    (proper : s.EndsProperly action) (room : s.CountsOn action) :
    after.activeConnections.toNat = after.connected := by
  have set (k : Nat) (c c' : Connection) (here : s.connections[k]? = some c)
      (same : c'.counted = c.counted) :
      s.activeConnections.toNat = (s.connections.set k c').countP Connection.counted := by
    have count := connected_set s k c c' here
    rw [same, Nat.add_right_cancel_iff] at count
    rw [active, count]
  cases moves with
  | accept clientFd child heap => rw [connected_accept, ← active]; rfl
  | claim k c here phase =>
      exact set k c _ here (counted_in c _ phase).symm
  | connect k serverFd c here phase =>
      have count := connected_set s k c { c.enter .connected with serverFd := serverFd } here
      have less : s.connected + 1 < 2 ^ 16 := room
      have before : c.counted = false := counted_in c _ phase
      change (s.activeConnections + 1).toNat = (s.connections.set k _).countP Connection.counted
      rw [before] at count
      simp only [Bool.false_eq_true, if_false, Nat.add_zero, Connection.counted, Connection.enter,
        Phase.counted, if_true] at count
      rw [UInt16.toNat_add, active]
      simp only [Connection.enter]
      rw [Nat.mod_eq_of_lt (by simpa using less)]
      exact count.symm
  | fail k c here phase =>
      exact set k c _ here (counted_in c _ phase).symm
  | start k c here phase =>
      exact set k c _ here (counted_in c _ phase).symm
  | serve k a c worker lock here => exact set k c _ here rfl
  | lose k a crashes c worker lock here phase running handled gone =>
      subst handled
      exact absurd gone (not_lose s settled k a crashes c here running proper)
  | leave k c here phase =>
      exact set k c _ here (counted_in c _ phase).symm
  | finish k c counted here phase =>
      have count := connected_set s k c (c.enter .ended) here
      change (if counted then s.activeConnections - 1 else s.activeConnections).toNat =
        (s.connections.set k (c.enter .ended)).countP Connection.counted
      have after_not : (c.enter .ended).counted = false := rfl
      cases counted with
      | false =>
          have before : c.counted = false := counted_in c _ phase
          rw [before, after_not] at count
          simp only [Bool.false_eq_true, if_false, Nat.add_zero] at count ⊢
          rw [active, count]
      | true =>
          have before : c.counted = true := counted_in c _ phase
          rw [before, after_not] at count
          simp only [Bool.false_eq_true, if_true, if_false, Nat.add_zero] at count ⊢
          rw [UInt16.toNat_sub_of_le, active]
          · change s.connected - 1 = _
            omega
          · rw [UInt16.le_iff_toNat_le, active]
            change 1 ≤ s.connected
            omega
  | shutdown => exact active
  | kill slot =>
      change s.activeConnections.toNat = (List.map _ s.connections).countP Connection.counted
      rw [connected_kill s slot proper, active]

end Counts

section Balance

/-- What the parties share accounts for the processes that are alive, and for nothing else. -/
structure Balanced (s : Proxy) : Prop where
  active : s.activeConnections.toNat = s.connected
  owner : ∀ i, s.pids i ≠ 0 → ∃ (k : Nat) (c : Connection), s.connections[k]? = some c ∧ c.live ∧
    c.pid = s.pids i
  lock : ∀ k, s.logLock = some k → ∃ c : Connection, s.connections[k]? = some c ∧ c.live

def LockLive (s : Proxy) : Prop :=
  ∀ k, s.logLock = some k → ∃ c : Connection, s.connections[k]? = some c ∧ c.live

theorem lock_set (s after : Proxy) (lock : LockLive s) (k : Nat) (c c' : Connection)
    (here : s.connections[k]? = some c) (connections : after.connections = s.connections.set k c')
    (live : c'.live)
    (holder : after.logLock = s.logLock ∨ after.logLock = s.logLock.or (some k)) :
    LockLive after := by
  have itself : after.connections[k]? = some c' := by
    rw [connections, set_get _ k c c' here]
    exact .inl ⟨rfl, rfl⟩
  have kept (j : Nat) (held : s.logLock = some j) :
      ∃ d : Connection, after.connections[j]? = some d ∧ d.live := by
    by_cases same : j = k
    · exact ⟨c', same ▸ itself, live⟩
    · obtain ⟨d, there, live'⟩ := lock j held
      refine ⟨d, ?_, live'⟩
      rw [connections, set_get _ k c c' here]
      exact .inr ⟨same, there⟩
  intro j held
  rcases holder with same | taken
  · exact kept j (same ▸ held)
  · rw [taken] at held
    cases before : s.logLock with
    | none =>
        rw [before, Option.none_or, Option.some.injEq] at held
        exact ⟨c', held ▸ itself, live⟩
    | some owner =>
        rw [before, Option.some_or] at held
        exact kept j (before.trans held)

theorem lock_moves (s after : Proxy) (action : Action) (moves : Moves s action after)
    (lock : LockLive s) (settled : Settled s) (proper : s.EndsProperly action) : LockLive after := by
  cases moves with
  | accept clientFd child heap =>
      intro k held
      simp only [Proxy.accept] at held
      split at held
      · obtain ⟨c, here, live⟩ := lock k held
        exact ⟨c, append_keeps s.connections _ k c here, live⟩
      · cases held
  | claim k c here phase => exact fun _ held => by cases held
  | connect k serverFd c here phase => exact lock_set s _ lock k c _ here rfl rfl (.inl rfl)
  | fail k c here phase => exact fun _ held => by cases held
  | start k c here phase => exact lock_set s _ lock k c _ here rfl rfl (.inl rfl)
  | serve k a c worker taken here phase _ _ _ locked =>
      rcases locked with rfl | rfl
      · exact fun _ held => by cases held
      · exact lock_set s _ lock k c _ here rfl (by simp [Connection.live, phase]) (.inr rfl)
  | lose k a crashes c worker lock here phase running handled gone =>
      subst handled
      exact absurd gone (not_lose s settled k a crashes c here running proper)
  | leave k c here phase => exact lock_set s _ lock k c _ here rfl rfl (.inl rfl)
  | finish k c counted here phase => exact fun _ held => by cases held
  | shutdown => exact lock
  | kill slot =>
      intro k held
      obtain ⟨c, here, live⟩ := lock k held
      obtain ⟨d, there, live', _⟩ := kill_keeps s slot proper k c here live
      exact ⟨d, there, live'⟩

structure Accounted (s : Proxy) : Prop where
  distinct : Distinct s
  settled : Settled s
  registered : Registered s
  active : s.activeConnections.toNat = s.connected
  lock : LockLive s

theorem accounted_initial (bufferSize : Nat) (saveTraffic : Bool) :
    Accounted (.initial bufferSize saveTraffic) := by
  constructor
  case distinct => exact distinct_initial bufferSize saveTraffic
  case settled => exact fun c member => absurd member List.not_mem_nil
  case registered => exact registered_initial bufferSize saveTraffic
  case active => rfl
  case lock => exact fun k held => by cases held

theorem Accounted.moves {s after : Proxy} {action : Action} (accounted : Accounted s)
    (moves : Moves s action after) (proper : s.EndsProperly action) (room : s.CountsOn action) :
    Accounted after := by
  obtain ⟨distinct, settled, registered, active, lock⟩ := accounted
  constructor
  case distinct => exact distinct_moves s after action moves distinct
  case settled => exact settled_moves s after action moves settled
  case registered => exact registered_moves s after action moves registered distinct settled proper
  case active => exact counted_moves s after action moves active settled proper room
  case lock => exact lock_moves s after action moves lock settled proper

theorem Accounted.balanced {s : Proxy} (accounted : Accounted s) : Balanced s := by
  constructor
  case active => exact accounted.active
  case owner =>
    intro i used
    obtain ⟨k, c, here, live, _, pid⟩ := accounted.registered.owner i used
    exact ⟨k, c, here, live, pid⟩
  case lock => exact accounted.lock

-- A process that is lost leaves its count behind.
theorem lost_unbalanced (s after : Proxy) (active : s.activeConnections.toNat = s.connected) (k : Nat)
    (c c' : Connection) (here : s.connections[k]? = some c) (counted : c.counted = true)
    (not_counted : c'.counted = false) (connections : after.connections = s.connections.set k c')
    (same : after.activeConnections = s.activeConnections) : ¬ Balanced after := by
  intro balanced
  have count := connected_set s k c c' here
  have later := balanced.active
  rw [same, active, Proxy.connected, Proxy.connected, connections] at later
  simp only [counted, not_counted, if_true, Bool.false_eq_true, if_false, Nat.add_zero,
    Proxy.connected] at count
  omega

theorem kill_unbalanced (s : Proxy) (distinct : Distinct s) (slot : Fin maxNumberOfConnections)
    (taken : s.pids slot ≠ 0) (k : Nat) (c : Connection) (here : s.connections[k]? = some c)
    (live : c.live) (pid : c.pid = s.pids slot) (other : c.phase ≠ .serving) :
    ¬ Balanced { s with
      connections := s.connections.map fun c =>
        if c.live ∧ c.pid = s.pids slot then c.sigquit else c } := by
  intro balanced
  obtain ⟨j, d, there, live', pid'⟩ := balanced.owner slot taken
  obtain ⟨c', before, pid_eq, was⟩ := persists_kill s.connections (s.pids slot) j d there
  have index := distinct.same j k c' c before here (was live') live
    (pid_eq.symm.trans (pid'.trans pid.symm))
  rw [index, List.getElem?_map, here, Option.map_some, if_pos ⟨live, pid⟩,
    Option.some.injEq] at there
  rw [← there] at live'
  simp [Connection.live, sigquit_ends c other] at live'

theorem proper_of_balanced (s after : Proxy) (action : Action) (moves : Moves s action after)
    (distinct : Distinct s) (settled : Settled s) (before : Balanced s) (balanced : Balanced after) :
    s.EndsProperly action ∧ s.CountsOn action := by
  cases moves with
  | connect k serverFd c here phase =>
      refine ⟨trivial, ?_⟩
      by_contra full
      have small : s.activeConnections.toNat < 2 ^ 16 := s.activeConnections.toNat_lt
      have last : s.connected + 1 = 2 ^ 16 := by
        have least : ¬ s.connected + 1 < 2 ^ 16 := full
        rw [before.active] at small
        omega
      have count := connected_set s k c { c.enter .connected with serverFd := serverFd } here
      have not_counted : c.counted = false := counted_in c _ phase
      have counted : Connection.counted { c.enter .connected with serverFd := serverFd } = true := rfl
      rw [not_counted, counted] at count
      simp only [Bool.false_eq_true, if_false, if_true, Nat.add_zero] at count
      have later := balanced.active
      change (s.activeConnections + 1).toNat =
        (s.connections.set k _).countP Connection.counted at later
      rw [count, UInt16.toNat_add, before.active, last] at later
      simp only [UInt16.toNat_one, last] at later
      omega
  | serve k a c worker lock here phase running handled stays =>
      refine ⟨⟨rfl, ?_⟩, trivial⟩
      intro c' here' ends
      rw [here, Option.some.injEq] at here'
      subst here' handled
      have gone := (connection_gone_iff c a (s.counters c.clientNumber) running
        (settled c (List.mem_of_getElem? here))).mpr ends
      rw [stays] at gone
      cases gone
  | lose k a crashes c worker lock here phase =>
      exact absurd balanced (lost_unbalanced s _ before.active k c _ here
        (counted_in c _ phase) rfl rfl rfl)
  | kill slot taken =>
      refine ⟨?_, trivial⟩
      intro k c here live pid
      by_contra other
      exact kill_unbalanced s distinct slot taken k c here live pid other balanced
  | _ => exact ⟨trivial, trivial⟩

/--
The shared state is balanced in exactly the runs in which no process ends but by the end of
pgprtdbg_worker, and no connection is counted beyond the range of the counter.
-/
theorem balanced_iff (bufferSize : Nat) (saveTraffic : Bool) (actions : List Action) :
    (∀ seen s, seen <+: actions →
      Steps.run Proxy.step (.initial bufferSize saveTraffic) seen = some s → Balanced s) ↔
    Steps.Along Proxy.step (fun s action => s.EndsProperly action ∧ s.CountsOn action)
      (.initial bufferSize saveTraffic) actions := by
  constructor
  · intro balanced seen action before after front reached taken
    have moves := step_moves before after action taken
    have kept : Distinct before ∧ Settled before := by
      apply Steps.run_invariant Proxy.step (fun _ s => Distinct s ∧ Settled s)
        (.initial bufferSize saveTraffic)
        ⟨distinct_initial bufferSize saveTraffic, (accounted_initial bufferSize saveTraffic).settled⟩
        _ seen before reached
      intro actions s action after held taken
      have moves := step_moves s after action taken
      exact ⟨distinct_moves s after action moves held.1, settled_moves s after action moves held.2⟩
    have there := (Steps.run_snoc Proxy.step _ seen action after).mpr ⟨before, reached, taken⟩
    exact proper_of_balanced before after action moves kept.1 kept.2
      (balanced seen before ((List.prefix_append seen [action]).trans front) reached)
      (balanced (seen ++ [action]) after front there)
  · intro proper seen s front reached
    have accounted : Accounted s := by
      apply Steps.run_invariant_along Proxy.step
        (fun s action => s.EndsProperly action ∧ s.CountsOn action) (fun _ s => Accounted s)
        (.initial bufferSize saveTraffic) (accounted_initial bufferSize saveTraffic)
        _ seen s _ reached
      · intro actions s action after held condition taken
        exact held.moves (step_moves s after action taken) condition.1 condition.2
      · obtain ⟨rest, rfl⟩ := front
        exact proper.earlier
    exact accounted.balanced

end Balance

/-- A startup packet of eight bytes with a request code that fe_zero does not know. -/
def unknownRequest : List UInt8 := [0, 0, 0, 8, 0, 0, 0, 1]

def unknownRequestRun : List Action :=
  [.accept 5 (some 4711) fun _ => 0, .claim 0, .connect 0 (some 6), .start 0,
    .traffic 0 (arrival .client unknownRequest) false]

/-- The worker exits with its entry, its count and the log lock. -/
theorem unknown_request_leaks :
    ∃ s, Steps.run Proxy.step (.initial maxBufferSize false) unknownRequestRun = some s ∧
      s.connected = 0 ∧ s.activeConnections = 1 ∧ (∃ slot, s.pids slot = 4711) ∧
      s.logLock = some 0 ∧ ¬ Balanced s := by
  obtain ⟨slot, _, table⟩ := Table.replaceFirst_found 0 4711
    (fun _ : Fin maxNumberOfConnections => 0) ⟨0, by decide⟩ rfl
  refine ⟨_, rfl, by rfl, by rfl, ⟨slot, ?_⟩, by rfl, ?_⟩
  · have entry := congrFun table slot
    rwa [Function.update_self] at entry
  · intro balanced
    have one_is_none : (1 : Nat) = 0 := balanced.active
    exact Nat.one_ne_zero one_is_none

end Pgprtdbg
