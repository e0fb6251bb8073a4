import Mathlib.Data.List.OfFn
import Pgprtdbg.Sharing.Connections

set_option autoImplicit false

namespace Pgprtdbg

def Proxy.live (s : Proxy) : Nat := s.connections.countP Connection.live

/-- The processes that the loop at the end of main sends SIGQUIT. -/
def Proxy.signalled (s : Proxy) : List Nat := (List.ofFn s.pids).filter (· ≠ 0)

def Proxy.HasRoom (s : Proxy) : Action → Prop
  | .accept _ (some _) _ => s.live < maxNumberOfConnections
  | _ => True

def Owned (s : Proxy) : Prop :=
  ∀ (k : Nat) (c : Connection), s.connections[k]? = some c → c.live → c.phase ≠ .forked →
    ∃ slot, s.pids slot = c.pid

section Owning

theorem owned_set (s after : Proxy) (owned : Owned s) (k : Nat) (c c' : Connection)
    (here : s.connections[k]? = some c) (connections : after.connections = s.connections.set k c')
    (pids : after.pids = s.pids) (pid : c'.pid = c.pid) (live : c.live) (behind : c.phase ≠ .forked) :
    Owned after := by
  intro j d there live' behind'
  rw [connections, set_get _ k c c' here] at there
  rw [pids]
  rcases there with ⟨_, rfl⟩ | ⟨_, before⟩
  · rw [pid]
    exact owned k c here live behind
  · exact owned j d before live' behind'

-- The processes that own an entry are live, and so is the one that looks for one.
theorem free_slot (s : Proxy) (registered : Registered s) (distinct : Distinct s)
    (room : s.live ≤ maxNumberOfConnections) (k : Nat) (c : Connection)
    (here : s.connections[k]? = some c) (phase : c.phase = .forked) : ∃ slot, s.pids slot = 0 := by
  by_contra full
  have used (i : Fin maxNumberOfConnections) : s.pids i ≠ 0 := fun free => full ⟨i, free⟩
  have live : c.live := by simp [Connection.live, phase]
  let processes := (s.connections.filter Connection.live).map Connection.pid
  have injective : Function.Injective s.pids := fun i j same => registered.once i j (used i) same
  have unused : c.pid ∉ List.ofFn s.pids := by
    intro member
    obtain ⟨i, same⟩ := (List.mem_ofFn' s.pids c.pid).mp member
    obtain ⟨j, d, there, live', behind, pid⟩ := registered.owner i (used i)
    have index := distinct.same j k d c there here live' live (pid.trans same)
    rw [index, here] at there
    exact behind (Option.some.inj there ▸ phase)
  have all_live : c.pid :: List.ofFn s.pids ⊆ processes := by
    intro pid member
    rcases List.mem_cons.mp member with rfl | slot
    · exact List.mem_map.mpr ⟨c, List.mem_filter.mpr ⟨List.mem_of_getElem? here, live⟩, rfl⟩
    · obtain ⟨i, rfl⟩ := (List.mem_ofFn' s.pids pid).mp slot
      obtain ⟨j, d, there, live', _, same⟩ := registered.owner i (used i)
      exact List.mem_map.mpr ⟨d, List.mem_filter.mpr ⟨List.mem_of_getElem? there, live'⟩, same⟩
  have nodup : (c.pid :: List.ofFn s.pids).Nodup :=
    List.nodup_cons.mpr ⟨unused, List.nodup_ofFn.mpr injective⟩
  have many := nodup.length_le_of_subset all_live
  rw [List.length_cons, List.length_ofFn, List.length_map, ← List.countP_eq_length_filter] at many
  exact absurd room (Nat.not_le.mpr many)

theorem owned_claim (s after : Proxy) (owned : Owned s) (registered : Registered s)
    (distinct : Distinct s) (room : s.live ≤ maxNumberOfConnections) (k : Nat) (c : Connection)
    (here : s.connections[k]? = some c) (phase : c.phase = .forked)
    (connections : after.connections = s.connections.set k (c.enter .claimed))
    (pids : after.pids = Table.replaceFirst 0 c.pid s.pids) : Owned after := by
  obtain ⟨slot, free⟩ := free_slot s registered distinct room k c here phase
  intro j d there live behind
  rw [connections, set_get _ k c _ here] at there
  rw [pids]
  rcases there with ⟨_, rfl⟩ | ⟨_, before⟩
  · exact Table.replaceFirst_written 0 c.pid s.pids slot free
  · obtain ⟨own, same⟩ := owned j d before live behind
    have used : s.pids own ≠ 0 := by
      rw [same]
      exact distinct.nonzero j d before live
    exact ⟨own, by rw [Table.replaceFirst_kept 0 c.pid s.pids own used, same]⟩

theorem owned_finish (s after : Proxy) (owned : Owned s) (distinct : Distinct s) (k : Nat)
    (c : Connection) (here : s.connections[k]? = some c) (alive : c.live)
    (connections : after.connections = s.connections.set k (c.enter .ended))
    (pids : after.pids = Table.replaceFirst c.pid 0 s.pids) : Owned after := by
  intro j d there live behind
  rw [connections, set_get _ k c _ here] at there
  rw [pids]
  rcases there with ⟨_, rfl⟩ | ⟨other, before⟩
  · cases live
  · obtain ⟨own, same⟩ := owned j d before live behind
    have different : s.pids own ≠ c.pid := by
      intro equal
      exact other (distinct.same j k d c before here live alive (same.symm.trans equal))
    exact ⟨own, by rw [Table.replaceFirst_kept c.pid 0 s.pids own different, same]⟩

theorem owned_moves (s after : Proxy) (action : Action) (moves : Moves s action after)
    (owned : Owned s) (registered : Registered s) (distinct : Distinct s)
    (room : s.live ≤ maxNumberOfConnections) : Owned after := by
  cases moves with
  | accept clientFd child heap =>
      intro k c here live behind
      rcases append_get _ _ k c here with before | ⟨_, rfl⟩
      · exact owned k c before live behind
      · cases child with
        | none => cases live
        | some pid => exact absurd rfl behind
  | claim k c here phase =>
      apply owned_claim s _ owned registered distinct room k c here phase
      case connections => rfl
      case pids => simp only
  | connect k serverFd c here phase =>
      exact owned_set s _ owned k c _ here rfl rfl rfl (by simp [Connection.live, phase])
        (by simp [phase])
  | fail k c here phase =>
      exact owned_set s _ owned k c _ here rfl rfl rfl (by simp [Connection.live, phase])
        (by simp [phase])
  | start k c here phase =>
      exact owned_set s _ owned k c _ here rfl rfl rfl (by simp [Connection.live, phase])
        (by simp [phase])
  | serve k a c worker lock here phase =>
      exact owned_set s _ owned k c _ here rfl rfl rfl (by simp [Connection.live, phase])
        (by simp [phase])
  | lose k a crashes c worker lock here phase =>
      exact owned_set s _ owned k c _ here rfl rfl rfl (by simp [Connection.live, phase])
        (by simp [phase])
  | leave k c here phase =>
      exact owned_set s _ owned k c _ here rfl rfl rfl (by simp [Connection.live, phase])
        (by simp [phase])
  | finish k c counted here phase =>
      apply owned_finish s _ owned distinct k c here (by simp [Connection.live, phase])
      case connections => rfl
      case pids => simp only
  | shutdown => exact owned
  | kill slot =>
      intro k d here live behind
      rw [List.getElem?_map] at here
      cases before : s.connections[k]? with
      | none => simp [before] at here
      | some c =>
          simp only [before, Option.map_some, Option.some.injEq] at here
          by_cases meant : c.live ∧ c.pid = s.pids slot
          · rw [if_pos meant] at here
            exact ⟨slot, by rw [← here, sigquit_keeps, meant.2]⟩
          · rw [if_neg meant] at here
            exact owned k d (here ▸ before) live behind

end Owning

section Admission

structure Capped (s : Proxy) : Prop where
  bound : s.live ≤ maxNumberOfConnections
  entry : ∀ (k : Nat) (c : Connection), s.connections[k]? = some c → c.live → c.phase ≠ .forked →
    (∃ slot, s.pids slot = c.pid ∧ ∀ other, s.pids other = c.pid → other = slot) ∧
      c.pid ∈ s.signalled

theorem live_set (s : Proxy) (k : Nat) (c c' : Connection) (here : s.connections[k]? = some c)
    (live : c.live) : (s.connections.set k c').countP Connection.live ≤ s.live := by
  obtain ⟨bound, value⟩ := List.getElem?_eq_some_iff.mp here
  have positive : 0 < s.connections.countP Connection.live :=
    List.countP_pos_iff.mpr ⟨c, List.mem_of_getElem? here, live⟩
  rw [List.countP_set bound, value, if_pos live, Proxy.live]
  split <;> omega

theorem live_accept (s : Proxy) (clientFd : Int) (child : Option Nat) (heap : Nat → UInt8) :
    (s.accept clientFd child heap).live = s.live + if child.isSome then 1 else 0 := by
  cases child <;> simp [Proxy.accept, Proxy.live, Connection.live]

theorem live_kill (s : Proxy) (pid : Nat) :
    (s.connections.map fun c => if c.live ∧ c.pid = pid then c.sigquit else c).countP
      Connection.live ≤ s.live := by
  rw [List.countP_map]
  apply List.countP_mono_left
  intro c _ live
  simp only [Function.comp] at live
  split at live
  next meant => exact meant.1
  next => exact live

theorem live_moves (s after : Proxy) (action : Action) (moves : Moves s action after)
    (bound : s.live ≤ maxNumberOfConnections) (room : s.HasRoom action) :
    after.live ≤ maxNumberOfConnections := by
  have set (k : Nat) (c c' : Connection) (here : s.connections[k]? = some c)
      (phase : c.phase ≠ .ended) :
      (s.connections.set k c').countP Connection.live ≤ maxNumberOfConnections :=
    (live_set s k c c' here (by simp [Connection.live, phase])).trans bound
  cases moves with
  | accept clientFd child heap =>
      rw [live_accept]
      cases child with
      | none => exact bound
      | some pid => exact room
  | claim k c here phase => exact set k c _ here (by simp [phase])
  | connect k serverFd c here phase => exact set k c _ here (by simp [phase])
  | fail k c here phase => exact set k c _ here (by simp [phase])
  | start k c here phase => exact set k c _ here (by simp [phase])
  | serve k a c worker lock here phase => exact set k c _ here (by simp [phase])
  | lose k a crashes c worker lock here phase => exact set k c _ here (by simp [phase])
  | leave k c here phase => exact set k c _ here (by simp [phase])
  | finish k c counted here phase => exact set k c _ here (by simp [phase])
  | shutdown => exact bound
  | kill slot => exact (live_kill s (s.pids slot)).trans bound

structure Roomy (s : Proxy) : Prop where
  distinct : Distinct s
  settled : Settled s
  registered : Registered s
  bound : s.live ≤ maxNumberOfConnections
  owned : Owned s

theorem roomy_initial (bufferSize : Nat) (saveTraffic : Bool) :
    Roomy (.initial bufferSize saveTraffic) := by
  have accounted := accounted_initial bufferSize saveTraffic
  constructor
  case distinct => exact accounted.distinct
  case settled => exact accounted.settled
  case registered => exact accounted.registered
  case bound => exact Nat.zero_le _
  case owned =>
    intro k c here
    cases here

theorem Roomy.moves {s after : Proxy} {action : Action} (roomy : Roomy s)
    (moves : Moves s action after) (proper : s.EndsProperly action) (room : s.HasRoom action) :
    Roomy after := by
  obtain ⟨distinct, settled, registered, bound, owned⟩ := roomy
  constructor
  case distinct => exact distinct_moves s after action moves distinct
  case settled => exact settled_moves s after action moves settled
  case registered => exact registered_moves s after action moves registered distinct settled proper
  case bound => exact live_moves s after action moves bound room
  case owned => exact owned_moves s after action moves owned registered distinct bound

theorem Roomy.admitted {s : Proxy} (roomy : Roomy s) : Capped s := by
  constructor
  case bound => exact roomy.bound
  case entry =>
    intro k c here live behind
    obtain ⟨slot, own⟩ := roomy.owned k c here live behind
    have used : s.pids slot ≠ 0 := own ▸ roomy.distinct.nonzero k c here live
    constructor
    · refine ⟨slot, own, fun other same => ?_⟩
      exact (roomy.registered.once slot other used (own.trans same.symm)).symm
    · rw [Proxy.signalled, ← own]
      exact List.mem_filter.mpr ⟨(List.mem_ofFn' s.pids _).mpr ⟨slot, rfl⟩, by simpa using used⟩

/--
In the runs whose workers end with the end of pgprtdbg_worker, the bound and what follows from
it hold in every state exactly when each fork() of accept_cb finds room for its worker.
-/
theorem admitted_iff (bufferSize : Nat) (saveTraffic : Bool) (actions : List Action)
    (proper : Steps.Along Proxy.step Proxy.EndsProperly (.initial bufferSize saveTraffic) actions) :
    (∀ seen s, seen <+: actions →
      Steps.run Proxy.step (.initial bufferSize saveTraffic) seen = some s → Capped s) ↔
    Steps.Along Proxy.step Proxy.HasRoom (.initial bufferSize saveTraffic) actions := by
  constructor
  · intro admitted seen action before after front reached taken
    have there := (Steps.run_snoc Proxy.step _ seen action after).mpr ⟨before, reached, taken⟩
    have bound := (admitted (seen ++ [action]) after front there).bound
    cases step_moves before after action taken with
    | accept clientFd child heap =>
        rw [live_accept] at bound
        cases child with
        | none => trivial
        | some pid => exact bound
    | _ => trivial
  · intro room seen s front reached
    have roomy : Roomy s := by
      apply Steps.run_invariant_along Proxy.step
        (fun s action => s.EndsProperly action ∧ s.HasRoom action) (fun _ s => Roomy s)
        (.initial bufferSize saveTraffic) (roomy_initial bufferSize saveTraffic) _ seen s _ reached
      · intro actions s action after held condition taken
        exact held.moves (step_moves s after action taken) condition.1 condition.2
      · intro earlier action before after within reached taken
        have inside := within.trans front
        exact ⟨proper earlier action before after inside reached taken,
          room earlier action before after inside reached taken⟩
    exact roomy.admitted

end Admission

def oneWorker : List Action := [.accept 5 (some 4711) fun _ => 0, .claim 0]

theorem oneWorker_proper :
    Steps.Along Proxy.step Proxy.EndsProperly (.initial maxBufferSize false) oneWorker := by
  intro seen action before after front _ _
  have member := front.subset (List.mem_append_right seen (List.mem_singleton_self action))
  rcases List.mem_cons.mp member with rfl | rest
  · trivial
  · rw [List.mem_singleton.mp rest]
    trivial

theorem oneWorker_room :
    Steps.Along Proxy.step Proxy.HasRoom (.initial maxBufferSize false) oneWorker := by
  intro seen action before after front reached _
  cases seen with
  | nil =>
      cases reached
      rw [(List.cons_prefix_cons.mp front).1]
      exact (by decide : 0 < maxNumberOfConnections)
  | cons first seen =>
      have rest := (List.cons_prefix_cons.mp front).2
      have member := rest.subset (List.mem_append_right seen (List.mem_singleton_self action))
      rw [List.mem_singleton.mp member]
      trivial

theorem oneWorker_admitted :
    ∃ s, Steps.run Proxy.step (.initial maxBufferSize false) oneWorker = some s ∧ Capped s :=
  ⟨_, rfl, (admitted_iff maxBufferSize false oneWorker oneWorker_proper).mpr oneWorker_room oneWorker
    _ (List.prefix_refl _) rfl⟩

def acceptMany (count : Nat) : List Action :=
  (List.range count).map fun k => .accept 5 (some (k + 1)) fun _ => 0

theorem acceptMany_run (count : Nat) :
    ∃ s, Steps.run Proxy.step (.initial maxBufferSize false) (acceptMany count) = some s ∧
      s.live = count ∧ s.keepRunning = true ∧ s.activeConnections = 0 ∧
      ∀ c ∈ s.connections, c.pid ≤ count := by
  induction count with
  | zero =>
      refine ⟨_, rfl, rfl, rfl, rfl, ?_⟩
      intro c member
      cases member
  | succ count ih =>
      obtain ⟨s, reached, live, running, active, pids⟩ := ih
      refine ⟨s.accept 5 (some (count + 1)) fun _ => 0, ?_, ?_, running, active, ?_⟩
      · rw [acceptMany, List.range_succ, List.map_append, List.map_singleton, Steps.run_snoc]
        refine ⟨s, reached, ?_⟩
        have fresh : ∀ pid ∈ some (count + 1), pid ≠ 0 ∧ ∀ c ∈ s.connections, c.live → c.pid ≠ pid := by
          intro pid same
          cases same
          refine ⟨by omega, fun c member _ => ?_⟩
          have below := pids c member
          omega
        have admitted : ¬ s.activeConnections.toNat > maxNumberOfConnections := by
          rw [active]
          decide
        rw [Proxy.step, if_pos ⟨running, admitted, fresh⟩]
      · rw [live_accept, live]
        rfl
      · intro c member
        rcases List.mem_append.mp member with before | new
        · exact (pids c before).trans (Nat.le_succ count)
        · rw [List.mem_singleton.mp new]
          exact Nat.le_refl _

/-- One worker more than the bound is live when none of them is connected yet. -/
theorem admission_exceeded :
    ∃ s, Steps.run Proxy.step (.initial maxBufferSize false)
        (acceptMany (maxNumberOfConnections + 1)) = some s ∧
      s.live = maxNumberOfConnections + 1 ∧ s.activeConnections = 0 ∧ ¬ Capped s := by
  obtain ⟨s, reached, live, _, active, _⟩ := acceptMany_run (maxNumberOfConnections + 1)
  refine ⟨s, reached, live, active, fun admitted => ?_⟩
  have bound := admitted.bound
  rw [live] at bound
  omega

end Pgprtdbg
