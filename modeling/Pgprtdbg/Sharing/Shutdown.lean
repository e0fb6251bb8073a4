import Pgprtdbg.Sharing.Admission

set_option autoImplicit false

namespace Pgprtdbg

-- The worker that takes a step; main and the signals have none.
def Action.worker : Action → Option Nat
  | .claim k => some k
  | .connect k _ => some k
  | .start k => some k
  | .traffic k _ _ => some k
  | .leave k => some k
  | .finish k => some k
  | _ => none

/--
The loop at the end of main, from one entry of config->pids on, with whatever the workers do while
it is going on.
-/
inductive Sweep : Nat → Proxy → List Action → Proxy → Prop where
  | done (s : Proxy) : Sweep maxNumberOfConnections s [] s
  | step {i : Nat} {s middle after : Proxy} {action : Action} {actions : List Action}
      (worker : action.worker ≠ none) (taken : s.step action = some middle)
      (more : Sweep i middle actions after) : Sweep i s (action :: actions) after
  | skip {s after : Proxy} {actions : List Action} (slot : Fin maxNumberOfConnections)
      (free : s.pids slot = 0) (more : Sweep (slot + 1) s actions after) :
      Sweep slot s actions after
  | kill {s middle after : Proxy} {actions : List Action} (slot : Fin maxNumberOfConnections)
      (taken : s.step (.kill slot) = some middle) (more : Sweep (slot + 1) middle actions after) :
      Sweep slot s (.kill slot :: actions) after

def Connection.Quits (c : Connection) : Prop :=
  c.phase = .ended ∨ c.phase = .leaving true ∨ c.phase = .leaving false ∨ c.worker.running = false

section Quitting

theorem sigquit_quits (c : Connection) : c.sigquit.Quits := by
  unfold Connection.sigquit
  split
  · exact .inr (.inr (.inr rfl))
  · exact .inl rfl

theorem save_running (side : Side) (w : Worker) : (side.save w).running = w.running := by
  cases side with
  | client => exact (keeps_saveClient.fate w).1
  | server => exact (keeps_saveServer.fate w).1

theorem Finishes.stopped {errno : Errno} {status : Option MessageStatus} {before after : Worker}
    (finishes : Finishes errno status before after) (stopped : before.running = false) :
    after.running = false := by
  cases finishes with
  | ok => exact stopped
  | stop => rfl
  | failed => rfl
  | inWrite => exact stopped

-- A worker that was told to stop is not told to go on by any read or write.
theorem handle_stopped (clientFd serverFd : Int) (w : Worker) (a : Arrival)
    (stopped : w.running = false) : (w.handle clientFd serverFd a).running = false := by
  by_cases running : w.decoder.status = .running
  case neg =>
    rw [Worker.handle, if_neg running]
    exact stopped
  rw [handle_running clientFd serverFd w a running]
  by_cases nothing : a.chunk = []
  · obtain ⟨message, format, args, code, same⟩ := handler_nothing clientFd serverFd a.side a.transfer w
      ((chunk_nil_iff a).mp nothing)
    rw [same]
    rfl
  · obtain ⟨chunk, read, nonempty⟩ : ∃ chunk, a.transfer.read = .bytes chunk ∧ chunk ≠ [] := by
      simpa using mt (chunk_nil_iff a).mpr nothing
    have handled := handler_chunk clientFd serverFd a.side a.transfer w chunk read nonempty
    let msg := received chunk w.message
    let called : Worker :=
      { w with message := msg, decoder := a.side.decode clientFd serverFd msg w.decoder }
    by_cases stays : called.decoder.status = .running
    · apply (handled.2 stays).stopped
      exact (save_running a.side called).trans stopped
    · rw [handled.1 stays]
      exact stopped

theorem connection_stopped (c : Connection) (a : Arrival) (counter : EventCounter)
    (stopped : c.worker.running = false) : (c.handle a counter).running = false := by
  let w : Worker := { c.worker with decoder := { c.worker.decoder with counter := counter } }
  have same : c.handle a counter = w.handle c.clientFd c.serverFd a := rfl
  rw [same]
  exact handle_stopped c.clientFd c.serverFd w a stopped

end Quitting

section Sweeping

def Marked (first : Nat) (s : Proxy) (c : Connection) : Prop :=
  c.Quits ∨ (c.live = true ∧ ∃ slot : Fin maxNumberOfConnections,
    first ≤ slot ∧ s.pids slot = c.pid)

theorem live_phase (c : Connection) (phase : c.phase ≠ .ended) : c.live = true := by
  simp [Connection.live, phase]

-- The entries of a live process stay while another one claims an entry or gives its own up.
theorem entry_kept (s : Proxy) (distinct : Distinct s) (j k : Nat) (c d : Connection)
    (here : s.connections[k]? = some c) (there : s.connections[j]? = some d) (other : j ≠ k)
    (live : c.live) (live' : d.live) (slot : Fin maxNumberOfConnections)
    (entry : s.pids slot = c.pid) :
    Table.replaceFirst 0 d.pid s.pids slot = c.pid ∧
      Table.replaceFirst d.pid 0 s.pids slot = c.pid := by
  have nonzero := distinct.nonzero k c here live
  have different : c.pid ≠ d.pid := fun same =>
    other (distinct.same k j c d here there live live' same).symm
  constructor
  · rw [Table.replaceFirst_kept _ _ _ _ (by rwa [entry]), entry]
  · rw [Table.replaceFirst_kept _ _ _ _ (by rwa [entry]), entry]

variable {first : Nat} {s : Proxy}

-- A worker's step on itself keeps its mark, and the marks of the others with their entries.
theorem marked_set (after : Proxy) (j : Nat) (d d' : Connection) (there : s.connections[j]? = some d)
    (connections : after.connections = s.connections.set j d') (k : Nat) (c : Connection)
    (here : s.connections[k]? = some c) (marked : Marked first s c)
    (mine : Marked first s d → Marked first after d')
    (others : j ≠ k → c.live → ∀ slot, s.pids slot = c.pid → after.pids slot = c.pid) :
    ∃ c', after.connections[k]? = some c' ∧ Marked first after c' := by
  by_cases same : j = k
  · subst same
    obtain rfl : d = c := by simpa [there] using here
    exact ⟨d', by rw [connections, set_get _ j d d' there]; exact .inl ⟨rfl, rfl⟩, mine marked⟩
  · refine ⟨c, ?_, ?_⟩
    · rw [connections, set_get _ j d d' there]
      exact .inr ⟨Ne.symm same, here⟩
    · rcases marked with quits | ⟨live, slot, ahead, entry⟩
      · exact .inl quits
      · exact .inr ⟨live, slot, ahead, others same live slot entry⟩

theorem Marked.advance {after : Proxy} {c c' : Connection} (marked : Marked first s c)
    (phase : c.phase ≠ .ended ∧ c.phase ≠ .leaving true ∧ c.phase ≠ .leaving false)
    (alive : c'.live = true) (pid : c'.pid = c.pid)
    (stopped : c.worker.running = false → c'.worker.running = false)
    (pids : ∀ slot, s.pids slot = c.pid → after.pids slot = c.pid) : Marked first after c' := by
  rcases marked with (ended | leaving | leaving | told) | ⟨_, slot, ahead, entry⟩
  · exact absurd ended phase.1
  · exact absurd leaving phase.2.1
  · exact absurd leaving phase.2.2
  · exact .inl (.inr (.inr (.inr (stopped told))))
  · exact .inr ⟨alive, slot, ahead, (pids slot entry).trans pid.symm⟩

theorem marked_moves (after : Proxy) (action : Action) (moves : Moves s action after)
    (worker : action.worker ≠ none) (distinct : Distinct s) (k : Nat) (c : Connection)
    (here : s.connections[k]? = some c) (marked : Marked first s c) :
    ∃ c', after.connections[k]? = some c' ∧ Marked first after c' := by
  cases moves with
  | accept => exact absurd rfl worker
  | shutdown => exact absurd rfl worker
  | kill => exact absurd rfl worker
  | claim j d there phase =>
      have live := live_phase d (by simp [phase])
      have nonzero := distinct.nonzero j d there live
      apply marked_set _ j d _ there rfl k c here marked
      case mine =>
        intro before
        apply before.advance
        case phase => simp [phase]
        case alive => exact live_phase _ (by simp [Connection.enter])
        case pid => rfl
        case stopped => exact id
        intro slot entry
        exact (Table.replaceFirst_kept _ _ _ _ (by rwa [entry])).trans entry
      case others =>
        intro other alive slot entry
        exact (entry_kept s distinct j k c d here there other alive live slot entry).1
  | connect j serverFd d there phase =>
      apply marked_set _ j d _ there rfl k c here marked
      case mine =>
        intro before
        exact before.advance (by simp [phase]) (live_phase _ (by simp [Connection.enter])) rfl id
          (fun _ entry => entry)
      case others => exact fun _ _ _ entry => entry
  | fail j d there phase =>
      apply marked_set _ j d _ there rfl k c here marked
      case mine => exact fun _ => .inl (.inr (.inr (.inl rfl)))
      case others => exact fun _ _ _ entry => entry
  | start j d there phase =>
      apply marked_set _ j d _ there rfl k c here marked
      case mine =>
        intro before
        exact before.advance (by simp [phase]) (live_phase _ (by simp [Connection.enter])) rfl id
          (fun _ entry => entry)
      case others => exact fun _ _ _ entry => entry
  | serve j a d worker lock there phase running handled =>
      subst handled
      apply marked_set _ j d _ there rfl k c here marked
      case mine =>
        intro before
        apply before.advance
        case phase => simp [phase]
        case alive => exact live_phase _ (by simp [phase])
        case pid => rfl
        case stopped => exact connection_stopped d a _
        case pids => exact fun _ entry => entry
      case others => exact fun _ _ _ entry => entry
  | lose j a crashes d worker lock there phase =>
      apply marked_set _ j d _ there rfl k c here marked
      case mine => exact fun _ => .inl (.inl rfl)
      case others => exact fun _ _ _ entry => entry
  | leave j d there phase =>
      apply marked_set _ j d _ there rfl k c here marked
      case mine => exact fun _ => .inl (.inr (.inl rfl))
      case others => exact fun _ _ _ entry => entry
  | finish j d counted there phase =>
      have live := live_phase d (by simp [phase])
      apply marked_set _ j d _ there rfl k c here marked
      case mine => exact fun _ => .inl (.inl rfl)
      case others =>
        intro other alive slot entry
        exact (entry_kept s distinct j k c d here there other alive live slot entry).2

theorem marked_kill (slot : Fin maxNumberOfConnections) (after : Proxy) (action : Action)
    (same : action = .kill slot) (moves : Moves s action after) (k : Nat) (c : Connection)
    (here : s.connections[k]? = some c) (marked : Marked slot s c) :
    ∃ c', after.connections[k]? = some c' ∧ Marked (slot + 1) after c' := by
  cases moves with
  | kill other taken =>
      obtain rfl : other = slot := Action.kill.inj same
      refine ⟨if c.live ∧ c.pid = s.pids other then c.sigquit else c, ?_, ?_⟩
      · rw [List.getElem?_map, here]
        rfl
      · by_cases meant : c.live ∧ c.pid = s.pids other
        · rw [if_pos meant]
          exact .inl (sigquit_quits c)
        · rw [if_neg meant]
          rcases marked with quits | ⟨live, ahead, reached, entry⟩
          · exact .inl quits
          · have different : ahead ≠ other := by
              intro equal
              exact meant ⟨live, equal ▸ entry.symm⟩
            have later : other.val + 1 ≤ ahead.val := by
              have apart : ahead.val ≠ other.val := fun equal => different (Fin.ext equal)
              omega
            exact .inr ⟨live, ahead, later, entry⟩
  | _ => cases same

-- The loop signals whom it finds on its way, whatever the workers do meanwhile.
theorem Sweep.quits {actions : List Action} {after : Proxy} (sweep : Sweep first s actions after)
    (distinct : Distinct s) (k : Nat) (c : Connection) (here : s.connections[k]? = some c)
    (marked : Marked first s c) : ∃ c', after.connections[k]? = some c' ∧ c'.Quits := by
  induction sweep generalizing c with
  | done s =>
      rcases marked with quits | ⟨_, slot, ahead, _⟩
      · exact ⟨c, here, quits⟩
      · exact absurd slot.isLt (Nat.not_lt.mpr ahead)
  | @step i s middle after action actions worker taken more ih =>
      have moves := step_moves s middle action taken
      obtain ⟨c', there, still⟩ := marked_moves middle action moves worker distinct k c here marked
      exact ih (distinct_moves s middle action moves distinct) c' there still
  | @skip s after actions slot free more ih =>
      apply ih distinct c here
      rcases marked with quits | ⟨live, ahead, reached, entry⟩
      · exact .inl quits
      · have apart : ahead.val ≠ slot.val := by
          intro equal
          rw [Fin.ext equal, free] at entry
          exact distinct.nonzero k c here live entry.symm
        exact .inr ⟨live, ahead, by omega, entry⟩
  | @kill s middle after actions slot taken more ih =>
      have moves := step_moves s middle _ taken
      obtain ⟨c', there, still⟩ := marked_kill slot middle _ rfl moves k c here marked
      exact ih (distinct_moves s middle _ moves distinct) c' there still

theorem Sweep.run {actions : List Action} {after : Proxy} (sweep : Sweep first s actions after) :
    Steps.run Proxy.step s actions = some after := by
  induction sweep with
  | done s => rfl
  | step worker taken more ih => exact (Steps.run_cons _ _ _ _ _).mpr ⟨_, taken, ih⟩
  | skip slot free more ih => exact ih
  | kill slot taken more ih => exact (Steps.run_cons _ _ _ _ _).mpr ⟨_, taken, ih⟩

-- Main accepts nobody any more, and its loop does not turn back.
theorem Sweep.actions_of {actions : List Action} {after : Proxy}
    (sweep : Sweep first s actions after) :
    ∀ action ∈ actions, (∀ clientFd child heap, action ≠ .accept clientFd child heap) ∧
      ∀ slot, action = .kill slot → first ≤ slot := by
  induction sweep with
  | done s => simp
  | step worker taken more ih =>
      refine List.forall_mem_cons.mpr ⟨⟨?_, ?_⟩, ih⟩
      · rintro clientFd child heap rfl
        exact worker rfl
      · rintro slot rfl
        exact absurd rfl worker
  | skip slot free more ih =>
      exact fun action member => ⟨(ih action member).1, fun other same =>
        Nat.le_of_succ_le ((ih action member).2 other same)⟩
  | kill slot taken more ih =>
      refine List.forall_mem_cons.mpr ⟨⟨by simp, ?_⟩, fun action member => ?_⟩
      · intro other same
        rw [Action.kill.inj same]
      · exact ⟨(ih action member).1, fun other same =>
          Nat.le_of_succ_le ((ih action member).2 other same)⟩

theorem run_persists (actions : List Action) (after : Proxy)
    (same_processes : ∀ action ∈ actions, ∀ clientFd child heap,
      action ≠ .accept clientFd child heap)
    (reached : Steps.run Proxy.step s actions = some after) :
    Persists s.connections after.connections := by
  induction actions using List.reverseRecOn generalizing after with
  | nil =>
      cases reached
      exact fun k d there => ⟨d, there, rfl, id⟩
  | append_singleton actions action ih =>
      obtain ⟨before, earlier, taken⟩ := (Steps.run_snoc _ _ _ _ _).mp reached
      have front := ih before (fun other member => same_processes other (by simp [member])) earlier
      have last := persists_moves before after action (step_moves before after action taken)
        (same_processes action (by simp))
      intro k d there
      obtain ⟨d', middle, pid, live⟩ := last k d there
      obtain ⟨c, here, pid', live'⟩ := front k d' middle
      exact ⟨c, here, pid.trans pid', fun alive => live' (live alive)⟩

-- A pid comes into the table by the claim of its process alone.
theorem entry_moves (after : Proxy) (action : Action) (moves : Moves s action after) (pid : Nat)
    (nonzero : pid ≠ 0) (slot : Fin maxNumberOfConnections) (entry : after.pids slot = pid) :
    s.pids slot = pid ∨ ∃ (j : Nat) (d : Connection), action = .claim j ∧
      s.connections[j]? = some d ∧ d.live ∧ d.pid = pid := by
  cases moves with
  | claim j d there phase =>
      rcases Table.replaceFirst_entry 0 d.pid s.pids slot with kept | ⟨written, _⟩
      · exact .inl (kept.symm.trans entry)
      · exact .inr ⟨j, d, rfl, there, live_phase d (by simp [phase]), written.symm.trans entry⟩
  | finish j d counted there phase =>
      rcases Table.replaceFirst_entry d.pid 0 s.pids slot with kept | ⟨written, _⟩
      · exact .inl (kept.symm.trans entry)
      · exact absurd (entry.symm.trans written) nonzero
  | _ => exact .inl entry

theorem entry_origin (distinct : Distinct s) (k : Nat) (c : Connection)
    (here : s.connections[k]? = some c) (live : c.live) (actions : List Action) (after : Proxy)
    (same_processes : ∀ action ∈ actions, ∀ clientFd child heap,
      action ≠ .accept clientFd child heap)
    (reached : Steps.run Proxy.step s actions = some after) (slot : Fin maxNumberOfConnections)
    (entry : after.pids slot = c.pid) :
    s.pids slot = c.pid ∨ ∃ early late claimed, actions = early ++ .claim k :: late ∧
      Steps.run Proxy.step s (early ++ [.claim k]) = some claimed ∧ claimed.pids slot = c.pid := by
  induction actions using List.reverseRecOn generalizing after with
  | nil =>
      cases reached
      exact .inl entry
  | append_singleton actions action ih =>
      obtain ⟨before, earlier, taken⟩ := (Steps.run_snoc _ _ _ _ _).mp reached
      have others := fun other member => same_processes other (List.mem_append_left [action] member)
      rcases entry_moves after action (step_moves before after action taken) c.pid
        (distinct.nonzero k c here live) slot entry with kept | ⟨j, d, rfl, there, alive, pid⟩
      · rcases ih before others earlier kept with first | ⟨early, late, claimed, rfl, ran, found⟩
        · exact .inl first
        · exact .inr ⟨early, late ++ [action], claimed, by simp, ran, found⟩
      · obtain ⟨d', was, pid', lived⟩ := run_persists actions before others earlier j d there
        obtain rfl : j = k :=
          distinct.same j k d' c was here (lived alive) live (pid'.symm.trans pid)
        exact .inr ⟨actions, [], after, rfl, reached, entry⟩

end Sweeping

section Shutdown

/--
Main's last loop races with the workers: whoever has an entry that the loop has not come to yet is
told to quit. Whoever has none there gets no signal, whatever it does, unless its own claim puts
its pid into the entry that the loop then comes to.
-/
theorem shutdown_sweep (bufferSize : Nat) (saveTraffic : Bool) (seen : List Action) (s : Proxy)
    (reached : Steps.run Proxy.step (.initial bufferSize saveTraffic) seen = some s) (first : Nat)
    (actions : List Action) (after : Proxy) (sweep : Sweep first s actions after) (k : Nat)
    (c : Connection) (here : s.connections[k]? = some c) (live : c.live) :
    ((∃ slot : Fin maxNumberOfConnections, first ≤ slot ∧ s.pids slot = c.pid) →
      ∃ c', after.connections[k]? = some c' ∧ c'.Quits) ∧
    ((∀ slot : Fin maxNumberOfConnections, first ≤ slot → s.pids slot ≠ c.pid) →
      ∀ front slot back middle, actions = front ++ .kill slot :: back →
        Steps.run Proxy.step s front = some middle → middle.pids slot = c.pid →
        ∃ early late claimed, front = early ++ .claim k :: late ∧
          Steps.run Proxy.step s (early ++ [.claim k]) = some claimed ∧
          claimed.pids slot = c.pid) := by
  have distinct : Distinct s := by
    apply Steps.run_invariant Proxy.step (fun _ s => Distinct s) (.initial bufferSize saveTraffic)
      (distinct_initial bufferSize saveTraffic)
    · intro actions s action after held taken
      exact distinct_moves s after action (step_moves s after action taken) held
    · exact reached
  constructor
  · intro entry
    exact sweep.quits distinct k c here (.inr ⟨live, entry⟩)
  · intro behind front slot back middle split ran hit
    have each := sweep.actions_of
    rw [split] at each
    have ahead : first ≤ slot := (each (.kill slot) (by simp)).2 slot rfl
    have origin := entry_origin distinct k c here live front middle
      (fun action member => (each action (by simp [member])).1) ran slot hit
    exact origin.resolve_left (behind slot ahead)

theorem sweep_skips (s after : Proxy) (actions : List Action) (first count : Nat)
    (bound : first + count ≤ maxNumberOfConnections)
    (free : ∀ slot : Fin maxNumberOfConnections, first ≤ slot → slot < first + count → s.pids slot = 0)
    (more : Sweep (first + count) s actions after) : Sweep first s actions after := by
  induction count generalizing first with
  | zero => exact more
  | succ count ih =>
      have here : first < maxNumberOfConnections := by omega
      have later : Sweep (first + 1) s actions after := by
        apply ih
        case bound => omega
        case free => exact fun slot ahead before => free slot (by omega) (by omega)
        case more => rwa [show first + 1 + count = first + (count + 1) by omega]
      have skipped : s.pids ⟨first, here⟩ = 0 := free ⟨first, here⟩ (Nat.le_refl _) (by simp)
      exact Sweep.skip ⟨first, here⟩ skipped later

end Shutdown

def twoWorkers : List Action := oneWorker ++ [.accept 7 (some 4712) fun _ => 0, .shutdown]

-- The first worker has an entry, the second one has none and claims none.
theorem shutdown_sweep_claimed :
    ∃ (s after : Proxy) (slot : Fin maxNumberOfConnections) (c' : Connection),
      Steps.run Proxy.step (.initial maxBufferSize false) twoWorkers = some s ∧
      Sweep 0 s [.kill slot] after ∧ after.connections[0]? = some c' ∧ c'.Quits ∧
      ∀ (front back : List Action) (other : Fin maxNumberOfConnections) (middle : Proxy),
        [.kill slot] = front ++ .kill other :: back →
        Steps.run Proxy.step s front = some middle → middle.pids other ≠ 4712 := by
  obtain ⟨slot, _, table⟩ := Table.replaceFirst_found 0 4711
    (fun _ : Fin maxNumberOfConnections => 0) ⟨0, by decide⟩ rfl
  obtain ⟨s, c, d, ran, stopping, pids, here, pid, live, there, pid', live'⟩ : ∃ s c d,
      Steps.run Proxy.step (.initial maxBufferSize false) twoWorkers = some s ∧
        s.keepRunning = false ∧ s.pids = Table.replaceFirst 0 4711 (fun _ => 0) ∧
        s.connections[0]? = some c ∧ c.pid = 4711 ∧ c.live = true ∧
        s.connections[1]? = some d ∧ d.pid = 4712 ∧ d.live = true :=
    ⟨_, _, _, rfl, rfl, rfl, rfl, rfl, rfl, rfl, rfl, rfl⟩
  have entry : s.pids slot = 4711 := by
    rw [pids, table, Function.update_self]
  have free (other : Fin maxNumberOfConnections) (apart : other ≠ slot) : s.pids other = 0 := by
    rw [pids, table, Function.update_of_ne apart]
  have missing (other : Fin maxNumberOfConnections) : s.pids other ≠ d.pid := by
    rw [pid']
    by_cases apart : other = slot
    · rw [apart, entry]
      decide
    · rw [free other apart]
      decide
  obtain ⟨middle, taken, same⟩ : ∃ middle, s.step (.kill slot) = some middle ∧
      middle.pids = s.pids := by
    refine ⟨_, if_neg ?_, rfl⟩
    simp [stopping, entry]
  have ended : Sweep (slot + 1) middle [] middle := by
    apply sweep_skips _ _ _ _ (maxNumberOfConnections - (slot + 1)) (by omega)
    case free =>
      intro other ahead _
      rw [same]
      exact free other fun equal => by rw [equal] at ahead; omega
    case more =>
      rw [show slot.val + 1 + (maxNumberOfConnections - (slot.val + 1)) = maxNumberOfConnections by
        omega]
      exact .done middle
  have whole : Sweep 0 s [.kill slot] middle := by
    apply sweep_skips _ _ _ _ slot.val (by omega)
    case free =>
      intro other _ before
      exact free other fun equal => by rw [equal] at before; omega
    case more =>
      rw [Nat.zero_add]
      exact .kill slot taken ended
  obtain ⟨c', quits⟩ := (shutdown_sweep maxBufferSize false _ s ran 0 _ middle whole 0 c here
    live).1 ⟨slot, Nat.zero_le _, entry.trans pid.symm⟩
  refine ⟨s, middle, slot, c', ran, whole, quits.1, quits.2, ?_⟩
  intro front back other before split reached hit
  obtain ⟨early, late, _, rfl, _⟩ := (shutdown_sweep maxBufferSize false _ s ran 0 _ middle whole 1 d
    there live').2 (fun other _ => missing other) front other back before split reached
      (hit.trans pid'.symm)
  have member : Action.claim 1 ∈ [Action.kill slot] := by
    rw [split]
    simp
  simp at member

end Pgprtdbg
