import Pgprtdbg.Sharing.Connections
import Pgprtdbg.Worker.Statistics

set_option autoImplicit false

namespace Pgprtdbg

def Action.chunkOf (k : Nat) (side : Side) : Action → List (List UInt8)
  | .traffic j a _ => if j = k ∧ a.side = side ∧ a.chunk ≠ [] then [a.chunk] else []
  | _ => []

def chunksOf (k : Nat) (side : Side) (actions : List Action) : List (List UInt8) :=
  actions.flatMap (Action.chunkOf k side)

def expectedCounter (k : Nat) (actions : List Action) : EventCounter :=
  let total (side : Side) := ((chunksOf k side actions).map List.length).sum
  let reads (side : Side) := (chunksOf k side actions).length
  { clientNumber := 0
    rcvdBytes := UInt64.ofNat (total .server)
    sentBytes := UInt64.ofNat (total .client)
    rcvdMessages := UInt32.ofNat (reads .server)
    sentMessages := UInt32.ofNat (reads .client) }

section History

@[simp] theorem chunksOf_append (k : Nat) (side : Side) (first second : List Action) :
    chunksOf k side (first ++ second) = chunksOf k side first ++ chunksOf k side second := by
  simp [chunksOf]

theorem expected_same (k : Nat) (actions : List Action) (action : Action)
    (other : ∀ side, action.chunkOf k side = []) :
    expectedCounter k (actions ++ [action]) = expectedCounter k actions := by
  simp [expectedCounter, chunksOf, other]

theorem expected_chunk (k : Nat) (actions : List Action) (a : Arrival) (crashes : Bool)
    (nonempty : a.chunk ≠ []) (message : Message) :
    expectedCounter k (actions ++ [.traffic k a crashes]) =
      a.side.counted (received a.chunk message) (expectedCounter k actions) := by
  have size : (received a.chunk message).length = a.chunk.length := rfl
  have one (side : Side) : Action.chunkOf k side (.traffic k a crashes) =
      if a.side = side then [a.chunk] else [] := by
    simp [Action.chunkOf, nonempty]
  have added (side : Side) : chunksOf k side (actions ++ [.traffic k a crashes]) =
      chunksOf k side actions ++ if a.side = side then [a.chunk] else [] := by
    rw [chunksOf_append, ← one side]
    simp [chunksOf]
  cases side : a.side with
  | client =>
      simp [expectedCounter, added, side, Side.counted, EventCounter.sent, size,
        UInt64.ofNat_add, UInt32.ofNat_add]
  | server =>
      simp [expectedCounter, added, side, Side.counted, EventCounter.rcvd, size,
        UInt64.ofNat_add, UInt32.ofNat_add]

end History

structure Accounts (actions : List Action) (s : Proxy) : Prop where
  number : s.clientNumber = min s.connections.length maxNumberOfCounters
  entry : ∀ (k : Nat) (c : Connection), s.connections[k]? = some c →
    c.clientNumber = min k maxNumberOfCounters
  counters : ∀ k < maxNumberOfCounters, s.counters k = expectedCounter k actions

section Accounts

variable {actions : List Action} {s : Proxy}

theorem accounts_initial (bufferSize : Nat) (saveTraffic : Bool) :
    Accounts [] (.initial bufferSize saveTraffic) := by
  constructor
  case number => rfl
  case entry => simp [Proxy.initial]
  case counters => simp [Proxy.initial, expectedCounter, chunksOf]

-- The worker of a connection counts what it reads in the entry it was given.
theorem connection_counts (c : Connection) (a : Arrival) (counter : EventCounter)
    (running : c.worker.decoder.status = .running) :
    (c.handle a counter).decoder.counter =
      if a.chunk = [] then counter else a.side.counted (received a.chunk c.worker.message) counter := by
  let w : Worker := { c.worker with decoder := { c.worker.decoder with counter := counter } }
  have same : c.handle a counter = w.handle c.clientFd c.serverFd a := rfl
  rw [same]
  by_cases nothing : a.chunk = []
  · rw [if_pos nothing, handle_counts_nothing c.clientFd c.serverFd w a fun here => here.2.2 nothing]
  · rw [if_neg nothing, handle_counts c.clientFd c.serverFd w a ⟨running, rfl, nothing⟩]

theorem accounts_traffic (accounts : Accounts actions s) (after : Proxy) (k : Nat) (a : Arrival)
    (crashes : Bool) (c c' : Connection) (here : s.connections[k]? = some c)
    (running : c.worker.decoder.status = .running)
    (connections : after.connections = s.connections.set k c')
    (same : c'.clientNumber = c.clientNumber) (clientNumber : after.clientNumber = s.clientNumber)
    (counters : after.counters = Function.update s.counters c.clientNumber
      (c.handle a (s.counters c.clientNumber)).decoder.counter) :
    Accounts (actions ++ [.traffic k a crashes]) after := by
  have entry := accounts.entry k c here
  constructor
  case number => rw [clientNumber, connections, List.length_set, accounts.number]
  case entry =>
    intro j d there
    rw [connections, set_get _ k c c' here] at there
    rcases there with ⟨rfl, rfl⟩ | ⟨_, before⟩
    · rw [same, entry]
    · exact accounts.entry j d before
  case counters =>
    intro j small
    by_cases mine : j = k
    · subst mine
      have own : c.clientNumber = j := by rw [entry, Nat.min_eq_left (Nat.le_of_lt small)]
      rw [counters, own, Function.update_self, connection_counts c a _ running,
        accounts.counters j small]
      by_cases nothing : a.chunk = []
      · rw [if_pos nothing, expected_same j actions _ fun side => by simp [Action.chunkOf, nothing]]
      · rw [if_neg nothing, expected_chunk j actions a crashes nothing c.worker.message]
    · have different : j ≠ c.clientNumber := by
        rw [entry]
        omega
      rw [counters, Function.update_of_ne different, accounts.counters j small,
        expected_same j actions _ fun side => by simp [Action.chunkOf, Ne.symm mine]]

-- The other steps leave the counters alone, and the entries of the connections.
theorem accounts_other (accounts : Accounts actions s) (after : Proxy) (action : Action)
    (quiet : ∀ k side, action.chunkOf k side = [])
    (entries : after.connections.map Connection.clientNumber =
      s.connections.map Connection.clientNumber)
    (clientNumber : after.clientNumber = s.clientNumber) (counters : after.counters = s.counters) :
    Accounts (actions ++ [action]) after := by
  constructor
  case number =>
    have length := congrArg List.length entries
    rw [List.length_map, List.length_map] at length
    rw [clientNumber, length, accounts.number]
  case entry =>
    intro k c here
    have same := congrArg (fun numbers => numbers[k]?) entries
    simp only [List.getElem?_map, here, Option.map_some] at same
    cases before : s.connections[k]? with
    | none => simp [before] at same
    | some d =>
        rw [before, Option.map_some, Option.some.injEq] at same
        rw [same, accounts.entry k d before]
  case counters =>
    intro k small
    rw [counters, accounts.counters k small, expected_same k actions action (quiet k)]

theorem map_set (connections : List Connection) (k : Nat) (c c' : Connection)
    (here : connections[k]? = some c) (same : c'.clientNumber = c.clientNumber) :
    (connections.set k c').map Connection.clientNumber =
      connections.map Connection.clientNumber := by
  obtain ⟨bound, value⟩ := List.getElem?_eq_some_iff.mp here
  rw [List.map_set, same]
  apply List.ext_getElem?
  intro j
  rw [List.getElem?_set, List.getElem?_map]
  by_cases mine : k = j
  · subst mine
    simp [bound, value]
  · simp [mine]

theorem accounts_moves (accounts : Accounts actions s) (after : Proxy) (action : Action)
    (moves : Moves s action after) : Accounts (actions ++ [action]) after := by
  cases moves with
  | accept clientFd child heap =>
      constructor
      case number =>
        have number := accounts.number
        simp only [Proxy.accept, List.length_append, List.length_singleton]
        split <;> omega
      case entry =>
        intro k c here
        rcases append_get _ _ k c here with before | ⟨rfl, rfl⟩
        · exact accounts.entry k c before
        · exact accounts.number
      case counters =>
        intro k small
        rw [expected_same k actions _ fun _ => rfl]
        exact accounts.counters k small
  | claim k c here =>
      exact accounts_other accounts _ _ (fun _ _ => rfl) (map_set _ k c _ here rfl) rfl rfl
  | connect k serverFd c here =>
      exact accounts_other accounts _ _ (fun _ _ => rfl) (map_set _ k c _ here rfl) rfl rfl
  | fail k c here =>
      exact accounts_other accounts _ _ (fun _ _ => rfl) (map_set _ k c _ here rfl) rfl rfl
  | start k c here =>
      exact accounts_other accounts _ _ (fun _ _ => rfl) (map_set _ k c _ here rfl) rfl rfl
  | serve k a c worker lock here phase running handled =>
      subst handled
      exact accounts_traffic accounts _ k a false c _ here running rfl rfl rfl rfl
  | lose k a crashes c worker lock here phase running handled =>
      subst handled
      exact accounts_traffic accounts _ k a crashes c _ here running rfl rfl rfl rfl
  | leave k c here =>
      exact accounts_other accounts _ _ (fun _ _ => rfl) (map_set _ k c _ here rfl) rfl rfl
  | finish k c counted here =>
      exact accounts_other accounts _ _ (fun _ _ => rfl) (map_set _ k c _ here rfl) rfl rfl
  | shutdown => exact accounts_other accounts _ _ (fun _ _ => rfl) rfl rfl rfl
  | kill slot =>
      apply accounts_other accounts _ _ (fun _ _ => rfl)
      case entries =>
        rw [List.map_map]
        apply List.map_congr_left
        intro c _
        simp only [Function.comp]
        split
        · unfold Connection.sigquit
          split <;> rfl
        · rfl
      case clientNumber => rfl
      case counters => rfl

end Accounts

/--
What the statistics owe a connection: its number, from one on, and what its worker has read from
either side, in numbers that wrap as "%ld" and "%d" show them.
-/
def expectedReport (actions : List Action) (k : Nat) : List (String × List Int) :=
  let total (side : Side) : Int := ((chunksOf k side actions).map List.length).sum
  let reads (side : Side) : Int := (chunksOf k side actions).length
  [("Client:                  %d\n", [(k : Int) + 1]),
    ("Bytes Sent:              %ld\n", [(total .client).bmod (2 ^ 64)]),
    ("Messages Sent:           %d\n", [(reads .client).bmod (2 ^ 32)]),
    ("Bytes Received:          %ld\n", [(total .server).bmod (2 ^ 64)]),
    ("Messages Received:       %d\n", [(reads .server).bmod (2 ^ 32)])]

def dashes : String × List Int := ("------------------------------\n", [])

def expectedStatistics (actions : List Action) (clientCount : Nat) : List (String × List Int) :=
  dashes :: List.intercalate [dashes] ((List.range clientCount).map (expectedReport actions))

section Statistics

theorem intercalate_snoc {α : Type} (separator last : List α) (front : List (List α)) :
    List.intercalate separator (front ++ [last]) = front.flatMap (· ++ separator) ++ last := by
  induction front with
  | nil => simp
  | cons first front ih =>
      rw [List.cons_append, List.intercalate_cons_of_ne_nil (by simp), ih]
      simp

theorem expected_reported (actions : List Action) (k : Nat) :
    (expectedCounter k actions).report k = expectedReport actions k := by
  have bytes (n : Nat) : (UInt64.ofNat n).toInt64.toInt = (n : Int).bmod (2 ^ 64) :=
    BitVec.toInt_ofNat n
  have messages (n : Nat) : (UInt32.ofNat n).toInt32.toInt = (n : Int).bmod (2 ^ 32) :=
    BitVec.toInt_ofNat n
  simp only [EventCounter.report, expectedReport, expectedCounter, bytes, messages]

theorem statistics_expected (counters : Nat → EventCounter) (actions : List Action)
    (clientCount : Nat) (same : ∀ k < clientCount, counters k = expectedCounter k actions) :
    pgprtdbgCounterOutputStatistics counters clientCount =
      expectedStatistics actions clientCount := by
  have report (k : Nat) (small : k < clientCount) :
      (counters k).report k = expectedReport actions k := by
    rw [same k small, expected_reported]
  rw [pgprtdbgCounterOutputStatistics, expectedStatistics]
  refine congrArg (List.cons dashes) ?_
  cases clientCount with
  | zero => rfl
  | succ count =>
      rw [List.range_succ, List.map_append, List.map_singleton, intercalate_snoc,
        List.flatMap_append, List.flatMap_map]
      refine congrArg₂ (· ++ ·) ?_ ?_
      · apply List.flatMap_congr
        intro k member
        have small := List.mem_range.mp member
        rw [report k (by omega), if_pos (by omega)]
        rfl
      · simp [report count (by omega)]

end Statistics

/--
Whatever is accepted and read, in any order: no entry is used that main did not allocate, the
first connections have entries of their own, these tell what was read for them, and the
statistics report just these entries, in their order, and nothing of the one that is shared.
-/
theorem accounting (bufferSize : Nat) (saveTraffic : Bool) (actions : List Action) (s : Proxy)
    (reached : Steps.run Proxy.step (.initial bufferSize saveTraffic) actions = some s) :
    s.clientNumber = min s.connections.length maxNumberOfCounters ∧
      (∀ (k : Nat) (c : Connection), s.connections[k]? = some c →
        c.clientNumber = min k maxNumberOfCounters) ∧
      (∀ k < maxNumberOfCounters,
        (s.counters k).sentBytes = UInt64.ofNat ((chunksOf k .client actions).map List.length).sum ∧
        (s.counters k).rcvdBytes = UInt64.ofNat ((chunksOf k .server actions).map List.length).sum) ∧
      pgprtdbgCounterOutputStatistics s.counters s.clientNumber =
        expectedStatistics actions s.clientNumber ∧
      ∀ shared : EventCounter, pgprtdbgCounterOutputStatistics
          (Function.update s.counters maxNumberOfCounters shared) s.clientNumber =
        expectedStatistics actions s.clientNumber := by
  have accounts : Accounts actions s := by
    apply Steps.run_invariant Proxy.step Accounts (.initial bufferSize saveTraffic)
      (accounts_initial bufferSize saveTraffic)
    · intro actions s action after held taken
      exact accounts_moves held after action (step_moves s after action taken)
    · exact reached
  have below : s.clientNumber ≤ maxNumberOfCounters := by
    rw [accounts.number]
    exact Nat.min_le_right _ _
  have entries (k : Nat) (small : k < s.clientNumber) : s.counters k = expectedCounter k actions :=
    accounts.counters k (small.trans_le below)
  refine ⟨accounts.number, accounts.entry, ?_, statistics_expected _ _ _ entries, ?_⟩
  · intro k small
    rw [accounts.counters k small]
    exact ⟨rfl, rfl⟩
  · intro shared
    apply statistics_expected
    intro k small
    rw [Function.update_of_ne (Nat.ne_of_lt (small.trans_le below)), entries k small]

def oneQuery : List Action :=
  [.accept 5 (some 4711) fun _ => 0, .claim 0, .connect 0 (some 6), .start 0,
    .traffic 0 (arrival .client [81, 0, 0, 0, 5, 0]) false]

theorem accounting_oneQuery :
    let report : List (String × List Int) :=
      [dashes, ("Client:                  %d\n", [1]), ("Bytes Sent:              %ld\n", [6]),
        ("Messages Sent:           %d\n", [1]), ("Bytes Received:          %ld\n", [0]),
        ("Messages Received:       %d\n", [0])]
    ∃ s, Steps.run Proxy.step (.initial maxBufferSize false) oneQuery = some s ∧
      s.clientNumber = 1 ∧ (∀ c, s.connections[0]? = some c → c.clientNumber = 0) ∧
      (s.counters 0).sentBytes = 6 ∧ (s.counters 0).rcvdBytes = 0 ∧
      pgprtdbgCounterOutputStatistics s.counters s.clientNumber = report ∧
      ∀ shared, pgprtdbgCounterOutputStatistics
        (Function.update s.counters maxNumberOfCounters shared) s.clientNumber = report := by
  intro report
  obtain ⟨number, entry, bytes, statistics, others⟩ := accounting maxBufferSize false oneQuery _ rfl
  have expected : expectedStatistics oneQuery 1 = report := by decide
  obtain ⟨sent, received⟩ := bytes 0 (by decide)
  refine ⟨_, rfl, number, entry 0, sent, received, ?_, fun shared => ?_⟩
  · rw [statistics, number]
    exact expected
  · rw [others, number]
    exact expected

end Pgprtdbg
