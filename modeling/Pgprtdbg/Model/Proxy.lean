import Pgprtdbg.Model.Pipeline
import Pgprtdbg.Shared.Table

set_option autoImplicit false

namespace Pgprtdbg

def maxNumberOfConnections : Nat := 1000

def maxNumberOfCounters : Nat := maxNumberOfConnections

inductive Phase where
  | forked
  -- Behind the loop that looks for a free entry of config->pids.
  | claimed
  -- Connected and counted, but without a handler for SIGQUIT.
  | connected
  -- In the event loop.
  | serving
  -- Behind ev_signal_stop, or behind pgprtdbg_connect when that failed.
  | leaving (counted : Bool)
  | ended
  deriving DecidableEq, Repr

def Phase.counted : Phase → Bool
  | .connected => true
  | .serving => true
  | .leaving counted => counted
  | _ => false

structure Connection where
  pid : Nat
  clientFd : Int
  serverFd : Int
  clientNumber : Nat
  phase : Phase
  worker : Worker

def Connection.live (c : Connection) : Bool := c.phase ≠ .ended

def Connection.counted (c : Connection) : Bool := c.phase.counted

def Connection.enter (phase : Phase) (c : Connection) : Connection := { c with phase := phase }

structure Proxy where
  bufferSize : Nat
  saveTraffic : Bool
  keepRunning : Bool
  clientNumber : Nat
  activeConnections : UInt16
  pids : Fin maxNumberOfConnections → Nat
  -- The connection whose worker set the lock word.
  logLock : Option Nat
  counters : Nat → EventCounter
  connections : List Connection

inductive Action where
  -- accept_cb: the pid of the child, or none when fork() fails.
  | accept (clientFd : Int) (child : Option Nat) (heap : Nat → UInt8)
  | claim (connection : Nat)
  -- pgprtdbg_connect: the descriptor of the server, or none when it fails.
  | connect (connection : Nat) (serverFd : Option Int)
  | start (connection : Nat)
  -- A handler runs. A process that did in its decoder what may end it may crash there.
  | traffic (connection : Nat) (a : Arrival) (crashes : Bool)
  | leave (connection : Nat)
  -- The end of pgprtdbg_worker.
  | finish (connection : Nat)
  -- shutdown_cb, and one round of the loop of main that sends SIGQUIT.
  | shutdown
  | kill (slot : Fin maxNumberOfConnections)

def Proxy.initial (bufferSize : Nat) (saveTraffic : Bool) : Proxy :=
  { bufferSize := bufferSize
    saveTraffic := saveTraffic
    keepRunning := true
    clientNumber := 0
    activeConnections := 0
    pids := fun _ => 0
    logLock := none
    counters := fun _ => ⟨0, 0, 0, 0, 0⟩
    connections := [] }

def Proxy.put (s : Proxy) (k : Nat) (c : Connection) : Proxy :=
  { s with connections := s.connections.set k c }

def Proxy.inPhase (s : Proxy) (k : Nat) (phase : Phase → Bool) (act : Connection → Option Proxy) :
    Option Proxy :=
  match s.connections[k]? with
  | some c => if phase c.phase then act c else none
  | none => none

-- What may end the process while it decodes: besides, fe_zero writes to a client that it refuses,
-- and SIGPIPE comes where that client is gone.
def Event.mayKill (event : Event) : Bool := event.touchesOther || event.refuses

def Status.isGone : Status → Bool
  | .exited _ => true
  | .faulted => true
  | .killed => true
  | _ => false

-- A process that ends or spins in the decoder has not come to its unlock.
def Status.leavesLock : Status → Bool
  | .exited _ => true
  | .faulted => true
  | .spinning => true
  | _ => false

/-- pgprtdbg_counter_get, with the entry that the worker adds to. -/
def Connection.handle (a : Arrival) (counter : EventCounter) (c : Connection) : Worker :=
  let worker := { c.worker with decoder := { c.worker.decoder with counter := counter } }
  worker.handle c.clientFd c.serverFd a

def Proxy.traffic (s : Proxy) (k : Nat) (a : Arrival) (crashes : Bool) (c : Connection) :
    Option Proxy :=
  if c.worker.decoder.status = .running then
    let worker := c.handle a (s.counters c.clientNumber)
    let new := worker.decoder.trace.drop c.worker.decoder.trace.length
    let s := { s with
      counters := Function.update s.counters c.clientNumber worker.decoder.counter }
    let gone := worker.decoder.status.isGone ∨ crashes
    let lock :=
      if worker.decoder.status.leavesLock ∨ crashes then s.logLock.or (some k) else none
    if crashes ∧ ¬ new.any Event.mayKill then
      none
    else if gone then
      some { s.put k { c with worker := worker, phase := .ended } with logLock := lock }
    else
      some { s.put k { c with worker := worker } with logLock := lock }
  else
    none

/-- SIGQUIT runs sigquit_cb where it is installed, and ends the process everywhere else. -/
def Connection.sigquit (c : Connection) : Connection :=
  match c.phase with
  | .serving => { c with worker := c.worker.stop workerFailure }
  | _ => c.enter .ended

def Proxy.accept (s : Proxy) (clientFd : Int) (child : Option Nat) (heap : Nat → UInt8) : Proxy :=
  let connection : Connection :=
    { pid := child.getD 0
      clientFd := clientFd
      serverFd := -1
      clientNumber := s.clientNumber
      phase := if child.isSome then .forked else .ended
      worker := Worker.start s.bufferSize s.saveTraffic heap }
  { s with
    clientNumber :=
      if s.clientNumber < maxNumberOfCounters then s.clientNumber + 1 else s.clientNumber
    logLock := if s.clientNumber < maxNumberOfCounters then s.logLock else none
    connections := s.connections ++ [connection] }

def Proxy.step (s : Proxy) : Action → Option Proxy
  | .accept clientFd child heap =>
      if s.keepRunning ∧ ¬ s.activeConnections.toNat > maxNumberOfConnections ∧
          ∀ pid ∈ child, pid ≠ 0 ∧ ∀ c ∈ s.connections, c.live → c.pid ≠ pid then
        some (s.accept clientFd child heap)
      else
        none
  | .claim k =>
      s.inPhase k (· = .forked) fun c =>
        some { s.put k (c.enter .claimed) with
          pids := Table.replaceFirst 0 c.pid s.pids
          logLock := none }
  | .connect k (some serverFd) =>
      s.inPhase k (· = .claimed) fun c =>
        some { s.put k { c.enter .connected with serverFd := serverFd } with
          activeConnections := s.activeConnections + 1 }
  | .connect k none =>
      s.inPhase k (· = .claimed) fun c =>
        some { s.put k (c.enter (.leaving false)) with logLock := none }
  | .start k => s.inPhase k (· = .connected) fun c => some (s.put k (c.enter .serving))
  | .traffic k a crashes => s.inPhase k (· = .serving) (s.traffic k a crashes)
  | .leave k =>
      s.inPhase k (· = .serving) fun c =>
        if c.worker.running = false ∧ c.worker.decoder.status = .running then
          some (s.put k (c.enter (.leaving true)))
        else
          none
  | .finish k =>
      s.inPhase k (fun phase => phase = .leaving true ∨ phase = .leaving false) fun c =>
        some { s.put k (c.enter .ended) with
          pids := Table.replaceFirst c.pid 0 s.pids
          activeConnections :=
            if c.counted then s.activeConnections - 1 else s.activeConnections
          logLock := none }
  | .shutdown => some { s with keepRunning := false }
  | .kill slot =>
      if s.keepRunning ∨ s.pids slot = 0 then
        none
      else
        some { s with
          connections := s.connections.map fun c =>
            if c.live ∧ c.pid = s.pids slot then c.sigquit else c }

-- "%ld" and "%d" show the counters as signed numbers.
def EventCounter.report (client : Nat) (counter : EventCounter) : List (String × List Int) :=
  [("Client:                  %d\n", [(client : Int) + 1]),
    ("Bytes Sent:              %ld\n", [counter.sentBytes.toInt64.toInt]),
    ("Messages Sent:           %d\n", [counter.sentMessages.toInt32.toInt]),
    ("Bytes Received:          %ld\n", [counter.rcvdBytes.toInt64.toInt]),
    ("Messages Received:       %d\n", [counter.rcvdMessages.toInt32.toInt])]

/-- The calls of fprintf, whatever the output file is. -/
def pgprtdbgCounterOutputStatistics (counters : Nat → EventCounter) (clientCount : Nat) :
    List (String × List Int) :=
  ("------------------------------\n", []) :: (List.range clientCount).flatMap fun client =>
    (counters client).report client ++
      if client + 1 < clientCount then [("------------------------------\n", [])] else []

end Pgprtdbg
