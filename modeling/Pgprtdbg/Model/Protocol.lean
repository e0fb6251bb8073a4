import Pgprtdbg.Model.Backend
import Pgprtdbg.Model.Message
import Pgprtdbg.Shared.Loop

set_option autoImplicit false

namespace Pgprtdbg

open MachineInt

-- The id given to output_write: "C" for client, "S" for server.
inductive Side where
  | client
  | server
  deriving DecidableEq, Repr

inductive Event where
  | logLock
  | logUnlock
  | effect (effect : Effect)
  | stopped (stop : Walk.Stop Halt)
  | outputWrite (id : Side) (fromFd toFd : Int) (kind : Int8) (text : Option String)
  | dataRemove (dataSize removeSize : Nat)
  | saveTraffic (side : Side) (identifier : Nat) (block : List UInt8) (length : Nat)
  | written (socket : Int) (bytes : List UInt8)
  deriving DecidableEq, Repr

/-- A read outside the block, or a dump of more than there is or than its array holds. -/
def Event.touchesOther : Event → Bool
  | .stopped (.halted (.exit _)) => false
  | .stopped _ => true
  | .effect (.logMem block size) =>
      block.length < size ∨
        (pgprtdbgLogMem (fun _ => 0) block size).writes.any fun write => dumpSize ≤ write.1
  | _ => false

def Event.refuses : Event → Bool
  | .effect (.writeMessage _ _) => true
  | _ => false

structure EventCounter where
  clientNumber : Int
  rcvdBytes : UInt64
  sentBytes : UInt64
  rcvdMessages : UInt32
  sentMessages : UInt32
  deriving DecidableEq, Repr

/--
What has become of the process: a fault is a copy from outside the reassembly buffer, a process
that is writing waits for its socket to take the rest of a message, and one that is killed got
SIGPIPE from it.
-/
inductive Status where
  | running
  | exited (code : Int)
  | faulted
  | spinning
  | writing
  | killed
  deriving DecidableEq, Repr

structure Decoder where
  kind : Int8
  length : Int
  dataSize : Nat
  newDataSize : Nat
  data : Option (List UInt8)
  counter : EventCounter
  status : Status
  trace : List Event
  deriving DecidableEq, Repr

def Decoder.initial : Decoder :=
  { kind := 0
    length := 0
    dataSize := 0
    newDataSize := 0
    data := none
    counter := ⟨0, 0, 0, 0, 0⟩
    status := .running
    trace := [] }

def Decoder.bytes (d : Decoder) : List UInt8 := d.data.getD []

def Decoder.emit (events : List Event) (d : Decoder) : Decoder :=
  { d with trace := d.trace ++ events }

def Decoder.append (msg : Message) (d : Decoder) : Decoder :=
  let (data, newDataSize) := pgprtdbgDataAppend d.data d.dataSize msg.bytes
  { d with data := data, newDataSize := newDataSize, dataSize := newDataSize }

def Decoder.remove (removeSize : Nat) (d : Decoder) : Loop.Pass Decoder :=
  let d := d.emit [.dataRemove d.dataSize removeSize]
  match pgprtdbgDataRemove d.data d.dataSize removeSize with
  | .rest data newSize =>
      .next { d with data := data, newDataSize := newSize, dataSize := newSize }
  | .outside newSize => .leave { d with newDataSize := newSize, status := .faulted }

/--
The events of a parser. A stray read may end the process, and is an event that `touchesOther`;
what stands behind one is what a process does that lives on, whose parser stops there and has not
written the framing state.
-/
def parsed (outcome : Walk.Outcome Effect Halt Unit) : List Event :=
  outcome.log.map Event.effect ++
    match outcome.value with
    | .ok _ => []
    | .error stop => [.stopped stop]

def frameSize (length : Int) : Nat := sizeT (int32 (length + 1))

-- The branch `kind != 0 && data_size >= 5`, which both loops have.
def typedBranch (id : Side) (switch : Int8 → Int → Parser Unit) (fromFd toFd : Int) (d : Decoder) :
    Loop.Pass Decoder :=
  let d := { d with length := pgprtdbgReadInt32 (d.bytes.drop 1) }
  if d.dataSize < frameSize d.length then
    .leave d
  else
    let d := d.emit (parsed (switch d.kind d.length d.bytes 0))
    let d := d.emit [.outputWrite id fromFd toFd d.kind none]
    d.remove (frameSize d.length)

def clientPass (fromFd toFd : Int) (d : Decoder) : Loop.Pass Decoder :=
  if d.dataSize = 0 then
    .leave d
  else
    let d : Decoder := { d with kind := pgprtdbgReadByte d.bytes }
    if d.kind = 0 ∧ 8 ≤ d.dataSize then
      let d : Decoder := { d with length := pgprtdbgReadInt32 d.bytes }
      let walked := fe_zero fromFd d.length d.bytes 0
      let d := d.emit (parsed walked)
      match walked.value with
      | .error (.halted (.exit code)) => .leave { d with status := .exited code }
      | _ => d.remove (sizeT d.length)
    else if d.kind ≠ 0 ∧ 5 ≤ d.dataSize then
      typedBranch .client clientSwitch fromFd toFd d
    else
      .leave d

def serverPass (fromFd toFd : Int) (d : Decoder) : Loop.Pass Decoder :=
  if d.dataSize = 0 then
    .leave d
  else
    let d : Decoder := { d with kind := pgprtdbgReadByte d.bytes }
    if d.kind = 78 ∧ d.dataSize = 1 then
      let d := { d with length := 1 }
      let d := d.emit (parsed (be_N d.bytes 0))
      d.remove (sizeT d.length)
    else if d.kind ≠ 0 ∧ 5 ≤ d.dataSize then
      typedBranch .server serverSwitch fromFd toFd d
    else
      .leave d

-- Run a decode loop. Passes that shrink the buffer are at most `dataSize` many.
def decodeLoop (body : Decoder → Loop.Pass Decoder) (d : Decoder) : Decoder :=
  match Loop.run body (d.dataSize + 1) d with
  | .left after => after
  | .spent after => { after with status := .spinning }

def Decoder.unlock (d : Decoder) : Decoder :=
  if d.status = .running then d.emit [.logUnlock] else d

def chunkEvents (title : String) (msg : Message) : List Event :=
  [.logLock,
    .effect (.logLine "--------" []),
    .effect (.logLine title [.int msg.length]),
    .effect (.logMem msg.bytes msg.length)]

def EventCounter.sent (msg : Message) (counter : EventCounter) : EventCounter :=
  { counter with
    sentMessages := counter.sentMessages + 1
    sentBytes := counter.sentBytes + UInt64.ofNat msg.length }

def EventCounter.rcvd (msg : Message) (counter : EventCounter) : EventCounter :=
  { counter with
    rcvdMessages := counter.rcvdMessages + 1
    rcvdBytes := counter.rcvdBytes + UInt64.ofNat msg.length }

def clientReceive (msg : Message) (d : Decoder) : Decoder :=
  let d := d.emit (chunkEvents "FE/Message (%d):" msg)
  let d := { d with counter := d.counter.sent msg }
  d.append msg

def serverReceive (msg : Message) (d : Decoder) : Decoder :=
  let d := d.emit (chunkEvents "BE/Message (%d):" msg)
  let d := { d with counter := d.counter.rcvd msg }
  d.append msg

def pgprtdbgClient (fromFd toFd : Int) (msg : Message) (d : Decoder) : Decoder :=
  (decodeLoop (clientPass fromFd toFd) (clientReceive msg d)).unlock

def pgprtdbgServer (fromFd toFd : Int) (msg : Message) (d : Decoder) : Decoder :=
  (decodeLoop (serverPass fromFd toFd) (serverReceive msg d)).unlock

structure Call where
  side : Side
  msg : Message

def Decoder.call (clientFd serverFd : Int) (d : Decoder) (c : Call) : Decoder :=
  if d.status = .running then
    match c.side with
    | .client => pgprtdbgClient clientFd serverFd c.msg d
    | .server => pgprtdbgServer serverFd clientFd c.msg d
  else
    d

def Decoder.calls (clientFd serverFd : Int) (cs : List Call) (d : Decoder) : Decoder :=
  cs.foldl (Decoder.call clientFd serverFd) d

structure Output where
  id : Side
  fromFd : Int
  toFd : Int
  kind : Int8
  text : Option String
  deriving DecidableEq, Repr

def Event.output : Event → Option Output
  | .outputWrite id fromFd toFd kind text => some ⟨id, fromFd, toFd, kind, text⟩
  | _ => none

def outputs (trace : List Event) : List Output := trace.filterMap Event.output

def Decoder.lines (side : Side) (d : Decoder) : List Output :=
  (outputs d.trace).filter (·.id = side)

@[simp] theorem outputs_append (first second : List Event) :
    outputs (first ++ second) = outputs first ++ outputs second := by
  simp [outputs]

theorem outputs_parsed (outcome : Walk.Outcome Effect Halt Unit) : outputs (parsed outcome) = [] := by
  unfold parsed
  cases outcome.value <;> simp [outputs, Event.output]

@[simp] theorem Decoder.calls_nil (clientFd serverFd : Int) (d : Decoder) :
    d.calls clientFd serverFd [] = d := rfl

@[simp] theorem Decoder.calls_append (clientFd serverFd : Int) (front back : List Call) (d : Decoder) :
    d.calls clientFd serverFd (front ++ back) =
      (d.calls clientFd serverFd front).calls clientFd serverFd back :=
  List.foldl_append

@[simp] theorem Decoder.calls_cons (clientFd serverFd : Int) (c : Call) (cs : List Call) (d : Decoder) :
    d.calls clientFd serverFd (c :: cs) = (d.call clientFd serverFd c).calls clientFd serverFd cs := rfl

end Pgprtdbg
