import Pgprtdbg.Model.Logging
import Pgprtdbg.Model.Utils

set_option autoImplicit false

namespace Pgprtdbg

def maxBufferSize : Nat := 65535

inductive MessageStatus where
  | zero
  | ok
  | error
  deriving DecidableEq, Repr

def MessageStatus.toInt : MessageStatus → Int
  | .zero => 0
  | .ok => 1
  | .error => 2

-- `data` is the memory from `msg->data` on, past the message and past the buffer too.
structure Message where
  kind : Int8
  length : Nat
  maxLength : Nat
  data : Nat → UInt8

def Message.bytes (msg : Message) : List UInt8 := (List.range msg.length).map msg.data

@[simp] theorem Message.bytes_length (msg : Message) : msg.bytes.length = msg.length := by
  simp [Message.bytes]

inductive ReadOutcome where
  | bytes (chunk : List UInt8)
  | zero
  | error (errno : Errno)
  deriving DecidableEq, Repr

-- read() stores the chunk at the front of the buffer and leaves the rest as it was.
def storeChunk (chunk : List UInt8) (data : Nat → UInt8) : Nat → UInt8 := fun i =>
  chunk.getD i (data i)

-- `heap` is what lies behind the buffer.
def pgprtdbgMemoryInit (bufferSize : Nat) (heap : Nat → UInt8) : Message :=
  { kind := 0
    length := 0
    maxLength := bufferSize
    data := fun i => if i < bufferSize then 0 else heap i }

def pgprtdbgMemoryFree (message : Message) : Message :=
  { kind := 0
    length := 0
    maxLength := message.maxLength
    data := fun i => if i < message.maxLength then 0 else message.data i }

def pgprtdbgReadMessage (outcome : ReadOutcome) (message : Message) : MessageStatus × Message :=
  match outcome with
  | .bytes chunk =>
      if 0 < chunk.length then
        let data := storeChunk chunk message.data
        (.ok, { message with kind := (data 0).toInt8, length := chunk.length, data := data })
      else
        (.zero, pgprtdbgMemoryFree message)
  | .zero => (.zero, pgprtdbgMemoryFree message)
  | .error _ => (.error, pgprtdbgMemoryFree message)

inductive WriteOutcome where
  | count (numbytes : Nat)
  | error (errno : Errno)
  deriving DecidableEq, Repr

structure Written where
  -- The status returned, or `none` where the function does not return: it waits for the next
  -- outcome of write(), or SIGPIPE has ended the process in it.
  status : Option MessageStatus
  accepted : List UInt8
  errno : Errno
  deriving DecidableEq, Repr

def Written.before (bytes : List UInt8) (rest : Written) : Written :=
  { rest with accepted := bytes ++ rest.accepted }

def writeLoop (msg : Message) (offset totalbytes remaining : Nat) : List WriteOutcome → Written
  | [] => ⟨none, [], .clear⟩
  | .count numbytes :: outcomes =>
      let taken := (msg.bytes.drop offset).take (min numbytes remaining)
      if numbytes = msg.length then
        ⟨some .ok, taken, .clear⟩
      else if totalbytes + numbytes = msg.length then
        ⟨some .ok, taken, .clear⟩
      else
        (writeLoop msg (offset + numbytes) (totalbytes + numbytes) (remaining - numbytes)
          outcomes).before taken
  | .error .again :: outcomes => writeLoop msg offset totalbytes remaining outcomes
  | .error .pipe :: _ => ⟨none, [], .pipe⟩
  | .error errno :: _ => ⟨some .error, [], errno⟩

def pgprtdbgWriteMessage (outcomes : List WriteOutcome) (msg : Message) : Written :=
  writeLoop msg 0 0 msg.length outcomes

def readChunk (chunk : List UInt8) : Message :=
  (pgprtdbgReadMessage (.bytes chunk) (pgprtdbgMemoryInit maxBufferSize fun _ => 0)).2

theorem storeChunk_bytes (chunk : List UInt8) (data : Nat → UInt8) :
    (List.range chunk.length).map (storeChunk chunk data) = chunk := by
  apply List.ext_getElem
  · simp
  · intro i _ bound
    simp [storeChunk, bound]

end Pgprtdbg
