import Pgprtdbg.Model.LogLock
import Pgprtdbg.Model.Pipeline

set_option autoImplicit false

namespace Pgprtdbg

inductive LogOp where
  | lock
  -- pgprtdbg_log_line or pgprtdbg_log_mem, with the text that stands before the newline.
  | print (text : List UInt8)
  | unlock
  deriving DecidableEq, Repr

def Event.logOp (render : Effect → List UInt8) : Event → Option LogOp
  | .logLock => some .lock
  | .logUnlock => some .unlock
  | .effect (.writeMessage _ _) => none
  | .effect asked => some (.print (render asked))
  | _ => none

def logOps (render : Effect → List UInt8) (trace : List Event) : List LogOp :=
  trace.filterMap (Event.logOp render)

def startLines (clientFd : Int) : List Effect :=
  [.logLine "--------" [], .logLine "Start client: %d" [.int clientFd]]

def stopLines (clientFd : Int) : List Effect :=
  [.logLine "--------" [], .logLine "Stop client: %d" [.int clientFd]]

def sectionEvents (lines : List Effect) : List Event :=
  .logLock :: lines.map Event.effect ++ [.logUnlock]

-- pgprtdbg_connect takes the lock for each line by itself.
def reportEvents (reports : List (String × List Arg)) : List Event :=
  reports.flatMap fun report => sectionEvents [.logLine report.1 report.2]

/--
What pgprtdbg_worker logs: its start, what pgprtdbg_connect reports, the event loop, and its
stop, to which it comes only while it runs.
-/
def workerEvents (clientFd : Int) (reports : List (String × List Arg)) (w : Worker) :
    List Event :=
  sectionEvents (startLines clientFd) ++ reportEvents reports ++ w.decoder.trace ++
    if w.decoder.status = .running then sectionEvents (stopLines clientFd) else []

structure LogFile (Process : Type) where
  lock : LogLock Process
  file : List UInt8
  buffer : Process → List UInt8

inductive LogAction (Process : Type) where
  | lock (action : LockAction Process)
  | print (process : Process) (text : List UInt8)
  -- One write() of stdio, of so many bytes.
  | append (process : Process) (count : Nat)
  deriving DecidableEq, Repr

section Steps

variable {Process : Type} [DecidableEq Process]

def LockAction.caller : LockAction Process → Option Process
  | .time _ => none
  | .call process => some process
  | .exchange process => some process
  | .wake process => some process
  | .unlock process => some process

def LogFile.initial (now : Int) (file : List UInt8) : LogFile Process :=
  { lock := .initial now, file := file, buffer := fun _ => [] }

def LogFile.hold (s : LogFile Process) (process : Process) (buffer : List UInt8) :
    LogFile Process :=
  { s with buffer := Function.update s.buffer process buffer }

@[simp] theorem hold_buffer (s : LogFile Process) (process other : Process)
    (buffer : List UInt8) : (s.hold process buffer).buffer other =
      if other = process then buffer else s.buffer other := by
  simp [LogFile.hold, Function.update_apply]

@[simp] theorem hold_lock (s : LogFile Process) (process : Process) (buffer : List UInt8) :
    (s.hold process buffer).lock = s.lock := rfl

/--
fflush is behind every fprintf, so that a process goes on with an empty buffer. Nothing keeps
a process that is not inside from printing; one that is in pgprtdbg_log_lock does not.
-/
def LogFile.step (s : LogFile Process) : LogAction Process → Option (LogFile Process)
  | .lock action =>
      if (action.caller.elim [] s.buffer) = [] then
        (s.lock.step action).map fun lock => { s with lock := lock }
      else
        none
  | .print process text =>
      match s.lock.phase process with
      | .exchanging _ => none
      | .sleeping _ => none
      | _ => if s.buffer process = [] then some (s.hold process (text ++ [10])) else none
  | .append process count =>
      if 0 < count ∧ count ≤ (s.buffer process).length then
        some { s.hold process ((s.buffer process).drop count) with
          file := s.file ++ (s.buffer process).take count }
      else
        none

end Steps

end Pgprtdbg
