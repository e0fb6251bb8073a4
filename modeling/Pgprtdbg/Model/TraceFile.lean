import Mathlib.Data.Nat.Digits.Defs
import Mathlib.Logic.Function.Basic
import Pgprtdbg.Model.Protocol

set_option autoImplicit false

namespace Pgprtdbg

def decimal (value : Int) : List UInt8 :=
  let digits := (Nat.digits 10 value.natAbs).reverse.map fun digit => UInt8.ofNat (48 + digit)
  if value < 0 then 45 :: digits else if value = 0 then [48] else digits

def Side.id : Side → List UInt8
  | .client => [67]
  | .server => [83]

-- The kinds that output_write shows as a character; it shows the others as numbers.
def shownAsCharacter (kind : Int8) : Prop :=
  (65 ≤ kind ∧ kind ≤ 90) ∨ (97 ≤ kind ∧ kind ≤ 122) ∨ (48 ≤ kind ∧ kind ≤ 57) ∨ kind = 63

instance (kind : Int8) : Decidable (shownAsCharacter kind) := by
  unfold shownAsCharacter
  infer_instance

def Output.shownKind (o : Output) : List UInt8 :=
  if shownAsCharacter o.kind then [o.kind.toUInt8] else decimal o.kind.toInt

def Output.fields (outputSockets : Bool) (o : Output) : List (List UInt8) :=
  [o.id.id] ++ (if outputSockets then [decimal o.fromFd, decimal o.toFd] else []) ++ [o.shownKind] ++
    (o.text.map fun text => text.toUTF8.toList).toList

def Output.line (outputSockets : Bool) (o : Output) : List UInt8 :=
  ((List.intercalate [44] (o.fields outputSockets)) ++ [10]).take (miscLength - 1)

inductive Writing where
  | outside
  -- Behind sem_wait.
  | entered (o : Output)
  -- Behind fputs, until fflush has written all.
  | flushing (o : Output)
  deriving DecidableEq, Repr

structure TraceFile (Process : Type) where
  lock : Nat
  file : List UInt8
  writing : Process → Writing
  buffer : Process → List UInt8

inductive TraceAction (Process : Type) where
  | semWait (process : Process) (o : Output)
  | fputs (process : Process)
  -- One write() of fflush, of so many bytes.
  | append (process : Process) (count : Nat)
  | semPost (process : Process)
  deriving DecidableEq, Repr

section Steps

variable {Process : Type} [DecidableEq Process]

def TraceFile.initial (file : List UInt8) : TraceFile Process :=
  { lock := 1, file := file, writing := fun _ => .outside, buffer := fun _ => [] }

def TraceFile.move (process : Process) (writing : Writing) (buffer : List UInt8)
    (s : TraceFile Process) : TraceFile Process :=
  { s with
    writing := Function.update s.writing process writing
    buffer := Function.update s.buffer process buffer }

@[simp] theorem move_writing (process other : Process) (writing : Writing) (buffer : List UInt8)
    (s : TraceFile Process) : (s.move process writing buffer).writing other =
      if other = process then writing else s.writing other := by
  simp [TraceFile.move, Function.update_apply]

@[simp] theorem move_buffer (process other : Process) (writing : Writing) (buffer : List UInt8)
    (s : TraceFile Process) : (s.move process writing buffer).buffer other =
      if other = process then buffer else s.buffer other := by
  simp [TraceFile.move, Function.update_apply]

def TraceFile.step (outputSockets : Bool) (s : TraceFile Process) :
    TraceAction Process → Option (TraceFile Process)
  | .semWait process o =>
      if s.writing process = .outside ∧ 0 < s.lock then
        some { s.move process (.entered o) (s.buffer process) with lock := s.lock - 1 }
      else
        none
  | .fputs process =>
      match s.writing process with
      | .entered o =>
          some (s.move process (.flushing o) (s.buffer process ++ o.line outputSockets))
      | _ => none
  | .append process count =>
      match s.writing process with
      | .flushing o =>
          if 0 < count ∧ count ≤ (s.buffer process).length then
            some { s.move process (.flushing o) ((s.buffer process).drop count) with
              file := s.file ++ (s.buffer process).take count }
          else
            none
      | _ => none
  | .semPost process =>
      match s.writing process with
      | .flushing _ =>
          if s.buffer process = [] then
            some { s.move process .outside [] with lock := s.lock + 1 }
          else
            none
      | _ => none

end Steps

end Pgprtdbg
