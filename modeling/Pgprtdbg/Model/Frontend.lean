import Pgprtdbg.Model.Logging
import Pgprtdbg.Model.Utils
import Pgprtdbg.Shared.Walk

set_option autoImplicit false

namespace Pgprtdbg

open MachineInt

/-- What ends a parser besides its last line: exit(), or an array it does not have room in. -/
inductive Halt where
  | exit (code : Int)
  | array (size : Int)
  deriving DecidableEq, Repr

abbrev Parser (Value : Type) : Type := Walk UInt8 Effect Halt Value

def logLine (format : String) (args : List Arg) : Parser Unit := Walk.emit (.logLine format args)

def readByte : Parser Int8 := do
  let bytes ← Walk.read 1
  pure (pgprtdbgReadByte bytes)

def readInt16 : Parser Int := do
  let bytes ← Walk.read 2
  pure (pgprtdbgReadInt16 bytes)

def readInt32 : Parser Int := do
  let bytes ← Walk.read 4
  pure (pgprtdbgReadInt32 bytes)

-- pgprtdbg_read_string together with the strlen that follows it.
def readString : Parser (List UInt8) := Walk.readUntil 0

-- o += 1 for the kind and o += 4 for the length.
def header : Parser Unit := do
  Walk.skip 1
  Walk.skip 4

structure Parameters where
  start : Nat
  stop : Nat
  array : List (List UInt8)
  deriving DecidableEq, Repr

def Parameters.fill (bytes : List UInt8) (p : Parameters) (c : UInt8) : Parameters :=
  let stop := p.stop + 1
  if c = 0 then
    { start := stop
      stop := stop
      array := p.array ++ [(bytes.drop (p.start - 8)).take (stop - p.start)] }
  else
    { p with stop := stop }

def logData : List (List UInt8) → Parser Unit
  | [] => pure ()
  | text :: rest => do
      logLine "    Data: %s" [.str text]
      logData rest

def fe_zeroParameters (length : Int) : Parser Unit := do
  let size := (int32 (length - 1) - 8).toNat
  let first ← Walk.read size
  let counter := first.count 0
  -- The second pass goes over the same bytes again.
  Walk.seek 8
  let second ← Walk.read size
  let filled := second.foldl (Parameters.fill second) ⟨8, 8, []⟩
  if filled.array.length ≤ counter then
    logData filled.array
  else
    Walk.halt (.array counter)

def connectionRefused : List UInt8 := 69 :: "connection refused".toList.map Char.toUInt8 ++ [0]

def fe_zeroRequest (clientFd length request : Int) : Parser Unit := do
  logLine "FE: 0" []
  logLine "    Request: %d" [.int request]
  if request = 196608 then
    fe_zeroParameters length
  else if request = 80877102 then do
    let pid ← readInt32
    logLine "    PID: %d" [.int pid]
    let secret ← readInt32
    logLine "    Secret: %d" [.int secret]
  else if request = 80877103 then
    -- SSL: Not supported
    pure ()
  else if request = 80877104 then
    -- GSS: Not supported
    pure ()
  else if request = 131072 then do
    -- Protocol v2: Not supported
    Walk.emit (.writeMessage clientFd connectionRefused)
    Walk.emit (.writeMessage clientFd [0])
  else
    Walk.halt (.exit 1)

def fe_zero (clientFd length : Int) : Parser Unit := do
  Walk.skip 4
  let request ← readInt32
  fe_zeroRequest clientFd length request

def skipInt16 : Parser Unit := do
  let _ ← readInt16
  pure ()

def skipBytes (size : Int) : Parser Unit := do
  let _ ← Walk.read size.toNat
  pure ()

def fe_BValue : Parser Unit := do
  let size ← readInt32
  if size ≠ -1 then
    skipBytes size
  else
    pure ()

def fe_B : Parser Unit := do
  header
  let destination ← readString
  let source ← readString
  let codes ← readInt16
  Walk.times skipInt16 codes.toNat
  let values ← readInt16
  Walk.times fe_BValue values.toNat
  let results ← readInt16
  Walk.times skipInt16 results.toNat
  logLine "FE: B" []
  logLine "    Destination: %s" [.str destination]
  logLine "    Source: %s" [.str source]
  logLine "    Codes: %d" [.int codes]
  logLine "    Values: %d" [.int values]
  logLine "    Results: %d" [.int results]

def headerTyped (format label : String) : Parser Unit := do
  header
  let type ← readByte
  let text ← readString
  logLine format []
  logLine "    Type: %c" [.chr type]
  logLine label [.str text]

def fe_C : Parser Unit := headerTyped "FE: C" "    Portal: %s"

def fe_D : Parser Unit := headerTyped "FE: D" "    Name: %s"

def fe_E : Parser Unit := do
  header
  let portal ← readString
  let rows ← readInt32
  logLine "FE: E" []
  logLine "    Portal: %s" [.str portal]
  logLine "    MaxRows: %d" [.int rows]

def fe_F : Parser Unit := pure ()

def headerOnly (format : String) : Parser Unit := do
  header
  logLine format []

def fe_H : Parser Unit := headerOnly "FE: H"

def fe_POid : Parser Unit := do
  let oid ← readInt32
  logLine "    OID: %d" [.int oid]

def fe_P : Parser Unit := do
  header
  let destination ← readString
  let query ← readString
  let parameters ← readInt16
  logLine "FE: P" []
  logLine "    Destination: %s" [.str destination]
  logLine "    Query: %s" [.str query]
  logLine "    Parameters: %d" [.int parameters]
  Walk.times fe_POid parameters.toNat

def headerString (format label : String) : Parser Unit := do
  header
  let text ← readString
  logLine format []
  logLine label [.str text]

def fe_Q : Parser Unit := headerString "FE: Q" "    Query: %s"

def fe_S : Parser Unit := headerOnly "FE: S"

def fe_X : Parser Unit := headerOnly "FE: X"

def fe_c : Parser Unit := headerOnly "FE: c"

-- A message of `length - 4` bytes that are walked over and counted.
def headerSized (format : String) (length : Int) : Parser Unit := do
  header
  skipBytes (length - 4)
  logLine format []
  logLine "    Size: %d" [.int (length - 4)]

def fe_d (length : Int) : Parser Unit := headerSized "FE: d" length

def fe_f : Parser Unit := headerString "FE: f" "    Failure: %s"

def fe_p (length : Int) : Parser Unit := do
  header
  logLine "FE: p" []
  let block ← Walk.ahead
  let size := sizeT (length - 4)
  Walk.emit (.logMem block size)
  let _ ← Walk.read size
  pure ()

def clientSwitch (kind : Int8) (length : Int) : Parser Unit :=
  match Char.ofUInt8 kind.toUInt8 with
  | 'B' => fe_B
  | 'C' => fe_C
  | 'D' => fe_D
  | 'E' => fe_E
  | 'F' => fe_F
  | 'H' => fe_H
  | 'P' => fe_P
  | 'Q' => fe_Q
  | 'S' => fe_S
  | 'X' => fe_X
  | 'c' => fe_c
  | 'd' => fe_d length
  | 'f' => fe_f
  | 'p' => fe_p length
  | _ => logLine "Unsupported client message: %d" [.int kind.toInt]

end Pgprtdbg
