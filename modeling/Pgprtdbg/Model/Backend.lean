import Pgprtdbg.Model.Frontend

set_option autoImplicit false

namespace Pgprtdbg

open MachineInt

def be_one : Parser Unit := headerOnly "BE: 1"

def be_two : Parser Unit := headerOnly "BE: 2"

def be_three : Parser Unit := headerOnly "BE: 3"

def be_A : Parser Unit := headerOnly "BE: A"

def be_C : Parser Unit := headerString "BE: C" "    Tag: %s"

-- One round of the column loop; its counter is an int16_t and wraps past 32767.
def be_DColumn (columns i : Int) : Parser (Option Int) :=
  if i ≤ columns then do
    let columnLength ← readInt32
    logLine "    Column: %d" [.int i]
    logLine "    Length: %d" [.int columnLength]
    if columnLength ≠ -1 then do
      if columnLength < 0 then
        -- char buf[column_length] cannot have a negative size.
        Walk.halt (.array columnLength)
      else do
        logLine "    Data: XXXX" []
        skipBytes columnLength
        pure (some (int16 (i + 1)))
    else do
      logLine "    Data: NULL" []
      pure (some (int16 (i + 1)))
  else
    pure none

-- Every round of a loop over a block reads some of it, so its size is fuel enough.
def whileReading {Vars : Type} (round : Vars → Parser (Option Vars)) (start : Vars) :
    Parser Unit := do
  let block ← Walk.ahead
  Walk.loop round (block.length + 1) start

def be_D : Parser Unit := do
  header
  let numberOfColumns ← readInt16
  logLine "BE: D" []
  logLine "    Columns: %d" [.int numberOfColumns]
  whileReading (be_DColumn numberOfColumns) 1

def be_EField (length : Int) (_ : Unit) : Parser (Option Unit) := do
  let o ← Walk.offset
  if (o : Int) < length - 4 then do
    let type ← readByte
    let str ← readString
    logLine "    Code: %c" [.chr type]
    logLine "    Value: %s" [.str str]
    pure (some ())
  else
    pure none

def be_E (length : Int) : Parser Unit := do
  header
  logLine "BE: E" []
  whileReading (be_EField length) ()

def be_G : Parser Unit := headerOnly "BE: G"

def be_H : Parser Unit := headerOnly "BE: H"

def be_I : Parser Unit := headerOnly "BE: I"

def be_K : Parser Unit := do
  header
  let process ← readInt32
  let secret ← readInt32
  logLine "BE: K" []
  logLine "    Process: %d" [.int process]
  logLine "    Secret: %d" [.int secret]

def be_N : Parser Unit := headerOnly "BE: N"

def be_RMechanism (length : Int) (_ : Unit) : Parser (Option Unit) := do
  let o ← Walk.offset
  if (o : Int) < length - 8 then do
    let mechanism ← readString
    logLine "    %s" [.str mechanism]
    pure (some ())
  else
    pure none

-- o += length - 8, which may also step back.
def skipRest (length : Int) : Parser Unit := do
  let o ← Walk.offset
  Walk.seek ((o : Int) + (length - 8)).toNat

def be_R (length : Int) : Parser Unit := do
  header
  let type ← readInt32
  logLine "BE: R" []
  match type with
  | 0 => logLine "    Success" []
  | 2 => logLine "    KerberosV5" []
  | 3 => logLine "    CleartextPassword" []
  | 5 => Walk.skip 4
  | 6 => logLine "    SCMCredential" []
  | 7 => logLine "    GSS" []
  | 8 => logLine "    GSSContinue" []
  | 9 => logLine "    SSPI" []
  | 10 => do
      logLine "    SASL" []
      whileReading (be_RMechanism length) ()
      Walk.skip 1
  | 11 => do
      logLine "    SASLContinue" []
      skipRest length
  | 12 => do
      logLine "    SASLFinal" []
      skipRest length
  | _ => pure ()

def be_S : Parser Unit := do
  header
  let name ← readString
  let value ← readString
  logLine "BE: S" []
  logLine "    Name: %s" [.str name]
  logLine "    Value: %s" [.str value]

def be_TField : Parser Unit := do
  let fieldName ← readString
  let oid ← readInt32
  let attr ← readInt16
  let typeOid ← readInt32
  let typeLength ← readInt16
  let typeModifier ← readInt32
  let format ← readInt16
  logLine "    Name: %s" [.str fieldName]
  logLine "    OID: %d" [.int oid]
  logLine "    Attribute: %d" [.int attr]
  logLine "    Type OID: %d" [.int typeOid]
  logLine "    Type length: %d" [.int typeLength]
  logLine "    Type modifier: %d" [.int typeModifier]
  logLine "    Format: %d" [.int format]

def be_T : Parser Unit := do
  header
  let numberOfFields ← readInt16
  logLine "BE: T" []
  logLine "    Number: %d" [.int numberOfFields]
  Walk.times be_TField numberOfFields.toNat

def be_V : Parser Unit := headerOnly "BE: V"

def be_W : Parser Unit := headerOnly "BE: W"

def be_Z : Parser Unit := do
  header
  let state ← Walk.read 1
  logLine "BE: Z" []
  logLine "    State: %s" [.str (state.takeWhile (· ≠ 0))]

def be_c : Parser Unit := headerOnly "BE: c"

def be_d (length : Int) : Parser Unit := headerSized "BE: d" length

def be_n : Parser Unit := headerOnly "BE: n"

def be_s : Parser Unit := headerOnly "BE: s"

def be_t : Parser Unit := headerOnly "BE: t"

def be_v : Parser Unit := headerOnly "BE: v"

def serverSwitch (kind : Int8) (length : Int) : Parser Unit :=
  match Char.ofUInt8 kind.toUInt8 with
  | '1' => be_one
  | '2' => be_two
  | '3' => be_three
  | 'A' => be_A
  | 'C' => be_C
  | 'D' => be_D
  | 'E' => be_E length
  | 'G' => be_G
  | 'H' => be_H
  | 'I' => be_I
  | 'K' => be_K
  | 'N' => be_N
  | 'R' => be_R length
  | 'S' => be_S
  | 'T' => be_T
  | 'V' => be_V
  | 'W' => be_W
  | 'Z' => be_Z
  | 'c' => be_c
  | 'd' => be_d length
  | 'n' => be_n
  | 's' => be_s
  | 't' => be_t
  | 'v' => be_v
  | _ => logLine "Unsupported server message: %d" [.int kind.toInt]

end Pgprtdbg
