import Mathlib.Tactic.Common

set_option autoImplicit false

namespace Pgprtdbg

def lineLength : Nat := 32

def dumpSize : Nat := 256 * 1024

inductive Errno where
  | clear
  | again
  -- Comes with SIGPIPE, which no part of the program handles or ignores.
  | pipe
  | other (number : Nat)
  deriving DecidableEq, Repr

inductive Arg where
  | int (value : Int)
  | chr (value : Int8)
  | str (value : List UInt8)
  | strerror (errno : Errno)
  deriving DecidableEq, Repr

-- What a message parser asks of the rest of the program, in the order it does so.
inductive Effect where
  | logLine (format : String) (args : List Arg)
  | logMem (block : List UInt8) (size : Nat)
  | writeMessage (socket : Int) (bytes : List UInt8)
  deriving DecidableEq, Repr

structure Dump where
  j : Nat
  k : Nat
  writes : List (Nat × UInt8)
  deriving DecidableEq, Repr

def Dump.store (dump : Dump) (text : List UInt8) : Dump :=
  { dump with writes := dump.writes ++ text.mapIdx fun index byte => (dump.j + index, byte) }

def Dump.newline (dump : Dump) : Dump :=
  { dump.store [10] with j := dump.j + 1, k := 0 }

def Dump.breakLine (dump : Dump) : Dump :=
  if dump.k = lineLength then dump.newline else dump

def hexDigit (value : Nat) : UInt8 :=
  if value < 10 then UInt8.ofNat (48 + value) else UInt8.ofNat (55 + value)

-- "%02X" of a signed char: a negative one is promoted to int and prints eight digits.
def sprintfHex (c : Int8) : List UInt8 :=
  let byte := c.toUInt8.toNat
  let digits := [hexDigit (byte / 16), hexDigit (byte % 16)]
  (if c < 0 then List.replicate 6 70 ++ digits else digits) ++ [0]

def Dump.hexByte (dump : Dump) (byte : UInt8) : Dump :=
  let dump := dump.breakLine
  { dump.store (sprintfHex byte.toInt8) with j := dump.j + 2, k := dump.k + 1 }

def Dump.asciiByte (dump : Dump) (byte : UInt8) : Dump :=
  let dump := dump.breakLine
  let c := byte.toInt8
  let shown := if 32 ≤ c ∧ c ≤ 127 then byte else 63
  { dump.store [shown] with j := dump.j + 1, k := dump.k + 1 }

def hexDump (bytes : Nat → UInt8) (size : Nat) : Dump :=
  let start : Dump := { j := 0, k := 0, writes := [] }
  let hex := (List.range size).foldl (fun dump i => Dump.hexByte dump (bytes i)) start
  (List.range size).foldl (fun dump i => Dump.asciiByte dump (bytes i)) hex.newline

-- `heap` is whatever lies in memory past the block that `data` points into.
def pgprtdbgLogMem (heap : Nat → UInt8) (block : List UInt8) (size : Nat) : Dump :=
  hexDump (fun i => block.getD i (heap i)) size

def writeTraffic (heap : Nat → UInt8) (block : List UInt8) (length : Nat) : Dump :=
  hexDump (fun i => block.getD i (heap i)) length

end Pgprtdbg
