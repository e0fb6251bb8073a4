import Pgprtdbg.Model.Backend
import Pgprtdbg.Shared.Layout

set_option autoImplicit false

namespace Pgprtdbg

open Walk

def stringField : Layout UInt8 := Layout.text 0

-- An int16 that says how many items follow; a negative one says none.
def countedField (item : Layout UInt8) : Layout UInt8 :=
  Layout.prefixed 2 fun bytes => Layout.times item (pgprtdbgReadInt16 bytes).toNat

-- An int32 that says how many bytes follow; NULL has -1.
def sizedField : Layout UInt8 :=
  Layout.prefixed 4 fun bytes =>
    if pgprtdbgReadInt32 bytes = -1 then Layout.nothing
    else Layout.cells (pgprtdbgReadInt32 bytes).toNat

def ClientBody (kind : Int8) (length : Int) (body : List UInt8) : Prop :=
  match Char.ofUInt8 kind.toUInt8 with
  | 'B' =>
      (Layout.seq [stringField, stringField, countedField (Layout.cells 2), countedField sizedField,
        countedField (Layout.cells 2)]).Fits body
  | 'C' => (Layout.seq [Layout.cells 1, stringField]).Fits body
  | 'D' => (Layout.seq [Layout.cells 1, stringField]).Fits body
  | 'E' => (Layout.seq [stringField, Layout.cells 4]).Fits body
  | 'P' => (Layout.seq [stringField, stringField, countedField (Layout.cells 4)]).Fits body
  | 'Q' => stringField.Fits body
  | 'f' => stringField.Fits body
  | 'p' => 4 ≤ length
  | _ => True

def rowField : Layout UInt8 :=
  Layout.seq [stringField, Layout.cells 4, Layout.cells 2, Layout.cells 4, Layout.cells 2,
    Layout.cells 4, Layout.cells 2]

-- Only the mechanisms of SASL are read behind the type.
def authenticationField : Layout UInt8 :=
  Layout.prefixed 4 fun bytes =>
    if pgprtdbgReadInt32 bytes = 10 then Layout.whileLonger 9 stringField else Layout.nothing

/-- The first `count` columns are whole, unless one of them has a size that no array can have. -/
def DataColumns : Nat → List UInt8 → Prop
  | 0, _ => True
  | count + 1, xs =>
      4 ≤ xs.length ∧
        (pgprtdbgReadInt32 (xs.take 4) < -1 ∨
          ∃ rest, sizedField xs rest ∧ DataColumns count rest)

-- An int16 never gets past a count of 32767, so there no number of columns is enough.
def DataRow (columns : Int) (xs : List UInt8) : Prop :=
  ∀ count : Nat, (columns < 32767 → (count : Int) ≤ columns) → DataColumns count xs

def ServerBody (kind : Int8) (body : List UInt8) : Prop :=
  match Char.ofUInt8 kind.toUInt8 with
  | 'C' => stringField.Fits body
  | 'D' => 2 ≤ body.length ∧ DataRow (pgprtdbgReadInt16 (body.take 2)) (body.drop 2)
  | 'E' => (Layout.whileLonger 5 (Layout.seq [Layout.cells 1, stringField])).Fits body
  | 'K' => (Layout.seq [Layout.cells 4, Layout.cells 4]).Fits body
  | 'R' => authenticationField.Fits body
  | 'S' => (Layout.seq [stringField, stringField]).Fits body
  | 'T' => (countedField rowField).Fits body
  | 'Z' => (Layout.cells 1).Fits body
  | _ => True

section Fields

variable {limit : Nat} {data : List UInt8}

theorem readInt16_andThen {Value : Type} (rest : Int → Parser Value) :
    andThen readInt16 rest = andThen (read 2) fun bytes => rest (pgprtdbgReadInt16 bytes) :=
  andThen_assoc _ _ _

theorem readInt32_andThen {Value : Type} (rest : Int → Parser Value) :
    andThen readInt32 rest = andThen (read 4) fun bytes => rest (pgprtdbgReadInt32 bytes) :=
  andThen_assoc _ _ _

theorem inside_header {rest : Unit → Parser Unit} :
    Inside limit (andThen header rest) data 0 ↔ Inside limit (rest ()) data 5 := by
  have skips : andThen header rest = andThen (skip 1) fun _ => andThen (skip 4) rest :=
    andThen_assoc (skip 1) (fun _ => skip 4) rest
  rw [skips, inside_skip_andThen, inside_skip_andThen]

theorem header_inside {rest : Unit → Parser Unit} {layout : Layout UInt8}
    (covers : Covers limit data (rest ()) layout) :
    Inside limit (andThen header rest) data 0 ↔ layout.Fits (window data limit 5) :=
  inside_header.trans (covers.inside 5)

@[simp] theorem inside_logLine (format : String) (args : List Arg) (offset : Nat) :
    Inside limit (logLine format args) data offset :=
  inside_emit _

theorem covers_logLine (format : String) (args : List Arg) :
    Covers limit data (logLine format args) Layout.nothing := covers_emit _

theorem covers_log_andThen {Value : Type} {layout : Layout UInt8} {rest : Unit → Parser Value}
    (covers : Covers limit data (rest ()) layout) (format : String) (args : List Arg) :
    Covers limit data (andThen (logLine format args) rest) layout :=
  covers.emit_andThen _

theorem covers_readByte (fits : limit ≤ data.length) :
    Covers limit data readByte (Layout.cells 1) :=
  (covers_read fits 1).andThen_nothing fun _ => covers_pure _

theorem covers_readInt16 (fits : limit ≤ data.length) :
    Covers limit data readInt16 (Layout.cells 2) :=
  (covers_read fits 2).andThen_nothing fun _ => covers_pure _

theorem covers_readInt32 (fits : limit ≤ data.length) :
    Covers limit data readInt32 (Layout.cells 4) :=
  (covers_read fits 4).andThen_nothing fun _ => covers_pure _

theorem covers_readString (fits : limit ≤ data.length) :
    Covers limit data readString stringField :=
  covers_readUntil fits 0

theorem covers_skipInt16 (fits : limit ≤ data.length) :
    Covers limit data skipInt16 (Layout.cells 2) :=
  (covers_readInt16 fits).andThen_nothing fun _ => covers_pure _

theorem covers_skipBytes (fits : limit ≤ data.length) (size : Int) :
    Covers limit data (skipBytes size) (Layout.cells size.toNat) :=
  (covers_read fits _).andThen_nothing fun _ => covers_pure _

theorem covers_counted (fits : limit ≤ data.length) {item more : Layout UInt8}
    {rest : Int → Parser Unit}
    (covers : ∀ count : Int,
      Covers limit data (rest count) (Relation.Comp (Layout.times item count.toNat) more)) :
    Covers limit data (andThen readInt16 rest) (Relation.Comp (countedField item) more) := by
  rw [readInt16_andThen, countedField, ← Layout.prefixed_comp]
  exact covers_prefixed fits 2 _ _ fun bytes => covers _

@[simp] theorem headerOnly_inside (format : String) : Inside limit (headerOnly format) data 0 := by
  simp only [headerOnly, bind_eq]
  exact (header_inside (covers_logLine _ _)).mpr (Layout.nothing_fits _)

theorem headerString_inside (fits : limit ≤ data.length) (format label : String) :
    Inside limit (headerString format label) data 0 ↔ stringField.Fits (window data limit 5) := by
  simp only [headerString, bind_eq]
  refine header_inside ((covers_readString fits).andThen_nothing fun _ => ?_)
  exact covers_log_andThen (covers_logLine _ _) _ _

theorem headerSized_inside (fits : limit ≤ data.length) (format : String) (length : Int)
    (whole : (limit : Int) = length + 1) : Inside limit (headerSized format length) data 0 := by
  have sized : Inside limit (headerSized format length) data 0 ↔
      (Layout.cells (length - 4).toNat).Fits (window data limit 5) := by
    simp only [headerSized, bind_eq]
    refine header_inside ((covers_skipBytes fits _).andThen_nothing fun _ => ?_)
    exact covers_log_andThen (covers_logLine _ _) _ _
  rw [sized, Layout.cells_fits, window_length data limit 5 fits]
  omega

end Fields

end Pgprtdbg
