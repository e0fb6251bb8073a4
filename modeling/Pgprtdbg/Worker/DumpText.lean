import Pgprtdbg.Shared.Stores
import Pgprtdbg.Worker.HexDump

set_option autoImplicit false

namespace Pgprtdbg

-- memset(&buf, 0, sizeof(buf)), and then the writes.
def Dump.cell (dump : Dump) : Nat → UInt8 := Stores.after (fun _ => 0) dump.writes

def Dump.text (dump : Dump) : List UInt8 := Stores.string dump.cell 0 dumpSize

def lineEnd (count : Nat) : List UInt8 :=
  if 0 < count ∧ count % lineLength = 0 then [10] else []

/-- The first `count` bytes, with a newline after every 32 that another one follows. -/
def inLines (render : UInt8 → List UInt8) (bytes : Nat → UInt8) : Nat → List UInt8
  | 0 => []
  | count + 1 => inLines render bytes count ++ lineEnd count ++ render (bytes count)

def hexPair (byte : UInt8) : List UInt8 :=
  [hexDigit (byte.toNat / 16), hexDigit (byte.toNat % 16)]

def character (byte : UInt8) : List UInt8 :=
  if 32 ≤ byte ∧ byte ≤ 127 then [byte] else [63]

def dumpText (bytes : List UInt8) : List UInt8 :=
  inLines hexPair (bytes.getD · 0) bytes.length ++ [10] ++
    inLines character (bytes.getD · 0) bytes.length

def hexValue (digit : UInt8) : Nat :=
  if digit < 65 then digit.toNat - 48 else digit.toNat - 55

def fromHex : List UInt8 → List UInt8
  | high :: low :: rest => UInt8.ofNat (16 * hexValue high + hexValue low) :: fromHex rest
  | _ => []

/-- The bytes that a reader takes from the hexadecimal half of the dump of so many. -/
def readBack (count : Nat) (text : List UInt8) : List UInt8 :=
  fromHex ((text.filter (· ≠ 10)).take (2 * count))

def ReadsBack (bytes text : List UInt8) : Prop :=
  text = dumpText bytes ∧ readBack bytes.length text = bytes

instance (bytes text : List UInt8) : Decidable (ReadsBack bytes text) := by
  unfold ReadsBack
  infer_instance

-- What stays of a "%02X" once the index has moved on by two.
def printedPair (byte : UInt8) : List UInt8 := (sprintfHex byte.toInt8).take 2

theorem inLines_length (render : UInt8 → List UInt8) (width : Nat)
    (even : ∀ byte, (render byte).length = width) (bytes : Nat → UInt8) (count : Nat) :
    (inLines render bytes count).length = width * count + lineBreaks count := by
  induction count with
  | zero => rfl
  | succ count ih =>
      have separated : (lineEnd count).length + lineBreaks count = lineBreaks (count + 1) := by
        unfold lineEnd lineBreaks lineLength
        split
        next ended =>
          rw [List.length_singleton]
          omega
        next inside =>
          rw [List.length_nil]
          omega
      rw [inLines, List.length_append, List.length_append, ih, even, Nat.mul_succ]
      omega

theorem inLines_congr (render : UInt8 → List UInt8) (first second : Nat → UInt8) (count : Nat)
    (same : ∀ i, i < count → first i = second i) :
    inLines render first count = inLines render second count := by
  induction count with
  | zero => rfl
  | succ count ih =>
      rw [inLines, inLines, ih fun i low => same i (by omega), same count (by omega)]

theorem inLines_eq_iff (one other : UInt8 → List UInt8)
    (even : ∀ byte, (one byte).length = (other byte).length) (bytes : Nat → UInt8) (count : Nat) :
    inLines one bytes count = inLines other bytes count ↔
      ∀ i, i < count → one (bytes i) = other (bytes i) := by
  induction count with
  | zero => simp [inLines]
  | succ count ih =>
      rw [inLines, inLines]
      constructor
      · intro same i low
        obtain ⟨front, last⟩ := List.append_inj' same (even (bytes count))
        have earlier := ih.mp (List.append_cancel_right front)
        by_cases here : i = count
        · rw [here, last]
        · exact earlier i (by omega)
      · intro same
        rw [ih.mpr fun i low => same i (by omega), same count (by omega)]

-- The array starts with the text, and that is how far the index has come.
structure Dump.Wrote (dump : Dump) (text : List UInt8) : Prop where
  j : dump.j = text.length
  shows : Stores.Shows dump.cell text

theorem store_cell (dump : Dump) (text : List UInt8) :
    (dump.store text).cell = Stores.after dump.cell (Stores.block dump.j text) :=
  Stores.after_append _ _ _

theorem Dump.Wrote.store {dump : Dump} {text : List UInt8} (wrote : dump.Wrote text)
    (more : List UInt8) (kept k : Nat) (within : kept ≤ more.length) :
    Dump.Wrote { dump.store more with j := dump.j + kept, k := k } (text ++ more.take kept) := by
  constructor
  · simp only [List.length_append, List.length_take, Nat.min_eq_left within, wrote.j]
  · have stored := wrote.shows.store more kept within
    rw [← wrote.j, ← store_cell] at stored
    exact stored

theorem wrote_newline {dump : Dump} {text : List UInt8} (wrote : dump.Wrote text) :
    dump.newline.Wrote (text ++ [10]) := wrote.store [10] 1 0 (Nat.le_refl 1)

theorem wrote_breakLine {dump : Dump} {text : List UInt8} {count : Nat} (wrote : dump.Wrote text)
    (line : dump.k + 32 * lineBreaks count = count) (full : dump.k ≤ 32) :
    dump.breakLine.Wrote (text ++ lineEnd count) := by
  have ended : dump.k = lineLength ↔ 0 < count ∧ count % lineLength = 0 := by
    unfold lineBreaks lineLength at *
    omega
  unfold Dump.breakLine lineEnd
  by_cases here : dump.k = lineLength
  · rw [if_pos here, if_pos (ended.mp here)]
    exact wrote_newline wrote
  · rw [if_neg here, if_neg (mt ended.mpr here), List.append_nil]
    exact wrote

theorem toInt8_toInt (byte : UInt8) :
    byte.toInt8.toInt = if byte.toNat < 128 then (byte.toNat : Int) else byte.toNat - 256 := by
  have bound := byte.toNat_lt
  have value : byte.toInt8.toInt = (byte.toNat : Int).bmod 256 :=
    BitVec.toInt_eq_toNat_bmod byte.toBitVec
  rw [value]
  split <;> simp only [Int.bmod_def] <;> omega

theorem toInt8_neg_iff (byte : UInt8) : byte.toInt8 < 0 ↔ 128 ≤ byte.toNat := by
  have bound := byte.toNat_lt
  have value := toInt8_toInt byte
  have zero : (0 : Int8).toInt = 0 := rfl
  rw [Int8.lt_iff_toInt_lt, value, zero]
  split <;> omega

theorem character_signed (byte : UInt8) :
    [if 32 ≤ byte.toInt8 ∧ byte.toInt8 ≤ 127 then byte else 63] = character byte := by
  have bound := byte.toNat_lt
  have value := toInt8_toInt byte
  have low : (32 : Int8).toInt = 32 := rfl
  have high : (127 : Int8).toInt = 127 := rfl
  have same : (32 ≤ byte.toInt8 ∧ byte.toInt8 ≤ 127) ↔ (32 ≤ byte ∧ byte ≤ 127) := by
    have low' : (32 : UInt8).toNat = 32 := rfl
    have high' : (127 : UInt8).toNat = 127 := rfl
    rw [Int8.le_iff_toInt_le, Int8.le_iff_toInt_le, UInt8.le_iff_toNat_le, UInt8.le_iff_toNat_le,
      value, low, high, low', high']
    split <;> omega
  unfold character
  by_cases shown : 32 ≤ byte ∧ byte ≤ 127
  · rw [if_pos shown, if_pos (same.mpr shown)]
  · rw [if_neg shown, if_neg (mt same.mp shown)]

theorem hexDigit_toNat (value : Nat) (digit : value < 16) :
    (hexDigit value).toNat = if value < 10 then 48 + value else 55 + value := by
  unfold hexDigit
  split <;> rw [UInt8.toNat_ofNat'] <;> omega

theorem sprintfHex_long (byte : UInt8) (high : 128 ≤ byte.toNat) :
    sprintfHex byte.toInt8 = List.replicate 6 70 ++ hexPair byte ++ [0] := by
  rw [sprintfHex, if_pos ((toInt8_neg_iff byte).mpr high), UInt8.toUInt8_toInt8]
  rfl

theorem sprintfHex_short (byte : UInt8) (low : byte.toNat < 128) :
    sprintfHex byte.toInt8 = hexPair byte ++ [0] := by
  have positive : ¬ byte.toInt8 < 0 := mt (toInt8_neg_iff byte).mp (by omega)
  rw [sprintfHex, if_neg positive, UInt8.toUInt8_toInt8]
  rfl

theorem hexDigit_shown (value : Nat) (digit : value < 16) :
    hexDigit value ≠ 0 ∧ hexDigit value ≠ 10 := by
  have shown := hexDigit_toNat value digit
  constructor
  · intro zero
    rw [zero, UInt8.toNat_zero] at shown
    split at shown <;> omega
  · intro newline
    rw [newline, show (10 : UInt8).toNat = 10 from rfl] at shown
    split at shown <;> omega

-- Behind the two places that the index moves on by, only a negative char leaves digits.
theorem sprintfHex_leaves (byte : UInt8) (place : Nat) (behind : 2 < place) :
    (place < (sprintfHex byte.toInt8).length ∧ (sprintfHex byte.toInt8).getD place 0 ≠ 0 ↔
      128 ≤ byte.toNat ∧ place < 8) ∧
    ((sprintfHex byte.toInt8).length ≤ place ↔ byte.toNat < 128 ∨ 8 < place) := by
  have bound := byte.toNat_lt
  by_cases high : 128 ≤ byte.toNat
  · have first := (hexDigit_shown (byte.toNat / 16) (by omega)).1
    have second := (hexDigit_shown (byte.toNat % 16) (by omega)).1
    rw [sprintfHex_long byte high, hexPair]
    match place, behind with
    | 3, _ | 4, _ | 5, _ => simp [high]
    | 6, _ => simp [high, first]
    | 7, _ => simp [high, second]
    | place + 8, _ =>
        simp [List.getD_eq_getElem?_getD]
        omega
  · rw [sprintfHex_short byte (by omega), hexPair]
    simp
    omega

def hexLoop (bytes : Nat → UInt8) (count : Nat) : Dump :=
  (List.range count).foldl (fun dump i => Dump.hexByte dump (bytes i)) ⟨0, 0, []⟩

def textLoop (bytes : Nat → UInt8) (start : Dump) (count : Nat) : Dump :=
  (List.range count).foldl (fun dump i => Dump.asciiByte dump (bytes i)) start

theorem hexLoop_succ (bytes : Nat → UInt8) (count : Nat) :
    hexLoop bytes (count + 1) = (hexLoop bytes count).hexByte (bytes count) := by
  rw [hexLoop, hexLoop, List.range_succ, List.foldl_append]
  rfl

theorem textLoop_succ (bytes : Nat → UInt8) (start : Dump) (count : Nat) :
    textLoop bytes start (count + 1) = (textLoop bytes start count).asciiByte (bytes count) := by
  rw [textLoop, textLoop, List.range_succ, List.foldl_append]
  rfl

theorem hexDump_loops (bytes : Nat → UInt8) (size : Nat) :
    hexDump bytes size = textLoop bytes (hexLoop bytes size).newline size := rfl

theorem hexLoop_wrote (bytes : Nat → UInt8) (count : Nat) :
    (hexLoop bytes count).Wrote (inLines printedPair bytes count) := by
  induction count with
  | zero => exact ⟨rfl, fun place low => absurd low (by simp [inLines])⟩
  | succ count ih =>
      have run := hexByte_run bytes count
      have broken := wrote_breakLine ih run.2.1 run.2.2.1
      have two : 2 ≤ (sprintfHex (bytes count).toInt8).length := by
        unfold sprintfHex
        split <;> simp
      rw [hexLoop_succ]
      exact broken.store (sprintfHex (bytes count).toInt8) 2 _ two

theorem textLoop_wrote (bytes : Nat → UInt8) (start : Dump) (fresh : start.k = 0)
    (text : List UInt8) (wrote : start.Wrote text) (count : Nat) :
    (textLoop bytes start count).Wrote (text ++ inLines character bytes count) := by
  induction count with
  | zero =>
      rw [inLines, List.append_nil]
      exact wrote
  | succ count ih =>
      have run := asciiByte_run bytes start fresh count
      have broken := wrote_breakLine ih run.2.1 run.2.2.1
      have stored := broken.store [if 32 ≤ (bytes count).toInt8 ∧ (bytes count).toInt8 ≤ 127
        then bytes count else 63] 1 ((textLoop bytes start count).breakLine.k + 1) (Nat.le_refl 1)
      rw [textLoop_succ, inLines, ← List.append_assoc, ← List.append_assoc, ← character_signed]
      exact stored

theorem breakLine_cell (dump : Dump) (place : Nat) (other : place ≠ dump.j) :
    dump.breakLine.cell place = dump.cell place := by
  unfold Dump.breakLine
  split
  · have stored := Stores.after_block_outside dump.cell dump.j [10] place (by simp; omega)
    rw [← store_cell] at stored
    exact stored
  · rfl

theorem hexByte_cell (dump : Dump) (byte : UInt8) (place : Nat)
    (behind : dump.breakLine.j + 2 < place) :
    (dump.hexByte byte).cell place ≠ 0 ↔
      (128 ≤ byte.toNat ∧ place < dump.breakLine.j + 8) ∨
        ((byte.toNat < 128 ∨ dump.breakLine.j + 8 < place) ∧ dump.cell place ≠ 0) := by
  have start := breakLine_j dump
  have elsewhere : place ≠ dump.j := by
    split at start <;> omega
  have stored : (dump.hexByte byte).cell place =
      Stores.after dump.breakLine.cell
        (Stores.block dump.breakLine.j (sprintfHex byte.toInt8)) place :=
    congrFun (store_cell dump.breakLine (sprintfHex byte.toInt8)) place
  have leaves := sprintfHex_leaves byte (place - dump.breakLine.j) (by omega)
  rw [stored, Stores.after_block, ← breakLine_cell dump place elsewhere]
  by_cases covered : place - dump.breakLine.j < (sprintfHex byte.toInt8).length
  · rw [if_pos (by omega)]
    have left := leaves.1
    have reach := leaves.2
    simp only [covered, true_and] at left
    rw [left]
    omega
  · rw [if_neg (by omega)]
    have reach := leaves.2.mp (Nat.not_lt.mp covered)
    constructor
    · intro old
      exact .inr ⟨by omega, old⟩
    · rintro (⟨high, low⟩ | ⟨_, old⟩)
      · omega
      · exact old

-- Past the index there is what a negative char printed, up to the zero behind its digits.
theorem hexLoop_behind (bytes : Nat → UInt8) (count place : Nat)
    (behind : (hexLoop bytes count).j < place) :
    (hexLoop bytes count).cell place ≠ 0 ↔
      ∃ i, i < count ∧ 128 ≤ (bytes i).toNat ∧ place < 2 * i + lineBreaks (i + 1) + 8 := by
  induction count with
  | zero =>
      have empty : (hexLoop bytes 0).cell place = 0 := rfl
      simp [empty]
  | succ count ih =>
      have j : (hexLoop bytes count).breakLine.j = 2 * count + lineBreaks (count + 1) := by
        have run : (hexLoop bytes (count + 1)).j = _ := (hexByte_run bytes (count + 1)).1
        rw [hexLoop_succ] at run
        have next : ((hexLoop bytes count).hexByte (bytes count)).j =
          (hexLoop bytes count).breakLine.j + 2 := rfl
        omega
      have start := breakLine_j (hexLoop bytes count)
      rw [hexLoop_succ] at behind ⊢
      have beyond : (hexLoop bytes count).breakLine.j + 2 < place := behind
      rw [hexByte_cell _ _ _ beyond, ih (by split at start <;> omega), j]
      constructor
      · rintro (⟨high, low⟩ | ⟨_, i, earlier, high, low⟩)
        · exact ⟨count, by omega, high, low⟩
        · exact ⟨i, by omega, high, low⟩
      · rintro ⟨i, within, high, low⟩
        by_cases here : i = count
        · subst here
          exact .inl ⟨high, low⟩
        · have breaks : lineBreaks (i + 1) ≤ lineBreaks (count + 1) := by
            unfold lineBreaks lineLength
            omega
          by_cases again : 128 ≤ (bytes count).toNat
          · exact .inl ⟨again, by omega⟩
          · exact .inr ⟨.inl (by omega), i, by omega, high, low⟩

theorem textLoop_behind (bytes : Nat → UInt8) (start : Dump) (count place : Nat)
    (behind : (textLoop bytes start count).j ≤ place) :
    (textLoop bytes start count).cell place = start.cell place := by
  induction count with
  | zero => rfl
  | succ count ih =>
      have position := breakLine_j (textLoop bytes start count)
      rw [textLoop_succ] at behind ⊢
      have beyond : (textLoop bytes start count).breakLine.j + 1 ≤ place := behind
      have stored : ((textLoop bytes start count).asciiByte (bytes count)).cell place = _ :=
        congrFun (store_cell (textLoop bytes start count).breakLine _) place
      rw [stored, Stores.after_block_outside _ _ _ _ (by rw [List.length_singleton]; omega),
        breakLine_cell _ _ (by split at position <;> omega)]
      exact ih (by split at position <;> omega)

theorem hexValue_hexDigit (value : Nat) (digit : value < 16) :
    hexValue (hexDigit value) = value := by
  have shown := hexDigit_toNat value digit
  have letter : hexDigit value < 65 ↔ value < 10 := by
    rw [UInt8.lt_iff_toNat_lt, shown, show (65 : UInt8).toNat = 65 from rfl]
    split <;> omega
  rw [hexValue, shown]
  split
  next low =>
    rw [if_pos (letter.mp low)]
    omega
  next high =>
    rw [if_neg (mt letter.mpr high)]
    omega

theorem fromHex_hexPair (byte : UInt8) (rest : List UInt8) :
    fromHex (hexPair byte ++ rest) = byte :: fromHex rest := by
  have bound := byte.toNat_lt
  have whole : 16 * (byte.toNat / 16) + byte.toNat % 16 = byte.toNat := Nat.div_add_mod _ _
  rw [hexPair, List.cons_append, List.cons_append, List.nil_append, fromHex,
    hexValue_hexDigit _ (by omega), hexValue_hexDigit _ (by omega), whole, UInt8.ofNat_toNat]

theorem filter_hexPair (byte : UInt8) : (hexPair byte).filter (· ≠ 10) = hexPair byte := by
  have bound := byte.toNat_lt
  have high := (hexDigit_shown (byte.toNat / 16) (by omega)).2
  have low := (hexDigit_shown (byte.toNat % 16) (by omega)).2
  simp [hexPair, high, low]

theorem filter_lineEnd (count : Nat) : (lineEnd count).filter (· ≠ 10) = [] := by
  unfold lineEnd
  split <;> rfl

theorem fromHex_inLines (bytes : Nat → UInt8) (count : Nat) (rest : List UInt8) :
    fromHex ((inLines hexPair bytes count).filter (· ≠ 10) ++ rest) =
      (List.range count).map bytes ++ fromHex rest := by
  induction count generalizing rest with
  | zero => rfl
  | succ count ih =>
      rw [inLines, List.filter_append, List.filter_append, filter_lineEnd, filter_hexPair,
        List.append_nil, List.append_assoc, ih, fromHex_hexPair, List.range_succ, List.map_append,
        List.append_assoc]
      rfl

theorem range_getD (bytes : List UInt8) :
    (List.range bytes.length).map (bytes.getD · 0) = bytes := by
  apply List.ext_getElem
  · simp
  · intro place first second
    simp [second]

theorem filter_inLines_length (bytes : Nat → UInt8) (count : Nat) :
    ((inLines hexPair bytes count).filter (· ≠ 10)).length = 2 * count := by
  induction count with
  | zero => rfl
  | succ count ih =>
      rw [inLines, List.filter_append, List.filter_append, filter_lineEnd, filter_hexPair,
        List.append_nil, List.length_append, ih]
      rfl

theorem readBack_dumpText (bytes : List UInt8) :
    readBack bytes.length (dumpText bytes) = bytes := by
  have half := fromHex_inLines (bytes.getD · 0) bytes.length []
  have ended : fromHex [] = [] := rfl
  rw [range_getD, ended, List.append_nil, List.append_nil] at half
  have length := filter_inLines_length (bytes.getD · 0) bytes.length
  rw [readBack, dumpText, List.append_assoc, List.filter_append,
    List.take_append_of_le_length (Nat.le_of_eq length.symm),
    List.take_of_length_le (Nat.le_of_eq length), half]

theorem printedPair_eq (byte : UInt8) :
    printedPair byte = if 128 ≤ byte.toNat then [70, 70] else hexPair byte := by
  unfold printedPair
  split
  next high =>
    rw [sprintfHex_long byte high]
    rfl
  next low =>
    rw [sprintfHex_short byte (by omega)]
    rfl

theorem hexPair_eq_iff (byte : UInt8) : [70, 70] = hexPair byte ↔ byte = 255 := by
  have bound := byte.toNat_lt
  constructor
  · intro same
    simp only [hexPair, List.cons.injEq, and_true] at same
    have first := hexDigit_toNat (byte.toNat / 16) (by omega)
    have second := hexDigit_toNat (byte.toNat % 16) (by omega)
    rw [← same.1, show (70 : UInt8).toNat = 70 from rfl] at first
    rw [← same.2, show (70 : UInt8).toNat = 70 from rfl] at second
    apply UInt8.toNat_inj.mp
    change byte.toNat = 255
    split at first <;> split at second <;> omega
  · rintro rfl
    rfl

theorem printedPair_eq_iff (byte : UInt8) :
    printedPair byte = hexPair byte ↔ byte.toNat < 128 ∨ byte = 255 := by
  rw [printedPair_eq]
  split
  next high =>
    rw [hexPair_eq_iff]
    constructor
    · exact .inr
    · rintro (low | last)
      · omega
      · exact last
  next low =>
    constructor
    · intro _
      exact .inl (by omega)
    · intro _
      rfl

theorem inLines_clean (render : UInt8 → List UInt8) (clean : ∀ byte, 0 ∉ render byte)
    (bytes : Nat → UInt8) (count : Nat) : 0 ∉ inLines render bytes count := by
  induction count with
  | zero => simp [inLines]
  | succ count ih =>
      have separator : 0 ∉ lineEnd count := by
        unfold lineEnd
        split <;> simp
      simp [inLines, ih, separator, clean]

theorem printedPair_clean (byte : UInt8) : 0 ∉ printedPair byte := by
  have bound := byte.toNat_lt
  have first := (hexDigit_shown (byte.toNat / 16) (by omega)).1
  have second := (hexDigit_shown (byte.toNat % 16) (by omega)).1
  rw [printedPair_eq]
  split <;> simp [hexPair, first.symm, second.symm]

theorem character_clean (byte : UInt8) : 0 ∉ character byte := by
  unfold character
  split
  next shown =>
    intro zero
    rw [← List.mem_singleton.mp zero] at shown
    exact absurd shown.1 (by decide)
  next hidden => simp

theorem character_length (byte : UInt8) : (character byte).length = 1 := by
  unfold character
  split <;> rfl

theorem printedPair_length (byte : UInt8) : (printedPair byte).length = 2 := by
  rw [printedPair_eq]
  split <;> rfl

def shownText (bytes : Nat → UInt8) (size : Nat) : List UInt8 :=
  inLines printedPair bytes size ++ [10] ++ inLines character bytes size

theorem shownText_length (bytes : Nat → UInt8) (size : Nat) :
    (shownText bytes size).length = 3 * size + 2 * lineBreaks size + 1 := by
  rw [shownText, List.length_append, List.length_append, List.length_singleton,
    inLines_length printedPair 2 printedPair_length, inLines_length character 1 character_length]
  omega

theorem shownText_clean (bytes : Nat → UInt8) (size : Nat) : 0 ∉ shownText bytes size := by
  have hex := inLines_clean printedPair printedPair_clean bytes size
  have ascii := inLines_clean character character_clean bytes size
  simp [shownText, hex, ascii]

theorem hexDump_wrote (bytes : Nat → UInt8) (size : Nat) :
    (hexDump bytes size).Wrote (shownText bytes size) := by
  rw [hexDump_loops]
  exact textLoop_wrote bytes _ rfl _ (wrote_newline (hexLoop_wrote bytes size)) size

-- What the text has behind its end are digits of a byte near the end of a short message.
theorem hexDump_ends_iff (bytes : Nat → UInt8) (size : Nat) :
    (hexDump bytes size).cell (shownText bytes size).length = 0 ↔
      ∀ i, i < size → 128 ≤ (bytes i).toNat → 2 * i + 6 < 3 * size := by
  have wrote := hexDump_wrote bytes size
  have length := shownText_length bytes size
  have hex := (hexLoop_wrote bytes size).j
  rw [inLines_length printedPair 2 printedPair_length] at hex
  have beyond : (hexDump bytes size).cell (shownText bytes size).length =
      (hexLoop bytes size).cell (shownText bytes size).length := by
    have reached : (textLoop bytes (hexLoop bytes size).newline size).j ≤
      (shownText bytes size).length := Nat.le_of_eq wrote.j
    rw [hexDump_loops, textLoop_behind bytes _ size _ reached]
    have stored := Stores.after_block_outside (hexLoop bytes size).cell (hexLoop bytes size).j [10]
      (shownText bytes size).length (by rw [List.length_singleton]; omega)
    rw [← store_cell] at stored
    exact stored
  have behind := hexLoop_behind bytes size (shownText bytes size).length (by omega)
  rw [beyond, ← not_iff_not, ← ne_eq, behind, length]
  push Not
  constructor
  · rintro ⟨i, low, high, reach⟩
    refine ⟨i, low, high, ?_⟩
    unfold lineBreaks lineLength at reach
    omega
  · rintro ⟨i, low, high, short⟩
    have line : lineBreaks size = 0 := by
      unfold lineBreaks lineLength
      omega
    exact ⟨i, low, high, by omega⟩

theorem hexDump_text (bytes : Nat → UInt8) (size : Nat) (bound : size ≤ 65535) :
    ∃ behind, (hexDump bytes size).text = shownText bytes size ++ behind ∧
      (behind = [] ↔ ∀ i, i < size → 128 ≤ (bytes i).toNat → 2 * i + 6 < 3 * size) := by
  have wrote := hexDump_wrote bytes size
  have length := shownText_length bytes size
  have room : (shownText bytes size).length < dumpSize := by
    unfold lineBreaks lineLength at length
    unfold dumpSize
    omega
  have whole := wrote.shows.string (shownText_clean bytes size) dumpSize (by omega)
  have left : 0 < dumpSize - (shownText bytes size).length := by omega
  refine ⟨_, whole, ?_⟩
  rw [Stores.string_eq_nil_iff _ _ left, hexDump_ends_iff]

/-- No byte that "%02X" prints wrongly, and none whose digits stay behind the end. -/
def Legible (bytes : List UInt8) : Prop :=
  ∀ i, i < bytes.length →
    (bytes.getD i 0).toNat < 128 ∨ (bytes.getD i 0 = 255 ∧ 2 * i + 6 < 3 * bytes.length)

instance (bytes : List UInt8) : Decidable (Legible bytes) := by
  unfold Legible
  infer_instance

theorem hexDump_dumpText_iff (bytes : List UInt8) (source : Nat → UInt8)
    (same : ∀ i, i < bytes.length → source i = bytes.getD i 0) (bound : bytes.length ≤ 65535) :
    (hexDump source bytes.length).text = dumpText bytes ↔ Legible bytes := by
  obtain ⟨behind, text, ended⟩ := hexDump_text source bytes.length bound
  have ascii := inLines_congr character source (bytes.getD · 0) bytes.length same
  have hex := inLines_congr printedPair source (bytes.getD · 0) bytes.length same
  have pairs := inLines_eq_iff printedPair hexPair (fun byte => printedPair_length byte)
    (bytes.getD · 0) bytes.length
  have meant : dumpText bytes = inLines hexPair (bytes.getD · 0) bytes.length ++
    ([10] ++ inLines character (bytes.getD · 0) bytes.length) := List.append_assoc _ _ _
  have length : (inLines printedPair (bytes.getD · 0) bytes.length).length =
      (inLines hexPair (bytes.getD · 0) bytes.length).length := by
    rw [inLines_length printedPair 2 printedPair_length, inLines_length hexPair 2 fun _ => rfl]
  rw [text, shownText, hex, ascii, meant, List.append_assoc, List.append_assoc]
  constructor
  · intro equal
    obtain ⟨front, back⟩ := List.append_inj equal length
    have nothing : behind = [] := by
      have count := congrArg List.length back
      rw [List.length_append, List.length_append, List.length_append] at count
      exact List.eq_nil_of_length_eq_zero (by omega)
    intro i low
    have printed := (printedPair_eq_iff _).mp (pairs.mp front i low)
    have inside := ended.mp nothing i low
    rw [same i low] at inside
    rcases printed with ascii | last
    · exact .inl ascii
    · by_cases high : 128 ≤ (bytes.getD i 0).toNat
      · exact .inr ⟨last, inside high⟩
      · exact .inl (by omega)
  · intro legible
    have front := pairs.mpr fun i low =>
      (printedPair_eq_iff _).mpr ((legible i low).imp_right And.left)
    have nothing : behind = [] := by
      rw [ended]
      intro i low high
      rw [same i low] at high
      rcases legible i low with ascii | last
      · omega
      · exact last.2
    rw [front, nothing, List.append_nil]

theorem block_getD (heap : Nat → UInt8) (bytes : List UInt8) (i : Nat) (low : i < bytes.length) :
    bytes.getD i (heap i) = bytes.getD i 0 := by
  rw [List.getD_eq_getElem _ _ low, List.getD_eq_getElem _ _ low]

theorem readsBack_iff (bytes text : List UInt8) : ReadsBack bytes text ↔ text = dumpText bytes := by
  constructor
  · exact And.left
  · rintro rfl
    exact ⟨rfl, readBack_dumpText bytes⟩

/--
What is saved and logged of a message reads back exactly when none of its bytes is negative as
a char, but for bytes 255 that are not near the end of a message of up to four.
-/
theorem dump_reads_back_iff (heap : Nat → UInt8) (bytes : List UInt8)
    (bound : bytes.length ≤ 65535) :
    (ReadsBack bytes (writeTraffic heap bytes bytes.length).text ∧
      ReadsBack bytes (pgprtdbgLogMem heap bytes bytes.length).text) ↔ Legible bytes := by
  have saved := hexDump_dumpText_iff bytes _ (block_getD heap bytes) bound
  rw [readsBack_iff, readsBack_iff, writeTraffic, pgprtdbgLogMem, saved, and_self]

theorem ready_reads_back :
    ReadsBack [90, 0, 0, 0, 5, 73] (writeTraffic (fun _ => 0) [90, 0, 0, 0, 5, 73] 6).text ∧
      ReadsBack [90, 0, 0, 0, 5, 73] (pgprtdbgLogMem (fun _ => 0) [90, 0, 0, 0, 5, 73] 6).text :=
  (dump_reads_back_iff (fun _ => 0) [90, 0, 0, 0, 5, 73] (by decide)).mpr (by decide)

/-- "é" in UTF-8: its digits are FF, and what is left of the eight behind them follows the text. -/
theorem accent_not_read_back :
    (writeTraffic (fun _ => 0) [195, 169] 2).text = [70, 70, 70, 70, 10, 63, 63, 70, 65, 57] ∧
      ¬ ReadsBack [195, 169] (writeTraffic (fun _ => 0) [195, 169] 2).text ∧
      ¬ ReadsBack [195, 169] (pgprtdbgLogMem (fun _ => 0) [195, 169] 2).text := by
  decide +kernel

end Pgprtdbg
