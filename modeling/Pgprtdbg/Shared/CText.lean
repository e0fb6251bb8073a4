import Pgprtdbg.Shared.MachineInt

set_option autoImplicit false

-- Text as C programs handle it: bytes up to a zero, in arrays of a fixed size.
namespace CText

open MachineInt

def text (s : String) : List UInt8 := s.toList.map Char.toUInt8

-- A loop over the bytes stops where the first of the rest is another one.
theorem takeWhile_stops (inside : UInt8 → Bool) (body rest : List UInt8)
    (all : ∀ byte ∈ body, inside byte = true) (stop : ∀ byte ∈ rest.head?, inside byte = false) :
    (body ++ rest).takeWhile inside = body := by
  have nothing : rest.takeWhile inside = [] := by
    cases rest with
    | nil => rfl
    | cons byte rest => simp [stop byte rfl]
  rw [List.takeWhile_append_of_pos all, nothing, List.append_nil]

theorem takeWhile_first (mark : UInt8) (body rest : List UInt8) (unmarked : mark ∉ body) :
    (body ++ mark :: rest).takeWhile (fun byte => decide (byte ≠ mark)) = body := by
  apply takeWhile_stops
  · intro byte member
    have inside : byte ≠ mark := fun same => unmarked (same ▸ member)
    simp [inside]
  · intro byte first
    cases first
    simp

theorem dropWhile_stops (inside : UInt8 → Bool) (body rest : List UInt8)
    (all : ∀ byte ∈ body, inside byte = true) (stop : ∀ byte ∈ rest.head?, inside byte = false) :
    (body ++ rest).dropWhile inside = rest := by
  have whole : (body ++ rest).takeWhile inside ++ (body ++ rest).dropWhile inside = body ++ rest :=
    List.takeWhile_append_dropWhile
  rw [takeWhile_stops inside body rest all stop] at whole
  exact List.append_cancel_left whole

def string (bytes : List UInt8) : List UInt8 := bytes.takeWhile (· ≠ 0)

theorem string_of_clean (bytes rest : List UInt8) (clean : 0 ∉ bytes)
    (stop : ∀ byte ∈ rest.head?, byte = 0) : string (bytes ++ rest) = bytes := by
  apply takeWhile_stops
  · intro byte member
    have nonzero : byte ≠ 0 := fun zero => clean (zero ▸ member)
    simp [nonzero]
  · intro byte first
    simp [stop byte first]

theorem string_clean (bytes : List UInt8) (clean : 0 ∉ bytes) : string bytes = bytes := by
  have whole := string_of_clean bytes [] clean (by simp)
  rwa [List.append_nil] at whole

structure Buffer (size : Nat) where
  bytes : List UInt8
  sized : bytes.length = size
  deriving DecidableEq

namespace Buffer

variable {size : Nat}

def zeroed (size : Nat) : Buffer size := ⟨List.replicate size 0, List.length_replicate⟩

def string (b : Buffer size) : List UInt8 := CText.string b.bytes

/-- memcpy of at most all but one of the bytes: the others stay as they are. -/
def store (value : List UInt8) (b : Buffer size) : Buffer size :=
  ⟨value.take (size - 1) ++ b.bytes.drop (value.take (size - 1)).length, by
    rw [List.length_append, List.length_drop, b.sized, List.length_take]
    omega⟩

/-- The value with zeros behind it. -/
def holding (size : Nat) (value : List UInt8) : Buffer size :=
  ⟨(value ++ List.replicate size 0).take size, by simp⟩

theorem ext_bytes (a b : Buffer size) (same : a.bytes = b.bytes) : a = b := by
  cases a
  cases b
  cases same
  rfl

theorem store_zeroed (value : List UInt8) (fits : value.length < size) :
    (zeroed size).store value = holding size value := by
  have whole : value.take (size - 1) = value := List.take_of_length_le (by omega)
  apply ext_bytes
  simp only [store, zeroed, holding, whole, List.drop_replicate]
  rw [List.take_append, List.take_of_length_le (by omega), List.take_replicate]
  congr 2
  omega

theorem holding_string (value : List UInt8) (fits : value.length < size) (clean : 0 ∉ value) :
    (holding size value).string = value := by
  obtain ⟨left, equal⟩ : ∃ left, size = value.length + (left + 1) :=
    ⟨size - value.length - 1, by omega⟩
  simp only [string, holding]
  rw [List.take_append, List.take_of_length_le (by omega), List.take_replicate]
  have more : min (size - value.length) size = left + 1 := by omega
  rw [more, List.replicate_succ]
  apply string_of_clean value _ clean
  simp

-- A value of the same length takes the place of the one before.
theorem store_again (value : List UInt8) (b : Buffer size) :
    (b.store value).store value = b.store value := by
  apply ext_bytes
  simp [store]

/-- The byte that stores one after the other leave at a place: of the last one that reaches it. -/
def overlaid (values : List (List UInt8)) (place : Nat) : Option UInt8 :=
  values.foldl (fun below value => value[place]?.or below) none

theorem overlaid_from (values : List (List UInt8)) (place : Nat) (below : Option UInt8) :
    values.foldl (fun below value => value[place]?.or below) below =
      (overlaid values place).or below := by
  induction values generalizing below with
  | nil => rfl
  | cons value values ih =>
      rw [overlaid, List.foldl_cons, List.foldl_cons, ih, ih (value[place]?.or none), Option.or_none,
        Option.or_assoc]

theorem overlaid_cons (value : List UInt8) (values : List (List UInt8)) (place : Nat) :
    overlaid (value :: values) place = (overlaid values place).or value[place]? := by
  rw [overlaid, List.foldl_cons, overlaid_from, Option.or_none]

theorem overlaid_some (values : List (List UInt8)) (place : Nat) (byte : UInt8)
    (found : overlaid values place = some byte) : ∃ value ∈ values, value[place]? = some byte := by
  induction values with
  | nil => cases found
  | cons value values ih =>
      rw [overlaid_cons] at found
      rcases Option.or_eq_some_iff.mp found with later | ⟨_, here⟩
      · obtain ⟨other, member, reached⟩ := ih later
        exact ⟨other, List.mem_cons_of_mem value member, reached⟩
      · exact ⟨value, List.mem_cons_self, here⟩

theorem overlaid_none (values : List (List UInt8)) (place : Nat) :
    overlaid values place = none ↔ ∀ value ∈ values, value.length ≤ place := by
  induction values with
  | nil => simp [overlaid]
  | cons value values ih =>
      rw [overlaid_cons, Option.or_eq_none_iff, ih, List.getElem?_eq_none_iff, List.forall_mem_cons]
      exact And.comm

theorem overlaid_snoc (values : List (List UInt8)) (value : List UInt8) (place : Nat) :
    overlaid (values ++ [value]) place = value[place]?.or (overlaid values place) := by
  rw [overlaid, List.foldl_append]
  rfl

theorem store_bytes (value : List UInt8) (b : Buffer size) :
    (b.store value).bytes =
      value.take (size - 1) ++ b.bytes.drop (value.take (size - 1)).length := rfl

theorem store_byte (value : List UInt8) (b : Buffer size) (place : Nat) (inside : place < size - 1) :
    (b.store value).bytes[place]? = value[place]?.or b.bytes[place]? := by
  rw [store_bytes]
  by_cases reached : place < value.length
  · have front : place < (value.take (size - 1)).length := by
      rw [List.length_take]
      omega
    rw [List.getElem?_append_left front, List.getElem?_take_of_lt inside,
      List.getElem?_eq_getElem reached]
    rfl
  · have whole : value.take (size - 1) = value := List.take_of_length_le (by omega)
    have beyond : value[place]? = none := List.getElem?_eq_none (by omega)
    rw [whole, List.getElem?_append_right (by omega), List.getElem?_drop,
      Nat.add_sub_cancel' (by omega), beyond, Option.none_or]

theorem store_end (value : List UInt8) (b : Buffer size) :
    (b.store value).bytes[size - 1]? = b.bytes[size - 1]? := by
  have behind : (value.take (size - 1)).length ≤ size - 1 := List.length_take_le _ _
  rw [store_bytes, List.getElem?_append_right behind, List.getElem?_drop, Nat.add_sub_cancel' behind]

def storeAll (values : List (List UInt8)) (b : Buffer size) : Buffer size :=
  values.foldl (fun b value => b.store value) b

theorem storeAll_byte (values : List (List UInt8)) (b : Buffer size) (place : Nat)
    (inside : place < size - 1) :
    (b.storeAll values).bytes[place]? = (overlaid values place).or b.bytes[place]? := by
  rw [← overlaid_from]
  induction values generalizing b with
  | nil => rfl
  | cons value values ih =>
      rw [storeAll, List.foldl_cons, List.foldl_cons, ← store_byte value b place inside]
      exact ih (b.store value)

theorem storeAll_end (values : List (List UInt8)) (b : Buffer size) :
    (b.storeAll values).bytes[size - 1]? = b.bytes[size - 1]? := by
  induction values generalizing b with
  | nil => rfl
  | cons value values ih =>
      rw [storeAll, List.foldl_cons]
      exact (ih (b.store value)).trans (store_end value b)

theorem holding_byte (value : List UInt8) (place : Nat) (inside : place < size) :
    (holding size value).bytes[place]? = some (value[place]?.getD 0) := by
  rw [holding, List.getElem?_take_of_lt inside, List.getElem?_append]
  split
  next reached =>
    rw [List.getElem?_eq_getElem reached]
    rfl
  next behind =>
    rw [List.getElem?_replicate, if_pos (by omega), List.getElem?_eq_none (by omega)]
    rfl

-- After the stores the array holds the last value where no other one reaches behind it.
theorem storeAll_holding (values : List (List UInt8)) (last : List UInt8)
    (clean : ∀ value ∈ values, 0 ∉ value) (clean' : 0 ∉ last) :
    (zeroed size).storeAll values = holding size (last.take (size - 1)) ↔
      ∀ place < size - 1, overlaid values place = last[place]? := by
  have zero (place : Nat) (inside : place < size) : (zeroed size).bytes[place]? = some 0 := by
    rw [zeroed, List.getElem?_replicate, if_pos inside]
  have stored (place : Nat) (inside : place < size - 1) :
      ((zeroed size).storeAll values).bytes[place]? = some ((overlaid values place).getD 0) := by
    rw [storeAll_byte values _ place inside, zero place (by omega)]
    cases overlaid values place <;> rfl
  have held (place : Nat) (inside : place < size - 1) :
      (holding size (last.take (size - 1))).bytes[place]? = some (last[place]?.getD 0) := by
    rw [holding_byte _ place (by omega), List.getElem?_take_of_lt inside]
  constructor
  case mp =>
    intro same place inside
    have bytes := stored place inside
    rw [same, held place inside, Option.some.injEq] at bytes
    cases reached : overlaid values place with
    | none =>
        cases there : last[place]? with
        | none => rfl
        | some byte =>
            rw [reached, there] at bytes
            have zero : byte = 0 := bytes
            exact absurd (zero ▸ List.mem_of_getElem? there) clean'
    | some byte =>
        obtain ⟨value, member, found⟩ := overlaid_some values place byte reached
        have nonzero : byte ≠ 0 := fun zero =>
          clean value member (zero ▸ List.mem_of_getElem? found)
        cases there : last[place]? with
        | none =>
            rw [reached, there] at bytes
            exact absurd bytes.symm nonzero
        | some byte' =>
            rw [reached, there] at bytes
            exact congrArg some bytes.symm
  case mpr =>
    intro same
    apply ext_bytes
    apply List.ext_getElem?
    intro place
    by_cases inside : place < size - 1
    · rw [stored place inside, held place inside, same place inside]
    by_cases final : place < size
    · obtain rfl : place = size - 1 := by omega
      rw [storeAll_end, zero _ final, holding_byte _ _ final, List.getElem?_take_eq_none (Nat.le_refl _)]
      rfl
    · rw [List.getElem?_eq_none (by rw [Buffer.sized]; omega),
        List.getElem?_eq_none (by rw [Buffer.sized]; omega)]

end Buffer

-- Lines that end in a byte none of them has are found again, and so are fields between such bytes.
theorem splitOn_lines (mark : UInt8) (lines : List (List UInt8)) (clean : ∀ line ∈ lines, mark ∉ line) :
    (lines.flatMap fun line => line ++ [mark]).splitOn mark = lines ++ [[]] := by
  induction lines with
  | nil => rfl
  | cons line lines ih =>
      have here := clean line List.mem_cons_self
      have later := ih fun line member => clean line (List.mem_cons_of_mem _ member)
      rw [List.flatMap_cons, List.append_assoc, List.singleton_append,
        List.splitOn_append_cons_self_of_not_mem here, later, List.cons_append]

theorem lines_injective (mark : UInt8) (first second : List (List UInt8))
    (clean : ∀ line ∈ first, mark ∉ line) (clean' : ∀ line ∈ second, mark ∉ line)
    (same : (first.flatMap fun line => line ++ [mark]) = second.flatMap fun line => line ++ [mark]) :
    first = second := by
  have split := congrArg (List.splitOn mark) same
  rw [splitOn_lines mark first clean, splitOn_lines mark second clean'] at split
  exact List.append_cancel_right split

theorem fields_injective (mark : UInt8) (first second : List (List UInt8)) (nonempty : first ≠ [])
    (nonempty' : second ≠ []) (clean : ∀ field ∈ first, mark ∉ field)
    (clean' : ∀ field ∈ second, mark ∉ field)
    (same : List.intercalate [mark] first = List.intercalate [mark] second) : first = second := by
  have split := congrArg (List.splitOn mark) same
  rwa [List.splitOn_intercalate mark clean nonempty, List.splitOn_intercalate mark clean' nonempty'] at split

/-- The lines that fgets delivers, one call after the other; `line` is read already. -/
def fgetsFrom (size : Nat) (line : List UInt8) : List UInt8 → List (List UInt8)
  | [] => if line = [] then [] else [line]
  | byte :: rest =>
      -- A call stops behind a newline, and when only the place for the zero is left.
      if byte = 10 ∨ line.length + 2 = size then
        (line ++ [byte]) :: fgetsFrom size [] rest
      else
        fgetsFrom size (line ++ [byte]) rest

def fgetsLines (size : Nat) (file : List UInt8) : List (List UInt8) := fgetsFrom size [] file

theorem fgetsFrom_line (size : Nat) (line body rest : List UInt8) (clean : 10 ∉ body)
    (fits : line.length + body.length + 1 < size) :
    fgetsFrom size line (body ++ 10 :: rest) = (line ++ body ++ [10]) :: fgetsFrom size [] rest := by
  induction body generalizing line with
  | nil => simp [fgetsFrom]
  | cons byte body ih =>
      have inside : ¬ (byte = 10 ∨ line.length + 2 = size) := by
        rintro (newline | full)
        · exact clean (newline ▸ List.mem_cons_self)
        · rw [List.length_cons] at fits
          omega
      rw [List.cons_append, fgetsFrom, if_neg inside, ih]
      · simp
      · exact fun member => clean (List.mem_cons_of_mem byte member)
      · rw [List.length_append, List.length_singleton]
        rw [List.length_cons] at fits
        omega

theorem fgetsLines_cons (size : Nat) (body rest : List UInt8) (clean : 10 ∉ body)
    (fits : body.length + 1 < size) :
    fgetsLines size (body ++ 10 :: rest) = (body ++ [10]) :: fgetsLines size rest := by
  have whole := fgetsFrom_line size [] body rest clean (by simpa using fits)
  rwa [List.nil_append] at whole

def Ended (file : List UInt8) : Prop := file = [] ∨ file.getLast? = some 10

theorem fgetsFrom_append (size : Nat) (line first second : List UInt8)
    (ended : first.getLast? = some 10) :
    fgetsFrom size line (first ++ second) = fgetsFrom size line first ++ fgetsFrom size [] second := by
  induction first generalizing line with
  | nil => cases ended
  | cons byte first ih =>
      cases first with
      | nil =>
          have newline : byte = 10 := Option.some.inj ended
          simp [fgetsFrom, newline]
      | cons next first =>
          have ended : (next :: first).getLast? = some 10 := by
            rwa [List.getLast?_cons_cons] at ended
          rw [List.cons_append, fgetsFrom, fgetsFrom]
          split
          · rw [ih [] ended, List.cons_append]
          · exact ih _ ended

-- Behind a newline fgets begins anew.
theorem fgetsLines_append (size : Nat) (first second : List UInt8) (ended : Ended first) :
    fgetsLines size (first ++ second) = fgetsLines size first ++ fgetsLines size second := by
  rcases ended with rfl | newline
  · rfl
  · exact fgetsFrom_append size [] first second newline

theorem fgetsFrom_rest (size : Nat) (line body : List UInt8) (nonempty : line ++ body ≠ [])
    (clean : 10 ∉ body) (fits : line.length + body.length + 1 < size) :
    fgetsFrom size line body = [line ++ body] := by
  induction body generalizing line with
  | nil =>
      rw [List.append_nil] at nonempty ⊢
      rw [fgetsFrom, if_neg nonempty]
  | cons byte body ih =>
      rw [List.length_cons] at fits
      have inside : ¬ (byte = 10 ∨ line.length + 2 = size) := by
        rintro (newline | full)
        · exact clean (newline ▸ List.mem_cons_self)
        · omega
      rw [fgetsFrom, if_neg inside, ih]
      · simp
      · simp
      · exact fun member => clean (List.mem_cons_of_mem byte member)
      · rw [List.length_append, List.length_singleton]
        omega

theorem fgetsLines_rest (size : Nat) (body : List UInt8) (nonempty : body ≠ []) (clean : 10 ∉ body)
    (fits : body.length + 1 < size) : fgetsLines size body = [body] :=
  fgetsFrom_rest size [] body nonempty clean (by simpa using fits)

-- The first piece of a line starts as the line does.
theorem fgetsFrom_first (size : Nat) (line body : List UInt8) (nonempty : line ≠ []) :
    ∃ piece more, fgetsFrom size line body = (line ++ piece) :: more := by
  induction body generalizing line with
  | nil => exact ⟨[], [], by rw [fgetsFrom, if_neg nonempty, List.append_nil]⟩
  | cons byte body ih =>
      rw [fgetsFrom]
      split
      · exact ⟨[byte], _, rfl⟩
      · obtain ⟨piece, more, same⟩ := ih (line ++ [byte]) (by simp)
        exact ⟨byte :: piece, more, by rw [same, List.append_assoc, List.singleton_append]⟩

def isSpace (byte : UInt8) : Bool := byte = 32 ∨ (9 ≤ byte ∧ byte ≤ 13)

def isDigit (byte : UInt8) : Bool := 48 ≤ byte ∧ byte ≤ 57

def digits (str : List UInt8) : Nat :=
  (str.takeWhile isDigit).foldl (fun value byte => value * 10 + (byte.toNat - 48)) 0

/-- strtol in base 10, which stops at the ends of a 64-bit integer. -/
def strtol (str : List UInt8) : Int :=
  match str.dropWhile isSpace with
  | 45 :: rest => max (-2 ^ 63) (-(digits rest : Int))
  | 43 :: rest => min (2 ^ 63 - 1) (digits rest : Int)
  | rest => min (2 ^ 63 - 1) (digits rest : Int)

def atoi (str : List UInt8) : Int := int32 (strtol str)

def lower (byte : UInt8) : UInt8 := if 65 ≤ byte ∧ byte ≤ 90 then byte + 32 else byte

def equalIgnoringCase (a b : List UInt8) : Bool := a.map lower = b.map lower

example : atoi (text " -12x") = -12 := by decide

example : atoi (text "4294972728") = 5432 := by decide

example : equalIgnoringCase (text "On") (text "on") = true := by decide

end CText
