import Pgprtdbg.Shared.CText
import Pgprtdbg.Sharing.TraceFile

set_option autoImplicit false

namespace Pgprtdbg

open CText

structure Traced where
  side : Side
  fromFd : Int32
  toFd : Int32
  kind : Int8
  deriving DecidableEq, Repr

def Traced.output (frame : Traced) : Output :=
  ⟨frame.side, frame.fromFd.toInt, frame.toFd.toInt, frame.kind, none⟩

def traceText (outputSockets : Bool) (frames : List Traced) : List UInt8 :=
  frames.flatMap fun frame => frame.output.line outputSockets

theorem Traced.fromSource (frame : Traced) : frame.output.FromSource := by
  constructor
  · rfl
  · have low := frame.fromFd.le_toInt
    have high := frame.fromFd.toInt_lt
    have low' := frame.toFd.le_toInt
    have high' := frame.toFd.toInt_lt
    exact ⟨low, high, low', high'⟩

section Numbers

def numeralValue (text : List UInt8) : Nat :=
  Nat.ofDigits 10 (text.reverse.map fun byte => byte.toNat - 48)

/-- The integer that "%d" has shown. -/
def decimalValue (text : List UInt8) : Int :=
  if text.head? = some 45 then -(numeralValue text.tail : Int) else numeralValue text

theorem numeral_value (number : Nat) : numeralValue (numeral number) = number := by
  have digits : ((Nat.digits 10 number).map fun digit => (UInt8.ofNat (48 + digit)).toNat - 48) =
      Nat.digits 10 number := by
    conv_rhs => rw [← List.map_id (Nat.digits 10 number)]
    apply List.map_congr_left
    intro digit member
    have small : digit < 10 := Nat.digits_lt_base (by decide) member
    simp only [UInt8.toNat_ofNat', id_eq]
    omega
  rw [numeralValue, numeral, ← List.map_reverse, List.reverse_reverse, List.map_map]
  exact (congrArg (Nat.ofDigits 10) digits).trans (Nat.ofDigits_digits 10 number)

theorem decimal_value (value : Int) : decimalValue (decimal value) = value := by
  have shown := numeral_value value.natAbs
  rw [decimal_numeral]
  split
  next negative =>
    simp only [decimalValue, List.head?_cons, if_true, List.tail_cons, shown]
    omega
  next =>
    split
    next zero =>
      rw [zero]
      rfl
    next =>
      have first : (numeral value.natAbs).head? ≠ some 45 := by
        intro minus
        have digit := numeral_bytes _ 45 (List.mem_of_head? minus)
        revert digit
        decide
      rw [decimalValue, if_neg first, shown]
      omega

theorem decimal_injective (first second : Int) (same : decimal first = decimal second) :
    first = second := by
  have values := congrArg decimalValue same
  rwa [decimal_value, decimal_value] at values

-- A number of one character is a digit.
theorem decimal_single (value : Int) (byte : UInt8) (shown : decimal value = [byte]) :
    ∃ digit < 10, value = (digit : Nat) ∧ byte = UInt8.ofNat (48 + digit) := by
  have bytes := decimal_bytes value byte (by rw [shown]; exact List.mem_singleton_self byte)
  have read := decimal_value value
  rw [shown] at read
  rcases bytes with rfl | ⟨low, high⟩
  · have zero : value = 0 := read.symm
    rw [zero] at shown
    cases shown
  · have number : decimalValue [byte] = (byte.toNat - 48 : Nat) := by
      have digit : byte ≠ 45 := by
        rintro rfl
        revert low
        decide
      have other : [byte].head? ≠ some 45 := by simpa using digit
      rw [decimalValue, if_neg other]
      simp [numeralValue]
    have low := UInt8.le_iff_toNat_le.mp low
    have high := UInt8.le_iff_toNat_le.mp high
    exists byte.toNat - 48
    constructor
    · simp at low high
      omega
    constructor
    · rw [← read, number]
    · have back : 48 + (byte.toNat - 48) = byte.toNat := by
        simp at low
        omega
      rw [back, UInt8.ofNat_toNat]

end Numbers

section Kinds

/-- A kind from 0 to 9, and the kind that is the character of the same digit. -/
def Mistaken (number character : Int8) : Prop :=
  0 ≤ number ∧ number ≤ 9 ∧ character = number + 48

instance (number character : Int8) : Decidable (Mistaken number character) := by
  unfold Mistaken
  infer_instance

theorem mistaken_iff (number character : Int8) : Mistaken number character ↔
    ∃ digit < 10, number = Int8.ofNat digit ∧ character = (UInt8.ofNat (48 + digit)).toInt8 := by
  constructor
  case mp =>
    rintro ⟨low, high, rfl⟩
    have low := Int8.le_iff_toInt_le.mp low
    have high := Int8.le_iff_toInt_le.mp high
    simp at low high
    have small : number = Int8.ofNat number.toInt.toNat := by
      apply Int8.toInt_inj.mp
      have whole : ((number.toInt.toNat : Nat) : Int) = number.toInt := by omega
      rw [← Int8.ofInt_eq_ofNat, whole, Int8.ofInt_toInt]
    exists number.toInt.toNat
    constructor
    · omega
    constructor
    · exact small
    · have sums : ∀ digit < 10, Int8.ofNat digit + 48 = (UInt8.ofNat (48 + digit)).toInt8 := by decide
      rw [← sums number.toInt.toNat (by omega), ← small]
  case mpr =>
    rintro ⟨digit, small, rfl, rfl⟩
    have all : ∀ digit < 10, Mistaken (Int8.ofNat digit) (UInt8.ofNat (48 + digit)).toInt8 := by decide
    exact all digit small

theorem Mistaken.different {number character : Int8} (mistaken : Mistaken number character) :
    number ≠ character := by
  obtain ⟨digit, small, rfl, rfl⟩ := (mistaken_iff number character).mp mistaken
  have all : ∀ digit < 10, Int8.ofNat digit ≠ (UInt8.ofNat (48 + digit)).toInt8 := by decide
  exact all digit small

theorem Mistaken.shown {number character : Output} (mistaken : Mistaken number.kind character.kind) :
    number.shownKind = character.shownKind := by
  obtain ⟨digit, small, first, second⟩ := (mistaken_iff _ _).mp mistaken
  have all : ∀ digit < 10, ¬ shownAsCharacter (Int8.ofNat digit) ∧
      decimal (Int8.ofNat digit).toInt = [UInt8.ofNat (48 + digit)] ∧
        shownAsCharacter (UInt8.ofNat (48 + digit)).toInt8 := by
    decide +kernel
  obtain ⟨number', text, character'⟩ := all digit small
  rw [Output.shownKind, Output.shownKind, first, second, if_neg number', if_pos character', text,
    UInt8.toUInt8_toInt8]

theorem shown_number (number character : Output) (number' : ¬ shownAsCharacter number.kind)
    (character' : shownAsCharacter character.kind)
    (same : number.shownKind = character.shownKind) : Mistaken number.kind character.kind := by
  rw [Output.shownKind, Output.shownKind, if_neg number', if_pos character'] at same
  obtain ⟨digit, small, value, byte⟩ := decimal_single _ _ same
  apply (mistaken_iff _ _).mpr
  exists digit
  constructor
  · exact small
  constructor
  · rw [← Int8.ofInt_eq_ofNat, ← value, Int8.ofInt_toInt]
  · rw [← byte, Int8.toInt8_toUInt8]

-- Two kinds look the same when they are the same, and when one is a digit and the other its number.
theorem shownKind_iff (first second : Output) :
    first.shownKind = second.shownKind ↔
      first.kind = second.kind ∨ Mistaken first.kind second.kind ∨
        Mistaken second.kind first.kind := by
  constructor
  case mp =>
    intro same
    by_cases character : shownAsCharacter first.kind
    · by_cases character' : shownAsCharacter second.kind
      · rw [Output.shownKind, Output.shownKind, if_pos character, if_pos character'] at same
        have bytes := congrArg UInt8.toInt8 (List.singleton_inj.mp same)
        rw [Int8.toInt8_toUInt8, Int8.toInt8_toUInt8] at bytes
        exact Or.inl bytes
      · exact Or.inr (Or.inr (shown_number second first character' character same.symm))
    · by_cases character' : shownAsCharacter second.kind
      · exact Or.inr (Or.inl (shown_number first second character character' same))
      · rw [Output.shownKind, Output.shownKind, if_neg character, if_neg character'] at same
        exact Or.inl (Int8.toInt_inj.mp (decimal_injective _ _ same))
  case mpr =>
    rintro (same | mistaken | mistaken)
    · rw [Output.shownKind, Output.shownKind, same]
    · exact mistaken.shown
    · exact mistaken.shown.symm

end Kinds

section Frames

def Traced.Alike (outputSockets : Bool) (first second : Traced) : Prop :=
  first.side = second.side ∧
    (outputSockets → first.fromFd = second.fromFd ∧ first.toFd = second.toFd) ∧
      (first.kind = second.kind ∨ Mistaken first.kind second.kind ∨
        Mistaken second.kind first.kind)

instance (outputSockets : Bool) (first second : Traced) :
    Decidable (first.Alike outputSockets second) := by
  unfold Traced.Alike
  infer_instance

theorem fields_no_comma (outputSockets : Bool) (frame : Traced) :
    ∀ field ∈ frame.output.fields outputSockets, 44 ∉ field := by
  have side : 44 ∉ frame.side.id := by
    cases frame.side <;> decide
  have number (value : Int) : 44 ∉ decimal value := by
    intro member
    have plain := decimal_bytes value 44 member
    revert plain
    decide
  have kind : 44 ∉ frame.output.shownKind := by
    intro member
    have plain := shownKind_bytes frame.output 44 member
    revert plain
    decide
  intro field member
  cases outputSockets with
  | false =>
      have either : field = frame.side.id ∨ field = frame.output.shownKind := by
        simpa [Output.fields, Traced.output] using member
      rcases either with rfl | rfl
      · exact side
      · exact kind
  | true =>
      have either : field = frame.side.id ∨ field = decimal frame.fromFd.toInt ∨
          field = decimal frame.toFd.toInt ∨ field = frame.output.shownKind := by
        simpa [Output.fields, Traced.output] using member
      rcases either with rfl | rfl | rfl | rfl
      · exact side
      · exact number _
      · exact number _
      · exact kind

theorem Side.id_injective (first second : Side) (same : first.id = second.id) : first = second := by
  cases first <;> cases second <;> first | rfl | cases same

theorem fields_alike (outputSockets : Bool) (first second : Traced) :
    first.output.fields outputSockets = second.output.fields outputSockets ↔
      first.Alike outputSockets second := by
  have side : first.side.id = second.side.id ↔ first.side = second.side :=
    ⟨Side.id_injective _ _, congrArg Side.id⟩
  have number (a b : Int32) : decimal a.toInt = decimal b.toInt ↔ a = b := by
    constructor
    · intro same
      exact Int32.toInt_inj.mp (decimal_injective _ _ same)
    · rintro rfl
      rfl
  have kind : first.output.shownKind = second.output.shownKind ↔
      first.kind = second.kind ∨ Mistaken first.kind second.kind ∨
        Mistaken second.kind first.kind := shownKind_iff first.output second.output
  rw [Traced.Alike, ← kind]
  cases outputSockets with
  | false => simp [Output.fields, Traced.output, side]
  | true => simp [Output.fields, Traced.output, side, number, and_assoc]

theorem fields_ne_nil (outputSockets : Bool) (o : Output) : o.fields outputSockets ≠ [] := by
  simp [Output.fields]

-- A line is its fields between commas, and it is whole.
theorem Traced.line (outputSockets : Bool) (frame : Traced) :
    frame.output.line outputSockets =
      List.intercalate [44] (frame.output.fields outputSockets) ++ [10] := by
  have short := (line_fields outputSockets frame.output frame.fromSource).2
  apply List.take_of_length_le
  simp only [List.length_append, List.length_singleton]
  omega

def Traced.body (outputSockets : Bool) (frame : Traced) : List UInt8 :=
  List.intercalate [44] (frame.output.fields outputSockets)

theorem body_alike (outputSockets : Bool) (first second : Traced) :
    first.body outputSockets = second.body outputSockets ↔ first.Alike outputSockets second := by
  rw [← fields_alike]
  constructor
  · exact fields_injective 44 _ _ (fields_ne_nil _ _) (fields_ne_nil _ _)
      (fields_no_comma _ _) (fields_no_comma _ _)
  · exact congrArg (List.intercalate [44])

theorem traceText_lines (outputSockets : Bool) (frames : List Traced) :
    traceText outputSockets frames =
      (frames.map (Traced.body outputSockets)).flatMap fun line => line ++ [10] := by
  rw [traceText, List.flatMap_map]
  congr 1
  funext frame
  exact frame.line outputSockets

theorem traceText_alike (outputSockets : Bool) (first second : List Traced) :
    traceText outputSockets first = traceText outputSockets second ↔
      List.Forall₂ (Traced.Alike outputSockets) first second := by
  have clean (frames : List Traced) :
      ∀ line ∈ frames.map (Traced.body outputSockets), 10 ∉ line := by
    intro line member
    obtain ⟨frame, _, rfl⟩ := List.mem_map.mp member
    exact (line_fields outputSockets frame.output frame.fromSource).1
  have lines : traceText outputSockets first = traceText outputSockets second ↔
      first.map (Traced.body outputSockets) = second.map (Traced.body outputSockets) := by
    rw [traceText_lines, traceText_lines]
    constructor
    · exact lines_injective 10 _ _ (clean first) (clean second)
    · exact congrArg _
  rw [lines, ← List.forall₂_eq_eq_eq, List.forall₂_map_left_iff, List.forall₂_map_right_iff]
  simp only [body_alike]

def LooksLike (first second : Traced) : Prop :=
  Mistaken first.kind second.kind ∨ Mistaken second.kind first.kind

instance (first second : Traced) : Decidable (LooksLike first second) := by
  unfold LooksLike
  infer_instance

theorem LooksLike.different {first second : Traced} (looks : LooksLike first second) :
    first.kind ≠ second.kind := by
  rcases looks with mistaken | mistaken
  · exact mistaken.different
  · exact mistaken.different.symm

/--
The frames agree one by one in all that is shown but the kind, and somewhere one kind is a
number from 0 to 9 and the other the character of that digit.
-/
structure Confused (outputSockets : Bool) (first second : List Traced) : Prop where
  alike : List.Forall₂ (Traced.Alike outputSockets) first second
  somewhere : ∃ pair ∈ first.zip second, LooksLike pair.1 pair.2

def SameFrames (outputSockets : Bool) (first second : List Traced) : Prop :=
  (first.map fun frame => (frame.side, frame.kind)) =
      (second.map fun frame => (frame.side, frame.kind)) ∧
    (outputSockets → (first.map fun frame => (frame.fromFd, frame.toFd)) =
      second.map fun frame => (frame.fromFd, frame.toFd))

theorem sameFrames_cons (outputSockets : Bool) (frame frame' : Traced)
    (first second : List Traced) (alike : frame.Alike outputSockets frame') :
    SameFrames outputSockets (frame :: first) (frame' :: second) ↔
      ¬ LooksLike frame frame' ∧ SameFrames outputSockets first second := by
  obtain ⟨side, descriptors, kind⟩ := alike
  have kinds : frame.kind = frame'.kind ↔ ¬ LooksLike frame frame' := by
    constructor
    · exact fun same looks => looks.different same
    · exact fun apart => kind.resolve_right apart
  simp only [SameFrames, List.map_cons, List.cons.injEq, Prod.mk.injEq, side, true_and, ← kinds]
  constructor
  · intro same
    exact ⟨same.1.1, same.1.2, fun on => (same.2 on).2⟩
  · intro same
    exact ⟨⟨same.1, same.2.1⟩, fun on => ⟨descriptors on, same.2.2 on⟩⟩

-- Sequences with one text are the same exactly where no kind stands for another.
theorem sameFrames_iff (outputSockets : Bool) (first second : List Traced)
    (alike : List.Forall₂ (Traced.Alike outputSockets) first second) :
    SameFrames outputSockets first second ↔
      ∀ pair ∈ first.zip second, ¬ LooksLike pair.1 pair.2 := by
  induction alike with
  | nil => simp [SameFrames]
  | cons here _ ih =>
      rw [sameFrames_cons outputSockets _ _ _ _ here, ih, List.zip_cons_cons, List.forall_mem_cons]

/-- The text determines the frames, unless it has a digit that was a number. -/
theorem trace_text_determines (outputSockets : Bool) (first second : List Traced) :
    (traceText outputSockets first = traceText outputSockets second →
      SameFrames outputSockets first second) ↔ ¬ Confused outputSockets first second := by
  rw [traceText_alike]
  constructor
  · rintro determined ⟨alike, pair, among, looks⟩
    exact (sameFrames_iff outputSockets first second alike).mp (determined alike) pair among looks
  · intro clear alike
    apply (sameFrames_iff outputSockets first second alike).mpr
    intro pair among looks
    exact clear ⟨alike, pair, among, looks⟩

-- ParseComplete is the kind '1'; both are written as "S,1".
theorem trace_text_digit :
    ¬ ∀ (outputSockets : Bool) (first second : List Traced),
      traceText outputSockets first = traceText outputSockets second →
        SameFrames outputSockets first second := by
  intro determined
  have same := determined false [⟨.server, 7, 5, 1⟩] [⟨.server, 7, 5, 49⟩] (by decide +kernel)
  have different : ¬ SameFrames false [⟨.server, 7, 5, 1⟩] [⟨.server, 7, 5, 49⟩] := by
    unfold SameFrames
    decide
  exact different same

end Frames

section Writing

variable {Process : Type} [DecidableEq Process]

/-- The steps of one call of output_write that nobody interrupts. -/
def Traced.calls (outputSockets : Bool) (process : Process) (frame : Traced) :
    List (TraceAction Process) :=
  [.semWait process frame.output, .fputs process,
    .append process (frame.output.line outputSockets).length, .semPost process]

theorem run_calls (outputSockets : Bool) (process : Process) (file : List UInt8) (frame : Traced) :
    Steps.run (TraceFile.step outputSockets) (.initial file) (frame.calls outputSockets process) =
      some (.initial (file ++ frame.output.line outputSockets)) := by
  have some_left := List.length_pos_iff.mpr (line_ne_nil outputSockets frame.output)
  simp [Traced.calls, Steps.run, TraceFile.step, TraceFile.initial, TraceFile.move, some_left]

-- One worker's calls append the text of its frames.
theorem run_trace (outputSockets : Bool) (process : Process) (file : List UInt8)
    (frames : List Traced) :
    Steps.run (TraceFile.step outputSockets) (.initial file)
        (frames.flatMap (Traced.calls outputSockets process)) =
      some (.initial (file ++ traceText outputSockets frames)) := by
  induction frames generalizing file with
  | nil => simp [Steps.run, traceText]
  | cons frame frames ih =>
      have whole : traceText outputSockets (frame :: frames) =
          frame.output.line outputSockets ++ traceText outputSockets frames := List.flatMap_cons
      rw [List.flatMap_cons, whole, ← List.append_assoc]
      apply (Steps.run_append _ _ _ _ _).mpr
      exact ⟨_, run_calls outputSockets process file frame, ih _⟩

end Writing

section Alone

def Ambiguous (kind : Int8) : Prop := (0 ≤ kind ∧ kind ≤ 9) ∨ (48 ≤ kind ∧ kind ≤ 57)

theorem ambiguous_iff (kind : Int8) :
    Ambiguous kind ↔ ∃ other, Mistaken kind other ∨ Mistaken other kind := by
  constructor
  case mp =>
    rintro (number | character)
    · exists kind + 48
      exact Or.inl ⟨number.1, number.2, rfl⟩
    · have low := Int8.le_iff_toInt_le.mp character.1
      have high := Int8.le_iff_toInt_le.mp character.2
      simp at low high
      obtain ⟨digit, value⟩ : ∃ digit : Nat, kind.toInt = 48 + (digit : Int) :=
        ⟨(kind.toInt - 48).toNat, by omega⟩
      have all : ∀ digit < 10,
          Int8.ofInt (48 + ((digit : Nat) : Int)) = (UInt8.ofNat (48 + digit)).toInt8 := by
        decide
      exists Int8.ofNat digit
      apply Or.inr
      apply (mistaken_iff _ _).mpr
      exists digit
      constructor
      · omega
      constructor
      · rfl
      · rw [← all digit (by omega), ← value, Int8.ofInt_toInt]
  case mpr =>
    rintro ⟨other, mistaken | mistaken⟩
    · exact Or.inl ⟨mistaken.1, mistaken.2.1⟩
    · obtain ⟨digit, small, rfl, rfl⟩ := (mistaken_iff other kind).mp mistaken
      have all : ∀ digit < 10, 48 ≤ (UInt8.ofNat (48 + digit)).toInt8 ∧
          (UInt8.ofNat (48 + digit)).toInt8 ≤ 57 := by
        decide
      exact Or.inr (all digit small)

theorem alike_refl (outputSockets : Bool) (frames : List Traced) :
    List.Forall₂ (Traced.Alike outputSockets) frames frames := by
  apply List.forall₂_same.mpr
  intro frame _
  exact ⟨rfl, fun _ => ⟨rfl, rfl⟩, Or.inl rfl⟩

-- A trace is read back from its text alone when it has neither such numbers nor digits.
theorem trace_text_unique (outputSockets : Bool) (frames : List Traced) :
    (∀ other, traceText outputSockets frames = traceText outputSockets other →
      SameFrames outputSockets frames other) ↔ ∀ frame ∈ frames, ¬ Ambiguous frame.kind := by
  constructor
  case mp =>
    intro unique frame member ambiguous
    obtain ⟨before, after, rfl⟩ := List.append_of_mem member
    obtain ⟨kind, mistaken⟩ := (ambiguous_iff frame.kind).mp ambiguous
    have alike : List.Forall₂ (Traced.Alike outputSockets) (before ++ frame :: after)
        (before ++ { frame with kind := kind } :: after) := by
      apply List.rel_append (alike_refl outputSockets before)
      exact .cons ⟨rfl, fun _ => ⟨rfl, rfl⟩, Or.inr mistaken⟩ (alike_refl outputSockets after)
    have same := unique _ ((traceText_alike outputSockets _ _).mpr alike)
    have among : (frame, { frame with kind := kind }) ∈
        (before ++ frame :: after).zip (before ++ { frame with kind := kind } :: after) := by
      rw [List.zip_append rfl, List.zip_cons_cons]
      exact List.mem_append_right _ List.mem_cons_self
    exact (sameFrames_iff outputSockets _ _ alike).mp same _ among mistaken
  case mpr =>
    intro clear other same
    have alike := (traceText_alike outputSockets frames other).mp same
    apply (sameFrames_iff outputSockets frames other alike).mpr
    rintro ⟨frame, frame'⟩ member looks
    apply clear frame (List.of_mem_zip member).1
    exact (ambiguous_iff frame.kind).mpr ⟨frame'.kind, looks⟩

end Alone

end Pgprtdbg
