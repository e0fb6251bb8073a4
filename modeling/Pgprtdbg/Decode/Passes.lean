import Pgprtdbg.Decode.Parsers

set_option autoImplicit false

namespace Pgprtdbg

open MachineInt Framing

structure Decoder.Holds (d : Decoder) (xs : List UInt8) : Prop where
  running : d.status = .running
  data : d.data = if xs = [] then none else some xs
  size : d.dataSize = xs.length

theorem Decoder.Holds.bytes {d : Decoder} {xs : List UInt8} (holds : d.Holds xs) : d.bytes = xs := by
  rw [Decoder.bytes, holds.data]
  split_ifs with empty <;> simp [empty]

theorem Decoder.Holds.data_none_iff {d : Decoder} {xs : List UInt8} (holds : d.Holds xs) :
    d.data = none ↔ d.dataSize = 0 := by
  rw [holds.data, holds.size]
  by_cases empty : xs = [] <;> simp [empty]

theorem initial_holds : Decoder.initial.Holds [] := ⟨rfl, rfl, rfl⟩

-- What one pass writes when it takes a frame off a buffer that holds `xs`.
def typedEvents (id : Side) (switch : Int8 → Int → Parser Unit) (fromFd toFd : Int)
    (xs : List UInt8) : List Event :=
  parsed (switch (pgprtdbgReadByte xs) (declaredLength xs) xs 0) ++
    [.outputWrite id fromFd toFd (pgprtdbgReadByte xs) none,
      .dataRemove xs.length (frameSize (declaredLength xs))]

def untypedEvents (clientFd : Int) (xs : List UInt8) : List Event :=
  parsed (fe_zero clientFd (pgprtdbgReadInt32 xs) xs 0) ++
    [.dataRemove xs.length (sizeT (pgprtdbgReadInt32 xs))]

def clientEvents (fromFd toFd : Int) (xs : List UInt8) : List Event :=
  if xs.getD 0 0 = 0 then untypedEvents fromFd xs
  else typedEvents .client clientSwitch fromFd toFd xs

def exitEvents (clientFd : Int) (xs : List UInt8) : List Event :=
  parsed (fe_zero clientFd (pgprtdbgReadInt32 xs) xs 0)

def serverEvents (fromFd toFd : Int) (xs : List UInt8) : List Event :=
  if xs = [78] then parsed (be_N xs 0) ++ [.dataRemove 1 1]
  else typedEvents .server serverSwitch fromFd toFd xs

theorem remove_inside (d : Decoder) (xs : List UInt8) (size : Nat) (holds : d.Holds xs)
    (nonempty : xs ≠ []) (fits : size ≤ xs.length) :
    ∃ after, d.remove size = .next after ∧ after.Holds (xs.drop size) ∧
      after.trace = d.trace ++ [.dataRemove xs.length size] ∧ after.counter = d.counter := by
  have data : d.data = some xs := by simpa [nonempty] using holds.data
  refine ⟨{ d with
    data := if xs.drop size = [] then none else some (xs.drop size)
    newDataSize := xs.length - size
    dataSize := xs.length - size
    trace := d.trace ++ [.dataRemove xs.length size] }, ?_, ?_, rfl, rfl⟩
  · simp only [Decoder.remove, Decoder.emit, data, holds.size, dataRemove_inside xs size fits]
  · exact ⟨holds.running, rfl, by simp⟩

theorem remove_outside (d : Decoder) (xs : List UInt8) (size : Nat) (holds : d.Holds xs)
    (nonempty : xs ≠ []) (beyond : xs.length < size) (bound : size < 2 ^ 64) :
    ∃ after, d.remove size = .leave after ∧ after.status = .faulted ∧
      after.trace = d.trace ++ [.dataRemove xs.length size] := by
  have data : d.data = some xs := by simpa [nonempty] using holds.data
  refine ⟨{ d with
    newDataSize := 2 ^ 64 + xs.length - size
    status := .faulted
    trace := d.trace ++ [.dataRemove xs.length size] }, ?_, rfl, rfl⟩
  simp only [Decoder.remove, Decoder.emit, data, holds.size, dataRemove_outside xs size beyond bound]

theorem sizeT_lt (value : Int) : sizeT value < 2 ^ 64 := by
  unfold sizeT
  omega

theorem readInt32_run (data : List UInt8) (offset : Nat) (room : offset + 4 ≤ data.length) :
    readInt32 data offset =
      ⟨.ok (pgprtdbgReadInt32 (data.drop offset)), offset + 4, List.range' offset 4, []⟩ := by
  have there : 4 ≤ (data.drop offset).length := by
    rw [List.length_drop]
    omega
  have taken := readInt32_take (data.drop offset) 4 (by omega)
  change Walk.andThen (Walk.read 4) (fun bytes => pure (pgprtdbgReadInt32 bytes)) data offset = _
  simp only [Walk.andThen, Walk.read, there, if_true]
  rw [taken]
  rfl

theorem fe_zero_value (clientFd length : Int) (xs : List UInt8) (long : 8 ≤ xs.length) :
    (fe_zero clientFd length xs 0).value =
      (fe_zeroRequest clientFd length (requestOf xs) xs 8).value := by
  have read := readInt32_run xs 4 (by omega)
  have skipped : (fe_zero clientFd length xs 0).value =
      (Walk.andThen readInt32 (fe_zeroRequest clientFd length) xs 4).value := by
    have ended : ((Walk.skip 4 : Parser Unit) xs 0).value = .ok () := rfl
    exact Walk.value_andThen ended fun _ => Walk.andThen readInt32 (fe_zeroRequest clientFd length)
  rw [skipped, Walk.value_andThen (congrArg Walk.Outcome.value read), read]
  rfl

theorem fe_zero_known (clientFd length : Int) (xs : List UInt8) (long : 8 ≤ xs.length)
    (known : KnownRequest (requestOf xs)) (code : Int) :
    (fe_zero clientFd length xs 0).value ≠ .error (.halted (.exit code)) := by
  rw [fe_zero_value clientFd length xs long]
  intro halted
  have built : Walk.Built (fun _ => True) IsArray (fe_zeroRequest clientFd length (requestOf xs)) :=
    built_fe_zeroRequest clientFd length _ (fun _ _ => trivial) isArray_array
      (fun _ _ => trivial) (absurd known)
  obtain ⟨size, array⟩ := built.haltsOnly xs 8 _ halted
  exact Halt.noConfusion array

theorem fe_zero_unknown (clientFd length : Int) (xs : List UInt8) (long : 8 ≤ xs.length)
    (unknown : ¬ KnownRequest (requestOf xs)) :
    (fe_zero clientFd length xs 0).value = .error (.halted (.exit 1)) := by
  rw [fe_zero_value clientFd length xs long]
  unfold KnownRequest at unknown
  push Not at unknown
  simp [fe_zeroRequest, unknown, Walk.andThen, logLine, Walk.emit, Walk.halt]

section Pass

variable (clientFd serverFd : Int)

def Side.next : Side → List UInt8 → Option Nat
  | .client => clientNext
  | .server => serverNext

def Side.Exits : Side → List UInt8 → Prop
  | .client => ClientExits
  | .server => fun _ => False

def Side.pass : Side → Decoder → Loop.Pass Decoder
  | .client => clientPass clientFd serverFd
  | .server => serverPass serverFd clientFd

def Side.events : Side → List UInt8 → List Event
  | .client => clientEvents clientFd serverFd
  | .server => serverEvents serverFd clientFd

theorem typedNext_some (xs : List UInt8) (size : Nat) (head : typedNext xs = some size) :
    xs.getD 0 0 ≠ 0 ∧ 5 ≤ xs.length ∧ frameSize (declaredLength xs) = size ∧ size ≤ xs.length := by
  unfold typedNext at head
  split at head
  · next here =>
    have same := Option.some.inj head
    exact ⟨here.1, here.2.1, same, same ▸ here.2.2⟩
  · exact absurd head (by simp)

theorem clientNext_untyped (xs : List UInt8) (size : Nat) (untyped : xs.getD 0 0 = 0)
    (head : clientNext xs = some size) :
    8 ≤ xs.length ∧ KnownRequest (requestOf xs) ∧ sizeT (pgprtdbgReadInt32 xs) = size := by
  rw [clientNext, if_pos untyped] at head
  split at head
  · next here => exact ⟨here.1, here.2, Option.some.inj head⟩
  · exact absurd head (by simp)

theorem typedBranch_cut (id : Side) (switch : Int8 → Int → Parser Unit) (fromFd toFd : Int)
    (d : Decoder) (xs : List UInt8) (holds : d.Holds xs) (nonempty : xs ≠ [])
    (kind : d.kind = pgprtdbgReadByte xs) (fits : frameSize (declaredLength xs) ≤ xs.length) :
    ∃ after, typedBranch id switch fromFd toFd d = .next after ∧
      after.Holds (xs.drop (frameSize (declaredLength xs))) ∧
      after.trace = d.trace ++ typedEvents id switch fromFd toFd xs ∧ after.counter = d.counter := by
  let before : Decoder := { d with
    length := declaredLength xs
    trace := d.trace ++ parsed (switch (pgprtdbgReadByte xs) (declaredLength xs) xs 0) ++
      [.outputWrite id fromFd toFd (pgprtdbgReadByte xs) none] }
  have same : before.Holds xs := ⟨holds.running, holds.data, holds.size⟩
  obtain ⟨after, pass, left, trace, counter⟩ := remove_inside before xs _ same nonempty fits
  refine ⟨after, ?_, left, ?_, counter⟩
  · have whole : ¬ xs.length < frameSize (pgprtdbgReadInt32 (xs.drop 1)) := Nat.not_lt.mpr fits
    have bytes := holds.bytes
    rw [Decoder.bytes] at bytes
    simp only [typedBranch, Decoder.emit, Decoder.bytes, bytes, holds.size, whole,
      if_false, kind]
    rw [← pass]
    simp only [before, declaredLength, holds.size, kind]
  · rw [trace]
    simp only [before, typedEvents, List.append_assoc, List.cons_append, List.nil_append]

theorem typedBranch_waits (id : Side) (switch : Int8 → Int → Parser Unit) (fromFd toFd : Int)
    (d : Decoder) (xs : List UInt8) (holds : d.Holds xs)
    (short : xs.length < frameSize (declaredLength xs)) :
    typedBranch id switch fromFd toFd d = .leave { d with length := declaredLength xs } := by
  have waiting : xs.length < frameSize (pgprtdbgReadInt32 (xs.drop 1)) := short
  simp only [typedBranch, holds.bytes, holds.size, waiting, if_true, declaredLength]

-- What fe_zero leaves behind: the packet is logged, but still in the buffer.
def Decoder.zeroed (xs : List UInt8) (d : Decoder) : Decoder :=
  { d with
    kind := pgprtdbgReadByte xs
    length := pgprtdbgReadInt32 xs
    trace := d.trace ++ exitEvents clientFd xs }

theorem clientPass_untyped (d : Decoder) (xs : List UInt8) (holds : d.Holds xs)
    (untyped : xs.getD 0 0 = 0) (long : 8 ≤ xs.length) :
    clientPass clientFd serverFd d =
      match (fe_zero clientFd (pgprtdbgReadInt32 xs) xs 0).value with
      | .error (.halted (.exit code)) => .leave { d.zeroed clientFd xs with status := .exited code }
      | _ => (d.zeroed clientFd xs).remove (sizeT (pgprtdbgReadInt32 xs)) := by
  have bytes := holds.bytes
  have some_bytes : ¬ d.dataSize = 0 := by
    rw [holds.size]
    omega
  have zero : pgprtdbgReadByte d.bytes = 0 ∧ 8 ≤ d.dataSize := by
    rw [bytes, holds.size]
    exact ⟨(readByte_eq_zero xs).mpr untyped, long⟩
  subst bytes
  rw [clientPass, if_neg some_bytes, if_pos zero]
  rfl

theorem clientPass_typed (d : Decoder) (xs : List UInt8) (holds : d.Holds xs)
    (typed : xs.getD 0 0 ≠ 0) (long : 5 ≤ xs.length) :
    clientPass clientFd serverFd d =
      typedBranch .client clientSwitch clientFd serverFd { d with kind := pgprtdbgReadByte xs } := by
  have bytes := holds.bytes
  have some_bytes : ¬ d.dataSize = 0 := by
    rw [holds.size]
    omega
  have kind : pgprtdbgReadByte xs ≠ 0 := fun zero => typed ((readByte_eq_zero xs).mp zero)
  have other : ¬ (pgprtdbgReadByte d.bytes = 0 ∧ 8 ≤ d.dataSize) := by
    rw [bytes]
    exact fun zero => kind zero.1
  have here : pgprtdbgReadByte d.bytes ≠ 0 ∧ 5 ≤ d.dataSize := by
    rw [bytes, holds.size]
    exact ⟨kind, long⟩
  rw [clientPass, if_neg some_bytes, if_neg other, if_pos here, bytes]

theorem serverPass_typed (d : Decoder) (xs : List UInt8) (holds : d.Holds xs)
    (typed : xs.getD 0 0 ≠ 0) (long : 5 ≤ xs.length) :
    serverPass serverFd clientFd d =
      typedBranch .server serverSwitch serverFd clientFd { d with kind := pgprtdbgReadByte xs } := by
  have bytes := holds.bytes
  have some_bytes : ¬ d.dataSize = 0 := by
    rw [holds.size]
    omega
  have kind : pgprtdbgReadByte xs ≠ 0 := fun zero => typed ((readByte_eq_zero xs).mp zero)
  have other : ¬ (pgprtdbgReadByte d.bytes = 78 ∧ d.dataSize = 1) := by
    rw [holds.size]
    omega
  have here : pgprtdbgReadByte d.bytes ≠ 0 ∧ 5 ≤ d.dataSize := by
    rw [bytes, holds.size]
    exact ⟨kind, long⟩
  rw [serverPass, if_neg some_bytes, if_neg other, if_pos here, bytes]

theorem clientPass_cut (d : Decoder) (xs : List UInt8) (size : Nat) (holds : d.Holds xs)
    (head : clientNext xs = some size) (fits : size ≤ xs.length) :
    ∃ after, clientPass clientFd serverFd d = .next after ∧ after.Holds (xs.drop size) ∧
      after.trace = d.trace ++ clientEvents clientFd serverFd xs ∧ after.counter = d.counter := by
  by_cases untyped : xs.getD 0 0 = 0
  · obtain ⟨long, known, same⟩ := clientNext_untyped xs size untyped head
    have zeroed : (d.zeroed clientFd xs).Holds xs := ⟨holds.running, holds.data, holds.size⟩
    have nonempty : xs ≠ [] := List.ne_nil_of_length_pos (by omega)
    obtain ⟨after, pass, left, trace, counter⟩ := remove_inside _ xs size zeroed nonempty fits
    refine ⟨after, ?_, left, ?_, counter⟩
    · rw [clientPass_untyped clientFd serverFd d xs holds untyped long, same, pass]
      split
      · next code halted => exact absurd halted (fe_zero_known clientFd _ xs long known code)
      · rfl
    · rw [trace, clientEvents, if_pos untyped, untypedEvents, same]
      simp only [Decoder.zeroed, exitEvents, List.append_assoc]
  · rw [clientNext_typed xs untyped] at head
    obtain ⟨typed, long, same, whole⟩ := typedNext_some xs size head
    have nonempty : xs ≠ [] := List.ne_nil_of_length_pos (by omega)
    rw [clientPass_typed clientFd serverFd d xs holds typed long, clientEvents, if_neg untyped, ← same]
    exact typedBranch_cut .client clientSwitch clientFd serverFd { d with kind := pgprtdbgReadByte xs }
      xs ⟨holds.running, holds.data, holds.size⟩ nonempty rfl (same ▸ whole)

theorem serverPass_cut (d : Decoder) (xs : List UInt8) (size : Nat) (holds : d.Holds xs)
    (head : serverNext xs = some size) :
    ∃ after, serverPass serverFd clientFd d = .next after ∧ after.Holds (xs.drop size) ∧
      after.trace = d.trace ++ serverEvents serverFd clientFd xs ∧ after.counter = d.counter := by
  by_cases lone : xs = [78]
  · subst lone
    have one : size = 1 := (Option.some.inj head).symm
    let before : Decoder := { d with
      kind := 78
      length := 1
      trace := d.trace ++ parsed (be_N [78] 0) }
    have same : before.Holds [78] := ⟨holds.running, holds.data, holds.size⟩
    obtain ⟨after, pass, left, trace, counter⟩ :=
      remove_inside before [78] 1 same (by simp) (by simp)
    refine ⟨after, ?_, one ▸ left, ?_, counter⟩
    · have bytes := holds.bytes
      have some_bytes : ¬ d.dataSize = 0 := by
        rw [holds.size]
        simp
      have here : pgprtdbgReadByte d.bytes = 78 ∧ d.dataSize = 1 := by
        rw [bytes, holds.size]
        exact ⟨rfl, rfl⟩
      have unit : sizeT 1 = 1 := rfl
      rw [serverPass, if_neg some_bytes, if_pos here, ← pass]
      rw [Decoder.bytes] at bytes
      simp only [Decoder.emit, Decoder.bytes, bytes, unit, before]
      rfl
    · rw [trace, serverEvents, if_pos rfl]
      simp only [before, List.append_assoc, List.length_cons, List.length_nil]
  · rw [serverNext_eq xs lone] at head
    obtain ⟨typed, long, same, whole⟩ := typedNext_some xs size head
    have nonempty : xs ≠ [] := List.ne_nil_of_length_pos (by omega)
    rw [serverPass_typed clientFd serverFd d xs holds typed long, serverEvents, if_neg lone, ← same]
    exact typedBranch_cut .server serverSwitch serverFd clientFd { d with kind := pgprtdbgReadByte xs }
      xs ⟨holds.running, holds.data, holds.size⟩ nonempty rfl (same ▸ whole)

theorem serverNext_fits (xs : List UInt8) (size : Nat) (head : serverNext xs = some size) :
    size ≤ xs.length := by
  by_cases lone : xs = [78]
  · subst lone
    exact le_of_eq (Option.some.inj head).symm
  · rw [serverNext_eq xs lone] at head
    exact (typedNext_some xs size head).2.2.2

-- Taking an untyped packet off copies from outside the buffer when the packet says it is longer.
theorem clientPass_outside (d : Decoder) (xs : List UInt8) (size : Nat) (holds : d.Holds xs)
    (head : clientNext xs = some size) (beyond : xs.length < size) :
    ∃ after, clientPass clientFd serverFd d = .leave after ∧ after.status = .faulted ∧
      after.trace = d.trace ++ clientEvents clientFd serverFd xs := by
  by_cases untyped : xs.getD 0 0 = 0
  · obtain ⟨long, known, same⟩ := clientNext_untyped xs size untyped head
    have zeroed : (d.zeroed clientFd xs).Holds xs := ⟨holds.running, holds.data, holds.size⟩
    have nonempty : xs ≠ [] := List.ne_nil_of_length_pos (by omega)
    have bound : size < 2 ^ 64 := same ▸ sizeT_lt _
    obtain ⟨after, pass, faulted, trace⟩ := remove_outside _ xs size zeroed nonempty beyond bound
    refine ⟨after, ?_, faulted, ?_⟩
    · rw [clientPass_untyped clientFd serverFd d xs holds untyped long, same, pass]
      split
      · next code halted => exact absurd halted (fe_zero_known clientFd _ xs long known code)
      · rfl
    · rw [trace, clientEvents, if_pos untyped, untypedEvents, same]
      simp only [Decoder.zeroed, exitEvents, List.append_assoc]
  · rw [clientNext_typed xs untyped] at head
    have whole := (typedNext_some xs size head).2.2.2
    omega

theorem clientPass_exit (d : Decoder) (xs : List UInt8) (holds : d.Holds xs) (gone : ClientExits xs) :
    ∃ after, clientPass clientFd serverFd d = .leave after ∧ after.status = .exited 1 ∧
      after.trace = d.trace ++ exitEvents clientFd xs := by
  rcases gone with ⟨untyped, long, unknown⟩
  refine ⟨{ d.zeroed clientFd xs with status := .exited 1 }, ?_, rfl, rfl⟩
  rw [clientPass_untyped clientFd serverFd d xs holds untyped long,
    fe_zero_unknown clientFd _ xs long unknown]

theorem typedBranch_stop (id : Side) (switch : Int8 → Int → Parser Unit) (fromFd toFd : Int)
    (d : Decoder) (xs : List UInt8) (holds : d.Holds xs) (typed : xs.getD 0 0 ≠ 0)
    (long : 5 ≤ xs.length) (head : typedNext xs = none) :
    ∃ after, typedBranch id switch fromFd toFd { d with kind := pgprtdbgReadByte xs } = .leave after ∧
      after.Holds xs ∧ after.trace = d.trace ∧ after.counter = d.counter := by
  have short : xs.length < frameSize (declaredLength xs) := by
    by_contra whole
    rw [typedNext, if_pos ⟨typed, long, Nat.not_lt.mp whole⟩] at head
    exact absurd head (by simp)
  refine ⟨_, typedBranch_waits id switch fromFd toFd _ xs ?_ short, ?_, rfl, rfl⟩
  · exact ⟨holds.running, holds.data, holds.size⟩
  · exact ⟨holds.running, holds.data, holds.size⟩

theorem clientPass_stop (d : Decoder) (xs : List UInt8) (holds : d.Holds xs)
    (head : clientNext xs = none) (stays : ¬ ClientExits xs) :
    ∃ after, clientPass clientFd serverFd d = .leave after ∧ after.Holds xs ∧
      after.trace = d.trace ∧ after.counter = d.counter := by
  by_cases empty : d.dataSize = 0
  · rw [clientPass, if_pos empty]
    exact ⟨d, rfl, holds, rfl, rfl⟩
  by_cases untyped : xs.getD 0 0 = 0
  · have short : ¬ 8 ≤ xs.length := by
      intro long
      by_cases known : KnownRequest (requestOf xs)
      · rw [clientNext, if_pos untyped, if_pos ⟨long, known⟩] at head
        exact absurd head (by simp)
      · exact stays ⟨untyped, long, known⟩
    have zero := (readByte_eq_zero xs).mpr untyped
    have other : ¬ (pgprtdbgReadByte d.bytes = 0 ∧ 8 ≤ d.dataSize) := by
      rw [holds.size]
      exact fun here => short here.2
    have untyped' : ¬ (pgprtdbgReadByte d.bytes ≠ 0 ∧ 5 ≤ d.dataSize) := by
      rw [holds.bytes]
      exact fun here => here.1 zero
    rw [clientPass, if_neg empty, if_neg other, if_neg untyped']
    exact ⟨_, rfl, ⟨holds.running, holds.data, holds.size⟩, rfl, rfl⟩
  · rw [clientNext_typed xs untyped] at head
    by_cases long : 5 ≤ xs.length
    · rw [clientPass_typed clientFd serverFd d xs holds untyped long]
      exact typedBranch_stop _ _ _ _ d xs holds untyped long head
    · have other : ¬ (pgprtdbgReadByte d.bytes = 0 ∧ 8 ≤ d.dataSize) := by
        rw [holds.size]
        omega
      have short : ¬ (pgprtdbgReadByte d.bytes ≠ 0 ∧ 5 ≤ d.dataSize) := by
        rw [holds.size]
        omega
      rw [clientPass, if_neg empty, if_neg other, if_neg short]
      exact ⟨_, rfl, ⟨holds.running, holds.data, holds.size⟩, rfl, rfl⟩

theorem serverPass_stop (d : Decoder) (xs : List UInt8) (holds : d.Holds xs)
    (head : serverNext xs = none) :
    ∃ after, serverPass serverFd clientFd d = .leave after ∧ after.Holds xs ∧
      after.trace = d.trace ∧ after.counter = d.counter := by
  by_cases empty : d.dataSize = 0
  · rw [serverPass, if_pos empty]
    exact ⟨d, rfl, holds, rfl, rfl⟩
  have lone : xs ≠ [78] := by
    intro same
    rw [serverNext, if_pos same] at head
    exact absurd head (by simp)
  by_cases here : xs.getD 0 0 ≠ 0 ∧ 5 ≤ xs.length
  · rw [serverNext_eq xs lone] at head
    rw [serverPass_typed clientFd serverFd d xs holds here.1 here.2]
    exact typedBranch_stop _ _ _ _ d xs holds here.1 here.2 head
  · have other : ¬ (pgprtdbgReadByte d.bytes = 78 ∧ d.dataSize = 1) := by
      rw [holds.bytes, holds.size]
      rintro ⟨kind, one⟩
      obtain ⟨byte, rfl⟩ := List.length_eq_one_iff.mp one
      have same := congrArg Int8.toUInt8 kind
      simp only [pgprtdbgReadByte, List.getD_cons_zero, UInt8.toUInt8_toInt8] at same
      exact lone (by rw [same]; rfl)
    have short : ¬ (pgprtdbgReadByte d.bytes ≠ 0 ∧ 5 ≤ d.dataSize) := by
      rw [holds.bytes, holds.size, ne_eq, readByte_eq_zero]
      exact here
    rw [serverPass, if_neg empty, if_neg other, if_neg short]
    exact ⟨_, rfl, ⟨holds.running, holds.data, holds.size⟩, rfl, rfl⟩

end Pass

end Pgprtdbg
