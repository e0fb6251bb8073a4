import Pgprtdbg.Decode.Reassembly

set_option autoImplicit false

namespace Pgprtdbg

open Framing MachineInt

def TypedWire (xs : List UInt8) : Prop :=
  ∃ kind body, kind ≠ (0 : UInt8) ∧ body.length + 4 < 2 ^ 31 ∧
    xs = kind :: (bytes32 (body.length + 4) ++ body)

def UntypedWire (xs : List UInt8) : Prop :=
  ∃ body, 4 ≤ body.length ∧ body.length + 4 < 2 ^ 24 ∧ xs = bytes32 (body.length + 4) ++ body

def Side.WellFormed : Side → List UInt8 → Prop
  | .client => fun xs => TypedWire xs ∨ UntypedWire xs
  | .server => TypedWire

-- A typed header with a negative length, or a whole frame of the one length that overflows.
def ParkedTyped (xs : List UInt8) : Prop :=
  xs.getD 0 0 ≠ 0 ∧
    ((2 ≤ xs.length ∧ 128 ≤ xs.getD 1 0) ∨ (declaredLength xs = 2 ^ 31 - 1 ∧ 2 ^ 31 ≤ xs.length))

/--
Bytes that nothing will ever take off: a bad typed header; from the client also an untyped
packet of a length below 8; from the server anything that starts with a zero byte.
-/
def Parked : Side → List UInt8 → Prop
  | .client => fun xs =>
      ParkedTyped xs ∨
        (xs.getD 0 0 = 0 ∧ 4 ≤ xs.length ∧ xs.length < 8 ∧ pgprtdbgReadInt32 xs < 8)
  | .server => fun xs => ParkedTyped xs ∨ (xs ≠ [] ∧ xs.getD 0 0 = 0)

theorem readInt32_cons (a b c d : UInt8) (rest : List UInt8) :
    pgprtdbgReadInt32 (a :: b :: c :: d :: rest) = int32 (bigEndian [a, b, c, d]) := by
  have same : a.toNat * 2 ^ 24 + b.toNat * 2 ^ 16 + c.toNat * 2 ^ 8 + d.toNat =
      bigEndian [a, b, c, d] := by
    simp only [bigEndian, List.foldl_cons, List.foldl_nil]
    omega
  rw [readInt32_eq, ← same]
  simp only [List.getD_cons_zero, List.getD_cons_succ]

theorem bigEndian_lt (a b c d : UInt8) (positive : a < 128) : bigEndian [a, b, c, d] < 2 ^ 31 := by
  have ha : a.toNat < 128 := positive
  have hb := UInt8.toNat_lt b
  have hc := UInt8.toNat_lt c
  have hd := UInt8.toNat_lt d
  simp only [bigEndian, List.foldl_cons, List.foldl_nil]
  omega

theorem typed_started (kind a b c d : UInt8) (xs : List UInt8) (typed : kind ≠ 0)
    (positive : a < 128) (short : xs.length + 4 < bigEndian [a, b, c, d]) :
    ∃ frame, TypedWire frame ∧ ProperPrefix (kind :: a :: b :: c :: d :: xs) frame := by
  have bound := bigEndian_lt a b c d positive
  let missing := bigEndian [a, b, c, d] - 4 - xs.length
  have length : (xs ++ List.replicate missing 0).length + 4 = bigEndian [a, b, c, d] := by
    simp only [List.length_append, List.length_replicate, missing]
    omega
  refine ⟨_, ⟨kind, xs ++ List.replicate missing 0, typed, by omega, rfl⟩,
    List.replicate missing 0, ?_, ?_⟩
  · intro empty
    have none_missing := congrArg List.length empty
    simp only [List.length_replicate, List.length_nil, missing] at none_missing
    omega
  · rw [length, bytes32_bigEndian]
    rfl

theorem starts_of_append {wire : List UInt8 → Prop} {xs more : List UInt8}
    (starts : ∃ frame, wire frame ∧ ProperPrefix (xs ++ more) frame) :
    ∃ frame, wire frame ∧ ProperPrefix xs frame := by
  rcases starts with ⟨frame, here, under⟩
  exact ⟨frame, here, ProperPrefix.of_append under⟩

theorem typed_waits (xs : List UInt8) (typed : xs.getD 0 0 ≠ 0) (head : typedNext xs = none)
    (clear : ¬ ParkedTyped xs) : ∃ frame, TypedWire frame ∧ ProperPrefix xs frame := by
  have filled (a b c : UInt8) : 4 < bigEndian [a, b, c, 255] := by
    simp only [bigEndian, List.foldl_cons, List.foldl_nil, UInt8.toNat_ofNat]
    omega
  have small (a : UInt8) (rest : List UInt8) (here : xs = xs.getD 0 0 :: a :: rest) : a < 128 := by
    by_contra large
    refine clear ⟨typed, .inl ?_⟩
    rw [here]
    exact ⟨by simp, UInt8.not_lt.mp large⟩
  rcases xs with _ | ⟨kind, _ | ⟨a, _ | ⟨b, _ | ⟨c, _ | ⟨d, rest⟩⟩⟩⟩⟩
  · exact absurd rfl typed
  · exact starts_of_append (typed_started kind 0 0 0 255 [] typed (by decide) (by decide))
  · exact starts_of_append (typed_started kind a 0 0 255 [] typed (small a [] rfl) (filled _ _ _))
  · exact starts_of_append (typed_started kind a b 0 255 [] typed (small a [b] rfl) (filled _ _ _))
  · exact starts_of_append (typed_started kind a b c 255 [] typed (small a [b, c] rfl) (filled _ _ _))
  · have positive := small a (b :: c :: d :: rest) rfl
    have bound := bigEndian_lt a b c d positive
    have declared : declaredLength (kind :: a :: b :: c :: d :: rest) = bigEndian [a, b, c, d] := by
      change pgprtdbgReadInt32 (a :: b :: c :: d :: rest) = _
      rw [readInt32_cons, int32_of_bounds _ (by omega) (by omega)]
    have waiting : ¬ frameSize (declaredLength (kind :: a :: b :: c :: d :: rest)) ≤
        rest.length + 5 := by
      intro whole
      rw [typedNext, if_pos ⟨typed, by simp, by simpa using whole⟩] at head
      exact absurd head (by simp)
    have short : rest.length + 4 < bigEndian [a, b, c, d] := by
      rw [declared] at waiting
      by_cases overflow : bigEndian [a, b, c, d] = 2 ^ 31 - 1
      · by_contra long
        refine clear ⟨typed, .inr ⟨?_, ?_⟩⟩
        · rw [declared, overflow]
          decide
        · simp only [List.length_cons]
          omega
      · have size := frameSize_of_nonneg (bigEndian [a, b, c, d]) (by omega) (by omega)
        omega
    exact typed_started kind a b c d rest typed positive short

theorem untyped_waits (xs : List UInt8) (nonempty : xs ≠ []) (untyped : xs.getD 0 0 = 0)
    (short : xs.length < 8) (clear : ¬ (4 ≤ xs.length ∧ pgprtdbgReadInt32 xs < 8)) :
    ∃ frame, UntypedWire frame ∧ ProperPrefix xs frame := by
  have started (b c d : UInt8) (more : List UInt8) (large : 8 ≤ bigEndian [0, b, c, d])
      (few : more.length < 4) :
      ∃ frame, UntypedWire frame ∧ ProperPrefix (0 :: b :: c :: d :: more) frame := by
    have hb := UInt8.toNat_lt b
    have hc := UInt8.toNat_lt c
    have hd := UInt8.toNat_lt d
    have bound : bigEndian [0, b, c, d] < 2 ^ 24 := by
      simp only [bigEndian, List.foldl_cons, List.foldl_nil, UInt8.toNat_zero]
      omega
    let missing := bigEndian [0, b, c, d] - 4 - more.length
    have length : (more ++ List.replicate missing 0).length + 4 = bigEndian [0, b, c, d] := by
      simp only [List.length_append, List.length_replicate, missing]
      omega
    refine ⟨_, ⟨more ++ List.replicate missing 0, by omega, by omega, rfl⟩,
      List.replicate missing 0, ?_, ?_⟩
    · intro empty
      have none_missing := congrArg List.length empty
      simp only [List.length_replicate, List.length_nil, missing] at none_missing
      omega
    · rw [length, bytes32_bigEndian]
      rfl
  have filled (b c : UInt8) : 8 ≤ bigEndian [0, b, c, 255] := by
    simp only [bigEndian, List.foldl_cons, List.foldl_nil, UInt8.toNat_ofNat]
    omega
  rcases xs with _ | ⟨first, _ | ⟨b, _ | ⟨c, _ | ⟨d, more⟩⟩⟩⟩
  · exact absurd rfl nonempty
  · cases untyped
    exact starts_of_append (started 0 0 255 [] (filled _ _) (by simp))
  · cases untyped
    exact starts_of_append (started b 0 255 [] (filled _ _) (by simp))
  · cases untyped
    exact starts_of_append (started b c 255 [] (filled _ _) (by simp))
  · cases untyped
    have bound := bigEndian_lt 0 b c d (by decide)
    have large : ¬ pgprtdbgReadInt32 (0 :: b :: c :: d :: more) < 8 := fun small =>
      clear ⟨by simp, small⟩
    rw [readInt32_cons, int32_of_bounds _ (by omega) (by omega)] at large
    simp only [List.length_cons] at short
    exact started b c d more (by omega) (by omega)

theorem typed_under (xs frame : List UInt8) (wire : TypedWire frame)
    (under : ProperPrefix xs frame) (nonempty : xs ≠ []) :
    xs.getD 0 0 ≠ 0 ∧ ¬ ParkedTyped xs := by
  have shorter := under.length_lt
  rcases wire with ⟨kind, body, typed, bound, rfl⟩
  rcases under with ⟨more, _, whole⟩
  simp only [List.length_cons, List.length_append, bytes32_length] at shorter
  rcases xs with _ | ⟨first, _ | ⟨second, rest⟩⟩
  · exact absurd rfl nonempty
  · cases (List.cons.inj whole).1
    refine ⟨typed, ?_⟩
    rintro ⟨_, ⟨long, _⟩ | ⟨_, long⟩⟩ <;> simp at long
  · simp only [bytes32, List.cons_append, List.cons.injEq] at whole
    rcases whole with ⟨rfl, rfl, _⟩
    refine ⟨typed, ?_⟩
    rintro ⟨_, ⟨_, large⟩ | ⟨_, long⟩⟩
    · have high : 128 ≤ (UInt8.ofNat ((body.length + 4) / 2 ^ 24)).toNat := large
      rw [UInt8.toNat_ofNat'] at high
      omega
    · omega

theorem untyped_under (xs frame : List UInt8) (wire : UntypedWire frame)
    (under : ProperPrefix xs frame) :
    xs.getD 0 0 = 0 ∧ ¬ (4 ≤ xs.length ∧ pgprtdbgReadInt32 xs < 8) := by
  rcases wire with ⟨body, long, bound, rfl⟩
  rcases under with ⟨more, _, whole⟩
  constructor
  · cases xs with
    | nil => rfl
    | cons first rest =>
        have zero := bytes32_head_zero (body.length + 4) bound
        simp only [bytes32, List.head?_cons, Option.some.injEq] at zero
        simp only [bytes32, zero, List.cons_append, List.cons.injEq] at whole
        exact whole.1
  · rintro ⟨there, small⟩
    have read := readInt32_bytes32 (body.length + 4) (by omega) body
    rw [← whole, readInt32_append xs more there] at read
    omega

theorem waits_iff (side : Side) (xs : List UInt8) (nonempty : xs ≠ []) (head : side.next xs = none)
    (stays : ¬ side.Exits xs) :
    (∃ frame, side.WellFormed frame ∧ ProperPrefix xs frame) ↔ ¬ Parked side xs := by
  cases side with
  | client =>
      by_cases untyped : xs.getD 0 0 = 0
      · have short : xs.length < 8 := by
          by_contra long
          by_cases known : KnownRequest (requestOf xs)
          · change clientNext xs = none at head
            rw [clientNext, if_pos untyped, if_pos ⟨by omega, known⟩] at head
            exact absurd head (by simp)
          · exact stays ⟨untyped, by omega, known⟩
        constructor
        · rintro ⟨frame, wire | wire, under⟩
          · exact absurd untyped (typed_under xs frame wire under nonempty).1
          · rintro (⟨typed, _⟩ | ⟨_, long, _, small⟩)
            · exact typed untyped
            · exact (untyped_under xs frame wire under).2 ⟨long, small⟩
        · intro clear
          have free : ¬ (4 ≤ xs.length ∧ pgprtdbgReadInt32 xs < 8) := fun here =>
            clear (.inr ⟨untyped, here.1, short, here.2⟩)
          obtain ⟨frame, wire, under⟩ := untyped_waits xs nonempty untyped short free
          exact ⟨frame, .inr wire, under⟩
      · constructor
        · rintro ⟨frame, wire | wire, under⟩
          · rintro (parked | ⟨zero, _⟩)
            · exact (typed_under xs frame wire under nonempty).2 parked
            · exact untyped zero
          · exact absurd (untyped_under xs frame wire under).1 untyped
        · intro clear
          have waiting : typedNext xs = none := (clientNext_typed xs untyped).symm.trans head
          obtain ⟨frame, wire, under⟩ :=
            typed_waits xs untyped waiting (fun parked => clear (.inl parked))
          exact ⟨frame, .inl wire, under⟩
  | server =>
      constructor
      · rintro ⟨frame, wire, under⟩
        have started := typed_under xs frame wire under nonempty
        rintro (parked | ⟨_, zero⟩)
        · exact started.2 parked
        · exact started.1 zero
      · intro clear
        have typed : xs.getD 0 0 ≠ 0 := fun zero => clear (.inr ⟨nonempty, zero⟩)
        have other : xs ≠ [78] := by
          intro lone
          rw [lone] at head
          exact absurd head (by decide)
        have waiting : typedNext xs = none := (serverNext_eq xs other).symm.trans head
        exact typed_waits xs typed waiting fun parked => clear (.inl parked)

theorem parked_nonempty (side : Side) (xs : List UInt8) (parked : Parked side xs) : xs ≠ [] := by
  intro empty
  rw [empty] at parked
  cases side with
  | client =>
      rcases parked with ⟨typed, _⟩ | ⟨_, long, _⟩
      · exact typed rfl
      · simp at long
  | server =>
      rcases parked with ⟨typed, _⟩ | ⟨nonempty, _⟩
      · exact typed rfl
      · exact nonempty rfl

theorem parked_stays (side : Side) (xs : List UInt8) (parked : Parked side xs) : ¬ side.Exits xs := by
  cases side with
  | client =>
      rintro ⟨untyped, long, _⟩
      rcases parked with ⟨typed, _⟩ | ⟨_, _, short, _⟩
      · exact typed untyped
      · omega
  | server => exact id

section Run

variable (clientFd serverFd : Int) (side : Side)

/--
In every run of one direction, what a call leaves in the buffer is the start of a frame of
that direction exactly when no call has parked bytes at the head of what it cannot cut.
-/
theorem leaves_wellFormed_iff (msgs : List Message) (nonempty : ∀ msg ∈ msgs, 0 < msg.length)
    (start : Decoder) (empty : start.Holds []) :
    (∀ seen, seen <+: msgs →
      (start.calls clientFd serverFd (side.calls seen)).status = .running →
      (start.calls clientFd serverFd (side.calls seen)).bytes ≠ [] →
      ∃ frame, side.WellFormed frame ∧
        ProperPrefix (start.calls clientFd serverFd (side.calls seen)).bytes frame) ↔
    ∀ seen msg, seen ++ [msg] <+: msgs →
      (start.calls clientFd serverFd (side.calls seen)).status = .running →
      ∀ frames rest, Splits side.next
        ((start.calls clientFd serverFd (side.calls seen)).bytes ++ msg.bytes) frames rest →
      ¬ Parked side rest := by
  have settled (seen : List Message) (before : seen <+: msgs) :
      (start.calls clientFd serverFd (side.calls seen)).Settled := by
    refine (calls_settled clientFd serverFd (side.calls seen) start empty.settled ?_).1
    intro c member
    obtain ⟨msg, inside, rfl⟩ := List.mem_map.mp member
    exact nonempty msg (before.subset inside)
  have last (seen : List Message) (msg : Message) :
      start.calls clientFd serverFd (side.calls (seen ++ [msg])) =
        (start.calls clientFd serverFd (side.calls seen)).call clientFd serverFd ⟨side, msg⟩ := by
    simp [Side.calls]
  constructor
  · intro genuine seen msg before running frames rest splits parked
    have earlier : seen <+: msgs := (List.prefix_append seen [msg]).trans before
    obtain ⟨xs, holds⟩ := settled seen earlier running
    rw [holds.bytes] at splits
    have stays := parked_stays side rest parked
    have left := (call_stop clientFd serverFd side msg _ xs rest frames holds
      (nonempty msg (before.subset (by simp))) splits stays).1
    rw [← last] at left
    have here := genuine (seen ++ [msg]) before left.running
    rw [left.bytes] at here
    have nonempty_rest := parked_nonempty side rest parked
    exact (waits_iff side rest nonempty_rest splits.2 stays).mp (here nonempty_rest) parked
  · intro clear seen before running some_bytes
    rcases List.eq_nil_or_concat seen with rfl | ⟨init, msg, rfl⟩
    · exact absurd empty.bytes some_bytes
    · rw [List.concat_eq_append] at before running some_bytes ⊢
      have earlier : init <+: msgs := (List.prefix_append init [msg]).trans before
      rw [last] at running some_bytes ⊢
      have alive : (start.calls clientFd serverFd (side.calls init)).status = .running := by
        by_contra gone
        rw [call_gone clientFd serverFd _ _ gone] at running
        exact gone running
      obtain ⟨xs, holds⟩ := settled init earlier alive
      obtain ⟨frames, rest, _, final, cuts, ends, _, outcome⟩ :=
        call_outcome clientFd serverFd side msg xs (nonempty msg (before.subset (by simp)))
      have here := outcome _ holds
      have ended := here.1.symm.trans running
      have left := here.2.2 ended
      obtain ⟨head, stays⟩ := ends.mp ended
      rw [left.bytes] at some_bytes ⊢
      have free := clear init msg before alive frames rest (by rw [holds.bytes]; exact ⟨cuts, head⟩)
      exact (waits_iff side rest some_bytes head stays).mpr free

end Run

theorem query_start_waits :
    ∃ frame, Side.client.WellFormed frame ∧
      ProperPrefix (Decoder.initial.calls 5 6 (Side.client.calls [readChunk [81, 0, 0]])).bytes
        frame := by
  refine (leaves_wellFormed_iff 5 6 .client [readChunk [81, 0, 0]] (by decide) Decoder.initial
    initial_holds).mpr ?_ _ (List.prefix_refl _) (by decide) (by decide)
  intro seen msg before _ frames rest splits
  cases seen with
  | nil =>
      cases (List.cons_prefix_cons.mp before).1
      have whole : Splits clientNext [81, 0, 0] [] [81, 0, 0] := ⟨.nil _, rfl⟩
      rw [← (whole.unique splits).2]
      rintro (⟨_, ⟨_, large⟩ | ⟨_, long⟩⟩ | ⟨zero, _⟩)
      · exact absurd large (by decide)
      · simp at long
      · exact absurd zero (by decide)
  | cons first seen =>
      have long := before.length_le
      simp at long

/-- A zero byte from the server stays in the buffer, and no backend frame starts with one. -/
theorem zero_byte_parked :
    let after := Decoder.initial.calls 5 6 (Side.server.calls [readChunk [0]])
    after.status = .running ∧ after.bytes = [0] ∧
      ¬ ∃ frame, Side.server.WellFormed frame ∧ ProperPrefix after.bytes frame := by
  have bytes : (Decoder.initial.calls 5 6 (Side.server.calls [readChunk [0]])).bytes = [0] := by decide
  refine ⟨by decide, bytes, ?_⟩
  rw [bytes]
  exact fun genuine => (waits_iff .server [0] (by decide) rfl id).mp genuine
    (.inr ⟨by decide, rfl⟩)

end Pgprtdbg
