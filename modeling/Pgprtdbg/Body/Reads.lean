import Pgprtdbg.Body.Backend
import Pgprtdbg.Body.Frontend
import Pgprtdbg.Decode.Hazards

set_option autoImplicit false

namespace Pgprtdbg

open Walk MachineInt

section Opening

variable {limit : Nat} {data : List UInt8}

theorem covers_logData (texts : List (List UInt8)) :
    Covers limit data (logData texts) Layout.nothing := by
  induction texts with
  | nil => exact covers_pure ()
  | cons text rest ih =>
      simp only [logData, bind_eq]
      refine covers_log_andThen ?_ _ _
      exact ih

-- Both passes go over the same bytes.
theorem fe_zeroParameters_inside (fits : limit ≤ data.length) (length : Int) :
    Inside limit (fe_zeroParameters length) data 8 ↔
      (int32 (length - 1) - 8).toNat ≤ limit - 8 := by
  simp only [fe_zeroParameters, bind_eq]
  rw [inside_read_andThen fits, window_length data limit 8 fits]
  refine and_iff_left_of_imp fun room => ?_
  rw [inside_seek_andThen, inside_read_andThen fits, window_length data limit 8 fits]
  refine ⟨room, ?_⟩
  split
  · exact ((covers_logData _).inside _).mpr (Layout.nothing_fits _)
  · exact inside_halt _

theorem fe_zeroRequest_inside (fits : limit ≤ data.length) (clientFd length request : Int) :
    Inside limit (fe_zeroRequest clientFd length request) data 8 ↔
      (request = 196608 → (int32 (length - 1) - 8).toNat ≤ limit - 8) ∧
        (request = 80877102 → 16 ≤ limit) := by
  simp only [fe_zeroRequest, bind_eq, logLine, inside_emit_andThen]
  split_ifs with startup cancel
  · rw [fe_zeroParameters_inside fits]
    simp [startup]
  · rw [readInt32_andThen, inside_read_andThen fits, window_length data limit 8 fits]
    simp only [inside_emit_andThen]
    rw [readInt32_andThen, inside_read_andThen fits, window_length data limit _ fits]
    simp only [inside_emit, and_true, cancel, Int.reduceEq, false_imp_iff, true_and, true_imp_iff]
    omega
  all_goals simp [startup, cancel]

theorem fe_zero_inside (fits : limit ≤ data.length) (clientFd length : Int) :
    Inside limit (fe_zero clientFd length) data 0 ↔
      8 ≤ limit ∧
        (requestOf data = 196608 → (int32 (length - 1) - 8).toNat ≤ limit - 8) ∧
        (requestOf data = 80877102 → 16 ≤ limit) := by
  simp only [fe_zero, bind_eq]
  rw [inside_skip_andThen, readInt32_andThen, inside_read_andThen fits,
    window_length data limit _ fits]
  have room : 4 ≤ limit - (0 + 4) ↔ 8 ≤ limit := by omega
  rw [room]
  refine and_congr_right fun long => ?_
  have request : pgprtdbgReadInt32 ((window data limit (0 + 4)).take 4) = requestOf data := by
    rw [← take_window data limit (0 + 4) 4 (by omega), readInt32_take _ _ (by omega), requestOf]
  rw [request, fe_zeroRequest_inside fits]

end Opening

section Frames

variable (clientFd : Int)

def Untyped (side : Side) (xs : List UInt8) : Prop := side = .client ∧ xs.getD 0 0 = 0

instance (side : Side) (xs : List UInt8) : Decidable (Untyped side xs) :=
  inferInstanceAs (Decidable (_ ∧ _))

-- The tests that a frame has passed before it is parsed.
def Admitted (side : Side) (xs : List UInt8) : Prop :=
  if Untyped side xs then 8 ≤ xs.length
  else xs.getD 0 0 ≠ 0 ∧ 0 < declaredLength xs ∧ declaredLength xs + 1 ≤ xs.length

instance (side : Side) (xs : List UInt8) : Decidable (Admitted side xs) :=
  inferInstanceAs (Decidable (if Untyped side xs then _ else _))

def frameEnd (side : Side) (xs : List UInt8) : Int :=
  if Untyped side xs then min (pgprtdbgReadInt32 xs) xs.length else declaredLength xs + 1

def frameBody (xs : List UInt8) : List UInt8 := (xs.take (declaredLength xs + 1).toNat).drop 5

def OpeningFits (xs : List UInt8) : Prop :=
  8 ≤ pgprtdbgReadInt32 xs ∧
    (requestOf xs = 196608 → pgprtdbgReadInt32 xs ≤ xs.length + 1) ∧
    (requestOf xs = 80877102 → 16 ≤ pgprtdbgReadInt32 xs ∧ 16 ≤ xs.length)

def BodyFits (side : Side) (xs : List UInt8) : Prop :=
  if Untyped side xs then OpeningFits xs
  else match side with
    | .client => ClientBody (pgprtdbgReadByte xs) (declaredLength xs) (frameBody xs)
    | .server => ServerBody (pgprtdbgReadByte xs) (frameBody xs)

-- Taking the frame off the buffer starts with what its parser asks for.
theorem parser_events (serverFd : Int) (side : Side) (xs : List UInt8) (admitted : Admitted side xs) :
    parsed (side.parser clientFd xs xs 0) <+: side.events clientFd serverFd xs := by
  cases side with
  | client =>
      change _ <+: clientEvents clientFd serverFd xs
      unfold clientEvents Side.parser
      dsimp only
      split_ifs
      · exact List.prefix_append _ _
      · exact List.prefix_append _ _
  | server =>
      have typed : ¬ Untyped .server xs := fun untyped => by cases untyped.1
      rw [Admitted, if_neg typed] at admitted
      have long : xs ≠ [78] := by
        rintro rfl
        exact absurd admitted.2.1 (by decide)
      change _ <+: serverEvents serverFd clientFd xs
      rw [serverEvents, if_neg long]
      exact List.prefix_append _ _

theorem opening_inside (xs : List UInt8) (long : 8 ≤ xs.length) :
    Inside (min (pgprtdbgReadInt32 xs) xs.length).toNat (fe_zero clientFd (pgprtdbgReadInt32 xs)) xs 0 ↔
      OpeningFits xs := by
  have bounds := readInt32_bounds xs
  rw [fe_zero_inside (by omega), OpeningFits]
  by_cases request : 8 ≤ pgprtdbgReadInt32 xs
  · rw [int32_of_bounds _ (by omega) (by omega)]
    refine and_congr (by omega) (and_congr (imp_congr_right fun _ => ?_) (imp_congr_right fun _ => ?_))
    · omega
    · omega
  · have short : ¬ 8 ≤ (min (pgprtdbgReadInt32 xs) xs.length).toNat := by omega
    exact iff_of_false (fun fits => short fits.1) fun fits => request fits.1

theorem typed_inside (side : Side) (xs : List UInt8) (typed : ¬ Untyped side xs)
    (positive : 0 < declaredLength xs) (whole : declaredLength xs + 1 ≤ xs.length) :
    Inside (declaredLength xs + 1).toNat (side.parser clientFd xs) xs 0 ↔ BodyFits side xs := by
  have bounds := declaredLength_bounds xs
  have fits : (declaredLength xs + 1).toNat ≤ xs.length := by omega
  unfold BodyFits
  rw [if_neg typed]
  cases side with
  | client =>
      have kind : xs.getD 0 0 ≠ 0 := fun zero => typed ⟨rfl, zero⟩
      rw [Side.parser, if_neg kind]
      exact clientSwitch_inside fits _ _ bounds.1 bounds.2 (by omega)
  | server => exact serverSwitch_inside fits _ _ (by omega)

/--
The parser of an admitted frame reads nothing behind the frame, and never a byte that is not in the
buffer, if and only if the body has every field that the parser of its kind reads.
-/
theorem parser_inside_iff (side : Side) (xs : List UInt8) (admitted : Admitted side xs) :
    (∀ position ∈ (side.parser clientFd xs xs 0).reads,
      (position : Int) < frameEnd side xs ∧ xs[position]?.isSome) ↔
    BodyFits side xs := by
  have inside : Inside (frameEnd side xs).toNat (side.parser clientFd xs) xs 0 ↔ BodyFits side xs := by
    unfold Admitted at admitted
    unfold frameEnd
    split_ifs at admitted ⊢ with untyped
    · rcases untyped with ⟨rfl, zero⟩
      unfold BodyFits
      rw [if_pos ⟨rfl, zero⟩, Side.parser, if_pos zero]
      exact opening_inside clientFd xs admitted
    · exact typed_inside clientFd side xs untyped admitted.2.1 admitted.2.2
  have whole : frameEnd side xs ≤ xs.length := by
    unfold Admitted at admitted
    unfold frameEnd
    split_ifs at admitted ⊢
    · omega
    · exact admitted.2.2
  rw [← inside]
  refine forall₂_congr fun position _ => ?_
  have present : xs[position]?.isSome ↔ position < xs.length := by simp
  rw [present]
  omega

end Frames

def wholeQuery : List UInt8 := [81, 0, 0, 0, 6, 65, 0]

theorem whole_query_inside :
    Admitted .client wholeQuery ∧
      ∀ position ∈ (Side.client.parser 5 wholeQuery wholeQuery 0).reads,
        (position : Int) < frameEnd .client wholeQuery ∧ wholeQuery[position]?.isSome := by
  have admitted : Admitted .client wholeQuery := by decide
  exact ⟨admitted, (parser_inside_iff 5 .client wholeQuery admitted).mpr ⟨[], [65], rfl, by decide⟩⟩

def unterminatedQuery : List UInt8 := [81, 0, 0, 0, 5, 65]

/-- The text of a query whose terminator is missing goes on behind the frame, and the buffer. -/
theorem unterminated_query_leaves :
    Admitted .client unterminatedQuery ∧
      6 ∈ (Side.client.parser 5 unterminatedQuery unterminatedQuery 0).reads ∧
      frameEnd .client unterminatedQuery = 6 ∧ unterminatedQuery[6]? = none := by
  decide

end Pgprtdbg
