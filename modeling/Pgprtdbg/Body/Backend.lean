import Pgprtdbg.Body.Formats

set_option autoImplicit false

namespace Pgprtdbg

open Walk MachineInt

section Backend

variable {limit : Nat} {data : List UInt8}

theorem sizedField_iff (xs rest : List UInt8) :
    sizedField xs rest ↔
      4 ≤ xs.length ∧
        if pgprtdbgReadInt32 (xs.take 4) = -1 then xs.drop 4 = rest
        else (Layout.cells (pgprtdbgReadInt32 (xs.take 4)).toNat) (xs.drop 4) rest := by
  refine and_congr_right fun _ => ?_
  by_cases null : pgprtdbgReadInt32 (xs.take 4) = -1
  · simp only [null, if_true, Layout.nothing]
  · simp only [null, if_false]

theorem sizedField_unique (xs rest other : List UInt8) (first : sizedField xs rest)
    (second : sizedField xs other) : rest = other := by
  rw [sizedField_iff] at first second
  by_cases null : pgprtdbgReadInt32 (xs.take 4) = -1
  · rw [if_pos null] at first second
    exact first.2.symm.trans second.2
  · rw [if_neg null] at first second
    exact first.2.2.symm.trans second.2.2

-- The columns that the counter has still to get through when it stands at `i`.
def ColumnsFrom (columns i : Int) (xs : List UInt8) : Prop :=
  ∀ count : Nat, (columns < 32767 → (count : Int) ≤ columns + 1 - i) → DataColumns count xs

theorem columnsFrom_stop (columns i : Int) (xs : List UInt8) (done : columns < i)
    (high : i ≤ 32767) : ColumnsFrom columns i xs := by
  intro count bound
  have none_left : count = 0 := by
    have := bound (by omega)
    omega
  rw [none_left]
  trivial

theorem columnsFrom_step (columns i : Int) (xs : List UInt8) (low : -32768 ≤ i) (here : i ≤ columns) :
    ColumnsFrom columns i xs ↔
      4 ≤ xs.length ∧
        (pgprtdbgReadInt32 (xs.take 4) < -1 ∨
          ∃ rest, sizedField xs rest ∧ ColumnsFrom columns (int16 (i + 1)) rest) := by
  have next (bounded : columns < 32767) : int16 (i + 1) = i + 1 := by
    unfold int16
    omega
  constructor
  · intro columns_fit
    rcases columns_fit 1 (by omega) with ⟨room, odd | ⟨rest, column, _⟩⟩
    · exact ⟨room, .inl odd⟩
    · refine ⟨room, ?_⟩
      by_cases odd : pgprtdbgReadInt32 (xs.take 4) < -1
      · exact .inl odd
      · refine .inr ⟨rest, column, fun count bound => ?_⟩
        have more := columns_fit (count + 1) (fun bounded => by
          have := bound bounded
          rw [next bounded] at this
          omega)
        rcases more.2 with odd' | ⟨other, column', later⟩
        · exact absurd odd' odd
        · rwa [sizedField_unique xs rest other column column']
  · rintro ⟨room, head⟩ count bound
    cases count with
    | zero => trivial
    | succ count =>
        refine ⟨room, head.imp_right ?_⟩
        rintro ⟨rest, column, later⟩
        refine ⟨rest, column, later count fun bounded => ?_⟩
        have := bound bounded
        rw [next bounded]
        omega

theorem dataRow_iff (columns : Int) (xs : List UInt8) :
    DataRow columns xs ↔ ColumnsFrom columns 1 xs := by
  simp only [DataRow, ColumnsFrom, Int.add_sub_cancel]

theorem columns_inside (fits : limit ≤ data.length) (columns : Int) (fuel : Nat)
    (i : Int) (low : -32768 ≤ i) (below : i ≤ 32767) (offset : Nat)
    (enough : (window data limit offset).length < fuel) :
    Inside limit (loop (be_DColumn columns) fuel i) data offset ↔
      ColumnsFrom columns i (window data limit offset) := by
  induction fuel generalizing i offset with
  | zero => omega
  | succ fuel ih =>
      rw [loop]
      by_cases here : i ≤ columns
      · have bounds := int16_bounds (i + 1)
        rw [columnsFrom_step columns i _ low here, be_DColumn, if_pos here]
        simp only [bind_eq]
        rw [andThen_assoc, readInt32_andThen, inside_read_andThen fits]
        refine and_congr_right fun room => ?_
        have shorter : (window data limit (offset + 4)).length < fuel := by
          rw [← window_drop, List.length_drop]
          omega
        simp only [andThen_assoc, logLine, inside_emit_andThen, sizedField_iff, room, true_and,
          window_drop]
        generalize pgprtdbgReadInt32 ((window data limit offset).take 4) = size
        by_cases null : size = -1
        · have again := ih (int16 (i + 1)) bounds.1 (by omega) (offset + 4) shorter
          simp [null, andThen_assoc, pure_andThen, again]
        · by_cases odd : size < -1
          · have negative : size < 0 := by omega
            simp [null, odd, negative]
          · have sized : ¬ size < 0 := by omega
            simp only [null, odd, sized, ne_eq, not_false_eq_true, if_true, if_false, false_or,
              andThen_assoc, pure_andThen, inside_emit_andThen]
            refine inside_covers_andThen (covers_skipBytes fits size) _ _ (offset + 4) ?_
            intro _ after taken
            refine ih _ bounds.1 (by omega) after ?_
            rw [← taken.2, List.length_drop]
            omega
      · rw [be_DColumn, if_neg here, inside_pure_andThen]
        simp [columnsFrom_stop columns i (window data limit offset) (by omega) below]

theorem whileReading_inside {Vars : Type} (fits : limit ≤ data.length)
    (round : Vars → Parser (Option Vars)) (start : Vars) (offset : Nat) (last : Prop)
    (inside : ∀ fuel, (window data limit offset).length < fuel →
      (Inside limit (loop round fuel start) data offset ↔ last)) :
    Inside limit (whileReading round start) data offset ↔ last := by
  simp only [whileReading, bind_eq, inside_ahead_andThen]
  apply inside
  rw [window_length data limit offset fits, List.length_drop]
  omega

theorem be_D_inside (fits : limit ≤ data.length) :
    Inside limit be_D data 0 ↔
      2 ≤ (window data limit 5).length ∧
        DataRow (pgprtdbgReadInt16 ((window data limit 5).take 2)) ((window data limit 5).drop 2) := by
  simp only [be_D, bind_eq]
  rw [inside_header, readInt16_andThen, inside_read_andThen fits]
  refine and_congr_right fun _ => ?_
  simp only [logLine, inside_emit_andThen, dataRow_iff, window_drop]
  refine whileReading_inside fits _ _ _ _ fun fuel enough => ?_
  exact columns_inside fits _ fuel 1 (by omega) (by omega) _ enough

theorem stringField_shrinks : stringField.Shrinks := Layout.text_shrinks 0

theorem errorField_shrinks : (Layout.seq [Layout.cells 1, stringField]).Shrinks := by
  rintro xs rest ⟨middle, type, last, string, rfl⟩
  have first := Layout.cells_shrinks 1 (by omega) _ _ type
  have second := stringField_shrinks _ _ string
  omega

-- A loop of the source that runs while its offset lies before `stop`.
theorem whileBefore_inside (fits : limit ≤ data.length) (stop : Int) (least offset : Nat)
    (whole : (limit : Int) = stop + least) {round : Parser (Option Unit)} {item : Layout UInt8}
    (covers : Covers limit data round item) (shrinks : item.Shrinks)
    (again : ReturnsOnly (· = some ()) round) :
    Inside limit (whileReading (fun _ => do
        let o ← Walk.offset
        if (o : Int) < stop then round else pure none) ()) data offset ↔
      (Layout.whileLonger least item).Fits (window data limit offset) := by
  have remaining (o : Nat) : least < (window data limit o).length ↔ (o : Int) < stop := by
    rw [window_length data limit o fits]
    omega
  refine whileReading_inside fits _ _ _ _ fun fuel enough => ?_
  refine covers_loop least covers shrinks again ?_ ?_ fuel offset enough
  · intro o long
    change (if (o : Int) < stop then round else pure none) data o = _
    rw [if_pos ((remaining o).mp long)]
  · intro o short
    change (if (o : Int) < stop then round else pure none) data o = _
    rw [if_neg fun long => absurd ((remaining o).mpr long) (by omega)]

theorem be_E_inside (fits : limit ≤ data.length) (length : Int)
    (whole : (limit : Int) = length + 1) :
    Inside limit (be_E length) data 0 ↔
      (Layout.whileLonger 5 (Layout.seq [Layout.cells 1, stringField])).Fits
        (window data limit 5) := by
  simp only [be_E, bind_eq]
  rw [inside_header, logLine, inside_emit_andThen]
  refine whileBefore_inside fits (length - 4) 5 5 (by omega) ?_ errorField_shrinks ?_
  · refine (covers_readByte fits).andThen fun _ => (covers_readString fits).andThen fun _ => ?_
    refine covers_log_andThen ?_ _ _
    refine covers_log_andThen ?_ _ _
    exact covers_pure _
  · repeat refine returnsOnly_andThen _ fun _ => ?_
    exact returnsOnly_pure _ rfl

theorem be_R_inside (fits : limit ≤ data.length) (length : Int)
    (whole : (limit : Int) = length + 1) :
    Inside limit (be_R length) data 0 ↔ authenticationField.Fits (window data limit 5) := by
  simp only [be_R, bind_eq]
  rw [inside_header, readInt32_andThen, inside_read_andThen fits, authenticationField,
    Layout.prefixed_fits, window_drop]
  refine and_congr_right fun _ => ?_
  rw [logLine, inside_emit_andThen]
  generalize pgprtdbgReadInt32 ((window data limit 5).take 4) = type
  have rest (offset : Nat) : Inside limit (skipRest length) data offset := by
    simp [skipRest]
  split
  case h_9 =>
    rw [logLine, inside_emit_andThen, if_pos rfl, inside_andThen]
    simp only [inside_skip, implies_true, and_true]
    refine whileBefore_inside fits (length - 8) 9 9 (by omega) ?_ stringField_shrinks ?_
    · refine (covers_readString fits).andThen_nothing fun _ => ?_
      refine covers_log_andThen ?_ _ _
      exact covers_pure _
    · repeat refine returnsOnly_andThen _ fun _ => ?_
      exact returnsOnly_pure _ rfl
  case h_10 => simp [logLine, rest]
  case h_11 => simp [logLine, rest]
  case h_12 =>
    rw [if_neg (by assumption)]
    simp
  all_goals simp

theorem be_K_inside (fits : limit ≤ data.length) :
    Inside limit be_K data 0 ↔
      (Layout.seq [Layout.cells 4, Layout.cells 4]).Fits (window data limit 5) := by
  simp only [be_K, bind_eq]
  apply header_inside
  refine (covers_readInt32 fits).andThen fun _ => (covers_readInt32 fits).andThen fun _ => ?_
  repeat refine covers_log_andThen ?_ _ _
  exact covers_logLine _ _

theorem be_S_inside (fits : limit ≤ data.length) :
    Inside limit be_S data 0 ↔
      (Layout.seq [stringField, stringField]).Fits (window data limit 5) := by
  simp only [be_S, bind_eq]
  apply header_inside
  refine (covers_readString fits).andThen fun _ => (covers_readString fits).andThen fun _ => ?_
  repeat refine covers_log_andThen ?_ _ _
  exact covers_logLine _ _

theorem covers_be_TField (fits : limit ≤ data.length) : Covers limit data be_TField rowField := by
  simp only [be_TField, bind_eq]
  refine (covers_readString fits).andThen fun _ => ?_
  refine (covers_readInt32 fits).andThen fun _ => (covers_readInt16 fits).andThen fun _ => ?_
  refine (covers_readInt32 fits).andThen fun _ => (covers_readInt16 fits).andThen fun _ => ?_
  refine (covers_readInt32 fits).andThen fun _ => (covers_readInt16 fits).andThen fun _ => ?_
  repeat refine covers_log_andThen ?_ _ _
  exact covers_logLine _ _

theorem be_T_inside (fits : limit ≤ data.length) :
    Inside limit be_T data 0 ↔ (countedField rowField).Fits (window data limit 5) := by
  simp only [be_T, bind_eq]
  apply header_inside
  rw [← Layout.comp_nothing (countedField rowField)]
  refine covers_counted fits fun count => ?_
  refine covers_log_andThen ?_ _ _
  refine covers_log_andThen ?_ _ _
  rw [Layout.comp_nothing]
  exact covers_times (covers_be_TField fits) _

theorem be_Z_inside (fits : limit ≤ data.length) :
    Inside limit be_Z data 0 ↔ (Layout.cells 1).Fits (window data limit 5) := by
  simp only [be_Z, bind_eq]
  refine header_inside ((covers_read fits 1).andThen_nothing fun _ => ?_)
  exact covers_log_andThen (covers_logLine _ _) _ _

theorem serverSwitch_inside (fits : limit ≤ data.length) (kind : Int8) (length : Int)
    (whole : (limit : Int) = length + 1) :
    Inside limit (serverSwitch kind length) data 0 ↔ ServerBody kind (window data limit 5) := by
  unfold serverSwitch ServerBody
  generalize Char.ofUInt8 kind.toUInt8 = letter
  split
  case h_5 => exact headerString_inside fits _ _
  case h_6 => exact be_D_inside fits
  case h_7 => exact be_E_inside fits length whole
  case h_11 => exact be_K_inside fits
  case h_13 => exact be_R_inside fits length whole
  case h_14 => exact be_S_inside fits
  case h_15 => exact be_T_inside fits
  case h_18 => exact be_Z_inside fits
  case h_20 => simp [be_d, headerSized_inside fits _ length whole]
  all_goals simp [be_one, be_two, be_three, be_A, be_G, be_H, be_I, be_N, be_V, be_W, be_c, be_n, be_s,
    be_t, be_v]

end Backend

end Pgprtdbg
