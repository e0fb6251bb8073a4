import Pgprtdbg.Body.Formats

set_option autoImplicit false

namespace Pgprtdbg

open Walk MachineInt

section Frontend

variable {limit : Nat} {data : List UInt8}

theorem covers_fe_BValue (fits : limit ≤ data.length) :
    Covers limit data fe_BValue sizedField := by
  simp only [fe_BValue, bind_eq]
  rw [readInt32_andThen]
  refine covers_prefixed fits 4 _ _ fun bytes => ?_
  by_cases null : pgprtdbgReadInt32 bytes = -1
  · simp only [null, ne_eq, not_true_eq_false, if_false, if_true]
    exact covers_pure ()
  · simp only [null, ne_eq, not_false_eq_true, if_true, if_false]
    exact covers_skipBytes fits _

theorem fe_B_inside (fits : limit ≤ data.length) :
    Inside limit fe_B data 0 ↔
      (Layout.seq [stringField, stringField, countedField (Layout.cells 2), countedField sizedField,
        countedField (Layout.cells 2)]).Fits (window data limit 5) := by
  simp only [fe_B, bind_eq]
  apply header_inside
  refine (covers_readString fits).andThen fun _ => (covers_readString fits).andThen fun _ => ?_
  refine covers_counted fits fun codes => (covers_times (covers_skipInt16 fits) _).andThen fun _ => ?_
  refine covers_counted fits fun values => (covers_times (covers_fe_BValue fits) _).andThen fun _ => ?_
  refine covers_counted fits fun results => (covers_times (covers_skipInt16 fits) _).andThen fun _ => ?_
  repeat refine covers_log_andThen ?_ _ _
  exact covers_logLine _ _

theorem headerTyped_inside (fits : limit ≤ data.length) (format label : String) :
    Inside limit (headerTyped format label) data 0 ↔
      (Layout.seq [Layout.cells 1, stringField]).Fits (window data limit 5) := by
  simp only [headerTyped, bind_eq]
  apply header_inside
  refine (covers_readByte fits).andThen fun _ => (covers_readString fits).andThen fun _ => ?_
  repeat refine covers_log_andThen ?_ _ _
  exact covers_logLine _ _

theorem fe_E_inside (fits : limit ≤ data.length) :
    Inside limit fe_E data 0 ↔
      (Layout.seq [stringField, Layout.cells 4]).Fits (window data limit 5) := by
  simp only [fe_E, bind_eq]
  apply header_inside
  refine (covers_readString fits).andThen fun _ => (covers_readInt32 fits).andThen fun _ => ?_
  repeat refine covers_log_andThen ?_ _ _
  exact covers_logLine _ _

theorem fe_P_inside (fits : limit ≤ data.length) :
    Inside limit fe_P data 0 ↔
      (Layout.seq [stringField, stringField, countedField (Layout.cells 4)]).Fits
        (window data limit 5) := by
  have oid : Covers limit data fe_POid (Layout.cells 4) :=
    (covers_readInt32 fits).andThen_nothing fun _ => covers_logLine _ _
  simp only [fe_P, bind_eq]
  apply header_inside
  refine (covers_readString fits).andThen fun _ => (covers_readString fits).andThen fun _ => ?_
  refine covers_counted fits fun parameters => ?_
  repeat refine covers_log_andThen ?_ _ _
  rw [Layout.seq, Layout.comp_nothing]
  exact covers_times oid _

theorem fe_p_inside (fits : limit ≤ data.length) (length : Int) (low : -2 ^ 31 ≤ length)
    (high : length < 2 ^ 31) (whole : (limit : Int) = length + 1) :
    Inside limit (fe_p length) data 0 ↔ 4 ≤ length := by
  have body : Inside limit (fe_p length) data 0 ↔
      (Layout.cells (sizeT (length - 4))).Fits (window data limit 5) := by
    simp only [fe_p, bind_eq]
    rw [inside_header, logLine, inside_emit_andThen, inside_ahead_andThen, inside_emit_andThen]
    exact ((covers_read fits _).andThen_nothing fun _ => covers_pure ()).inside 5
  rw [body, Layout.cells_fits, window_length data limit 5 fits]
  by_cases some_body : 4 ≤ length
  · have size := sizeT_of_nonneg (length - 4) (by omega) (by omega)
    omega
  · have size := sizeT_of_negative (length - 4) (by omega) (by omega)
    omega

theorem clientSwitch_inside (fits : limit ≤ data.length) (kind : Int8) (length : Int)
    (low : -2 ^ 31 ≤ length) (high : length < 2 ^ 31) (whole : (limit : Int) = length + 1) :
    Inside limit (clientSwitch kind length) data 0 ↔
      ClientBody kind length (window data limit 5) := by
  unfold clientSwitch ClientBody
  generalize Char.ofUInt8 kind.toUInt8 = letter
  split
  · exact fe_B_inside fits
  · exact headerTyped_inside fits _ _
  · exact headerTyped_inside fits _ _
  · exact fe_E_inside fits
  · simp [fe_F]
  · simp [fe_H, headerOnly_inside]
  · exact fe_P_inside fits
  · exact headerString_inside fits _ _
  · simp [fe_S, headerOnly_inside]
  · simp [fe_X, headerOnly_inside]
  · simp [fe_c, headerOnly_inside]
  · simp [fe_d, headerSized_inside fits _ length whole]
  · exact headerString_inside fits _ _
  · exact fe_p_inside fits length low high whole
  · simp [inside_logLine]

end Frontend

end Pgprtdbg
