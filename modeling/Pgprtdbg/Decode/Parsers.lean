import Pgprtdbg.Decode.Frames

set_option autoImplicit false

namespace Pgprtdbg

open Walk MachineInt

def Plain (effect : Effect) : Prop := ∃ format args, effect = .logLine format args

@[simp] theorem plain_logLine (format : String) (args : List Arg) : Plain (.logLine format args) :=
  ⟨format, args, rfl⟩

def IsArray (reason : Halt) : Prop := ∃ size, reason = .array size

@[simp] theorem isArray_array (size : Int) : IsArray (.array size) := ⟨size, rfl⟩

section Parts

variable {writes : Effect → Prop} {halts : Halt → Prop}

@[simp] theorem built_logLine (format : String) (args : List Arg)
    (fine : writes (.logLine format args)) : Built writes halts (logLine format args) :=
  .emit _ fine

@[simp] theorem built_readByte : Built writes halts readByte :=
  .andThen (.read 1) fun _ => .pure _

@[simp] theorem built_readInt16 : Built writes halts readInt16 :=
  .andThen (.read 2) fun _ => .pure _

@[simp] theorem built_readInt32 : Built writes halts readInt32 :=
  .andThen (.read 4) fun _ => .pure _

@[simp] theorem built_readString : Built writes halts readString := .readUntil 0

@[simp] theorem built_header : Built writes halts header := .andThen (.skip 1) fun _ => .skip 4

@[simp] theorem built_skipInt16 : Built writes halts skipInt16 :=
  .andThen built_readInt16 fun _ => .pure ()

@[simp] theorem built_skipBytes (size : Int) : Built writes halts (skipBytes size) :=
  .andThen (.read _) fun _ => .pure ()

@[simp] theorem built_skipRest (length : Int) : Built writes halts (skipRest length) :=
  .andThen .offset fun _ => .seek _

theorem built_whileReading {Vars : Type} (round : Vars → Parser (Option Vars)) (start : Vars)
    (fine : ∀ vars, Built writes halts (round vars)) : Built writes halts (whileReading round start) :=
  .repeated round start fine

theorem built_logData (lines : ∀ format args, writes (.logLine format args))
    (texts : List (List UInt8)) : Built writes halts (logData texts) := by
  induction texts with
  | nil => exact .pure ()
  | cons text rest ih => exact .andThen (built_logLine _ _ (lines _ _)) fun _ => ih

@[simp] theorem built_headerOnly (format : String) : Built Plain halts (headerOnly format) := by
  simp only [headerOnly, bind_eq]
  exact .andThen built_header fun _ => by simp

@[simp] theorem built_headerString (format label : String) :
    Built Plain halts (headerString format label) := by
  simp only [headerString, bind_eq]
  repeat refine .andThen (by simp) fun _ => ?_
  simp

@[simp] theorem built_headerTyped (format label : String) :
    Built Plain halts (headerTyped format label) := by
  simp only [headerTyped, bind_eq]
  repeat refine .andThen (by simp) fun _ => ?_
  simp

@[simp] theorem built_headerSized (format : String) (length : Int) :
    Built Plain halts (headerSized format length) := by
  simp only [headerSized, bind_eq]
  repeat refine .andThen (by simp) fun _ => ?_
  simp

end Parts

section Untyped

variable {writes : Effect → Prop} {halts : Halt → Prop}

theorem built_fe_zeroParameters (lines : ∀ format args, writes (.logLine format args))
    (arrays : ∀ size, halts (.array size)) (length : Int) :
    Built writes halts (fe_zeroParameters length) := by
  refine .andThen (.read _) fun first => .andThen (.seek _) fun _ => .andThen (.read _) fun second => ?_
  dsimp only
  split
  · exact built_logData lines _
  · exact .halt _ (arrays _)

-- Only for a client of protocol version 2 does fe_zero write to a socket.
theorem built_fe_zeroRequest (clientFd length request : Int)
    (lines : ∀ format args, writes (.logLine format args)) (arrays : ∀ size, halts (.array size))
    (refusal : request = 131072 → ∀ bytes, writes (.writeMessage clientFd bytes))
    (exits : ¬ KnownRequest request → halts (.exit 1)) :
    Built writes halts (fe_zeroRequest clientFd length request) := by
  have line (format : String) (args : List Arg) : Built writes halts (logLine format args) :=
    built_logLine format args (lines format args)
  refine .andThen (line _ _) fun _ => .andThen (line _ _) fun _ => ?_
  split_ifs with startup cancel ssl gss old
  · exact built_fe_zeroParameters lines arrays length
  · exact .andThen built_readInt32 fun _ => .andThen (line _ _) fun _ =>
      .andThen built_readInt32 fun _ => line _ _
  · exact .pure ()
  · exact .pure ()
  · exact .andThen (.emit _ (refusal old _)) fun _ => .emit _ (refusal old _)
  · refine .halt _ (exits fun known => ?_)
    unfold KnownRequest at known
    omega

def LineOrWrite (socket : Int) (effect : Effect) : Prop :=
  Plain effect ∨ ∃ bytes, effect = .writeMessage socket bytes

theorem built_fe_zero (clientFd length : Int) :
    Built (LineOrWrite clientFd) (fun _ => True) (fe_zero clientFd length) := by
  have line (format : String) (args : List Arg) : LineOrWrite clientFd (.logLine format args) :=
    .inl (plain_logLine format args)
  have write (bytes : List UInt8) : LineOrWrite clientFd (.writeMessage clientFd bytes) :=
    .inr ⟨bytes, rfl⟩
  simp only [fe_zero, bind_eq]
  refine .andThen (.skip 4) fun _ => .andThen built_readInt32 fun request => ?_
  exact built_fe_zeroRequest clientFd length request line (fun _ => trivial) (fun _ => write)
    fun _ => trivial

end Untyped

theorem built_fe_B : Built Plain IsArray fe_B := by
  have value : Built Plain IsArray fe_BValue := by
    refine .andThen built_readInt32 fun size => ?_
    split_ifs <;> simp
  simp only [fe_B, bind_eq]
  repeat refine .andThen (by simp [value]) fun _ => ?_
  simp

theorem built_fe_E : Built Plain IsArray fe_E := by
  simp only [fe_E, bind_eq]
  repeat refine .andThen (by simp) fun _ => ?_
  simp

theorem built_fe_P : Built Plain IsArray fe_P := by
  have oid : Built Plain IsArray fe_POid := .andThen built_readInt32 fun _ => by simp
  simp only [fe_P, bind_eq]
  repeat refine .andThen (by simp) fun _ => ?_
  exact oid.times _

theorem kind_of_char (kind : Int8) (c : Char) (same : Char.ofUInt8 kind.toUInt8 = c) :
    kind.toUInt8.toNat = c.toNat := by
  rw [← same]
  rfl

-- Of the frontend parsers only fe_p dumps, and it hands on all that follows its header.
theorem built_clientSwitch (kind : Int8) (length : Int) (other : kind ≠ 112) :
    Built Plain IsArray (clientSwitch kind length) := by
  unfold clientSwitch
  split
  case h_14 same =>
    have code : kind.toUInt8 = 112 := UInt8.toNat_inj.mp (kind_of_char kind 'p' same)
    have byte := congrArg UInt8.toInt8 code
    rw [Int8.toInt8_toUInt8] at byte
    exact absurd byte other
  all_goals simp [built_fe_B, fe_C, fe_D, built_fe_E, built_fe_P, fe_F, fe_H, fe_Q, fe_S, fe_X, fe_c,
    fe_d, fe_f]

theorem built_be_DColumn {writes : Effect → Prop} (columns i : Int)
    (lines : ∀ format args, format ≠ "    Columns: %d" → writes (.logLine format args)) :
    Built writes IsArray (be_DColumn columns i) := by
  have line (format : String) (args : List Arg) (other : format ≠ "    Columns: %d") :
      Built writes IsArray (logLine format args) := .emit _ (lines format args other)
  unfold be_DColumn
  split_ifs
  · refine .andThen built_readInt32 fun size => ?_
    refine .andThen (line _ _ (by decide)) fun _ => .andThen (line _ _ (by decide)) fun _ => ?_
    split_ifs
    · exact .halt _ (isArray_array size)
    · exact .andThen (line _ _ (by decide)) fun _ => .andThen (built_skipBytes size) fun _ => .pure _
    · exact .andThen (line _ _ (by decide)) fun _ => .pure _
  · exact .pure none

theorem built_be_D : Built Plain IsArray be_D := by
  simp only [be_D, bind_eq]
  repeat refine .andThen (by simp) fun _ => ?_
  exact built_whileReading _ _ fun i => built_be_DColumn _ i fun format args _ =>
    plain_logLine format args

theorem built_be_E (length : Int) : Built Plain IsArray (be_E length) := by
  have field (vars : Unit) : Built Plain IsArray (be_EField length vars) := by
    simp only [be_EField, bind_eq]
    refine .andThen .offset fun o => ?_
    split_ifs
    · repeat refine .andThen (by simp) fun _ => ?_
      simp
    · simp
  simp only [be_E, bind_eq]
  repeat refine .andThen (by simp) fun _ => ?_
  exact built_whileReading _ _ field

theorem built_be_K : Built Plain IsArray be_K := by
  simp only [be_K, bind_eq]
  repeat refine .andThen (by simp) fun _ => ?_
  simp

theorem built_be_R (length : Int) : Built Plain IsArray (be_R length) := by
  have mechanism (vars : Unit) : Built Plain IsArray (be_RMechanism length vars) := by
    simp only [be_RMechanism, bind_eq]
    refine .andThen .offset fun o => ?_
    split_ifs
    · repeat refine .andThen (by simp) fun _ => ?_
      simp
    · simp
  have heading : Built Plain IsArray (logLine "    SASL" []) := by simp
  simp only [be_R, bind_eq]
  repeat refine .andThen (by simp) fun _ => ?_
  split
  case h_9 =>
    exact heading.andThen fun _ => .andThen (built_whileReading _ _ mechanism) fun _ => .skip 1
  case h_10 => exact .andThen (by simp) fun _ => built_skipRest length
  case h_11 => exact .andThen (by simp) fun _ => built_skipRest length
  all_goals simp

theorem built_be_S : Built Plain IsArray be_S := by
  simp only [be_S, bind_eq]
  repeat refine .andThen (by simp) fun _ => ?_
  simp

theorem built_be_T : Built Plain IsArray be_T := by
  have field : Built Plain IsArray be_TField := by
    simp only [be_TField, bind_eq]
    repeat refine .andThen (by simp) fun _ => ?_
    simp
  simp only [be_T, bind_eq]
  repeat refine .andThen (by simp) fun _ => ?_
  exact field.times _

theorem built_be_Z : Built Plain IsArray be_Z := by
  simp only [be_Z, bind_eq]
  repeat refine .andThen (by simp) fun _ => ?_
  simp

theorem built_serverSwitch (kind : Int8) (length : Int) :
    Built Plain IsArray (serverSwitch kind length) := by
  unfold serverSwitch
  split <;> simp [be_one, be_two, be_three, be_A, be_C, built_be_D, built_be_E, be_G, be_H, be_I,
    built_be_K, be_N, built_be_R, built_be_S, built_be_T, be_V, be_W, built_be_Z, be_c, be_d, be_n,
    be_s, be_t, be_v]

end Pgprtdbg
