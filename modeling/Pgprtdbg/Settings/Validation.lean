import Mathlib.Data.Nat.Digits.Lemmas
import Pgprtdbg.Model.Network
import Pgprtdbg.Settings.Reading

set_option autoImplicit false

namespace Pgprtdbg

open CText MachineInt

structure Usable (config : Configuration) : Prop where
  port : 1 ≤ config.port ∧ config.port ≤ 65535
  serverPort : 1 ≤ config.server.port ∧ config.server.port ≤ 65535
  sport : (sport config.port).length ≤ sportLength
  serverSport : (Pgprtdbg.sport config.server.port).length ≤ sportLength
  bufferSize : 1 ≤ config.bufferSize ∧ config.bufferSize ≤ maxBufferSize
  maxLength : ∀ heap : Nat → UInt8,
    ((pgprtdbgMemoryInit (sizeT config.bufferSize) heap).maxLength : Int) = config.bufferSize
  backlog : 0 < config.backlog

def lastValue (part : Part) (key : Key) (content : List UInt8) : Option (List UInt8) :=
  (values part key (settings (entries content))).getLast?

def FourDigits (port : Int) : Prop := 1 ≤ port ∧ port ≤ 9999

instance (port : Int) : Decidable (FourDigits port) := by
  unfold FourDigits
  infer_instance

/-- The numbers of a file: its server is the stack's when the section is called `[]`. -/
structure NumbersFit (content : List UInt8) (srv : Server) : Prop where
  port : ∀ value ∈ lastValue .main .port content, FourDigits (atoi value)
  serverPort : servers (entries content) ≠ [[]] →
    ∀ value ∈ lastValue .server .port content, FourDigits (atoi value)
  stackPort : servers (entries content) = [[]] → FourDigits srv.port
  bufferSize : ∀ value ∈ lastValue .main .bufferSize content, 1 ≤ atoi value

theorem sport_fits (port : Int) (low : 1 ≤ port) :
    (sport port).length ≤ sportLength ↔ port ≤ 9999 := by
  have positive : ¬ port < 0 := by omega
  have nonzero : ¬ port = 0 := by omega
  have digits : (sport port).length = (Nat.digits 10 port.natAbs).length + 1 := by
    simp [sport, decimal, positive, nonzero]
  rw [digits, sportLength, Nat.succ_le_succ_iff, Nat.digits_length_le_iff (by decide)]
  omega

-- A number is what the last of its values says.
theorem writeAll_number (key : Key) (kind : key.kind ≠ .string) (values : List (List UInt8))
    (old : Value) :
    key.writeAll values old = (values.getLast?.map fun value => key.kind.hold value).getD old := by
  have last (value : List UInt8) (old : Value) : key.kind.write value old = key.kind.hold value := by
    cases key <;> first | rfl | exact absurd rfl kind
  induction values using List.reverseRecOn with
  | nil => rfl
  | append_singleton values value ih =>
      rw [writeAll_append]
      simp [Key.writeAll, last]

theorem validate_ok (config : Configuration)
    (valid : (pgprtdbgValidateConfiguration config).status = 0) :
    config.port ≠ 0 ∧ config.server.port ≠ 0 ∧ 0 < config.server.name.string.length ∧
      (pgprtdbgValidateConfiguration config).config =
        { config with backlog := if config.backlog ≤ 0 then 4 else config.backlog } := by
  unfold pgprtdbgValidateConfiguration at valid ⊢
  by_cases host : config.host.string.length = 0
  · rw [if_pos host] at valid
    cases valid
  by_cases port : config.port = 0
  · rw [if_neg host, if_pos port] at valid
    cases valid
  by_cases output : config.output.string.length = 0
  · rw [if_neg host, if_neg port, if_pos output] at valid
    cases valid
  simp only [if_neg host, if_neg port, if_neg output] at valid ⊢
  have same (backlog : Int) :
      (if config.backlog ≤ 0 then { config with backlog := backlog } else config) =
        { config with backlog := if config.backlog ≤ 0 then backlog else config.backlog } := by
    split <;> rfl
  rw [same] at valid ⊢
  by_cases name : config.server.name.string.length = 0
  · rw [if_pos name] at valid
    cases valid
  by_cases serverHost : config.server.host.string.length = 0
  · rw [if_neg name, if_pos serverHost] at valid
    cases valid
  by_cases serverPort : config.server.port = 0
  · rw [if_neg name, if_neg serverHost, if_pos serverPort] at valid
    cases valid
  rw [if_neg name, if_neg serverHost, if_neg serverPort]
  exact ⟨port, serverPort, Nat.pos_of_ne_zero name, rfl⟩

theorem usable_numbers (config : Configuration) (capped : config.bufferSize ≤ maxBufferSize)
    (backlog : 0 < config.backlog) :
    Usable config ↔
      FourDigits config.port ∧ FourDigits config.server.port ∧ 1 ≤ config.bufferSize := by
  constructor
  · intro usable
    have port := (sport_fits config.port usable.port.1).mp usable.sport
    have serverPort := (sport_fits config.server.port usable.serverPort.1).mp usable.serverSport
    exact ⟨⟨usable.port.1, port⟩, ⟨usable.serverPort.1, serverPort⟩, usable.bufferSize.1⟩
  · rintro ⟨⟨low, high⟩, ⟨serverLow, serverHigh⟩, size⟩
    constructor
    case port => omega
    case serverPort => omega
    case sport => exact (sport_fits config.port low).mpr high
    case serverSport => exact (sport_fits config.server.port serverLow).mpr serverHigh
    case bufferSize => exact ⟨size, capped⟩
    case maxLength =>
      intro heap
      apply sizeT_of_nonneg
      · omega
      · unfold maxBufferSize at capped
        omega
    case backlog => exact backlog

theorem number_of_last (number other : Int) (meaning : List UInt8 → Int)
    (last : Option (List UInt8))
    (said : Value.number number =
      (last.map fun value => Value.number (meaning value)).getD (.number other)) :
    number = (last.map meaning).getD other := by
  cases last <;> exact Value.number.inj said

section Numbers

variable (content : List UInt8) (srv : Server)

theorem read_port
    (success : (pgprtdbgReadConfiguration (some content) srv initialConfiguration).status = 0) :
    (pgprtdbgReadConfiguration (some content) srv initialConfiguration).config.port =
      ((lastValue .main .port content).map atoi).getD 0 := by
  have field := read_fields content srv initialConfiguration success .port
  rw [writeAll_number .port (by decide)] at field
  exact number_of_last _ _ _ _ field

theorem read_bufferSize
    (success : (pgprtdbgReadConfiguration (some content) srv initialConfiguration).status = 0) :
    (pgprtdbgReadConfiguration (some content) srv initialConfiguration).config.bufferSize =
      ((lastValue .main .bufferSize content).map fun value => min (atoi value) maxBufferSize).getD
        defaultBufferSize := by
  have field := read_fields content srv initialConfiguration success .bufferSize
  rw [writeAll_number .bufferSize (by decide)] at field
  exact number_of_last _ _ _ _ field

theorem read_serverPort (name : List UInt8) (only : servers (entries content) = [name])
    (nonempty : name ≠ []) :
    (pgprtdbgReadConfiguration (some content) srv initialConfiguration).config.server.port =
      ((lastValue .server .port content).map atoi).getD 0 := by
  have field := (read_server content srv initialConfiguration name only nonempty).2 .port
  simp only [Key.inServer, Option.map_some, Option.some.injEq,
    writeAll_number .port (by decide)] at field
  exact number_of_last _ _ _ _ field

end Numbers

-- A number that is not zero is what some line said.
theorem last_nonzero (last : Option (List UInt8)) (number : Int) (nonzero : number ≠ 0)
    (said : number = (last.map atoi).getD 0) : ∃ value, last = some value ∧ number = atoi value := by
  cases last with
  | none => exact absurd said nonzero
  | some value => exact ⟨value, rfl, said⟩

theorem fourDigits_last (last : Option (List UInt8)) (number : Int) (nonzero : number ≠ 0)
    (said : number = (last.map atoi).getD 0) :
    FourDigits number ↔ ∀ value ∈ last, FourDigits (atoi value) := by
  obtain ⟨value, rfl, rfl⟩ := last_nonzero last number nonzero said
  simp

theorem size_last (last : Option (List UInt8)) (size : Int)
    (said : size = (last.map fun value => min (atoi value) maxBufferSize).getD defaultBufferSize) :
    size ≤ maxBufferSize ∧ (1 ≤ size ↔ ∀ value ∈ last, 1 ≤ atoi value) := by
  cases last with
  | none =>
      subst said
      simp [defaultBufferSize, maxBufferSize]
  | some value =>
      subst said
      simp [maxBufferSize]

-- A configuration that passes has a section for its server.
theorem valid_server (content : List UInt8) (srv : Server)
    (success : (pgprtdbgReadConfiguration (some content) srv initialConfiguration).status = 0)
    (named : 0 < (pgprtdbgReadConfiguration (some content) srv
      initialConfiguration).config.server.name.string.length) :
    ∃ name, servers (entries content) = [name] := by
  have few := (read_status content srv initialConfiguration).mp success
  rcases servers_few few with nobody | one
  · rw [read_no_server content srv initialConfiguration nobody] at named
    exact absurd named (by decide)
  · exact one

/--
When a file is read and its configuration validated, the numbers are safe to run with exactly when
both ports, as the file gives them last, have one to four digits and no sign, and a given
buffer_size is positive.
-/
theorem usable_iff (content : List UInt8) (srv : Server)
    (success : (pgprtdbgReadConfiguration (some content) srv initialConfiguration).status = 0)
    (valid : (pgprtdbgValidateConfiguration
      (pgprtdbgReadConfiguration (some content) srv initialConfiguration).config).status = 0) :
    Usable (pgprtdbgValidateConfiguration
      (pgprtdbgReadConfiguration (some content) srv initialConfiguration).config).config ↔
    NumbersFit content srv := by
  obtain ⟨port, serverPort, named, validated⟩ := validate_ok _ valid
  obtain ⟨name, only⟩ := valid_server content srv success named
  have main := fourDigits_last _ _ port (read_port content srv success)
  obtain ⟨capped, size⟩ := size_last _ _ (read_bufferSize content srv success)
  rw [validated, usable_numbers]
  case capped => exact capped
  case backlog =>
    dsimp only
    split <;> omega
  dsimp only
  rw [main, size]
  by_cases nameless : name = []
  · subst nameless
    rw [read_nameless content srv initialConfiguration only]
    constructor
    · rintro ⟨portFits, stackFits, sizeFits⟩
      constructor
      case port => exact portFits
      case serverPort => exact fun called => absurd only called
      case stackPort => exact fun _ => stackFits
      case bufferSize => exact sizeFits
    · intro fit
      exact ⟨fit.port, fit.stackPort only, fit.bufferSize⟩
  · have server := fourDigits_last _ _ serverPort (read_serverPort content srv name only nameless)
    have called : servers (entries content) ≠ [[]] := by
      rw [only]
      exact fun same => nameless (List.singleton_inj.mp same)
    rw [server]
    constructor
    · rintro ⟨portFits, serverFits, sizeFits⟩
      constructor
      case port => exact portFits
      case serverPort => exact fun _ => serverFits
      case stackPort => exact fun same => absurd same called
      case bufferSize => exact sizeFits
    · intro fit
      exact ⟨fit.port, fit.serverPort called, fit.bufferSize⟩

def fourDigitFile : List UInt8 :=
  text "[pgprtdbg]\nhost=*\nport=2346\noutput=o\n[a]\nhost=b\nport=5432\n"

def fiveDigitFile : List UInt8 :=
  text "[pgprtdbg]\nhost=*\nport=54321\noutput=o\n[a]\nhost=b\nport=5432\n"

theorem fourDigitFile_usable :
    let read := pgprtdbgReadConfiguration (some fourDigitFile) .zeroed initialConfiguration
    let validated := pgprtdbgValidateConfiguration read.config
    read.status = 0 ∧ validated.status = 0 ∧ Usable validated.config := by
  intro read validated
  have accepted : read.status = 0 ∧ validated.status = 0 := by decide +kernel
  have fit : NumbersFit fourDigitFile .zeroed := by
    constructor
    case port => decide +kernel
    case serverPort => decide +kernel
    case stackPort => decide +kernel
    case bufferSize => decide +kernel
  exact ⟨accepted.1, accepted.2, (usable_iff fourDigitFile .zeroed accepted.1 accepted.2).mpr fit⟩

theorem fiveDigitFile_overflows :
    let read := pgprtdbgReadConfiguration (some fiveDigitFile) .zeroed initialConfiguration
    let validated := pgprtdbgValidateConfiguration read.config
    read.status = 0 ∧ validated.status = 0 ∧ ¬ Usable validated.config := by
  intro read validated
  have broken : read.status = 0 ∧ validated.status = 0 ∧
      ¬ (sport validated.config.port).length ≤ sportLength := by decide +kernel
  refine ⟨broken.1, broken.2.1, ?_⟩
  intro usable
  exact broken.2.2 usable.sport

end Pgprtdbg
