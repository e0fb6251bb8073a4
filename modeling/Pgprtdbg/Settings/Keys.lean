import Mathlib.Data.List.Nodup
import Pgprtdbg.Model.Configuration

set_option autoImplicit false

namespace Pgprtdbg

open CText

inductive Key where
  | host
  | port
  | output
  | outputSockets
  | saveTraffic
  | unixSocketDir
  | logType
  | logPath
  | libev
  | bufferSize
  | keepAlive
  | nodelay
  | backlog
  | statisticsOutput
  deriving DecidableEq, Repr

def Key.text : Key → List UInt8
  | .host => CText.text "host"
  | .port => CText.text "port"
  | .output => CText.text "output"
  | .outputSockets => CText.text "output_sockets"
  | .saveTraffic => CText.text "save_traffic"
  | .unixSocketDir => CText.text "unix_socket_dir"
  | .logType => CText.text "log_type"
  | .logPath => CText.text "log_path"
  | .libev => CText.text "libev"
  | .bufferSize => CText.text "buffer_size"
  | .keepAlive => CText.text "keep_alive"
  | .nodelay => CText.text "nodelay"
  | .backlog => CText.text "backlog"
  | .statisticsOutput => CText.text "statistics_output"

def Key.all : List Key :=
  [.host, .port, .output, .outputSockets, .saveTraffic, .unixSocketDir, .logType, .logPath, .libev,
    .bufferSize, .keepAlive, .nodelay, .backlog, .statisticsOutput]

inductive Kind where
  | string
  | integer
  | size
  | boolean
  | loggingType
  deriving DecidableEq, Repr

def Key.kind : Key → Kind
  | .host | .output | .unixSocketDir | .logPath | .libev | .statisticsOutput => .string
  | .port | .backlog => .integer
  | .bufferSize => .size
  | .outputSockets | .saveTraffic | .keepAlive | .nodelay => .boolean
  | .logType => .loggingType

inductive Value where
  | text (buffer : Text)
  | number (number : Int)
  | flag (flag : Bool)
  deriving DecidableEq

def Kind.hold (value : List UInt8) : Kind → Value
  | .string => .text (.holding miscLength value)
  | .integer => .number (asInt value)
  | .size => .number (min (asInt value) maxBufferSize)
  | .boolean => .flag (asBool value)
  | .loggingType => .number (asLoggingType value)

/-- What it leaves of an older value: only a string leaves something. -/
def Kind.write (value : List UInt8) : Kind → Value → Value
  | .string, .text buffer => .text (buffer.store value)
  | kind, _ => kind.hold value

def Key.field : Key → Configuration → Value
  | .host, c => .text c.host
  | .port, c => .number c.port
  | .output, c => .text c.output
  | .outputSockets, c => .flag c.outputSockets
  | .saveTraffic, c => .flag c.saveTraffic
  | .unixSocketDir, c => .text c.unixSocketDir
  | .logType, c => .number c.logType
  | .logPath, c => .text c.logPath
  | .libev, c => .text c.libev
  | .bufferSize, c => .number c.bufferSize
  | .keepAlive, c => .flag c.keepAlive
  | .nodelay, c => .flag c.nodelay
  | .backlog, c => .number c.backlog
  | .statisticsOutput, c => .text c.statisticsOutput

def Key.change (value : List UInt8) : Key → Configuration → Configuration
  | .host, c => { c with host := c.host.store value }
  | .port, c => { c with port := asInt value }
  | .output, c => { c with output := c.output.store value }
  | .outputSockets, c => { c with outputSockets := asBool value }
  | .saveTraffic, c => { c with saveTraffic := asBool value }
  | .unixSocketDir, c => { c with unixSocketDir := c.unixSocketDir.store value }
  | .logType, c => { c with logType := asLoggingType value }
  | .logPath, c => { c with logPath := c.logPath.store value }
  | .libev, c => { c with libev := c.libev.store value }
  | .bufferSize, c => c.setBufferSize value
  | .keepAlive, c => { c with keepAlive := asBool value }
  | .nodelay, c => { c with nodelay := asBool value }
  | .backlog, c => { c with backlog := asInt value }
  | .statisticsOutput, c => { c with statisticsOutput := c.statisticsOutput.store value }

/-- What an assignment in the server section does; the other keys are unknown there. -/
def Key.changeServer (value : List UInt8) : Key → Option (Server → Server)
  | .host => some fun s => { s with host := s.host.store value }
  | .port => some fun s => { s with port := asInt value }
  | _ => none

def Key.inServer : Key → Server → Option Value
  | .host, s => some (.text s.host)
  | .port, s => some (.number s.port)
  | _, _ => none

theorem Key.mem_all (key : Key) : key ∈ Key.all := by
  cases key <;> decide

theorem Key.text_injective (a b : Key) (same : a.text = b.text) : a = b := by
  have distinct : (Key.all.map Key.text).Nodup := by decide +kernel
  exact List.inj_on_of_nodup_map distinct a.mem_all b.mem_all same

-- A line that does not set the field leaves it as it is.
theorem Key.field_other (key other : Key) (different : other ≠ key) (value : List UInt8)
    (c : Configuration) : other.field (key.change value c) = other.field c := by
  cases key
  case bufferSize =>
    simp only [Key.change, Configuration.setBufferSize]
    split <;> cases other <;> first | rfl | exact absurd rfl different
  all_goals cases other <;> first | rfl | exact absurd rfl different

theorem Key.field_change (key : Key) (value : List UInt8) (c : Configuration) :
    key.field (key.change value c) = key.kind.write value (key.field c) := by
  cases key
  case bufferSize =>
    simp only [Key.change, Configuration.setBufferSize, Key.kind, Kind.write, Kind.hold, Key.field]
    split
    next large => rw [min_eq_right (le_of_lt large)]
    next small => rw [min_eq_left (not_lt.mp small)]
  all_goals rfl

theorem Key.change_server (key : Key) (value : List UInt8) (c : Configuration) :
    (key.change value c).server = c.server := by
  cases key
  case bufferSize =>
    simp only [Key.change, Configuration.setBufferSize]
    split <;> rfl
  all_goals rfl

-- What a key of the server section does to the pending server.
theorem Key.changeServer_spec (key : Key) (value : List UInt8) (change : Server → Server)
    (both : key.changeServer value = some change) (s : Server) :
    (change s).name = s.name ∧
      key.inServer (change s) = (key.inServer s).map (key.kind.write value) ∧
        ∀ other : Key, other ≠ key → other.inServer (change s) = other.inServer s := by
  cases key
  case host =>
    cases both
    constructor
    · rfl
    constructor
    · rfl
    · intro other different
      cases other <;> first | rfl | exact absurd rfl different
  case port =>
    cases both
    constructor
    · rfl
    constructor
    · rfl
    · intro other different
      cases other <;> first | rfl | exact absurd rfl different
  all_goals cases both

theorem Key.inServer_alone (key : Key) (value : List UInt8) (alone : key.changeServer value = none)
    (s : Server) : key.inServer s = none := by
  cases key
  case host => cases alone
  case port => cases alone
  all_goals rfl

theorem Server.ext_fields (a b : Server) (name : a.name = b.name)
    (fields : ∀ key : Key, key.inServer a = key.inServer b) : a = b := by
  have host := Value.text.inj (Option.some.inj (fields .host))
  have port := Value.number.inj (Option.some.inj (fields .port))
  cases a
  cases b
  cases name
  cases host
  cases port
  rfl

theorem Configuration.ext_fields (a b : Configuration)
    (fields : ∀ key : Key, key.field a = key.field b) (server : a.server = b.server) : a = b := by
  have host := fields .host
  have port := fields .port
  have output := fields .output
  have outputSockets := fields .outputSockets
  have saveTraffic := fields .saveTraffic
  have unixSocketDir := fields .unixSocketDir
  have logType := fields .logType
  have logPath := fields .logPath
  have libev := fields .libev
  have bufferSize := fields .bufferSize
  have keepAlive := fields .keepAlive
  have nodelay := fields .nodelay
  have backlog := fields .backlog
  have statisticsOutput := fields .statisticsOutput
  cases a
  cases b
  simp only [Key.field, Value.text.injEq, Value.number.injEq, Value.flag.injEq] at *
  simp only [*]

theorem Parse.assign_alone (key : Key) (value : List UInt8) (alone : key.changeServer value = none)
    (p : Parse) : p.assign key.text value = p.set key.text value (key.change value) := by
  cases key
  case host => cases alone
  case port => cases alone
  all_goals rfl

theorem Parse.assign_both (key : Key) (value : List UInt8) (change : Server → Server)
    (both : key.changeServer value = some change) (p : Parse) :
    p.assign key.text value = p.setBoth key.text value (key.change value) change := by
  cases key
  case host =>
    cases both
    rfl
  case port =>
    cases both
    rfl
  all_goals cases both

theorem Parse.assign_other (key value : List UInt8) (other : ∀ known : Key, key ≠ known.text)
    (p : Parse) : p.assign key value = p := by
  have host : key ≠ text "host" := other .host
  have port : key ≠ text "port" := other .port
  have output : key ≠ text "output" := other .output
  have outputSockets : key ≠ text "output_sockets" := other .outputSockets
  have saveTraffic : key ≠ text "save_traffic" := other .saveTraffic
  have unixSocketDir : key ≠ text "unix_socket_dir" := other .unixSocketDir
  have logType : key ≠ text "log_type" := other .logType
  have logPath : key ≠ text "log_path" := other .logPath
  have libev : key ≠ text "libev" := other .libev
  have bufferSize : key ≠ text "buffer_size" := other .bufferSize
  have keepAlive : key ≠ text "keep_alive" := other .keepAlive
  have nodelay : key ≠ text "nodelay" := other .nodelay
  have backlog : key ≠ text "backlog" := other .backlog
  have statisticsOutput : key ≠ text "statistics_output" := other .statisticsOutput
  simp only [Parse.assign, host, port, output, outputSockets, saveTraffic, unixSocketDir, logType,
    logPath, libev, bufferSize, keepAlive, nodelay, backlog, statisticsOutput, if_false]

-- A key is known, or its line has no effect.
theorem Parse.assign_cases (raw value : List UInt8) (p : Parse) :
    (∃ key : Key, raw = key.text) ∨
      (∀ key : Key, raw ≠ key.text) ∧ p.assign raw value = p := by
  by_cases known : ∃ key : Key, raw = key.text
  · exact Or.inl known
  · have other := not_exists.mp known
    exact Or.inr ⟨other, Parse.assign_other raw value other p⟩

end Pgprtdbg
