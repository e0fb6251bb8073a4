import Pgprtdbg.Model.Logging
import Pgprtdbg.Model.Message
import Pgprtdbg.Shared.CText

set_option autoImplicit false

namespace Pgprtdbg

open CText

def defaultBufferSize : Int := 65535

def configurationLineLength : Nat := 256

def loggingTypeConsole : Int := 0

def loggingTypeFile : Int := 1

abbrev Text := Buffer miscLength

structure Server where
  name : Text
  host : Text
  port : Int
  deriving DecidableEq

def Server.zeroed : Server := ⟨.zeroed miscLength, .zeroed miscLength, 0⟩

structure Configuration where
  host : Text
  port : Int
  output : Text
  statisticsOutput : Text
  outputSockets : Bool
  saveTraffic : Bool
  unixSocketDir : Text
  logType : Int
  logPath : Text
  libev : Text
  bufferSize : Int
  keepAlive : Bool
  nodelay : Bool
  backlog : Int
  server : Server
  deriving DecidableEq

/-- pgprtdbg_create_shared_memory -/
def Configuration.zeroed : Configuration :=
  { host := .zeroed miscLength
    port := 0
    output := .zeroed miscLength
    statisticsOutput := .zeroed miscLength
    outputSockets := false
    saveTraffic := false
    unixSocketDir := .zeroed miscLength
    logType := 0
    logPath := .zeroed miscLength
    libev := .zeroed miscLength
    bufferSize := 0
    keepAlive := false
    nodelay := false
    backlog := 0
    server := .zeroed }

/-- What is set before a file is read; its last line clears statistics_output for strlen. -/
def pgprtdbgInitConfiguration (config : Configuration) : Configuration :=
  { config with
    outputSockets := false
    saveTraffic := false
    bufferSize := defaultBufferSize
    keepAlive := true
    nodelay := false
    backlog := -1
    logType := loggingTypeConsole
    statisticsOutput := ⟨config.statisticsOutput.bytes.set 0 0, by
      rw [List.length_set, config.statisticsOutput.sized]⟩ }

def initialConfiguration : Configuration := pgprtdbgInitConfiguration .zeroed

def extractKeyValue (str : List UInt8) (key value : Option (List UInt8)) :
    Option (List UInt8) × Option (List UInt8) :=
  let k := str.takeWhile fun byte => byte ≠ 32 ∧ byte ≠ 61
  let behind := str.dropWhile fun byte => byte ≠ 32 ∧ byte ≠ 61
  if behind = [] then
    (key, value)
  else
    let rest := behind.dropWhile fun byte => byte = 32 ∨ byte = 9 ∨ byte = 61
    let v := rest.takeWhile fun byte => byte ≠ 32 ∧ byte ≠ 13 ∧ byte ≠ 10
    -- A value needs something behind it.
    if v.length < rest.length then (some k, some v) else (some k, value)

def asInt (str : List UInt8) : Int := atoi str

def asBool (str : List UInt8) : Bool :=
  if equalIgnoringCase str (text "true") then true
  else if equalIgnoringCase str (text "on") then true
  else if equalIgnoringCase str (text "1") then true
  else if equalIgnoringCase str (text "false") then false
  else if equalIgnoringCase str (text "off") then false
  else if equalIgnoringCase str (text "0") then false
  else false

def asLoggingType (str : List UInt8) : Int :=
  if equalIgnoringCase str (text "console") then loggingTypeConsole
  else if equalIgnoringCase str (text "file") then loggingTypeFile
  else 0

abbrev Printed := String × List Arg

structure Parse where
  -- The string in `section`.
  sectionName : List UInt8
  sectionFits : sectionName.length < miscLength
  idxServer : Int
  srv : Server
  config : Configuration
  printed : List Printed

def Parse.print (format : String) (args : List Arg) (p : Parse) : Parse :=
  { p with printed := p.printed ++ [(format, args)] }

def Parse.inMain (p : Parse) : Bool := p.sectionName = text "pgprtdbg"

def Parse.moveTo (name : List UInt8) (p : Parse) : Parse :=
  { p with
    sectionName := name.take (miscLength - 1)
    sectionFits := by
      rw [List.length_take, miscLength]
      omega }

/-- The first server: what `srv` holds until then is copied, and only then cleared. -/
def Parse.openServer (p : Parse) : Parse :=
  { p with
    config := { p.config with server := p.srv }
    srv := { Server.zeroed with name := Server.zeroed.name.store p.sectionName } }

def Parse.header (name : List UInt8) (p : Parse) : Except Parse Parse :=
  let p := p.moveTo name
  if p.inMain then
    .ok p
  else
    let p := { p with idxServer := p.idxServer + 1 }
    if p.idxServer = 0 then
      .ok p.openServer
    else
      .error (p.print "Maximum number of servers exceeded\n" [])

def Parse.unknown (key value : List UInt8) (p : Parse) : Parse :=
  let shown := if 0 < p.sectionName.length then p.sectionName else text "<unknown>"
  p.print "Unknown: Section=%s, Key=%s, Value=%s\n" [.str shown, .str key, .str value]

def Parse.set (key value : List UInt8) (change : Configuration → Configuration) (p : Parse) :
    Parse :=
  if p.inMain then { p with config := change p.config } else p.unknown key value

def Parse.setBoth (key value : List UInt8) (change : Configuration → Configuration)
    (changeServer : Server → Server) (p : Parse) : Parse :=
  if p.inMain then
    { p with config := change p.config }
  else if 0 < p.sectionName.length then
    { p with srv := changeServer { p.srv with name := p.srv.name.store p.sectionName } }
  else
    p.unknown key value

def Configuration.setBufferSize (value : List UInt8) (c : Configuration) : Configuration :=
  let c := { c with bufferSize := asInt value }
  if c.bufferSize > (maxBufferSize : Int) then { c with bufferSize := maxBufferSize } else c

def Parse.assign (key value : List UInt8) (p : Parse) : Parse :=
  if key = text "host" then
    p.setBoth key value (fun c => { c with host := c.host.store value })
      (fun s => { s with host := s.host.store value })
  else if key = text "port" then
    p.setBoth key value (fun c => { c with port := asInt value })
      (fun s => { s with port := asInt value })
  else if key = text "output" then
    p.set key value fun c => { c with output := c.output.store value }
  else if key = text "output_sockets" then
    p.set key value fun c => { c with outputSockets := asBool value }
  else if key = text "save_traffic" then
    p.set key value fun c => { c with saveTraffic := asBool value }
  else if key = text "unix_socket_dir" then
    p.set key value fun c => { c with unixSocketDir := c.unixSocketDir.store value }
  else if key = text "log_type" then
    p.set key value fun c => { c with logType := asLoggingType value }
  else if key = text "log_path" then
    p.set key value fun c => { c with logPath := c.logPath.store value }
  else if key = text "libev" then
    p.set key value fun c => { c with libev := c.libev.store value }
  else if key = text "buffer_size" then
    p.set key value (Configuration.setBufferSize value)
  else if key = text "keep_alive" then
    p.set key value fun c => { c with keepAlive := asBool value }
  else if key = text "nodelay" then
    p.set key value fun c => { c with nodelay := asBool value }
  else if key = text "backlog" then
    p.set key value fun c => { c with backlog := asInt value }
  else if key = text "statistics_output" then
    p.set key value fun c => { c with statisticsOutput := c.statisticsOutput.store value }
  else
    p

/-- The pointers `key` and `value` last from one line to the next. -/
structure Reader where
  parse : Parse
  key : Option (List UInt8)
  value : Option (List UInt8)

def Reader.line (line : List UInt8) (r : Reader) : Except Parse Reader :=
  match string line with
  | [] => .ok r
  | first :: rest =>
      if first = 91 then
        if 93 ∈ rest then
          (r.parse.header (rest.takeWhile (· ≠ 93))).map fun parse => { r with parse := parse }
        else
          .ok r
      else if first = 35 ∨ first = 59 then
        .ok r
      else
        match extractKeyValue (first :: rest) r.key r.value with
        | (some key, some value) =>
            .ok { parse := r.parse.assign key value, key := none, value := none }
        | (key, value) => .ok { r with key := key, value := value }

structure Outcome where
  status : Int
  config : Configuration
  printed : List Printed

/-- The pending server is copied only when its name is not empty. -/
def Parse.finish (p : Parse) : Outcome :=
  if p.idxServer ≠ -1 ∧ 0 < p.srv.name.string.length then
    ⟨0, { p.config with server := p.srv }, p.printed⟩
  else
    ⟨0, p.config, p.printed⟩

def Parse.start (srv : Server) (config : Configuration) : Parse :=
  { sectionName := [], sectionFits := by decide, idxServer := -1, srv := srv, config := config,
    printed := [] }

/-- The file is none where fopen fails; `srv` is what the uninitialised variable holds. -/
def pgprtdbgReadConfiguration (file : Option (List UInt8)) (srv : Server)
    (config : Configuration) : Outcome :=
  match file with
  | none => ⟨1, config, []⟩
  | some content =>
      let start : Reader := ⟨.start srv config, none, none⟩
      match (fgetsLines configurationLineLength content).foldlM (fun r line => r.line line) start with
      | .ok r => r.parse.finish
      | .error p => ⟨1, p.config, p.printed⟩

def pgprtdbgValidateConfiguration (config : Configuration) : Outcome :=
  if config.host.string.length = 0 then
    ⟨1, config, [("pgprtdbg: No host defined\n", [])]⟩
  else if config.port = 0 then
    ⟨1, config, [("pgprtdbg: No port defined\n", [])]⟩
  else if config.output.string.length = 0 then
    ⟨1, config, [("pgprtdbg: No output defined\n", [])]⟩
  else
    let config := if config.backlog ≤ 0 then { config with backlog := 4 } else config
    if config.server.name.string.length = 0 then
      ⟨1, config, [("pgprtdbg: No server defined\n", [])]⟩
    else if config.server.host.string.length = 0 then
      ⟨1, config, [("pgprtdbg: No host defined for %s\n", [.str config.server.name.string])]⟩
    else if config.server.port = 0 then
      ⟨1, config, [("pgprtdbg: No port defined for %s\n", [.str config.server.name.string])]⟩
    else
      ⟨0, config, []⟩

end Pgprtdbg
