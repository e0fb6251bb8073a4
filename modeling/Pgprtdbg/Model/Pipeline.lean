import Pgprtdbg.Model.Protocol

set_option autoImplicit false

namespace Pgprtdbg

def workerSuccess : Int := 0

def workerFailure : Int := 1

def workerClientFailure : Int := 2

def workerServerFailure : Int := 3

def workerServerFatal : Int := 4

structure Worker where
  decoder : Decoder
  message : Message
  identifier : Nat
  saveTraffic : Bool
  running : Bool
  exitCode : Int

def Worker.start (bufferSize : Nat) (saveTraffic : Bool) (heap : Nat → UInt8) : Worker :=
  { decoder := .initial
    message := pgprtdbgMemoryInit bufferSize heap
    identifier := 0
    saveTraffic := saveTraffic
    running := true
    exitCode := workerFailure }

def Worker.emit (events : List Event) (w : Worker) : Worker :=
  { w with decoder := w.decoder.emit events }

def Worker.stop (code : Int) (w : Worker) : Worker :=
  { w with exitCode := code, running := false }

-- A line of its own in the log.
def Worker.report (format : String) (args : List Arg) (w : Worker) : Worker :=
  w.emit [.logLock, .effect (.logLine format args), .logUnlock]

-- The line about a failed read or write: with the text of errno unless errno is zero.
def Worker.reportError (withErrno without : String) (fd : Int) (errno : Errno)
    (status : MessageStatus) (w : Worker) : Worker :=
  if errno ≠ .clear then
    w.report withErrno [.int fd, .strerror errno, .int status.toInt]
  else
    w.report without [.int fd, .int status.toInt]

def ReadOutcome.errno : ReadOutcome → Errno
  | .error errno => errno
  | _ => .clear

-- The bytes that read() stores, and what write() answers to the message they make.
structure Transfer where
  read : ReadOutcome
  writes : List WriteOutcome

def Worker.saveClient (w : Worker) : Worker :=
  if w.saveTraffic then
    let identifier := w.identifier + 1
    let w := { w with identifier := identifier }
    w.emit [.saveTraffic .client identifier w.message.bytes w.message.length]
  else
    w

def Worker.saveServer (w : Worker) : Worker :=
  if w.saveTraffic then
    w.emit [.saveTraffic .server w.identifier w.message.bytes w.message.length]
  else
    w

-- write_message has not come back: the signal ends the process, or it waits for the socket.
def Worker.inWrite (errno : Errno) (w : Worker) : Worker :=
  { w with decoder := { w.decoder with status := if errno = .pipe then .killed else .writing } }

def Worker.forward (toFd : Int) (decode : Message → Decoder → Decoder) (save : Worker → Worker)
    (verdict : Message → Option Int) (failed : Errno → MessageStatus → Worker → Worker)
    (writes : List WriteOutcome) (w : Worker) : Worker :=
  let w := { w with decoder := decode w.message w.decoder }
  if w.decoder.status = .running then
    let w := save w
    let written := pgprtdbgWriteMessage writes w.message
    let w := w.emit [.written toFd written.accepted]
    match written.status with
    | some .ok =>
        match verdict w.message with
        | some code => w.stop code
        | none => w
    | some status => failed written.errno status w
    | none => w.inWrite written.errno
  else
    w

def clientVerdict (message : Message) : Option Int :=
  if message.kind = 88 then some workerSuccess else none

-- The label server_error of pipeline_client.
def pipelineClientServerError (serverFd : Int) (errno : Errno) (status : MessageStatus) (w : Worker) :
    Worker :=
  (w.reportError "[C] server_error: server_fd %d - %s (%d)" "[C] server_error: server_fd %d (%d)"
    serverFd errno status).stop workerServerFailure

def pipelineClient (clientFd serverFd : Int) (t : Transfer) (w : Worker) : Worker :=
  let (status, message) := pgprtdbgReadMessage t.read w.message
  let w := { w with message := message }
  match status with
  | .ok =>
      w.forward serverFd (pgprtdbgClient clientFd serverFd) Worker.saveClient clientVerdict
        (pipelineClientServerError serverFd) t.writes
  | .zero =>
      (w.report "[C] client_done: client_fd %d (%d)" [.int clientFd, .int status.toInt]).stop
        workerClientFailure
  | .error =>
      (w.reportError "[C] client_error: client_fd %d - %s (%d)" "[C] client_error: client_fd %d (%d)"
        clientFd t.read.errno status).stop workerClientFailure

-- strncmp over five bytes that none of the texts ends within.
def matchesAt (data : Nat → UInt8) (offset : Nat) (text : List UInt8) : Bool :=
  (List.range text.length).map (fun i => data (offset + i)) = text

def textFatal : List UInt8 := [70, 65, 84, 65, 76]

def textPanic : List UInt8 := [80, 65, 78, 73, 67]

def textNotSupported : List UInt8 := [48, 65, 48, 48, 48]

def fatalMessage (message : Message) : Bool :=
  message.kind = 69 ∧
    (matchesAt message.data 6 textFatal ∨ matchesAt message.data 6 textPanic) ∧
    ¬ matchesAt message.data 20 textNotSupported

def serverVerdict (message : Message) : Option Int :=
  if fatalMessage message then some workerServerFatal else none

-- The label client_error of pipeline_server.
def pipelineServerClientError (clientFd : Int) (errno : Errno) (status : MessageStatus) (w : Worker) :
    Worker :=
  (w.reportError "[S] client_error: client_fd %d - %s (%d)" "[S] client_error: client_fd %d (%d)"
    clientFd errno status).stop workerClientFailure

def pipelineServer (clientFd serverFd : Int) (t : Transfer) (w : Worker) : Worker :=
  let (status, message) := pgprtdbgReadMessage t.read w.message
  let w := { w with message := message }
  match status with
  | .ok =>
      w.forward clientFd (pgprtdbgServer serverFd clientFd) Worker.saveServer serverVerdict
        (pipelineServerClientError clientFd) t.writes
  | .zero =>
      -- The exit code stays what it was.
      (w.report "[C] server_done: server_fd %d (%d)" [.int serverFd, .int status.toInt]).stop
        w.exitCode
  | .error =>
      (w.reportError "[S] server_error: server_fd %d - %s (%d)" "[S] server_error: server_fd %d (%d)"
        serverFd t.read.errno status).stop workerServerFailure

structure Arrival where
  side : Side
  transfer : Transfer

-- A process that is gone, or waits in a write, handles nothing.
def Worker.handle (clientFd serverFd : Int) (w : Worker) (a : Arrival) : Worker :=
  if w.decoder.status = .running then
    match a.side with
    | .client => pipelineClient clientFd serverFd a.transfer w
    | .server => pipelineServer clientFd serverFd a.transfer w
  else
    w

def Worker.run (clientFd serverFd : Int) (arrivals : List Arrival) (w : Worker) : Worker :=
  arrivals.foldl (Worker.handle clientFd serverFd) w

end Pgprtdbg
