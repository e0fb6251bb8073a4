import Pgprtdbg.Model.Configuration
import Pgprtdbg.Model.TraceFile
import Pgprtdbg.Shared.Descriptors

set_option autoImplicit false

namespace Pgprtdbg

open CText Descriptors

-- The block that bind_host and pgprtdbg_connect allocate for the port.
def sportLength : Nat := 5

def sport (port : Int) : List UInt8 := decimal port ++ [0]

/-- What it closes; what it returns is ignored everywhere. -/
def pgprtdbgDisconnect (fd : Int) : List (Use Int) :=
  if fd = -1 then [] else [.closed fd]

structure Candidate where
  socket : Except Errno Nat
  keepAlive : Except Errno Unit
  nodelay : Except Errno Unit
  rcvbuf : Except Errno Unit
  sndbuf : Except Errno Unit
  connect : Except Errno Unit

structure Connected where
  status : Int
  fd : Int
  uses : List (Use Int)
  log : List Printed
  stderr : List Printed

def failure (made : Bool) (format : String) (answer : Except Errno Unit) : Option Printed :=
  match answer with
  | .error errno => if made then some (format, [.strerror errno]) else none
  | .ok _ => none

def Candidate.refused (config : Configuration) (c : Candidate) : Option Printed :=
  (failure config.keepAlive "pgprtdbg_connect: so_keep_alive: %s" c.keepAlive).or <|
    (failure config.nodelay "pgprtdbg_connect: tcp_nodelay: %s" c.nodelay).or <|
      (failure true "pgprtdbg_connect: so_rcvbuf: %s" c.rcvbuf).or <|
        (failure true "pgprtdbg_connect: so_sndbuf: %s" c.sndbuf).or <|
          failure true "pgprtdbg_connect: %s" c.connect

def connectLoop (config : Configuration) (fd : Int) : List Candidate → Connected
  | [] => ⟨1, fd, [], [("pgprtdbg_connect: failed to connect", [])], []⟩
  | c :: _ =>
      match c.socket with
      | .error errno => ⟨1, -1, [], [("pgprtdbg_connect: socket: %s", [.strerror errno])], []⟩
      | .ok fd =>
          match c.refused config with
          | some line => ⟨1, fd, .opened fd :: pgprtdbgDisconnect fd, [line], []⟩
          | none => ⟨0, fd, [.opened fd], [], []⟩

/-- `servinfo` is what getaddrinfo answers to the host and the port, `fd` what *fd holds before. -/
def pgprtdbgConnect (config : Configuration) (servinfo : Except (List UInt8) (List Candidate))
    (fd : Int) : Connected :=
  match servinfo with
  | .error text => ⟨1, fd, [], [], [("getaddrinfo: %s\n", [.str text])]⟩
  | .ok candidates => connectLoop config fd candidates

/-- What pgprtdbg_worker opens and closes for its server; at its end it disconnects server_fd. -/
def workerUses (connected : Connected) : List (Use Int) :=
  connected.uses ++ pgprtdbgDisconnect connected.fd

structure Listener where
  socket : Except Errno Nat
  reuseaddr : Except Errno Unit
  rcvbuf : Except Errno Unit
  sndbuf : Except Errno Unit
  nodelay : Except Errno Unit
  bind : Except Errno Unit
  listen : Except Errno Unit

def pgprtdbgTcpNodelay (config : Configuration) (l : Listener) : Int :=
  if config.nodelay then
    match l.nodelay with
    | .error _ => 1
    | .ok _ => 0
  else
    0

def pgprtdbgSocketBuffers (l : Listener) : Int :=
  match l.rcvbuf with
  | .error _ => 1
  | .ok _ =>
      match l.sndbuf with
      | .error _ => 1
      | .ok _ => 0

structure Bound where
  status : Int
  fds : List Int
  uses : List (Use Int)
  log : List Printed

def Bound.empty (status : Int) (log : List Printed) : Bound := ⟨status, [], [], log⟩

def Bound.use (uses : List (Use Int)) (b : Bound) : Bound := { b with uses := b.uses ++ uses }

def Bound.logLine (format : String) (args : List Arg) (b : Bound) : Bound :=
  { b with log := b.log ++ [(format, args)] }

def bindAddress (config : Configuration) (hostname : List UInt8) (port : Int) (b : Bound)
    (l : Listener) : Bound :=
  match l.socket with
  | .error errno =>
      b.logLine "server: socket: %s:%d (%s)" [.str hostname, .int port, .strerror errno]
  | .ok sockfd =>
      let b := b.use [.opened sockfd]
      let dropped := b.use (pgprtdbgDisconnect sockfd)
      match l.reuseaddr with
      | .error _ => dropped
      | .ok _ =>
          if pgprtdbgSocketBuffers l ≠ 0 then
            dropped
          else if pgprtdbgTcpNodelay config l ≠ 0 then
            dropped
          else
            match l.bind with
            | .error errno =>
                dropped.logLine "server: bind: %s:%d (%s)"
                  [.str hostname, .int port, .strerror errno]
            | .ok _ =>
                match l.listen with
                | .error errno =>
                    dropped.logLine "server: listen: %s:%d (%s)"
                      [.str hostname, .int port, .strerror errno]
                | .ok _ => { b with fds := b.fds ++ [(sockfd : Int)] }

def bindHost (config : Configuration) (hostname : List UInt8) (port : Int)
    (servinfo : Except (List UInt8) (List Listener)) : Bound :=
  match servinfo with
  | .error text => .empty 1 [("getaddrinfo: %s:%d (%s)", [.str hostname, .int port, .str text])]
  | .ok listeners =>
      let b := listeners.foldl (bindAddress config hostname port) (.empty 0 [])
      if b.fds = [] then { b with status := 1 } else b

inductive Family where
  | inet
  | inet6
  | other
  deriving DecidableEq, Repr

structure Interface where
  addr : Option (Family × List UInt8)
  up : Bool
  servinfo : Except (List UInt8) (List Listener)

def bindInterface (config : Configuration) (port : Int) (star : Bound) (ifa : Interface) : Bound :=
  match ifa.addr with
  | none => star
  | some (family, addr) =>
      if (family = .inet ∨ family = .inet6) ∧ ifa.up then
        let new := bindHost config addr port ifa.servinfo
        let star := { star with uses := star.uses ++ new.uses, log := star.log ++ new.log }
        if new.status ≠ 0 then star else { star with fds := star.fds ++ new.fds }
      else
        star

/-- `ifaddrs` is what getifaddrs answers, and `servinfo` what getaddrinfo does to a host by name. -/
def pgprtdbgBind (config : Configuration) (hostname : List UInt8) (port : Int)
    (ifaddrs : Except Errno (List Interface)) (servinfo : Except (List UInt8) (List Listener)) :
    Bound :=
  if hostname = text "*" then
    match ifaddrs with
    | .error errno => .empty 1 [("getifaddrs: %s", [.strerror errno])]
    | .ok interfaces => interfaces.foldl (bindInterface config port) (.empty 0 [])
  else
    bindHost config hostname port servinfo

end Pgprtdbg
