import Pgprtdbg.Model.Network
import Pgprtdbg.Model.Proxy

set_option autoImplicit false

namespace Pgprtdbg

open CText Descriptors

def maxFds : Nat := 64

def snprintf (size : Nat) (content : List UInt8) : List UInt8 := content.take (size - 1)

/-- What is done to the file system; a bind that fails does nothing. -/
inductive FileCall where
  | mkdir (path : List UInt8)
  | unlink (path : List UInt8)
  | bind (path : List UInt8)
  deriving DecidableEq, Repr

structure UnixAnswers where
  socket : Except Errno Nat
  stat : Except Errno Unit
  mkdir : Except Errno Unit
  bind : Except Errno Unit
  listen : Except Errno Unit

structure UnixBound where
  status : Int
  fd : Int
  uses : List (Use Int)
  files : List FileCall
  log : List Printed

-- The array buf of pgprtdbg_bind_unix_socket; all of it fits into sun_path.
def unixBufferLength : Nat := 107

def bindUnixPath (directory file : List UInt8) (answers : UnixAnswers) (fd : Nat)
    (made : List FileCall) : UnixBound :=
  let path := snprintf unixBufferLength (directory ++ text "/" ++ file)
  match answers.bind with
  | .error errno =>
      ⟨1, fd, [.opened fd], made ++ [.unlink path],
        [("pgprtdbg_bind_unix_socket: bind: %s/%s %s",
          [.str directory, .str file, .strerror errno])]⟩
  | .ok _ =>
      let files := made ++ [.unlink path] ++ [.bind path]
      match answers.listen with
      | .error errno =>
          ⟨1, fd, [.opened fd], files,
            [("pgprtdbg_bind_unix_socket: listen: %s/%s %s",
              [.str directory, .str file, .strerror errno])]⟩
      | .ok _ => ⟨0, fd, [.opened fd], files, []⟩

def pgprtdbgBindUnixSocket (directory file : List UInt8) (answers : UnixAnswers) : UnixBound :=
  match answers.socket with
  | .error errno =>
      ⟨1, -1, [], [], [("pgprtdbg_bind_unix_socket: socket: %s %s",
        [.str directory, .strerror errno])]⟩
  | .ok fd =>
      match answers.stat with
      | .ok _ => bindUnixPath directory file answers fd []
      | .error _ =>
          let made : List FileCall := [.mkdir (snprintf unixBufferLength directory)]
          match answers.mkdir with
          | .error errno =>
              ⟨1, fd, [.opened fd], [],
                [("pgprtdbg_bind_unix_socket: permission defined for %s (%s)",
                  [.str directory, .strerror errno])]⟩
          | .ok _ => bindUnixPath directory file answers fd made

def pgprtdbgRemoveUnixSocket (directory file : List UInt8) : List FileCall :=
  [.unlink (snprintf miscLength (directory ++ text "/" ++ file))]

def Configuration.pgsql (config : Configuration) : List UInt8 :=
  snprintf miscLength (text ".s.PGSQL." ++ decimal config.port)

def Configuration.hasUnixSocket (config : Configuration) : Bool := config.unixSocketDir.string ≠ []

inductive Watcher where
  | main (i : Nat)
  | uds
  deriving DecidableEq, Repr

structure Child where
  watcher : Watcher
  clientFd : Int
  connected : Option Connected
  uses : List (Use Int)
  -- Behind the two calls of pgprtdbg_disconnect, or gone.
  disconnected : Bool
  gone : Bool

/-- The globals of main.c, with the sockets that main and its children opened and closed. -/
structure Main where
  config : Configuration
  mainFds : List Int
  unixPgsqlSocket : Int
  keepRunning : Bool
  uses : List (Use Int)
  files : List FileCall
  children : List Child

structure StartupAnswers where
  unix : UnixAnswers
  ifaddrs : Except Errno (List Interface)
  servinfo : Except (List UInt8) (List Listener)
  -- pgprtdbg_libev, ev_supported_backends, and whether there is a loop for them.
  engine : Int
  backends : Int
  loop : Bool

inductive Startup where
  | exited (code : Int) (printed : Printed) (files : List FileCall)
  | serving (m : Main)

def startUnix (config : Configuration) (answers : UnixAnswers) : UnixBound :=
  if config.hasUnixSocket then
    pgprtdbgBindUnixSocket config.unixSocketDir.string config.pgsql answers
  else
    ⟨0, -1, [], [], []⟩

def startMain (config : Configuration) (answers : StartupAnswers) : Startup :=
  let directory := config.unixSocketDir.string
  let unix := startUnix config answers.unix
  if unix.status ≠ 0 then
    .exited 1 ("pgprtdbg: Could not bind to %s/%s\n", [.str directory, .str config.pgsql]) unix.files
  else
    let host := config.host.string
    let bound := pgprtdbgBind config host config.port answers.ifaddrs answers.servinfo
    if bound.status ≠ 0 then
      .exited 1 ("pgprtdbg: Could not bind to %s:%d\n", [.str host, .int config.port]) unix.files
    else if bound.fds.length > maxFds then
      .exited 1 ("pgprtdbg: Too many descriptors %d\n", [.int bound.fds.length]) unix.files
    else if ¬ answers.loop then
      .exited 1 ("pgprtdbg: No loop implementation (%x) (%x)\n",
        [.int answers.engine, .int answers.backends]) unix.files
    else
      .serving
        { config := config
          mainFds := bound.fds
          unixPgsqlSocket := unix.fd
          keepRunning := true
          uses := unix.uses ++ bound.uses
          files := unix.files
          children := [] }

def Main.socket (m : Main) : Watcher → Option Int
  | .main i => m.mainFds[i]?
  | .uds => if m.config.hasUnixSocket then some m.unixPgsqlSocket else none

def shutdownIo (m : Main) : List (Use Int) := m.mainFds.flatMap pgprtdbgDisconnect

def shutdownUds (m : Main) : List (Use Int) × List FileCall :=
  (pgprtdbgDisconnect m.unixPgsqlSocket,
    pgprtdbgRemoveUnixSocket m.config.unixSocketDir.string m.config.pgsql)

/-- What a child does to its copy of the sockets before it calls pgprtdbg_worker. -/
def childUses (m : Main) (socket : Int) : List (Use Int) :=
  (live m.uses).map .opened ++ (shutdownIo m ++ pgprtdbgDisconnect socket)

structure Accepting where
  watcher : Watcher
  error : Bool
  activeConnections : Nat
  client : Except Errno Nat
  forked : Bool

/-- `socket` is ai->socket. -/
def acceptCb (m : Main) (a : Accepting) (socket : Int) : Main :=
  if a.error ∨ a.activeConnections > maxNumberOfConnections then
    m
  else
    match a.client with
    | .error _ => m
    | .ok clientFd =>
        let m := { m with uses := m.uses ++ [.opened (clientFd : Int)] }
        let child : Child :=
          { watcher := a.watcher
            clientFd := clientFd
            connected := none
            uses := childUses m socket
            disconnected := false
            gone := false }
        let m := if a.forked then { m with children := m.children ++ [child] } else m
        { m with uses := m.uses ++ pgprtdbgDisconnect clientFd }

inductive MainAction where
  | accept (a : Accepting)
  -- pgprtdbg_connect in a child, with what getaddrinfo answers.
  | connect (child : Nat) (servinfo : Except (List UInt8) (List Candidate))
  | disconnect (child : Nat)
  | gone (child : Nat)
  | shutdown

def Main.put (m : Main) (k : Nat) (child : Child) : Main :=
  { m with children := m.children.set k child }

def Child.connect (config : Configuration) (servinfo : Except (List UInt8) (List Candidate))
    (child : Child) : Child :=
  let connected := pgprtdbgConnect config servinfo (-1)
  { child with connected := some connected, uses := child.uses ++ connected.uses }

def Child.disconnect (connected : Connected) (child : Child) : Child :=
  { child with
    disconnected := true
    uses := child.uses ++
      (pgprtdbgDisconnect child.clientFd ++ pgprtdbgDisconnect connected.fd) }

def Main.step (m : Main) : MainAction → Option Main
  | .accept a =>
      match m.socket a.watcher with
      | some socket => if m.keepRunning then some (acceptCb m a socket) else none
      | none => none
  | .connect k servinfo =>
      match m.children[k]? with
      | some child =>
          if child.gone ∨ child.connected.isSome then none
          else some (m.put k (child.connect m.config servinfo))
      | none => none
  | .disconnect k =>
      match m.children[k]? with
      | some child =>
          match child.connected with
          | some connected =>
              if child.gone ∨ child.disconnected then none
              else some (m.put k (child.disconnect connected))
          | none => none
      | none => none
  | .gone k =>
      match m.children[k]? with
      | some child => some (m.put k { child with gone := true })
      | none => none
  | .shutdown =>
      if m.keepRunning then
        let closed := m.uses ++ shutdownIo m
        if m.config.hasUnixSocket then
          let (uses, files) := shutdownUds m
          some { m with keepRunning := false, uses := closed ++ uses, files := m.files ++ files }
        else
          some { m with keepRunning := false, uses := closed }
      else
        none

end Pgprtdbg
