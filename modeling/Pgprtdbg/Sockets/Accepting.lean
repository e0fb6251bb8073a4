import Pgprtdbg.Model.Main
import Pgprtdbg.Shared.Steps
import Pgprtdbg.Sockets.Binding

set_option autoImplicit false

namespace Pgprtdbg

open CText Descriptors

section Listeners

theorem disconnects (fds : List Int) (valid : ∀ fd ∈ fds, 0 ≤ fd) :
    fds.flatMap pgprtdbgDisconnect = fds.map Use.closed := by
  induction fds with
  | nil => rfl
  | cons fd fds ih =>
      have here := valid fd (by simp)
      have other : fd ≠ -1 := by omega
      rw [List.flatMap_cons, ih fun other member => valid other (List.mem_cons_of_mem fd member),
        pgprtdbgDisconnect, if_neg other]
      rfl

theorem listening_valid (config : Configuration) (listeners : List Listener) :
    ∀ fd ∈ listening config listeners, 0 ≤ fd := by
  intro fd member
  obtain ⟨l, _, keeps⟩ := List.mem_filterMap.mp member
  unfold Listener.attempt at keeps
  cases socket : l.socket with
  | error errno => simp [socket, Attempt.keeps] at keeps
  | ok n =>
      rw [socket] at keeps
      by_cases listens : l.listens config
      · simp only [listens, if_true, Attempt.keeps, Option.some.injEq] at keeps
        omega
      · simp [listens, Attempt.keeps] at keeps

theorem unix_path_uses (directory file : List UInt8) (answers : UnixAnswers) (fd : Nat)
    (made : List FileCall) : (bindUnixPath directory file answers fd made).fd = fd ∧
      (bindUnixPath directory file answers fd made).uses = [.opened (fd : Int)] := by
  unfold bindUnixPath
  dsimp only
  split
  next => exact ⟨rfl, rfl⟩
  next => split <;> exact ⟨rfl, rfl⟩

theorem unix_uses (directory file : List UInt8) (answers : UnixAnswers)
    (bound : (pgprtdbgBindUnixSocket directory file answers).status = 0) :
    ∃ fd : Nat, (pgprtdbgBindUnixSocket directory file answers).fd = fd ∧
      (pgprtdbgBindUnixSocket directory file answers).uses = [.opened (fd : Int)] := by
  unfold pgprtdbgBindUnixSocket at bound ⊢
  cases socket : answers.socket with
  | error errno => simp [socket] at bound
  | ok fd =>
      refine ⟨fd, ?_⟩
      dsimp only
      split
      next => exact unix_path_uses directory file answers fd _
      next =>
        split
        next => exact ⟨rfl, rfl⟩
        next => exact unix_path_uses directory file answers fd _

def Main.unixSockets (m : Main) : List Int :=
  if m.config.hasUnixSocket then [m.unixPgsqlSocket] else []

def Main.listeners (m : Main) : List Int := m.unixSockets ++ m.mainFds

theorem start_serving (config : Configuration) (answers : StartupAnswers) (start : Main)
    (begun : startMain config answers = .serving start) :
    let unix := startUnix config answers.unix
    let bound := pgprtdbgBind config config.host.string config.port answers.ifaddrs answers.servinfo
    unix.status = 0 ∧ bound.fds.length ≤ maxFds ∧
      start = ⟨config, bound.fds, unix.fd, true, unix.uses ++ bound.uses, unix.files, []⟩ := by
  intro unix bound
  unfold startMain at begun
  dsimp only at begun
  split at begun
  next => cases begun
  next bound =>
    split at begun
    next => cases begun
    next =>
      split at begun
      next => cases begun
      next few =>
        split at begun
        next => cases begun
        next =>
          cases begun
          exact ⟨not_not.mp bound, Nat.not_lt.mp few, rfl⟩

theorem start_valid (config : Configuration) (answers : StartupAnswers) (start : Main)
    (begun : startMain config answers = .serving start) : ∀ fd ∈ start.listeners, 0 ≤ fd := by
  obtain ⟨status, _, same⟩ := start_serving config answers start begun
  subst same
  intro fd member
  rcases List.mem_append.mp member with unix | main
  · simp only [Main.unixSockets] at unix
    split at unix
    next has =>
      rw [startUnix, if_pos has] at status unix
      obtain ⟨n, named, _⟩ := unix_uses _ _ _ status
      rw [List.mem_singleton.mp unix, named]
      exact Int.natCast_nonneg n
    next => cases unix
  · rw [(pgprtdbgBind_tried config _ _ _ _).1] at main
    exact listening_valid config _ fd main

theorem start_listens (config : Configuration) (answers : StartupAnswers) (start : Main)
    (begun : startMain config answers = .serving start) (kernel : Fresh start.uses) :
    live start.uses = start.listeners ∧ Tidy start.uses := by
  obtain ⟨status, _, same⟩ := start_serving config answers start begun
  subst same
  obtain ⟨fds, uses⟩ := pgprtdbgBind_tried config config.host.string config.port answers.ifaddrs
    answers.servinfo
  simp only [Main.listeners, Main.unixSockets]
  rw [fds]
  simp only [uses] at kernel ⊢
  by_cases has : config.hasUnixSocket
  case neg =>
    have without : startUnix config answers.unix = ⟨0, -1, [], [], []⟩ := if_neg has
    rw [without] at kernel ⊢
    simp only [has, Bool.false_eq_true, if_false]
    rw [List.nil_append, attempts] at kernel ⊢
    obtain ⟨here, tidy⟩ := live_attempts _ kernel
    exact ⟨here.trans List.filterMap_map, tidy⟩
  case pos =>
    have binds : startUnix config answers.unix =
        pgprtdbgBindUnixSocket config.unixSocketDir.string config.pgsql answers.unix := if_pos has
    rw [binds] at status kernel ⊢
    simp only [has, if_true]
    obtain ⟨fd, named, used⟩ := unix_uses _ _ _ status
    rw [used, attempts] at kernel ⊢
    rw [named]
    -- The Unix Domain Socket is one more descriptor that is kept.
    have shape : [Use.opened (fd : Int)] ++ ((attempted config.host.string answers.ifaddrs
        answers.servinfo).map (Listener.attempt config)).flatMap Attempt.uses =
        (.kept (fd : Int) :: (attempted config.host.string answers.ifaddrs
          answers.servinfo).map (Listener.attempt config)).flatMap Attempt.uses := rfl
    rw [shape] at kernel ⊢
    obtain ⟨here, tidy⟩ := live_attempts _ kernel
    refine ⟨?_, tidy⟩
    rw [here, List.filterMap_cons]
    simp only [Attempt.keeps, List.filterMap_map, listening]
    rfl

end Listeners

section Children

/-- The listening socket that is left open in a child. -/
def Main.inherited (m : Main) : Watcher → List Int
  | .main _ => m.unixSockets
  | .uds => []

def Child.sockets (m : Main) (child : Child) : List Int :=
  m.inherited child.watcher ++
    if child.disconnected then []
    else child.clientFd ::
      match child.connected with
      | some connected => if connected.status = 0 then [connected.fd] else []
      | none => []

theorem connect_cases (config : Configuration) (servinfo : Except (List UInt8) (List Candidate)) :
    let connected := pgprtdbgConnect config servinfo (-1)
    (connected.status = 0 ∧ ∃ fd : Nat, connected.fd = fd ∧ connected.uses = [.opened (fd : Int)]) ∨
      (connected.status = 1 ∧ connected.fd = -1 ∧ connected.uses = []) ∨
      (connected.status = 1 ∧ ∃ fd : Nat, connected.fd = fd ∧
        connected.uses = [.opened (fd : Int), .closed (fd : Int)]) := by
  unfold pgprtdbgConnect
  cases servinfo with
  | error text => exact .inr (.inl ⟨rfl, rfl, rfl⟩)
  | ok candidates =>
      cases candidates with
      | nil => exact .inr (.inl ⟨rfl, rfl, rfl⟩)
      | cons c rest =>
          dsimp only [connectLoop]
          cases c.socket with
          | error errno => exact .inr (.inl ⟨rfl, rfl, rfl⟩)
          | ok fd =>
              cases c.refused config with
              | none => exact .inl ⟨rfl, fd, rfl, rfl⟩
              | some line =>
                  dsimp only
                  rw [disconnect_open]
                  exact .inr (.inr ⟨rfl, fd, rfl, rfl⟩)

-- Of the sockets of main, a child that came in over TCP keeps the one that it should not have.
theorem child_sockets (m : Main) (clientFd : Nat) (w : Watcher) (socket : Int)
    (known : m.socket w = some socket) (valid : ∀ fd ∈ m.listeners, 0 ≤ fd)
    (kernel : Fresh (m.uses ++ [.opened (clientFd : Int)])) (serving : live m.uses = m.listeners) :
    let forking : Main := { m with uses := m.uses ++ [.opened (clientFd : Int)] }
    live (childUses forking socket) = m.inherited w ++ [(clientFd : Int)] ∧
      (Tidy (childUses forking socket) ↔ w = .uds) ∧
      (w ≠ .uds → strays (childUses forking socket) = [socket]) := by
  intro forking
  have all : live forking.uses = m.unixSockets ++ (m.mainFds ++ [(clientFd : Int)]) := by
    rw [live_opened, serving, Main.listeners, List.append_assoc]
  have nodup := live_nodup _ kernel
  obtain ⟨copied, _, tidy⟩ := live_inherited (live forking.uses) nodup
  have closed : shutdownIo forking = m.mainFds.map Use.closed :=
    disconnects m.mainFds fun fd member => valid fd (List.mem_append_right _ member)
  obtain ⟨left, still⟩ := live_closing ((live forking.uses).map Use.opened) m.unixSockets m.mainFds
    [(clientFd : Int)] (by rwa [copied]) (copied.trans all) tidy
  rw [childUses, closed, ← List.append_assoc]
  have single (here : 0 ≤ socket) : pgprtdbgDisconnect socket = [.closed socket] := by
    have other : socket ≠ -1 := by omega
    rw [pgprtdbgDisconnect, if_neg other]
  cases w with
  | main i =>
      have member : socket ∈ m.mainFds := List.mem_of_getElem? known
      have missing : socket ∉ m.unixSockets ++ [(clientFd : Int)] := by
        rw [all] at nodup
        intro here
        rcases List.mem_append.mp here with unix | client
        · exact (List.nodup_append.mp nodup).2.2 socket unix socket (by simp [member]) rfl
        · have back := (List.nodup_append.mp nodup).2.1
          exact (List.nodup_append.mp back).2.2 socket member socket client rfl
      rw [single (valid socket (List.mem_append_right _ member)), live_closed, tidy_closed,
        strays_closed, (tidy_iff _).mp still, left, List.erase_of_not_mem missing]
      exact ⟨rfl, by simp [missing], by simp [missing]⟩
  | uds =>
      have has : m.config.hasUnixSocket = true := by
        by_contra without
        simp [Main.socket, without] at known
      have unix : m.unixSockets = [socket] := by
        simp only [Main.socket, has, if_true, Option.some.injEq] at known
        rw [Main.unixSockets, if_pos has, known]
      rw [unix] at left
      rw [single (valid socket (List.mem_append_left _ (by simp [unix]))), live_closed, tidy_closed,
        left]
      exact ⟨by simp [Main.inherited], by simp [still], fun tcp => absurd rfl tcp⟩

-- A child's own sockets come behind the one that it inherited.
theorem connect_sockets (config : Configuration)
    (servinfo : Except (List UInt8) (List Candidate)) (uses : List (Use Int))
    (kernel : Fresh (uses ++ (pgprtdbgConnect config servinfo (-1)).uses)) :
    let connected := pgprtdbgConnect config servinfo (-1)
    live (uses ++ connected.uses) =
        live uses ++ (if connected.status = 0 then [connected.fd] else []) ∧
      (connected.status ≠ 0 → connected.fd ∉ live uses ∨ connected.fd = -1) := by
  intro connected
  rcases connect_cases config servinfo with ⟨status, fd, named, used⟩ | ⟨status, named, used⟩ |
    ⟨status, fd, named, used⟩
  · simp only [connected, used, status, if_true, live_opened, named]
    simp
  · simp [connected, used, status, named]
  · rw [used] at kernel
    have shape : uses ++ [.opened (fd : Int), .closed (fd : Int)] =
        uses ++ [.opened (fd : Int)] ++ [.closed (fd : Int)] := by simp
    rw [shape] at kernel
    obtain ⟨_, unused⟩ := (fresh_opened uses (fd : Int)).mp kernel.earlier
    simp only [connected, used, status, shape, live_closed, live_opened, named]
    rw [List.erase_append_right _ unused]
    simp [unused]

end Children

inductive MainMoves (m : Main) : MainAction → Main → Prop where
  | accept (a : Accepting) (socket : Int) (known : m.socket a.watcher = some socket)
      (running : m.keepRunning = true) : MainMoves m (.accept a) (acceptCb m a socket)
  | connect (k : Nat) (servinfo : Except (List UInt8) (List Candidate)) (child : Child)
      (here : m.children[k]? = some child) (first : child.connected = none) :
      MainMoves m (.connect k servinfo) (m.put k (child.connect m.config servinfo))
  | disconnect (k : Nat) (child : Child) (connected : Connected)
      (here : m.children[k]? = some child) (given : child.connected = some connected)
      (first : child.disconnected = false) :
      MainMoves m (.disconnect k) (m.put k (child.disconnect connected))
  | gone (k : Nat) (child : Child) (here : m.children[k]? = some child) :
      MainMoves m (.gone k) (m.put k { child with gone := true })
  | stop (running : m.keepRunning = true) (without : m.config.hasUnixSocket = false) :
      MainMoves m .shutdown { m with keepRunning := false, uses := m.uses ++ shutdownIo m }
  | stopUnix (running : m.keepRunning = true) (has : m.config.hasUnixSocket = true) :
      MainMoves m .shutdown { m with
        keepRunning := false
        uses := m.uses ++ shutdownIo m ++ (shutdownUds m).1
        files := m.files ++ (shutdownUds m).2 }

theorem main_moves (m after : Main) (action : MainAction) (taken : m.step action = some after) :
    MainMoves m action after := by
  cases action with
  | accept a =>
      simp only [Main.step] at taken
      split at taken
      next socket known =>
        split at taken
        next running =>
          cases taken
          exact .accept a socket known running
        next => cases taken
      next => cases taken
  | connect k servinfo =>
      simp only [Main.step] at taken
      split at taken
      next child here =>
        split at taken
        next => cases taken
        next allowed =>
          cases taken
          exact .connect k servinfo child here (by simpa using (not_or.mp allowed).2)
      next => cases taken
  | disconnect k =>
      simp only [Main.step] at taken
      split at taken
      next child here =>
        split at taken
        next connected given =>
          split at taken
          next => cases taken
          next allowed =>
            cases taken
            exact .disconnect k child connected here given (by simpa using (not_or.mp allowed).2)
        next => cases taken
      next => cases taken
  | gone k =>
      simp only [Main.step] at taken
      split at taken
      next child here =>
        cases taken
        exact .gone k child here
      next => cases taken
  | shutdown =>
      simp only [Main.step] at taken
      split at taken
      next running =>
        split at taken
        next has =>
          cases taken
          exact .stopUnix running has
        next without =>
          cases taken
          exact .stop running (by simpa using without)
      next => cases taken

section Keeping

structure ChildKept (m : Main) (child : Child) : Prop where
  client : 0 ≤ child.clientFd
  sockets : Fresh child.uses → live child.uses = child.sockets m
  start : child.connected = none → child.disconnected = false ∧
    (Tidy child.uses ↔ child.watcher = .uds) ∧
    (child.watcher ≠ .uds → strays child.uses = (m.socket child.watcher).toList)
  server : ∀ connected, child.connected = some connected →
    (connected.status = 0 → 0 ≤ connected.fd) ∧
      (Fresh child.uses → connected.status ≠ 0 →
        connected.fd ∉ m.inherited child.watcher ++ [child.clientFd] ∨ connected.fd = -1)

structure SocketsKept (m : Main) : Prop where
  valid : ∀ fd ∈ m.listeners, 0 ≤ fd
  own : Fresh m.uses → Tidy m.uses ∧ live m.uses = if m.keepRunning then m.listeners else []
  children : Fresh m.uses → ∀ child ∈ m.children, ChildKept m child

theorem child_connect (m : Main) (child : Child) (kept : ChildKept m child)
    (first : child.connected = none) (servinfo : Except (List UInt8) (List Candidate)) :
    ChildKept m (child.connect m.config servinfo) := by
  obtain ⟨plain, _⟩ := kept.start first
  have before : child.sockets m = m.inherited child.watcher ++ [child.clientFd] := by
    simp [Child.sockets, plain, first]
  constructor
  case client => exact kept.client
  case start => exact fun unconnected => by cases unconnected
  case sockets =>
    intro kernel
    have here := kept.sockets kernel.earlier
    obtain ⟨same, _⟩ := connect_sockets m.config servinfo child.uses kernel
    change live (child.uses ++ _) = _
    rw [same, here, before]
    simp [Child.sockets, Child.connect, plain]
  case server =>
    intro connected given
    cases given
    constructor
    · intro status
      rcases connect_cases m.config servinfo with ⟨_, fd, named, _⟩ | ⟨failed, _⟩ | ⟨failed, _⟩
      · rw [named]
        exact Int.natCast_nonneg fd
      · simp [failed] at status
      · simp [failed] at status
    · intro kernel failed
      obtain ⟨_, missing⟩ := connect_sockets m.config servinfo child.uses kernel
      rw [kept.sockets kernel.earlier, before] at missing
      exact missing failed

theorem live_disconnect (uses : List (Use Int)) (fd : Int) (invalid : fd = -1 → fd ∉ live uses) :
    live (uses ++ pgprtdbgDisconnect fd) = (live uses).erase fd := by
  by_cases nothing : fd = -1
  · rw [pgprtdbgDisconnect, if_pos nothing, List.append_nil, List.erase_of_not_mem (invalid nothing)]
  · rw [pgprtdbgDisconnect, if_neg nothing, live_closed]

theorem child_disconnect (m : Main) (child : Child) (kept : ChildKept m child) (connected : Connected)
    (given : child.connected = some connected) (first : child.disconnected = false) :
    ChildKept m (child.disconnect connected) := by
  constructor
  case client => exact kept.client
  case start =>
    intro unconnected
    cases given.symm.trans unconnected
  case server =>
    intro other same
    obtain ⟨positive, missing⟩ := kept.server other same
    exact ⟨positive, fun kernel => missing kernel.earlier⟩
  case sockets =>
    intro kernel
    have nodup := live_nodup _ kernel.earlier
    have here := kept.sockets kernel.earlier
    obtain ⟨positive, missing⟩ := kept.server connected given
    simp only [Child.sockets, first, given, Bool.false_eq_true, if_false] at here
    rw [here] at nodup
    have client : child.clientFd ∉ m.inherited child.watcher := fun member =>
      (List.nodup_append.mp nodup).2.2 _ member _ (List.mem_cons_self) rfl
    have valid : child.clientFd ≠ -1 := by
      have known := kept.client
      omega
    -- First the client's socket, then the server's.
    have left : live (child.uses ++ pgprtdbgDisconnect child.clientFd) =
        m.inherited child.watcher ++ if connected.status = 0 then [connected.fd] else [] := by
      rw [live_disconnect _ _ fun nothing => absurd nothing valid, here,
        List.erase_append_right _ client, List.erase_cons_head]
    change live (child.uses ++ (_ ++ _)) = _
    simp only [Child.sockets, Child.disconnect, if_true, List.append_nil]
    by_cases status : connected.status = 0
    · have server : connected.fd ∉ m.inherited child.watcher := by
        intro member
        rw [if_pos status] at nodup
        exact (List.nodup_append.mp nodup).2.2 _ member connected.fd (by simp) rfl
      have known := positive status
      rw [← List.append_assoc, live_disconnect _ _ fun nothing => by omega, left, if_pos status,
        List.erase_append_right _ server]
      simp
    · rw [if_neg status, List.append_nil] at left
      have gone : connected.fd ∉ m.inherited child.watcher ∨ connected.fd = -1 :=
        (missing kernel.earlier status).imp_left fun apart member =>
          apart (List.mem_append_left _ member)
      rcases gone with apart | nothing
      · rw [← List.append_assoc, live_disconnect _ _ fun _ => left ▸ apart, left,
          List.erase_of_not_mem apart]
      · rw [pgprtdbgDisconnect.eq_1 connected.fd, if_pos nothing, List.append_nil, left]

theorem child_same (m after : Main) (child : Child) (kept : ChildKept m child)
    (same : ∀ w, after.inherited w = m.inherited w) (known : ∀ w, after.socket w = m.socket w) :
    ChildKept after child := by
  constructor
  case client => exact kept.client
  case start =>
    rw [known]
    exact kept.start
  case sockets =>
    intro kernel
    rw [kept.sockets kernel, Child.sockets, Child.sockets, same]
  case server =>
    intro connected given
    rw [same]
    exact kept.server connected given

theorem SocketsKept.put (m : Main) (kept : SocketsKept m) (k : Nat) (child child' : Child)
    (here : m.children[k]? = some child) (next : ChildKept m child → ChildKept m child') :
    SocketsKept (m.put k child') := by
  constructor
  case valid => exact kept.valid
  case own => exact kept.own
  case children =>
    intro kernel other member
    refine child_same m (m.put k child') other ?_ (fun w => by cases w <;> rfl) fun w => by
      cases w <;> rfl
    rcases List.mem_or_eq_of_mem_set member with before | rfl
    · exact kept.children kernel other before
    · exact next (kept.children kernel child (List.mem_of_getElem? here))

-- What is known after an accept() that accept_cb forked for, or could not.
theorem sockets_accepted (m : Main) (kept : SocketsKept m) (w : Watcher) (socket : Int)
    (known : m.socket w = some socket) (running : m.keepRunning = true) (clientFd : Nat)
    (after : Main) (uses : after.uses = m.uses ++ [.opened (clientFd : Int)] ++ [.closed (clientFd : Int)])
    (config : after.config = m.config) (unix : after.unixPgsqlSocket = m.unixPgsqlSocket)
    (mains : after.mainFds = m.mainFds) (still : after.keepRunning = m.keepRunning)
    (children : ∀ child ∈ after.children, child ∈ m.children ∨
      child = ⟨w, clientFd, none,
        childUses { m with uses := m.uses ++ [.opened (clientFd : Int)] } socket, false, false⟩) :
    SocketsKept after := by
  have unixes : after.unixSockets = m.unixSockets := by
    rw [Main.unixSockets, Main.unixSockets, config, unix]
  have same : after.listeners = m.listeners := by
    rw [Main.listeners, Main.listeners, unixes, mains]
  constructor
  case valid =>
    rw [same]
    exact kept.valid
  case own =>
    intro kernel
    rw [uses, fresh_closed] at kernel
    obtain ⟨earlier, unused⟩ := (fresh_opened m.uses (clientFd : Int)).mp kernel
    obtain ⟨tidy, here⟩ := kept.own earlier
    rw [uses, tidy_closed, tidy_opened, live_closed, live_opened, same, still,
      List.erase_append_right _ unused]
    exact ⟨⟨tidy, by simp⟩, by simpa using here⟩
  case children =>
    intro kernel child member
    rw [uses, fresh_closed] at kernel
    obtain ⟨earlier, unused⟩ := (fresh_opened m.uses (clientFd : Int)).mp kernel
    have inherits (v : Watcher) : after.inherited v = m.inherited v := by
      cases v with
      | main i => exact unixes
      | uds => rfl
    have sockets (v : Watcher) : after.socket v = m.socket v := by
      cases v with
      | main i => rw [Main.socket, Main.socket, mains]
      | uds => rw [Main.socket, Main.socket, config, unix]
    refine child_same m after child ?_ inherits sockets
    rcases children child member with before | rfl
    · exact kept.children earlier child before
    · have here := (kept.own earlier).2
      rw [if_pos running] at here
      obtain ⟨opened, tidy, twice⟩ := child_sockets m clientFd w socket known kept.valid kernel here
      constructor
      case client => exact Int.natCast_nonneg clientFd
      case sockets => exact fun _ => by simpa [Child.sockets] using opened
      case start => exact fun _ => ⟨rfl, tidy, fun tcp => by rw [twice tcp, known]; rfl⟩
      case server => exact fun connected given => by cases given

theorem sockets_accept (m : Main) (kept : SocketsKept m) (a : Accepting) (socket : Int)
    (known : m.socket a.watcher = some socket) (running : m.keepRunning = true) :
    SocketsKept (acceptCb m a socket) := by
  unfold acceptCb
  split
  next => exact kept
  next =>
    split
    next => exact kept
    next clientFd answered =>
      dsimp only
      rw [disconnect_open]
      cases a.forked with
      | false =>
          apply sockets_accepted m kept a.watcher socket known running clientFd <;> try rfl
          exact fun child member => .inl member
      | true =>
          apply sockets_accepted m kept a.watcher socket known running clientFd <;> try rfl
          intro child member
          rcases List.mem_append.mp member with before | new
          · exact .inl before
          · exact .inr (List.mem_singleton.mp new)

theorem sockets_moves (m after : Main) (action : MainAction) (moves : MainMoves m action after)
    (kept : SocketsKept m) : SocketsKept after := by
  have closing (kernel : Fresh m.uses) (running : m.keepRunning = true) :
      live (m.uses ++ shutdownIo m) = m.unixSockets ∧ Tidy (m.uses ++ shutdownIo m) := by
    obtain ⟨tidy, here⟩ := kept.own kernel
    rw [if_pos running] at here
    have shape : live m.uses = m.unixSockets ++ (m.mainFds ++ []) := by
      rw [here, List.append_nil, Main.listeners]
    rw [shutdownIo, disconnects _ fun fd member => kept.valid fd (List.mem_append_right _ member)]
    have closed := live_closing m.uses m.unixSockets m.mainFds [] (live_nodup _ kernel) shape tidy
    rwa [List.append_nil] at closed
  cases moves with
  | accept a socket known running => exact sockets_accept m kept a socket known running
  | connect k servinfo child here first =>
      exact kept.put m k child _ here fun child_kept => child_connect m child child_kept first servinfo
  | disconnect k child connected here given first =>
      exact kept.put m k child _ here fun child_kept =>
        child_disconnect m child child_kept connected given first
  | gone k child here =>
      exact kept.put m k child _ here fun child_kept =>
        ⟨child_kept.client, child_kept.sockets, child_kept.start, child_kept.server⟩
  | stop running without =>
      constructor
      case valid => exact kept.valid
      case own =>
        intro kernel
        obtain ⟨left, tidy⟩ := closing kernel.earlier running
        have nothing : m.unixSockets = [] := if_neg (by simp [without])
        exact ⟨tidy, by simpa [nothing] using left⟩
      case children =>
        intro kernel child member
        exact child_same m _ child (kept.children kernel.earlier child member)
          (fun w => by cases w <;> rfl) fun w => by cases w <;> rfl
  | stopUnix running has =>
      constructor
      case valid => exact kept.valid
      case own =>
        intro kernel
        obtain ⟨left, tidy⟩ := closing kernel.earlier.earlier running
        have one : m.unixSockets = [m.unixPgsqlSocket] := if_pos has
        have valid := kept.valid m.unixPgsqlSocket (by simp [Main.listeners, one])
        have closed : (shutdownUds m).1 = [.closed m.unixPgsqlSocket] := if_neg (by omega)
        rw [closed, tidy_closed, live_closed, left, one]
        exact ⟨⟨tidy, by simp⟩, by simp⟩
      case children =>
        intro kernel child member
        exact child_same m _ child (kept.children kernel.earlier.earlier child member)
          (fun w => by cases w <;> rfl) fun w => by cases w <;> rfl

end Keeping

def withUnixSocket : Configuration :=
  { Configuration.zeroed with unixSocketDir := .holding miscLength (text "/tmp") }

def tcpAndUnix : StartupAnswers :=
  { unix := ⟨.ok 3, .ok (), .ok (), .ok (), .ok ()⟩
    ifaddrs := .ok []
    servinfo := .ok [vacant 4]
    engine := 0
    backends := 0
    loop := true }

end Pgprtdbg
