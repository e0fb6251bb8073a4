import Pgprtdbg.Sockets.Connecting

set_option autoImplicit false

namespace Pgprtdbg

open CText Descriptors

section Attempts

def answered (answer : Except Errno Unit) : Bool :=
  match answer with
  | .error _ => false
  | .ok _ => true

def Listener.listens (config : Configuration) (l : Listener) : Bool :=
  answered l.reuseaddr && answered l.rcvbuf && answered l.sndbuf &&
    (!config.nodelay || answered l.nodelay) && answered l.bind && answered l.listen

def Listener.attempt (config : Configuration) (l : Listener) : Attempt Int :=
  match l.socket with
  | .error _ => .unopened
  | .ok fd => if l.listens config then .kept fd else .dropped fd

def listening (config : Configuration) (listeners : List Listener) : List Int :=
  listeners.filterMap fun l => (l.attempt config).keeps

def attempts (config : Configuration) (listeners : List Listener) : List (Use Int) :=
  (listeners.map (Listener.attempt config)).flatMap Attempt.uses

variable (config : Configuration) (hostname : List UInt8) (port : Int)

theorem listens_iff (l : Listener) :
    l.listens config = true ↔ answered l.reuseaddr = true ∧ pgprtdbgSocketBuffers l = 0 ∧
      pgprtdbgTcpNodelay config l = 0 ∧ answered l.bind = true ∧ answered l.listen = true := by
  have buffers : pgprtdbgSocketBuffers l = 0 ↔ answered l.rcvbuf = true ∧ answered l.sndbuf = true := by
    unfold pgprtdbgSocketBuffers
    cases l.rcvbuf <;> cases l.sndbuf <;> simp [answered]
  have nodelay : pgprtdbgTcpNodelay config l = 0 ↔
      (!config.nodelay || answered l.nodelay) = true := by
    unfold pgprtdbgTcpNodelay
    cases config.nodelay <;> cases l.nodelay <;> simp [answered]
  rw [buffers, nodelay, Listener.listens]
  simp only [Bool.and_eq_true, and_assoc]

def AddsAttempt (attempt : Attempt Int) (b after : Bound) : Prop :=
  after.status = b.status ∧ after.fds = b.fds ++ attempt.keeps.toList ∧
    after.uses = b.uses ++ attempt.uses

theorem adds_attempt_dropped (b : Bound) (fd : Nat) :
    AddsAttempt (.dropped fd) b ((b.use [.opened (fd : Int)]).use (pgprtdbgDisconnect fd)) := by
  rw [disconnect_open]
  simp [AddsAttempt, Bound.use, Attempt.keeps, Attempt.uses]

theorem bindAddress_attempt (b : Bound) (l : Listener) :
    AddsAttempt (l.attempt config) b (bindAddress config hostname port b l) := by
  have whole := listens_iff config l
  unfold bindAddress Listener.attempt
  cases l.socket with
  | error errno => simp [AddsAttempt, Bound.logLine, Attempt.keeps, Attempt.uses]
  | ok fd =>
      have drops (fails : ¬ l.listens config = true) :
          AddsAttempt (if l.listens config = true then .kept (fd : Int) else .dropped fd) b
            ((b.use [.opened (fd : Int)]).use (pgprtdbgDisconnect fd)) := by
        rw [if_neg fails]
        exact adds_attempt_dropped b fd
      dsimp only
      cases reuse : l.reuseaddr with
      | error errno =>
          apply drops
          simp [whole, reuse, answered]
      | ok _ =>
          dsimp only
          by_cases buffers : pgprtdbgSocketBuffers l ≠ 0
          · rw [if_pos buffers]
            exact drops fun all => buffers (whole.mp all).2.1
          rw [if_neg buffers]
          by_cases nodelay : pgprtdbgTcpNodelay config l ≠ 0
          · rw [if_pos nodelay]
            exact drops fun all => nodelay (whole.mp all).2.2.1
          rw [if_neg nodelay]
          cases bind : l.bind with
          | error errno =>
              apply drops
              simp [whole, bind, answered]
          | ok _ =>
              cases listen : l.listen with
              | error errno =>
                  apply drops
                  simp [whole, listen, answered]
              | ok _ =>
                  have listens : l.listens config = true := by
                    simp [whole, reuse, not_not.mp buffers, not_not.mp nodelay, bind, listen, answered]
                  rw [if_pos listens]
                  exact ⟨rfl, rfl, rfl⟩

end Attempts

section Loops

variable (config : Configuration) (hostname : List UInt8) (port : Int)

def Tried (config : Configuration) (listeners : List Listener) (b after : Bound) : Prop :=
  after.status = b.status ∧ after.fds = b.fds ++ listening config listeners ∧
    after.uses = b.uses ++ attempts config listeners

theorem listening_append (first second : List Listener) :
    listening config (first ++ second) = listening config first ++ listening config second :=
  List.filterMap_append

theorem attempts_append (first second : List Listener) :
    attempts config (first ++ second) = attempts config first ++ attempts config second := by
  simp [attempts]

-- What one step does with its addresses, the loop does with the addresses of all steps.
theorem tried_loop {A : Type} (step : Bound → A → Bound) (listeners : A → List Listener)
    (one : ∀ b a, Tried config (listeners a) b (step b a)) (all : List A) (b : Bound) :
    Tried config (all.flatMap listeners) b (all.foldl step b) := by
  induction all generalizing b with
  | nil => simp [Tried, listening, attempts]
  | cons a all ih =>
      obtain ⟨status, fds, uses⟩ := one b a
      obtain ⟨status', fds', uses'⟩ := ih (step b a)
      rw [List.foldl_cons, List.flatMap_cons]
      constructor
      · rw [status', status]
      constructor
      · rw [fds', fds, listening_append, List.append_assoc]
      · rw [uses', uses, attempts_append, List.append_assoc]

theorem bindAddress_tried (b : Bound) (l : Listener) :
    Tried config [l] b (bindAddress config hostname port b l) := by
  obtain ⟨status, fds, uses⟩ := bindAddress_attempt config hostname port b l
  constructor
  · exact status
  constructor
  · rw [fds]
    cases keeps : (l.attempt config).keeps <;> simp [listening, keeps]
  · rw [uses]
    simp [attempts]

theorem bindAddress_loop (listeners : List Listener) (b : Bound) :
    Tried config listeners b (listeners.foldl (bindAddress config hostname port) b) := by
  have loop := tried_loop config (bindAddress config hostname port) (fun l => [l])
    (bindAddress_tried config hostname port) listeners b
  rwa [List.flatMap_singleton'] at loop

def found (servinfo : Except (List UInt8) (List Listener)) : List Listener :=
  match servinfo with
  | .error _ => []
  | .ok listeners => listeners

theorem bindHost_tried (servinfo : Except (List UInt8) (List Listener)) :
    ((bindHost config hostname port servinfo).status = 0 ↔
        listening config (found servinfo) ≠ []) ∧
      (bindHost config hostname port servinfo).fds = listening config (found servinfo) ∧
        (bindHost config hostname port servinfo).uses = attempts config (found servinfo) := by
  cases servinfo with
  | error text => simp [bindHost, Bound.empty, found, listening, attempts]
  | ok listeners =>
      obtain ⟨status, fds, uses⟩ := bindAddress_loop config hostname port listeners (.empty 0 [])
      change _ = [] ++ listening config listeners at fds
      change _ = [] ++ attempts config listeners at uses
      rw [List.nil_append] at fds uses
      simp only [bindHost, found]
      split
      next empty =>
        have nothing : listening config listeners = [] := fds.symm.trans empty
        simp [nothing, empty, uses]
      next kept =>
        have several : listening config listeners ≠ [] := fun empty => kept (fds.trans empty)
        constructor
        · exact ⟨fun _ => several, fun _ => status⟩
        · exact ⟨fds, uses⟩

def Interface.listeners (ifa : Interface) : List Listener :=
  match ifa.addr with
  | none => []
  | some (family, _) =>
      if (family = .inet ∨ family = .inet6) ∧ ifa.up then found ifa.servinfo else []

theorem bindInterface_tried (star : Bound) (ifa : Interface) :
    Tried config ifa.listeners star (bindInterface config port star ifa) := by
  unfold bindInterface Interface.listeners
  cases ifa.addr with
  | none => simp [Tried, listening, attempts]
  | some both =>
      obtain ⟨family, addr⟩ := both
      obtain ⟨status, fds, uses⟩ := bindHost_tried config addr port ifa.servinfo
      dsimp only
      by_cases eligible : (family = .inet ∨ family = .inet6) ∧ ifa.up = true
      case neg =>
        rw [if_neg eligible, if_neg eligible]
        simp [Tried, listening, attempts]
      rw [if_pos eligible, if_pos eligible]
      split
      next failed =>
        have nothing : listening config (found ifa.servinfo) = [] :=
          not_not.mp (status.not.mp failed)
        simp [Tried, nothing, uses]
      next => simp [Tried, fds, uses]

theorem bindInterface_loop (interfaces : List Interface) (star : Bound) :
    Tried config (interfaces.flatMap Interface.listeners) star
      (interfaces.foldl (bindInterface config port) star) :=
  tried_loop config (bindInterface config port) Interface.listeners
    (bindInterface_tried config port) interfaces star

def attempted (hostname : List UInt8) (ifaddrs : Except Errno (List Interface))
    (servinfo : Except (List UInt8) (List Listener)) : List Listener :=
  if hostname = text "*" then
    match ifaddrs with
    | .error _ => []
    | .ok interfaces => interfaces.flatMap Interface.listeners
  else
    found servinfo

theorem pgprtdbgBind_tried (ifaddrs : Except Errno (List Interface))
    (servinfo : Except (List UInt8) (List Listener)) :
    (pgprtdbgBind config hostname port ifaddrs servinfo).fds =
        listening config (attempted hostname ifaddrs servinfo) ∧
      (pgprtdbgBind config hostname port ifaddrs servinfo).uses =
        attempts config (attempted hostname ifaddrs servinfo) := by
  unfold pgprtdbgBind attempted
  split
  next =>
    cases ifaddrs with
    | error errno => exact ⟨rfl, rfl⟩
    | ok interfaces =>
        obtain ⟨_, fds, uses⟩ := bindInterface_loop config port interfaces (.empty 0 [])
        exact ⟨fds, uses⟩
  next => exact (bindHost_tried config hostname port servinfo).2

-- With the wildcard only getifaddrs fails.
theorem pgprtdbgBind_status (ifaddrs : Except Errno (List Interface))
    (servinfo : Except (List UInt8) (List Listener)) :
    (pgprtdbgBind config hostname port ifaddrs servinfo).status = 0 ↔
      if hostname = text "*" then ∃ interfaces, ifaddrs = .ok interfaces
      else listening config (attempted hostname ifaddrs servinfo) ≠ [] := by
  unfold pgprtdbgBind attempted
  split
  next =>
    cases ifaddrs with
    | error errno => simp [Bound.empty]
    | ok interfaces =>
        have status := (bindInterface_loop config port interfaces (.empty 0 [])).1
        exact ⟨fun _ => ⟨interfaces, rfl⟩, fun _ => status⟩
  next => exact (bindHost_tried config hostname port servinfo).1

end Loops

structure BindsListening (config : Configuration) (listeners : List Listener) (bound : Bound) :
    Prop where
  status : bound.status = 0 ↔ ∃ l ∈ listeners, (∃ fd, l.socket = .ok fd) ∧ l.listens config
  fds : bound.status = 0 → bound.fds = listening config listeners
  once : bound.status = 0 → bound.fds.Nodup
  others : bound.status = 0 → live bound.uses = bound.fds ∧ Tidy bound.uses

theorem listening_none (config : Configuration) (listeners : List Listener) :
    listening config listeners = [] ↔
      ∀ l ∈ listeners, ¬ ((∃ fd, l.socket = .ok fd) ∧ l.listens config) := by
  have keeps (l : Listener) : (l.attempt config).keeps = none ↔
      ¬ ((∃ fd, l.socket = .ok fd) ∧ l.listens config) := by
    unfold Listener.attempt
    cases l.socket with
    | error errno => simp [Attempt.keeps]
    | ok fd => cases l.listens config <;> simp [Attempt.keeps]
  simp only [listening, List.filterMap_eq_nil_iff, keeps]

/--
With a kernel that gives out no descriptor that is open, pgprtdbg_bind does what it is for,
unless it binds to the wildcard, has the list of the interfaces, and listens on none of them.
-/
theorem bind_listening (config : Configuration) (hostname : List UInt8) (port : Int)
    (ifaddrs : Except Errno (List Interface)) (servinfo : Except (List UInt8) (List Listener))
    (kernel : Fresh (pgprtdbgBind config hostname port ifaddrs servinfo).uses) :
    BindsListening config (attempted hostname ifaddrs servinfo)
        (pgprtdbgBind config hostname port ifaddrs servinfo) ↔
      ¬ (hostname = text "*" ∧ (∃ interfaces, ifaddrs = .ok interfaces) ∧
        ∀ l ∈ attempted hostname ifaddrs servinfo,
          ¬ ((∃ fd, l.socket = .ok fd) ∧ l.listens config)) := by
  obtain ⟨fds, uses⟩ := pgprtdbgBind_tried config hostname port ifaddrs servinfo
  have status := pgprtdbgBind_status config hostname port ifaddrs servinfo
  have unused := listening_none config (attempted hostname ifaddrs servinfo)
  rw [uses, attempts] at kernel
  obtain ⟨left, tidy⟩ := live_attempts _ kernel
  have once := live_nodup _ kernel
  have kept : live (pgprtdbgBind config hostname port ifaddrs servinfo).uses =
      (pgprtdbgBind config hostname port ifaddrs servinfo).fds := by
    rw [uses, fds]
    exact left.trans List.filterMap_map
  constructor
  case mp =>
    rintro binds ⟨star, interfaces, empty⟩
    rw [if_pos star] at status
    obtain ⟨l, member, listens⟩ := binds.status.mp (status.mpr interfaces)
    exact empty l member listens
  case mpr =>
    intro reports
    have works : listening config (attempted hostname ifaddrs servinfo) ≠ [] ↔
        ∃ l ∈ attempted hostname ifaddrs servinfo, (∃ fd, l.socket = .ok fd) ∧ l.listens config := by
      rw [Ne, unused]
      push Not
      rfl
    constructor
    case status =>
      rw [status, ← works]
      split
      next star =>
        constructor
        · rintro ⟨interfaces, listed⟩ nothing
          exact reports ⟨star, ⟨interfaces, listed⟩, unused.mp nothing⟩
        · intro works
          cases ifaddrs with
          | ok interfaces => exact ⟨interfaces, rfl⟩
          | error errno => simp [attempted, star, listening] at works
      next => exact Iff.rfl
    case fds => exact fun _ => fds
    case once =>
      intro _
      rw [← kept, uses]
      exact once
    case others =>
      intro _
      constructor
      · exact kept
      · rw [uses]
        exact tidy

/-- bind() fails with EADDRINUSE. -/
def occupied (fd : Nat) : Listener :=
  { socket := .ok fd, reuseaddr := .ok (), rcvbuf := .ok (), sndbuf := .ok (), nodelay := .ok (),
    bind := .error (.other 98), listen := .ok () }

def loopback (servinfo : Except (List UInt8) (List Listener)) : Interface :=
  ⟨some (.inet, text "127.0.0.1"), true, servinfo⟩

-- The port is taken on the only interface, and "*" is bound all the same.
theorem bind_listening_occupied :
    ¬ ∀ (config : Configuration) (hostname : List UInt8) (port : Int)
      (ifaddrs : Except Errno (List Interface)) (servinfo : Except (List UInt8) (List Listener)),
      Fresh (pgprtdbgBind config hostname port ifaddrs servinfo).uses →
        BindsListening config (attempted hostname ifaddrs servinfo)
          (pgprtdbgBind config hostname port ifaddrs servinfo) := by
  intro always
  have binds := always initialConfiguration (text "*") 2345
    (.ok [loopback (.ok [occupied 7])]) (.ok []) (fresh_pair 7)
  obtain ⟨l, member, _, listens⟩ := binds.status.mp rfl
  rw [List.mem_singleton.mp member] at listens
  cases listens

def vacant (fd : Nat) : Listener := { occupied fd with bind := .ok () }

theorem bind_listening_vacant :
    Fresh (pgprtdbgBind initialConfiguration (text "localhost") 2345 (.ok [])
        (.ok [occupied 7, vacant 7])).uses ∧
      BindsListening initialConfiguration [occupied 7, vacant 7]
        (pgprtdbgBind initialConfiguration (text "localhost") 2345 (.ok [])
          (.ok [occupied 7, vacant 7])) := by
  have kernel : Fresh (pgprtdbgBind initialConfiguration (text "localhost") 2345 (.ok [])
      (.ok [occupied 7, vacant 7])).uses :=
    (fresh_opened [.opened 7, .closed 7] 7).mpr ⟨fresh_pair 7, by decide⟩
  have named : text "localhost" ≠ text "*" := by decide
  constructor
  · exact kernel
  · exact (bind_listening initialConfiguration (text "localhost") 2345 (.ok [])
      (.ok [occupied 7, vacant 7]) kernel).mpr fun star => named star.1

end Pgprtdbg
