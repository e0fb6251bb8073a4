import Pgprtdbg.Model.Network

set_option autoImplicit false

namespace Pgprtdbg

open Descriptors

structure Candidate.Connects (config : Configuration) (c : Candidate) : Prop where
  socket : ∃ fd, c.socket = .ok fd
  keepAlive : config.keepAlive → c.keepAlive = .ok ()
  nodelay : config.nodelay → c.nodelay = .ok ()
  rcvbuf : c.rcvbuf = .ok ()
  sndbuf : c.sndbuf = .ok ()
  connect : c.connect = .ok ()

def addresses (servinfo : Except (List UInt8) (List Candidate)) : List Candidate :=
  match servinfo with
  | .error _ => []
  | .ok candidates => candidates

structure ConnectsFirst (config : Configuration) (candidates : List Candidate)
    (connected : Connected) : Prop where
  status : connected.status = 0 ↔ ∃ c ∈ candidates, c.Connects config
  first : connected.status = 0 → ∃ before c after, ∃ fd : Nat,
    candidates = before ++ c :: after ∧ (∀ other ∈ before, ¬ other.Connects config) ∧
      c.Connects config ∧ c.socket = .ok fd ∧ connected.fd = fd
  others : connected.status = 0 → live connected.uses = [connected.fd] ∧ Tidy connected.uses
  failed : connected.status = 1 → .closed connected.fd ∉ connected.uses
  worker : Tidy (workerUses connected)

def FirstDecides (config : Configuration) (candidates : List Candidate) : Prop :=
  ∀ c rest, candidates = c :: rest →
    c.Connects config ∨
      (∃ errno, c.socket = .error errno) ∧ ∀ other ∈ rest, ¬ other.Connects config

theorem failure_none (made : Bool) (format : String) (answer : Except Errno Unit) :
    failure made format answer = none ↔ (made → answer = .ok ()) := by
  cases made <;> cases answer <;> simp [failure]

theorem refused_none (config : Configuration) (c : Candidate) (socket : ∃ fd, c.socket = .ok fd) :
    c.refused config = none ↔ c.Connects config := by
  simp only [Candidate.refused, Option.or_eq_none_iff, failure_none]
  constructor
  case mp =>
    rintro ⟨keepAlive, nodelay, rcvbuf, sndbuf, connect⟩
    exact ⟨socket, keepAlive, nodelay, rcvbuf trivial, sndbuf trivial, connect trivial⟩
  case mpr =>
    intro connects
    exact ⟨connects.keepAlive, connects.nodelay, fun _ => connects.rcvbuf, fun _ => connects.sndbuf,
      fun _ => connects.connect⟩

theorem disconnect_open (fd : Nat) : pgprtdbgDisconnect fd = [.closed (fd : Int)] := by
  have other : (fd : Int) ≠ -1 := by omega
  rw [pgprtdbgDisconnect, if_neg other]

section Loop

variable {config : Configuration} {c : Candidate} {rest : List Candidate}

-- Without a descriptor there is nothing to close; what is wrong is only that an address works.
theorem gives_up (candidates : List Candidate) (connected : Connected) (status : connected.status = 1)
    (fd : connected.fd = -1) (uses : connected.uses = []) :
    ConnectsFirst config candidates connected ↔ ∀ c ∈ candidates, ¬ c.Connects config := by
  have failed : connected.status ≠ 0 := by
    rw [status]
    decide
  constructor
  case mp =>
    intro first c member connects
    exact failed (first.status.mpr ⟨c, member, connects⟩)
  case mpr =>
    intro refused
    constructor
    case status =>
      constructor
      · exact fun success => absurd success failed
      · rintro ⟨c, member, connects⟩
        exact absurd connects (refused c member)
    case first => exact fun success => absurd success failed
    case others => exact fun success => absurd success failed
    case failed => simp [uses]
    case worker =>
      rw [workerUses, uses, fd]
      exact tidy_nil

-- The first address works.
theorem connects_first (connects : c.Connects config) :
    ConnectsFirst config (c :: rest) (connectLoop config (-1) (c :: rest)) := by
  obtain ⟨fd, socket⟩ := connects.socket
  have accepted := (refused_none config c ⟨fd, socket⟩).mpr connects
  simp only [connectLoop, socket, accepted]
  constructor
  case status => simp [connects]
  case first => exact fun _ => ⟨[], c, rest, fd, rfl, by simp, connects, socket, rfl⟩
  case others => exact fun _ => ⟨live_one _, tidy_one _⟩
  case failed => simp
  case worker =>
    rw [workerUses, disconnect_open]
    exact tidy_pair _

-- The first address has a socket that cannot be connected: it is closed, and stays in *fd.
theorem connects_closed (fd : Nat) (socket : c.socket = .ok fd) (connects : ¬ c.Connects config) :
    ¬ ConnectsFirst config (c :: rest) (connectLoop config (-1) (c :: rest)) := by
  intro first
  have refused := (refused_none config c ⟨fd, socket⟩).not.mpr connects
  obtain ⟨line, shown⟩ := Option.ne_none_iff_exists'.mp refused
  have left := first.failed
  simp only [connectLoop, socket, shown, disconnect_open] at left
  simp at left

end Loop

/--
pgprtdbg_connect takes the first address that works, as long as the first address decides: it
works, or it has no socket and no other one works, or there is none.
-/
theorem connect_first (config : Configuration) (servinfo : Except (List UInt8) (List Candidate)) :
    ConnectsFirst config (addresses servinfo) (pgprtdbgConnect config servinfo (-1)) ↔
      FirstDecides config (addresses servinfo) := by
  cases servinfo with
  | error text =>
      rw [gives_up _ _ rfl rfl rfl]
      simp [addresses, FirstDecides]
  | ok candidates =>
      cases candidates with
      | nil =>
          rw [gives_up _ _ rfl rfl rfl]
          simp [addresses, FirstDecides]
      | cons c rest =>
          have decides : FirstDecides config (addresses (.ok (c :: rest))) ↔ c.Connects config ∨
              (∃ errno, c.socket = .error errno) ∧ ∀ other ∈ rest, ¬ other.Connects config := by
            simp [addresses, FirstDecides]
          rw [decides]
          change ConnectsFirst config (c :: rest) (connectLoop config (-1) (c :: rest)) ↔ _
          cases socket : c.socket with
          | error errno =>
              have refuses : ¬ c.Connects config := by
                rintro ⟨⟨fd, never⟩, _⟩
                rw [socket] at never
                cases never
              have shape : connectLoop config (-1) (c :: rest) =
                  ⟨1, -1, [], [("pgprtdbg_connect: socket: %s", [.strerror errno])], []⟩ := by
                rw [connectLoop, socket]
              rw [gives_up _ _ (by rw [shape]) (by rw [shape]) (by rw [shape]), List.forall_mem_cons]
              simp [refuses]
          | ok fd =>
              by_cases connects : c.Connects config
              · simp [connects, connects_first]
              · simp [connects, connects_closed fd socket connects]

def working (fd : Nat) : Candidate :=
  { socket := .ok fd, keepAlive := .ok (), nodelay := .ok (), rcvbuf := .ok (), sndbuf := .ok (),
    connect := .ok () }

/-- connect() fails with ECONNREFUSED. -/
def refusing (fd : Nat) : Candidate := { working fd with connect := .error (.other 111) }

-- localhost as ::1, where nobody listens, and then 127.0.0.1, where the server does.
theorem connect_first_refused :
    ¬ ∀ (config : Configuration) (servinfo : Except (List UInt8) (List Candidate)),
      ConnectsFirst config (addresses servinfo) (pgprtdbgConnect config servinfo (-1)) := by
  intro always
  have first := always initialConfiguration (.ok [refusing 7, working 7])
  have connects : (working 7).Connects initialConfiguration := by
    constructor <;> first | exact ⟨7, rfl⟩ | exact fun _ => rfl | rfl
  have success := first.status.mpr ⟨working 7, by simp [addresses], connects⟩
  revert success
  decide +kernel

end Pgprtdbg
