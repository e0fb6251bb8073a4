import Pgprtdbg.Sockets.Accepting

set_option autoImplicit false

namespace Pgprtdbg

open CText Descriptors

/-- Whether the socket is at a path after some calls, when it was not there before. -/
def socketAt (path : List UInt8) (calls : List FileCall) : Bool :=
  calls.foldl (fun there call => match call with
    | .bind other => there || other = path
    | .unlink other => there && other ≠ path
    | .mkdir _ => there) false

def Configuration.unixName (config : Configuration) : List UInt8 :=
  config.unixSocketDir.string ++ text "/" ++ config.pgsql

def Configuration.unixPath (config : Configuration) : List UInt8 :=
  snprintf unixBufferLength config.unixName

def UnixAnswers.Binds (answers : UnixAnswers) : Prop :=
  (∃ fd, answers.socket = .ok fd) ∧ (answered answers.stat ∨ answered answers.mkdir) ∧
    answered answers.bind

section Path

@[simp] theorem socketAt_bind (path : List UInt8) (calls : List FileCall) :
    socketAt path (calls ++ [.bind path]) = true := by
  simp [socketAt]

@[simp] theorem socketAt_unlink (path other : List UInt8) (calls : List FileCall) :
    socketAt path (calls ++ [.unlink other]) = (socketAt path calls && other ≠ path) := by
  simp [socketAt]

theorem bind_path_files (config : Configuration) (answers : UnixAnswers) (fd : Nat)
    (made : List FileCall) (before : socketAt config.unixPath made = false) :
    let bound := bindUnixPath config.unixSocketDir.string config.pgsql answers fd made
    (socketAt config.unixPath bound.files = true ↔ answered answers.bind = true) ∧
      (bound.status = 0 → answered answers.bind = true) := by
  have path : snprintf unixBufferLength
      (config.unixSocketDir.string ++ text "/" ++ config.pgsql) = config.unixPath := rfl
  simp only [bindUnixPath, path]
  cases answers.bind with
  | error errno => simp [answered, before]
  | ok done =>
      have there := socketAt_bind config.unixPath (made ++ [.unlink config.unixPath])
      cases answers.listen with
      | error errno => exact ⟨by simp only [there, answered], fun _ => rfl⟩
      | ok done => exact ⟨by simp only [there, answered], fun _ => rfl⟩

theorem bind_unix_files (config : Configuration) (answers : UnixAnswers) :
    let bound := pgprtdbgBindUnixSocket config.unixSocketDir.string config.pgsql answers
    (socketAt config.unixPath bound.files = true ↔ answers.Binds) ∧
      (bound.status = 0 → answers.Binds) := by
  have nowhere : socketAt config.unixPath [] = false := rfl
  simp only [pgprtdbgBindUnixSocket, UnixAnswers.Binds]
  cases answers.socket with
  | error errno => simp [nowhere]
  | ok fd =>
      cases answers.stat with
      | ok done =>
          obtain ⟨files, status⟩ := bind_path_files config answers fd [] nowhere
          simpa [answered] using And.intro files status
      | error errno =>
          cases answers.mkdir with
          | error errno => simp [nowhere, answered]
          | ok done =>
              obtain ⟨files, status⟩ := bind_path_files config answers fd
                [.mkdir (snprintf unixBufferLength config.unixSocketDir.string)] nowhere
              simpa [answered] using And.intro files status

-- The two arrays cut the name at different places, or not at all.
theorem removed_iff (config : Configuration) :
    snprintf miscLength config.unixName = config.unixPath ↔
      config.unixName.length < unixBufferLength := by
  unfold Configuration.unixPath snprintf miscLength unixBufferLength
  constructor
  · intro same
    have lengths := congrArg List.length same
    simp only [List.length_take] at lengths
    omega
  · intro short
    rw [List.take_of_length_le (by omega), List.take_of_length_le (by omega)]

end Path

section Runs

structure Filed (start m : Main) : Prop where
  config : m.config = start.config
  running : m.keepRunning = true → m.files = start.files
  stopped : m.keepRunning = false → m.config.hasUnixSocket = true →
    m.files = start.files ++ [.unlink (snprintf miscLength start.config.unixName)]

theorem filed_moves (start m after : Main) (action : MainAction) (moves : MainMoves m action after)
    (filed : Filed start m) : Filed start after := by
  cases moves with
  | accept a socket known running =>
      have same : (acceptCb m a socket).config = m.config ∧
          (acceptCb m a socket).keepRunning = m.keepRunning ∧
          (acceptCb m a socket).files = m.files := by
        unfold acceptCb
        split
        next => exact ⟨rfl, rfl, rfl⟩
        next =>
          split
          next => exact ⟨rfl, rfl, rfl⟩
          next => cases a.forked <;> exact ⟨rfl, rfl, rfl⟩
      obtain ⟨config, still, files⟩ := same
      constructor
      case config => exact config.trans filed.config
      case running => exact fun _ => files.trans (filed.running running)
      case stopped =>
        intro not_running
        rw [still, running] at not_running
        cases not_running
  | connect k servinfo child here first => exact ⟨filed.config, filed.running, filed.stopped⟩
  | disconnect k child connected here given first =>
      exact ⟨filed.config, filed.running, filed.stopped⟩
  | gone k child here => exact ⟨filed.config, filed.running, filed.stopped⟩
  | stop running without =>
      constructor
      case config => exact filed.config
      case running => exact fun still => by cases still
      case stopped =>
        intro _ has
        rw [without] at has
        cases has
  | stopUnix running has =>
      constructor
      case config => exact filed.config
      case running => exact fun still => by cases still
      case stopped =>
        intro _ _
        change m.files ++ (shutdownUds m).2 = _
        rw [filed.running running, ← filed.config]
        rfl

theorem exited_files (config : Configuration) (answers : StartupAnswers) (code : Int)
    (printed : Printed) (files : List FileCall)
    (ended : startMain config answers = .exited code printed files) :
    files = (startUnix config answers.unix).files := by
  unfold startMain at ended
  dsimp only at ended
  split at ended
  next =>
    cases ended
    rfl
  next =>
    split at ended
    next =>
      cases ended
      rfl
    next =>
      split at ended
      next =>
        cases ended
        rfl
      next =>
        split at ended
        next =>
          cases ended
          rfl
        next => cases ended

/--
The Unix Domain Socket stays in the file system when main gives up after bind() and, in the end, when
its name is longer than the array that it was bound with: then main unlinks another path.
-/
theorem unix_socket_left (config : Configuration) (answers : StartupAnswers)
    (has : config.hasUnixSocket = true) :
    (∀ code printed files, startMain config answers = .exited code printed files →
      (socketAt config.unixPath files = true ↔ answers.unix.Binds)) ∧
    ∀ start actions m, startMain config answers = .serving start →
      Steps.run Main.step start actions = some m →
      (socketAt config.unixPath m.files = true ↔
        m.keepRunning = true ∨ unixBufferLength ≤ config.unixName.length) := by
  have unix : startUnix config answers.unix =
      pgprtdbgBindUnixSocket config.unixSocketDir.string config.pgsql answers.unix := if_pos has
  obtain ⟨there, bound⟩ := bind_unix_files config answers.unix
  constructor
  · intro code printed files ended
    rw [exited_files config answers code printed files ended, unix, there]
  · intro start actions m begun reached
    obtain ⟨status, _, same⟩ := start_serving config answers start begun
    rw [unix] at status
    have files : socketAt config.unixPath start.files = true := by
      rw [same, unix]
      exact there.mpr (bound status)
    have filed : Filed start m := by
      apply Steps.run_invariant Main.step (fun _ m => Filed start m) start
      case initial =>
        refine ⟨rfl, fun _ => rfl, fun stopped => ?_⟩
        rw [same] at stopped
        cases stopped
      case preserved =>
        intro _ before action after held taken
        exact filed_moves start before after action (main_moves before after action taken) held
      case reached => exact reached
    have config_same : start.config = config := by rw [same]
    cases running : m.keepRunning with
    | true => simp [filed.running running, files]
    | false =>
        have socket : m.config.hasUnixSocket = true := by rw [filed.config, config_same, has]
        rw [filed.stopped running socket, socketAt_unlink, files, config_same, Bool.true_and,
          decide_eq_true_iff, ne_eq, removed_iff, Nat.not_lt]
        simp

end Runs

/-- A directory with a name of 100 bytes: it fits, and the socket's name in it does not. -/
def longDirectory : Configuration :=
  { Configuration.zeroed with
    port := 5432
    unixSocketDir := .holding miscLength (47 :: List.replicate 99 97) }

theorem unix_socket_left_long :
    ∃ start m, startMain longDirectory tcpAndUnix = .serving start ∧
      Steps.run Main.step start [.shutdown] = some m ∧ m.keepRunning = false ∧
      socketAt longDirectory.unixPath m.files = true := by
  obtain ⟨start, m, begun, reached, stopped⟩ : ∃ start m,
      startMain longDirectory tcpAndUnix = .serving start ∧
        Steps.run Main.step start [.shutdown] = some m ∧ m.keepRunning = false :=
    ⟨_, _, rfl, rfl, rfl⟩
  have long : unixBufferLength ≤ longDirectory.unixName.length := by
    have directory : longDirectory.unixSocketDir.string.length = 100 := by decide
    have file : longDirectory.pgsql = text ".s.PGSQL.5432" := by decide
    rw [Configuration.unixName, file, List.length_append, List.length_append, directory]
    decide
  have left := (unix_socket_left longDirectory tcpAndUnix (by decide)).2 start _ m begun reached
  exact ⟨start, m, begun, reached, stopped, left.mpr (.inr long)⟩

end Pgprtdbg
