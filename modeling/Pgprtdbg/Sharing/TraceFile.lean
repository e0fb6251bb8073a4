import Mathlib.Data.Nat.Digits.Lemmas
import Pgprtdbg.Model.TraceFile
import Pgprtdbg.Shared.Steps

set_option autoImplicit false

namespace Pgprtdbg

section Lines

def Output.FromSource (o : Output) : Prop :=
  o.text = none ∧ -(2 : Int) ^ 31 ≤ o.fromFd ∧ o.fromFd < 2 ^ 31 ∧ -(2 : Int) ^ 31 ≤ o.toFd ∧
    o.toFd < 2 ^ 31

def numeral (number : Nat) : List UInt8 :=
  (Nat.digits 10 number).reverse.map fun digit => UInt8.ofNat (48 + digit)

theorem decimal_numeral (value : Int) :
    decimal value =
      if value < 0 then 45 :: numeral value.natAbs
      else if value = 0 then [48] else numeral value.natAbs := rfl

theorem numeral_bytes (number : Nat) : ∀ byte ∈ numeral number, 48 ≤ byte ∧ byte ≤ 57 := by
  have shown : ∀ small < 10, 48 ≤ UInt8.ofNat (48 + small) ∧ UInt8.ofNat (48 + small) ≤ 57 := by
    decide
  intro byte member
  obtain ⟨digit, here, same⟩ := List.mem_map.mp member
  rw [← same]
  exact shown digit (Nat.digits_lt_base (by decide) (List.mem_reverse.mp here))

theorem decimal_bytes (value : Int) :
    ∀ byte ∈ decimal value, byte = 45 ∨ (48 ≤ byte ∧ byte ≤ 57) := by
  intro byte member
  rw [decimal_numeral] at member
  split at member
  · rcases List.mem_cons.mp member with minus | digit
    · exact Or.inl minus
    · exact Or.inr (numeral_bytes _ byte digit)
  · split at member
    · rw [List.mem_singleton.mp member]
      decide
    · exact Or.inr (numeral_bytes _ byte member)

theorem shownKind_bytes (o : Output) :
    ∀ byte ∈ o.shownKind, byte = 45 ∨ 48 ≤ byte := by
  intro byte member
  unfold Output.shownKind at member
  split at member
  next shown =>
    have low : 48 ≤ o.kind := by
      rcases shown with upper | lower | digit | question
      · exact Int8.le_trans (by decide) upper.1
      · exact Int8.le_trans (by decide) lower.1
      · exact digit.1
      · rw [question]
        decide
    rw [List.mem_singleton.mp member]
    exact Or.inr (Int8.toUInt8_le (by decide) low)
  next =>
    rcases decimal_bytes _ byte member with minus | digit
    · exact Or.inl minus
    · exact Or.inr digit.1

-- A digit, the minus sign, the comma and what is shown as a character are no newlines.
theorem decimal_no_newline (value : Int) : 10 ∉ decimal value := by
  intro member
  have plain := decimal_bytes value 10 member
  revert plain
  decide

theorem decimal_length_le (value : Int) (low : -(2 : Int) ^ 31 ≤ value) (high : value < 2 ^ 31) :
    (decimal value).length ≤ 11 := by
  have short : (numeral value.natAbs).length ≤ 10 := by
    rw [numeral, List.length_map, List.length_reverse, Nat.digits_length_le_iff (by decide)]
    omega
  rw [decimal_numeral]
  split
  · rw [List.length_cons]
    omega
  · split
    · simp
    · omega

theorem shownKind_plain (o : Output) : 10 ∉ o.shownKind ∧ o.shownKind.length ≤ 11 := by
  constructor
  · intro member
    have plain := shownKind_bytes o 10 member
    revert plain
    decide
  · unfold Output.shownKind
    split
    next => simp
    next =>
      have low := o.kind.le_toInt
      have high := o.kind.toInt_lt
      exact decimal_length_le _ (by omega) (by omega)

theorem line_ne_nil (outputSockets : Bool) (o : Output) : o.line outputSockets ≠ [] := by
  simp [Output.line, miscLength]

theorem line_fields (outputSockets : Bool) (o : Output) (source : o.FromSource) :
    let fields := List.intercalate [44] (o.fields outputSockets)
    10 ∉ fields ∧ fields.length < miscLength - 1 := by
  obtain ⟨text, from_low, from_high, to_low, to_high⟩ := source
  have kind := shownKind_plain o
  have sender : 10 ∉ o.id.id ∧ o.id.id.length = 1 := by
    cases o.id <;> decide
  have from_length := decimal_length_le o.fromFd from_low from_high
  have to_length := decimal_length_le o.toFd to_low to_high
  have from_plain := decimal_no_newline o.fromFd
  have to_plain := decimal_no_newline o.toFd
  cases outputSockets with
  | false =>
      constructor
      · simp [Output.fields, text, List.intercalate, sender.1, kind.1]
      · simp [Output.fields, text, List.intercalate, sender.2, miscLength]
        omega
  | true =>
      constructor
      · simp [Output.fields, text, List.intercalate, sender.1, kind.1, from_plain, to_plain]
      · simp [Output.fields, text, List.intercalate, sender.2, miscLength]
        omega

-- What the decoder writes is never cut: its line ends in the only newline it has.
theorem line_whole (outputSockets : Bool) (o : Output) (source : o.FromSource) :
    ∃ body, o.line outputSockets = body ++ [10] ∧ 10 ∉ body := by
  have fields := line_fields outputSockets o source
  refine ⟨_, ?_, fields.1⟩
  apply List.take_of_length_le
  have short := fields.2
  simp only [List.length_append, List.length_singleton]
  omega

end Lines

section Merge

variable {Process : Type} [DecidableEq Process]

def TraceAction.calledBy (process : Process) : TraceAction Process → Option Output
  | .semWait caller o => if caller = process then some o else none
  | _ => none

def callsOf (process : Process) (actions : List (TraceAction Process)) : List Output :=
  actions.filterMap (TraceAction.calledBy process)

def TraceFile.unfinished (s : TraceFile Process) (process : Process) : Option Output :=
  match s.writing process with
  | .outside => none
  | .entered o => some o
  | .flushing o => if s.buffer process = [] then none else some o

def written (outputSockets : Bool) (log : List (Process × Output)) : List UInt8 :=
  log.flatMap fun entry => entry.2.line outputSockets

def entriesOf (process : Process) (log : List (Process × Output)) : List Output :=
  log.filterMap fun entry => if entry.1 = process then some entry.2 else none

omit [DecidableEq Process] in
@[simp] theorem written_append (outputSockets : Bool) (log more : List (Process × Output)) :
    written outputSockets (log ++ more) = written outputSockets log ++ written outputSockets more := by
  simp [written]

@[simp] theorem entriesOf_append (process : Process) (log more : List (Process × Output)) :
    entriesOf process (log ++ more) = entriesOf process log ++ entriesOf process more := by
  simp [entriesOf]

inductive Within (outputSockets : Bool) (part : List UInt8) : Writing → List UInt8 → Prop where
  | entered (o : Output) (nothing : part = []) : Within outputSockets part (.entered o) []
  | flushing (o : Output) (buffer : List UInt8) (more : buffer ≠ [])
      (line : part ++ buffer = o.line outputSockets) :
      Within outputSockets part (.flushing o) buffer
  | flushed (o : Output) (nothing : part = []) : Within outputSockets part (.flushing o) []

/-- The semaphore lets one worker in; the buffers of the others are empty. -/
inductive Section (outputSockets : Bool) (part : List UInt8) (s : TraceFile Process) : Prop where
  | free (lock : s.lock = 1) (nothing : part = [])
      (outside : ∀ process, s.writing process = .outside ∧ s.buffer process = [])
  | taken (process : Process) (lock : s.lock = 0)
      (within : Within outputSockets part (s.writing process) (s.buffer process))
      (outside : ∀ other, other ≠ process → s.writing other = .outside ∧ s.buffer other = [])

structure Merged (outputSockets : Bool) (before : List UInt8)
    (actions : List (TraceAction Process)) (s : TraceFile Process) (log : List (Process × Output))
    (part : List UInt8) : Prop where
  file : s.file = before ++ written outputSockets log ++ part
  each : ∀ process, callsOf process actions = entriesOf process log ++ (s.unfinished process).toList
  alone : Section outputSockets part s

omit [DecidableEq Process] in
theorem Section.worker {outputSockets : Bool} {part : List UInt8} {s : TraceFile Process}
    (alone : Section outputSockets part s) (process : Process)
    (inside : s.writing process ≠ .outside) :
    s.lock = 0 ∧ Within outputSockets part (s.writing process) (s.buffer process) ∧
      ∀ other, other ≠ process → s.writing other = .outside ∧ s.buffer other = [] := by
  cases alone with
  | free lock nothing outside => exact absurd (outside process).1 inside
  | taken worker lock within outside =>
      by_cases same : process = worker
      · rw [same]
        exact ⟨lock, within, outside⟩
      · exact absurd (outside process same).1 inside

-- Moving one worker changes what is unfinished of no other one.
theorem unfinished_move (s : TraceFile Process) (process other : Process) (writing : Writing)
    (buffer : List UInt8) (different : other ≠ process) :
    (s.move process writing buffer).unfinished other = s.unfinished other := by
  simp [TraceFile.unfinished, different]

theorem callsOf_snoc (process : Process) (actions : List (TraceAction Process))
    (action : TraceAction Process) :
    callsOf process (actions ++ [action]) =
      callsOf process actions ++ (action.calledBy process).toList := by
  simp only [callsOf, List.filterMap_append]
  cases called : action.calledBy process <;> simp [called]

-- One worker goes on; what is in the log and what it has not finished are all its calls.
theorem Merged.each_move {outputSockets : Bool} {before part : List UInt8}
    {actions : List (TraceAction Process)} {s : TraceFile Process} {log : List (Process × Output)}
    (merged : Merged outputSockets before actions s log part) (process : Process)
    (writing : Writing) (buffer : List UInt8) (action : TraceAction Process)
    (whole : List Output)
    (others : ∀ other, other ≠ process → action.calledBy other = none)
    (here : (s.unfinished process).toList ++ (action.calledBy process).toList =
      whole ++ ((s.move process writing buffer).unfinished process).toList) (worker : Process) :
    callsOf worker (actions ++ [action]) =
      entriesOf worker (log ++ whole.map fun o => (process, o)) ++
        ((s.move process writing buffer).unfinished worker).toList := by
  rw [callsOf_snoc, merged.each worker, entriesOf_append, List.append_assoc, List.append_assoc]
  congr 1
  by_cases same : worker = process
  · subst same
    rw [here]
    congr 1
    induction whole with
    | nil => rfl
    | cons o whole ih => simp [entriesOf]
  · rw [unfinished_move s process worker writing buffer same, others worker same]
    have none_here : entriesOf worker (whole.map fun o => (process, o)) = [] := by
      simp [entriesOf, Ne.symm same]
    rw [none_here, Option.toList_none, List.append_nil, List.nil_append]

theorem merged_initial (outputSockets : Bool) (file : List UInt8) :
    Merged outputSockets file [] (.initial file : TraceFile Process) [] [] := by
  constructor
  case file => simp [TraceFile.initial, written]
  case each => simp [callsOf, entriesOf, TraceFile.unfinished, TraceFile.initial]
  case alone => exact .free rfl rfl fun _ => ⟨rfl, rfl⟩

section Step

variable {outputSockets : Bool} {before part : List UInt8} {actions : List (TraceAction Process)}
  {s after : TraceFile Process} {log : List (Process × Output)}

theorem merged_semWait (merged : Merged outputSockets before actions s log part) (process : Process)
    (o : Output) (taken : s.step outputSockets (.semWait process o) = some after) :
    Merged outputSockets before (actions ++ [.semWait process o]) after log part := by
  by_cases enabled : s.writing process = .outside ∧ 0 < s.lock
  case neg => simp [TraceFile.step, enabled] at taken
  simp only [TraceFile.step, enabled, and_self, if_true, Option.some.injEq] at taken
  cases merged.alone with
  | taken worker lock _ _ => omega
  | free lock nothing outside =>
      subst taken
      constructor
      case file => exact merged.file
      case each =>
        have each := merged.each_move process (.entered o) (s.buffer process) (.semWait process o) []
          (fun other different => by simp [TraceAction.calledBy, Ne.symm different])
          (by simp [TraceFile.unfinished, enabled.1, TraceAction.calledBy])
        rw [List.map_nil, List.append_nil] at each
        exact each
      case alone =>
        apply Section.taken process
        case lock => simp [lock]
        case within =>
          simp only [TraceFile.move, Function.update_self, (outside process).2]
          exact .entered o nothing
        case outside =>
          intro other different
          simpa [TraceFile.move, different] using outside other

theorem merged_fputs (merged : Merged outputSockets before actions s log part) (process : Process)
    (taken : s.step outputSockets (.fputs process) = some after) :
    Merged outputSockets before (actions ++ [.fputs process]) after log part := by
  cases writing : s.writing process with
  | outside => simp [TraceFile.step, writing] at taken
  | flushing o => simp [TraceFile.step, writing] at taken
  | entered o =>
      simp only [TraceFile.step, writing, Option.some.injEq] at taken
      obtain ⟨lock, within, outside⟩ := merged.alone.worker process (by simp [writing])
      rw [writing] at within
      generalize held : s.buffer process = buffer at within taken
      cases within with
      | entered _ nothing =>
          subst taken
          have more := line_ne_nil outputSockets o
          constructor
          case file => exact merged.file
          case each =>
            have each := merged.each_move process (.flushing o) ([] ++ o.line outputSockets)
              (.fputs process) [] (fun _ _ => rfl)
              (by simp [TraceFile.unfinished, writing, TraceAction.calledBy, more])
            simpa using each
          case alone =>
            apply Section.taken process
            case lock => exact lock
            case within =>
              simp only [move_writing, move_buffer, if_true, List.nil_append]
              exact .flushing o _ more (by rw [nothing, List.nil_append])
            case outside =>
              intro other different
              simpa [different] using outside other different

theorem merged_append (merged : Merged outputSockets before actions s log part) (process : Process)
    (count : Nat) (taken : s.step outputSockets (.append process count) = some after) :
    ∃ log part, Merged outputSockets before (actions ++ [.append process count]) after log part := by
  cases writing : s.writing process with
  | outside => simp [TraceFile.step, writing] at taken
  | entered o => simp [TraceFile.step, writing] at taken
  | flushing o =>
      by_cases enabled : 0 < count ∧ count ≤ (s.buffer process).length
      case neg => simp [TraceFile.step, writing, enabled] at taken
      simp only [TraceFile.step, writing, enabled, and_self, if_true, Option.some.injEq] at taken
      obtain ⟨lock, within, outside⟩ := merged.alone.worker process (by simp [writing])
      rw [writing] at within
      generalize held : s.buffer process = buffer at within taken enabled
      have unfinished (more : buffer ≠ []) : s.unfinished process = some o := by
        simp [TraceFile.unfinished, writing, held, more]
      have others (other : Process) (different : other ≠ process) :
          after.writing other = .outside ∧ after.buffer other = [] := by
        subst taken
        simpa [TraceFile.move, different] using outside other different
      cases within with
      | flushed _ nothing =>
          have none_left := Nat.le_zero.mp enabled.2
          omega
      | flushing _ _ more line =>
          by_cases last : buffer.drop count = []
          · -- The line is whole: it joins the log, and nothing is unfinished.
            have all : buffer.take count = buffer :=
              List.take_of_length_le (List.drop_eq_nil_iff.mp last)
            refine ⟨log ++ [(process, o)], [], ?_⟩
            constructor
            case file =>
              subst taken
              simp only [merged.file, all, written_append, List.append_assoc, line]
              simp [written]
            case each =>
              have each := merged.each_move process (.flushing o) (buffer.drop count)
                (.append process count) [o] (fun _ _ => rfl)
                (by
                  rw [unfinished more]
                  simp [TraceFile.unfinished, TraceAction.calledBy, last])
              subst taken
              exact each
            case alone =>
              apply Section.taken process
              case lock => rw [← taken]; exact lock
              case within =>
                subst taken
                simp only [TraceFile.move, Function.update_self, last]
                exact .flushed o rfl
              case outside => exact others
          · refine ⟨log, part ++ buffer.take count, ?_⟩
            constructor
            case file =>
              subst taken
              simp [merged.file]
            case each =>
              have each := merged.each_move process (.flushing o) (buffer.drop count)
                (.append process count) [] (fun _ _ => rfl)
                (by
                  rw [unfinished more]
                  simp [TraceFile.unfinished, TraceAction.calledBy, last])
              rw [List.map_nil, List.append_nil] at each
              subst taken
              exact each
            case alone =>
              apply Section.taken process
              case lock => rw [← taken]; exact lock
              case within =>
                subst taken
                simp only [TraceFile.move, Function.update_self]
                exact .flushing o _ last (by rw [List.append_assoc, List.take_append_drop, line])
              case outside => exact others

theorem merged_semPost (merged : Merged outputSockets before actions s log part) (process : Process)
    (taken : s.step outputSockets (.semPost process) = some after) :
    Merged outputSockets before (actions ++ [.semPost process]) after log part := by
  cases writing : s.writing process with
  | outside => simp [TraceFile.step, writing] at taken
  | entered o => simp [TraceFile.step, writing] at taken
  | flushing o =>
      by_cases empty : s.buffer process = []
      case neg => simp [TraceFile.step, writing, empty] at taken
      simp only [TraceFile.step, writing, empty, if_true, Option.some.injEq] at taken
      obtain ⟨lock, within, outside⟩ := merged.alone.worker process (by simp [writing])
      rw [writing, empty] at within
      subst taken
      constructor
      case file => exact merged.file
      case each =>
        have each := merged.each_move process .outside [] (.semPost process) [] (fun _ _ => rfl)
          (by simp [TraceFile.unfinished, writing, empty, TraceAction.calledBy])
        rw [List.map_nil, List.append_nil] at each
        exact each
      case alone =>
        apply Section.free
        case lock => simp [lock]
        case nothing =>
          cases within with
          | flushing _ _ more _ => exact absurd rfl more
          | flushed _ nothing => exact nothing
        case outside =>
          intro other
          by_cases same : other = process
          · simp [TraceFile.move, same]
          · simpa [TraceFile.move, same] using outside other same

theorem merged_step (merged : Merged outputSockets before actions s log part)
    (action : TraceAction Process) (taken : s.step outputSockets action = some after) :
    ∃ log part, Merged outputSockets before (actions ++ [action]) after log part := by
  cases action with
  | semWait process o => exact ⟨log, part, merged_semWait merged process o taken⟩
  | fputs process => exact ⟨log, part, merged_fputs merged process taken⟩
  | append process count => exact merged_append merged process count taken
  | semPost process => exact ⟨log, part, merged_semPost merged process taken⟩

end Step

/--
Whatever the order of the steps, the file is what it was, then whole lines, then at most a
part of one more: the next one of a worker that has not finished it. For each worker the
lines are those it has emitted, in its order, and each of them ends in its only newline.
-/
theorem trace_file_merges (outputSockets : Bool) (before : List UInt8)
    (actions : List (TraceAction Process)) (s : TraceFile Process)
    (reached : Steps.run (TraceFile.step outputSockets) (.initial before) actions = some s) :
    ∃ log part, s.file = before ++ written outputSockets log ++ part ∧
      (∀ process,
        callsOf process actions = entriesOf process log ++ (s.unfinished process).toList) ∧
      (part = [] ∨ ∃ process o rest, s.unfinished process = some o ∧ rest ≠ [] ∧
        part ++ rest = o.line outputSockets) ∧
      ∀ entry ∈ log, entry.2.FromSource →
        ∃ body, entry.2.line outputSockets = body ++ [10] ∧ 10 ∉ body := by
  have kept : ∃ log part, Merged outputSockets before actions s log part := by
    apply Steps.run_invariant (TraceFile.step outputSockets)
      (fun actions s => ∃ log part, Merged outputSockets before actions s log part)
      (.initial before) ⟨[], [], merged_initial outputSockets before⟩
    · intro actions s action after held taken
      obtain ⟨log, part, merged⟩ := held
      exact merged_step merged action taken
    · exact reached
  obtain ⟨log, part, merged⟩ := kept
  refine ⟨log, part, merged.file, merged.each, ?_, ?_⟩
  · cases merged.alone with
    | free _ nothing _ => exact .inl nothing
    | taken process _ within _ =>
        generalize writing : s.writing process = position at within
        generalize held : s.buffer process = buffer at within
        cases within with
        | entered o nothing => exact .inl nothing
        | flushed o nothing => exact .inl nothing
        | flushing o _ more line =>
            right
            refine ⟨process, o, buffer, ?_, more, line⟩
            simp [TraceFile.unfinished, writing, held, more]
  · exact fun entry _ source => line_whole outputSockets entry.2 source

end Merge

def clientQuery : Output := ⟨.client, 5, 6, 81, none⟩

def serverReady : Output := ⟨.server, 8, 7, 90, none⟩

theorem trace_file_two_workers :
    ∃ s : TraceFile Nat, (Steps.run (TraceFile.step false) (.initial [])
      [.semWait 0 clientQuery, .fputs 0, .append 0 1, .append 0 3, .semPost 0,
        .semWait 1 serverReady, .fputs 1, .append 1 2]) = some s ∧
      ∃ log part, s.file = [] ++ written false log ++ part ∧
        callsOf 0 [.semWait 0 clientQuery, .fputs 0, .append 0 1, .append 0 3, .semPost 0,
          .semWait 1 serverReady, .fputs 1, .append 1 2] =
            entriesOf 0 log ++ (s.unfinished 0).toList := by
  refine ⟨_, rfl, ?_⟩
  obtain ⟨log, part, file, each, _⟩ := trace_file_merges false []
    [.semWait 0 clientQuery, .fputs 0, .append 0 1, .append 0 3, .semPost 0,
      .semWait 1 serverReady, .fputs 1, .append 1 2] _ rfl
  exact ⟨log, part, file, each 0⟩

end Pgprtdbg
