import Mathlib.Data.List.Induction
import Pgprtdbg.Sharing.LogText
import Pgprtdbg.Worker.Forwarding

set_option autoImplicit false

namespace Pgprtdbg

open Framing

section Lines

variable (render : Effect → List UInt8)

-- The effects that are lines in the log.
def Event.logged : Event → Option Effect
  | .effect (.writeMessage _ _) => none
  | .effect asked => some asked
  | _ => none

def linesOf (events : List Event) : List Effect := events.filterMap Event.logged

def printOps (lines : List Effect) : List LogOp := lines.map fun line => .print (render line)

def sectionOps (lines : List Effect) : List LogOp := .lock :: printOps render lines ++ [.unlock]

def sectionText (lines : List Effect) : List UInt8 := lines.flatMap fun line => render line ++ [10]

def Event.LeavesLock (event : Event) : Prop := event ≠ .logLock ∧ event ≠ .logUnlock

theorem logOps_append (front back : List Event) :
    logOps render (front ++ back) = logOps render front ++ logOps render back := by
  simp [logOps]

theorem logOp_logged (event : Event) (leaves : event.LeavesLock) :
    event.logOp render = event.logged.map fun line => .print (render line) := by
  cases event with
  | logLock => exact absurd rfl leaves.1
  | logUnlock => exact absurd rfl leaves.2
  | effect asked => cases asked <;> rfl
  | _ => rfl

theorem logOps_lines (events : List Event) (leaves : ∀ event ∈ events, event.LeavesLock) :
    logOps render events = printOps render (linesOf events) := by
  rw [logOps, printOps, linesOf, List.map_filterMap]
  exact List.filterMap_congr fun event member => logOp_logged render event (leaves event member)

theorem leaves_parsed (outcome : Walk.Outcome Effect Halt Unit) :
    ∀ event ∈ parsed outcome, event.LeavesLock := by
  intro event member
  rw [parsed, List.mem_append] at member
  cases member with
  | inl logged =>
      obtain ⟨asked, _, rfl⟩ := List.mem_map.mp logged
      simp [Event.LeavesLock]
  | inr stopped =>
      split at stopped
      · cases stopped
      · rw [List.mem_singleton.mp stopped]
        simp [Event.LeavesLock]

theorem leaves_typedEvents (id : Side) (switch : Int8 → Int → Parser Unit) (fromFd toFd : Int)
    (xs : List UInt8) : ∀ event ∈ typedEvents id switch fromFd toFd xs, event.LeavesLock := by
  intro event member
  rw [typedEvents, List.mem_append] at member
  cases member with
  | inl logged => exact leaves_parsed _ event logged
  | inr member =>
      simp only [List.mem_cons, List.not_mem_nil, or_false] at member
      rcases member with rfl | rfl <;> simp [Event.LeavesLock]

variable (clientFd serverFd : Int)

theorem leaves_events (side : Side) (xs : List UInt8) :
    ∀ event ∈ side.events clientFd serverFd xs, event.LeavesLock := by
  intro event member
  cases side with
  | client =>
      change event ∈ clientEvents clientFd serverFd xs at member
      rw [clientEvents] at member
      split at member
      · rw [untypedEvents, List.mem_append, List.mem_singleton] at member
        rcases member with logged | rfl
        · exact leaves_parsed _ event logged
        · simp [Event.LeavesLock]
      · exact leaves_typedEvents _ _ _ _ xs event member
  | server =>
      change event ∈ serverEvents serverFd clientFd xs at member
      rw [serverEvents] at member
      split at member
      · rw [List.mem_append, List.mem_singleton] at member
        rcases member with logged | rfl
        · exact leaves_parsed _ event logged
        · simp [Event.LeavesLock]
      · exact leaves_typedEvents _ _ _ _ xs event member

theorem leaves_cutEvents (side : Side) (frames : List (List UInt8)) (rest : List UInt8) :
    ∀ event ∈ cutEvents (side.events clientFd serverFd) frames rest, event.LeavesLock := by
  induction frames with
  | nil => simp [cutEvents]
  | cons frame frames ih =>
      intro event member
      rw [cutEvents, List.mem_append] at member
      cases member with
      | inl here => exact leaves_events clientFd serverFd side _ event here
      | inr later => exact ih event later

theorem leaves_parting (side : Side) (xs : List UInt8) :
    ∀ event ∈ side.parting clientFd xs, event.LeavesLock := by
  cases side with
  | client => exact leaves_parsed _
  | server => simp [Side.parting]

end Lines

section Calls

variable (render : Effect → List UInt8) (clientFd serverFd : Int)

-- The section of a read: the bytes it brought, then what the parsers make of them.
def readLines (side : Side) (chunk : List UInt8) (lines : List Effect) : List Effect :=
  [.logLine "--------" [], .logLine side.title [.int chunk.length],
    .logMem chunk chunk.length] ++ lines

theorem logOps_read (side : Side) (msg : Message) (events : List Event)
    (leaves : ∀ event ∈ events, event.LeavesLock) :
    logOps render (chunkEvents side.title msg ++ events) =
      .lock :: printOps render (readLines side msg.bytes (linesOf events)) := by
  rw [logOps_append, logOps_lines render events leaves]
  simp [chunkEvents, logOps, Event.logOp, readLines, printOps]

-- The process has come to its unlock, though it may be in a write, or have ended in it.
def Status.BackFromParser (status : Status) : Prop :=
  status = .running ∨ status = .writing ∨ status = .killed

/-- A call writes one section. It closes it if it comes back, and never if it does not. -/
def CallSection (side : Side) (msg : Message) (d : Decoder) : Prop :=
  let after := d.call clientFd serverFd ⟨side, msg⟩
  ∃ written lines, after.trace = d.trace ++ written ∧
    (after.status = .running →
      logOps render written = sectionOps render (readLines side msg.bytes lines)) ∧
    (after.status ≠ .running → ¬ after.status.BackFromParser ∧
      logOps render written = .lock :: printOps render (readLines side msg.bytes lines))

theorem call_section (side : Side) (msg : Message) (d : Decoder) (xs : List UInt8)
    (holds : d.Holds xs) (nonempty : 0 < msg.length) :
    CallSection render clientFd serverFd side msg d := by
  obtain ⟨frames, rest, cuts, ending⟩ := cuts_to_ending side (xs ++ msg.bytes)
  have front := leaves_cutEvents clientFd serverFd side frames rest
  -- A call that does not come back writes `more` behind the frames that it takes off.
  have stays_open (more : List Event) (leaves : ∀ event ∈ more, event.LeavesLock)
      (gone : (d.call clientFd serverFd ⟨side, msg⟩).status ≠ .running)
      (dead : ¬ (d.call clientFd serverFd ⟨side, msg⟩).status.BackFromParser)
      (trace : (d.call clientFd serverFd ⟨side, msg⟩).trace =
        d.trace ++ chunkEvents side.title msg ++
          cutEvents (side.events clientFd serverFd) frames rest ++ more) :
      CallSection render clientFd serverFd side msg d := by
    have all (event : Event)
        (member : event ∈ cutEvents (side.events clientFd serverFd) frames rest ++ more) :
        event.LeavesLock := by
      cases List.mem_append.mp member with
      | inl early => exact front event early
      | inr late => exact leaves event late
    rw [List.append_assoc, List.append_assoc] at trace
    exact ⟨_, _, trace, fun back => absurd back gone,
      fun _ => ⟨dead, logOps_read render side msg _ all⟩⟩
  cases ending with
  | stop head stays =>
      have stop := call_stop clientFd serverFd side msg d xs rest frames holds nonempty
        ⟨cuts, head⟩ stays
      refine ⟨chunkEvents side.title msg ++
          cutEvents (side.events clientFd serverFd) frames rest ++ [.logUnlock],
        linesOf (cutEvents (side.events clientFd serverFd) frames rest), ?_, ?_, ?_⟩
      · simp only [stop.2.1, List.append_assoc]
      · intro _
        rw [logOps_append, logOps_read render side msg _ front]
        rfl
      · exact fun gone => absurd stop.1.running gone
  | exit gone =>
      have stop := call_exit clientFd serverFd side msg d xs rest frames holds nonempty cuts gone
      exact stays_open _ (leaves_parting clientFd side rest) (by simp [stop.1])
        (by simp [Status.BackFromParser, stop.1]) stop.2
  | outside size head beyond =>
      have stop := call_outside clientFd serverFd side msg d xs rest frames size holds nonempty cuts
        head beyond
      exact stays_open _ (leaves_events clientFd serverFd side rest) (by simp [stop.1])
        (by simp [Status.BackFromParser, stop.1]) stop.2
  | spin head =>
      have stop := call_spin clientFd serverFd side msg d xs rest frames holds nonempty cuts head
      refine stays_open _ ?_ (by simp [stop.1]) (by simp [Status.BackFromParser, stop.1]) stop.2
      intro event member
      obtain ⟨turn, here, inside⟩ := List.mem_flatten.mp member
      rw [List.eq_of_mem_replicate here] at inside
      exact leaves_events clientFd serverFd side rest event inside

end Calls

section Arrivals

variable (render : Effect → List UInt8) (clientFd serverFd : Int)

def openOps (opened : Option (List Effect)) : List LogOp :=
  opened.elim [] fun lines => .lock :: printOps render lines

inductive ArrivalLog (a : Arrival) : List (List Effect) → Option (List Effect) → Prop
  | nothing (empty : a.chunk = []) (format : String) (args : List Arg) :
      ArrivalLog a [[.logLine format args]] none
  | read (some_bytes : a.chunk ≠ []) (lines : List Effect) :
      ArrivalLog a [readLines a.side a.chunk lines] none
  | reported (some_bytes : a.chunk ≠ []) (lines : List Effect) (format : String)
      (args : List Arg) : ArrivalLog a [readLines a.side a.chunk lines, [.logLine format args]] none
  | stuck (some_bytes : a.chunk ≠ []) (lines : List Effect) :
      ArrivalLog a [] (some (readLines a.side a.chunk lines))

theorem logs_save (side : Side) (w : Worker) :
    ∃ saved, (side.save w).decoder = w.decoder.emit saved ∧ logOps render saved = [] := by
  cases side with
  | client =>
      simp only [Side.save, Worker.saveClient]
      split
      · exact ⟨[_], rfl, rfl⟩
      · exact ⟨[], by simp [Decoder.emit], rfl⟩
  | server =>
      simp only [Side.save, Worker.saveServer]
      split
      · exact ⟨[_], rfl, rfl⟩
      · exact ⟨[], by simp [Decoder.emit], rfl⟩

theorem logs_report (w : Worker) (format : String) (args : List Arg) :
    (w.report format args).decoder.trace = w.decoder.trace ++
        [.logLock, .effect (.logLine format args), .logUnlock] ∧
      logOps render [.logLock, .effect (.logLine format args), .logUnlock] =
        sectionOps render [.logLine format args] := ⟨rfl, rfl⟩

theorem Finishes.logs {errno : Errno} {status : Option MessageStatus} {before after : Worker}
    (finishes : Finishes errno status before after) (running : before.decoder.status = .running) :
    ∃ written, after.decoder.trace = before.decoder.trace ++ written ∧
      after.decoder.status.BackFromParser ∧
      (logOps render written = [] ∨
        ∃ format args, logOps render written = sectionOps render [.logLine format args]) := by
  cases finishes with
  | ok => exact ⟨[], by simp, .inl running, .inl rfl⟩
  | stop _ code => exact ⟨[], by simp [Worker.stop], .inl running, .inl rfl⟩
  | failed _ status other format args code =>
      have report := logs_report render before format args
      exact ⟨_, report.1, .inl running, .inr ⟨format, args, report.2⟩⟩
  | inWrite =>
      refine ⟨[], by simp [Worker.inWrite], .inr ?_, .inl rfl⟩
      rw [inWrite_status]
      by_cases closed : errno = .pipe <;> simp [closed]

def HandleLogs (w : Worker) (a : Arrival) : Prop :=
  let after := w.handle clientFd serverFd a
  ∃ written sections opened, after.decoder.trace = w.decoder.trace ++ written ∧
    ArrivalLog a sections opened ∧
    logOps render written = sections.flatMap (sectionOps render) ++ openOps render opened ∧
    (opened = none ↔ after.decoder.status.BackFromParser)

theorem handle_logs_nothing (w : Worker) (a : Arrival) (running : w.decoder.status = .running)
    (nothing : a.chunk = []) : HandleLogs render clientFd serverFd w a := by
  rw [HandleLogs, handle_running clientFd serverFd w a running]
  obtain ⟨message, format, args, code, same⟩ :=
    handler_nothing clientFd serverFd a.side a.transfer w ((chunk_nil_iff a).mp nothing)
  have report := logs_report render { w with message := message } format args
  rw [same]
  refine ⟨_, [[.logLine format args]], none, report.1, .nothing nothing format args, ?_, ?_⟩
  · simp [report.2, openOps]
  · exact iff_of_true rfl (.inl running)

theorem handle_logs_chunk (w : Worker) (a : Arrival) (xs : List UInt8) (holds : w.decoder.Holds xs)
    (nonempty : a.chunk ≠ []) : HandleLogs render clientFd serverFd w a := by
  rw [HandleLogs, handle_running clientFd serverFd w a holds.running]
  obtain ⟨chunk, here⟩ := Classical.not_forall.mp ((chunk_nil_iff a).not.mp nonempty)
  obtain ⟨read, some_bytes⟩ := Classical.not_imp.mp here
  have chunk_eq : a.chunk = chunk := by rw [Arrival.chunk, read]
  let msg := received a.chunk w.message
  have positive : 0 < msg.length := List.length_pos_iff.mpr nonempty
  obtain ⟨decoded, lines, call, closes, stuck⟩ :=
    call_section render clientFd serverFd a.side msg w.decoder xs holds positive
  rw [received_bytes] at closes stuck
  have outcome := handler_chunk clientFd serverFd a.side a.transfer w chunk read some_bytes
  dsimp only at outcome
  rw [← chunk_eq, ← call_decode clientFd serverFd a.side msg w.decoder holds.running] at outcome
  obtain ⟨gone, back⟩ := outcome
  by_cases running : (w.decoder.call clientFd serverFd ⟨a.side, msg⟩).status = .running
  case neg =>
    obtain ⟨dead, ops⟩ := stuck running
    rw [gone running]
    refine ⟨decoded, [], _, call, .stuck nonempty lines, ?_, ?_⟩
    · simpa [openOps] using ops
    · simpa using dead
  case pos =>
    let called : Worker := { w with
      message := msg
      decoder := w.decoder.call clientFd serverFd ⟨a.side, msg⟩ }
    obtain ⟨saved, saved_eq, saved_ops⟩ := logs_save render a.side called
    have alive : (a.side.save called).decoder.status = .running := by
      rw [saved_eq]
      exact running
    obtain ⟨more, more_eq, returned, more_ops⟩ := (back running).logs render alive
    let sent : Event := .written (a.side.target clientFd serverFd)
      (pgprtdbgWriteMessage a.transfer.writes msg).accepted
    have trace : (a.side.handler clientFd serverFd a.transfer w).decoder.trace =
        w.decoder.trace ++ (decoded ++ saved ++ [sent] ++ more) := by
      have saved_trace :
          (a.side.save called).decoder.trace = w.decoder.trace ++ decoded ++ saved := by
        rw [← call]
        exact congrArg Decoder.trace saved_eq
      calc (a.side.handler clientFd serverFd a.transfer w).decoder.trace
        _ = (a.side.save called).decoder.trace ++ [sent] ++ more := more_eq
        _ = w.decoder.trace ++ (decoded ++ saved ++ [sent] ++ more) := by
          simp only [saved_trace, List.append_assoc]
    have ops : logOps render (decoded ++ saved ++ [sent] ++ more) =
        sectionOps render (readLines a.side a.chunk lines) ++ logOps render more := by
      have sent_ops : logOps render [sent] = [] := rfl
      simp only [logOps_append, closes running, saved_ops, sent_ops, List.append_nil]
    rcases more_ops with silent | ⟨format, args, report⟩
    · refine ⟨_, _, none, trace, .read nonempty lines, ?_, ?_⟩
      · rw [ops, silent]
        simp [openOps]
      · simpa using returned
    · refine ⟨_, _, none, trace, .reported nonempty lines format args, ?_, ?_⟩
      · rw [ops, report]
        simp [openOps]
      · simpa using returned

/-- The sections of some arrivals, in their order. Behind one that is left open there is nothing. -/
inductive Recorded : List Arrival → List (List Effect) → Option (List Effect) → Prop
  | nil : Recorded [] [] none
  | snoc {seen : List Arrival} {sections more : List (List Effect)} {opened : Option (List Effect)}
      {a : Arrival} (earlier : Recorded seen sections none) (here : ArrivalLog a more opened) :
      Recorded (seen ++ [a]) (sections ++ more) opened

-- The arrivals that find the process where it can handle them.
def Worker.handledArrivals : List Arrival → Worker → List Arrival
  | [], _ => []
  | a :: arrivals, w =>
      if w.decoder.status = .running then
        a :: Worker.handledArrivals arrivals (w.handle clientFd serverFd a)
      else
        []

theorem handledArrivals_snoc (seen : List Arrival) (a : Arrival) (w : Worker) :
    w.handledArrivals clientFd serverFd (seen ++ [a]) =
      w.handledArrivals clientFd serverFd seen ++
        if (w.run clientFd serverFd seen).decoder.status = .running then [a] else [] := by
  induction seen generalizing w with
  | nil =>
      simp only [List.nil_append, Worker.handledArrivals]
      rfl
  | cons first seen ih =>
      by_cases running : w.decoder.status = .running
      · have rest := ih (w.handle clientFd serverFd first)
        simp only [List.cons_append, Worker.handledArrivals, running, if_true, rest]
        rfl
      · have gone (arrivals : List Arrival) : w.run clientFd serverFd arrivals = w := by
          induction arrivals with
          | nil => rfl
          | cons b arrivals ih =>
              change (w.handle clientFd serverFd b).run clientFd serverFd arrivals = w
              rwa [Worker.handle, if_neg running]
        simp [Worker.handledArrivals, running, gone]

structure RunLogs (w : Worker) (handled : List Arrival) (sections : List (List Effect))
    (opened : Option (List Effect)) : Prop where
  recorded : Recorded handled sections opened
  ops : logOps render w.decoder.trace =
    sections.flatMap (sectionOps render) ++ openOps render opened
  returned : opened = none ↔ w.decoder.status.BackFromParser

theorem run_logs (bufferSize : Nat) (saveTraffic : Bool) (heap : Nat → UInt8)
    (arrivals : List Arrival) :
    let start := Worker.start bufferSize saveTraffic heap
    ∃ sections opened, RunLogs render (start.run clientFd serverFd arrivals)
      (start.handledArrivals clientFd serverFd arrivals) sections opened := by
  intro start
  induction arrivals using List.reverseRecOn with
  | nil => exact ⟨[], none, .nil, rfl, iff_of_true rfl (.inl rfl)⟩
  | append_singleton seen a ih =>
      obtain ⟨sections, opened, logs⟩ := ih
      rw [run_snoc, handledArrivals_snoc]
      generalize before : start.run clientFd serverFd seen = w at logs
      by_cases running : w.decoder.status = .running
      case neg =>
        have gone : w.handle clientFd serverFd a = w := by rw [Worker.handle, if_neg running]
        rw [gone, if_neg running, List.append_nil]
        exact ⟨sections, opened, logs⟩
      case pos =>
        have settled := start_run_settled clientFd serverFd bufferSize saveTraffic heap seen
        rw [before] at settled
        obtain ⟨xs, holds⟩ := settled running
        have here : HandleLogs render clientFd serverFd w a := by
          by_cases nothing : a.chunk = []
          · exact handle_logs_nothing render clientFd serverFd w a running nothing
          · exact handle_logs_chunk render clientFd serverFd w a xs holds nothing
        obtain ⟨written, more, opened', trace, log, ops, returned⟩ := here
        have closed := logs.returned.mpr (.inl running)
        subst closed
        rw [if_pos running]
        refine ⟨sections ++ more, opened', .snoc logs.recorded log, ?_, returned⟩
        rw [trace, logOps_append, logs.ops, ops]
        simp [openOps]

end Arrivals

section Texts

def LogSections.Begins (early late : LogSections) : Prop :=
  let texts := late.whole ++ late.current.toList
  early.whole <+: texts ∧
    ∀ shown, early.current = some shown → ∃ text, early.whole ++ [text] <+: texts ∧ shown <+: text

theorem read_begins (ops : List LogOp) (early late : LogSections)
    (read : Steps.run LogSections.read early ops = some late) : early.Begins late := by
  induction ops generalizing early with
  | nil =>
      cases read
      refine ⟨List.prefix_append _ _, fun shown current => ⟨shown, ?_, List.prefix_refl _⟩⟩
      rw [current]
      exact List.prefix_refl _
  | cons op ops ih =>
      obtain ⟨middle, first, more⟩ := (Steps.run_cons _ _ _ _ _).mp read
      have later := ih middle more
      cases op with
      | lock =>
          by_cases outside : early.current = none
          case neg => simp [LogSections.read, outside] at first
          simp only [LogSections.read, outside, if_true, Option.some.injEq] at first
          subst first
          exact ⟨later.1, by simp [outside]⟩
      | print text =>
          obtain ⟨shown, current, same⟩ := Option.map_eq_some_iff.mp first
          subst same
          refine ⟨later.1, fun other here => ?_⟩
          rw [current, Option.some.injEq] at here
          subst here
          obtain ⟨whole, front, begins⟩ := later.2 _ rfl
          exact ⟨whole, front, (List.prefix_append shown _).trans begins⟩
      | unlock =>
          obtain ⟨shown, current, same⟩ := Option.map_eq_some_iff.mp first
          subst same
          refine ⟨(List.prefix_append _ _).trans later.1, fun other here => ?_⟩
          rw [current, Option.some.injEq] at here
          subst here
          exact ⟨shown, later.1, List.prefix_refl _⟩

-- A section is over with its unlock.
theorem spells_count (ops : List LogOp) (t : LogSections) (spells : Spells ops t) :
    t.whole.length = ops.count .unlock := by
  induction ops using List.reverseRecOn generalizing t with
  | nil =>
      cases spells
      rfl
  | append_singleton ops op ih =>
      obtain ⟨before, earlier, last⟩ := (Steps.run_snoc _ _ _ _ _).mp spells
      have length := ih before earlier
      rw [List.count_append]
      cases op with
      | lock =>
          by_cases outside : before.current = none
          · simp only [LogSections.read, outside, if_true, Option.some.injEq] at last
            subst last
            simp [length]
          · simp [LogSections.read, outside] at last
      | print text =>
          obtain ⟨shown, current, rfl⟩ := Option.map_eq_some_iff.mp last
          simp [length]
      | unlock =>
          obtain ⟨shown, current, rfl⟩ := Option.map_eq_some_iff.mp last
          simp [length]

variable (render : Effect → List UInt8)

theorem read_prints (lines : List Effect) (whole : List (List UInt8)) (shown : List UInt8) :
    Steps.run LogSections.read ⟨whole, some shown⟩ (printOps render lines) =
      some ⟨whole, some (shown ++ sectionText render lines)⟩ := by
  induction lines generalizing shown with
  | nil => simp [printOps, sectionText]
  | cons line lines ih =>
      rw [printOps, List.map_cons, Steps.run_cons]
      refine ⟨⟨whole, some (shown ++ (render line ++ [10]))⟩, rfl, (ih _).trans ?_⟩
      simp [sectionText]

theorem read_opens (lines : List Effect) (whole : List (List UInt8)) :
    Steps.run LogSections.read ⟨whole, none⟩ (.lock :: printOps render lines) =
      some ⟨whole, some (sectionText render lines)⟩ :=
  (Steps.run_cons _ _ _ _ _).mpr ⟨⟨whole, some []⟩, rfl, read_prints render lines whole []⟩

theorem read_section (lines : List Effect) (whole : List (List UInt8)) :
    Steps.run LogSections.read ⟨whole, none⟩ (sectionOps render lines) =
      some ⟨whole ++ [sectionText render lines], none⟩ :=
  (Steps.run_snoc _ _ _ _ _).mpr ⟨_, read_opens render lines whole, rfl⟩

theorem read_sections (sections : List (List Effect)) (whole : List (List UInt8)) :
    Steps.run LogSections.read ⟨whole, none⟩ (sections.flatMap (sectionOps render)) =
      some ⟨whole ++ sections.map (sectionText render), none⟩ := by
  induction sections generalizing whole with
  | nil => simp
  | cons lines sections ih =>
      rw [List.flatMap_cons, Steps.run_append]
      refine ⟨_, read_section render lines whole, (ih _).trans ?_⟩
      simp

theorem read_open (opened : Option (List Effect)) (whole : List (List UInt8)) :
    Steps.run LogSections.read ⟨whole, none⟩ (openOps render opened) =
      some ⟨whole, opened.map (sectionText render)⟩ := by
  cases opened with
  | none => rfl
  | some lines => exact read_opens render lines whole

theorem logOps_sectionEvents (lines : List Effect)
    (plain : ∀ line ∈ lines, (Event.effect line).logged = some line) :
    logOps render (sectionEvents lines) = sectionOps render lines := by
  have leaves : ∀ event ∈ lines.map Event.effect, event.LeavesLock := by
    intro event member
    obtain ⟨line, _, rfl⟩ := List.mem_map.mp member
    simp [Event.LeavesLock]
  have same : linesOf (lines.map Event.effect) = lines := by
    rw [linesOf, List.filterMap_map]
    exact (List.filterMap_congr plain).trans List.filterMap_some
  have body := logOps_lines render _ leaves
  rw [same] at body
  change .lock :: logOps render (lines.map Event.effect ++ [.logUnlock]) = _
  rw [logOps_append, body]
  rfl

theorem logOps_reportEvents (reports : List (String × List Arg)) :
    logOps render (reportEvents reports) =
      (reports.map fun report => [Effect.logLine report.1 report.2]).flatMap
        (sectionOps render) := by
  induction reports with
  | nil => rfl
  | cons report reports ih =>
      have here := logOps_sectionEvents render [.logLine report.1 report.2] (by simp [Event.logged])
      change logOps render (sectionEvents [.logLine report.1 report.2] ++ reportEvents reports) = _
      rw [logOps_append, here, ih]
      rfl

variable (clientFd serverFd : Int) (reports : List (String × List Arg))

-- What a worker logs from start to stop, or to the section that it leaves open.
def workerSections (sections : List (List Effect)) (opened : Option (List Effect)) :
    List (List Effect) :=
  startLines clientFd :: (reports.map fun report => [Effect.logLine report.1 report.2]) ++
    sections ++ [opened.getD (stopLines clientFd)]

theorem worker_spells (w : Worker) (handled : List Arrival) (sections : List (List Effect))
    (opened : Option (List Effect)) (logs : RunLogs render w handled sections opened) :
    ∃ t, Spells (logOps render (workerEvents clientFd reports w)) t ∧
      t.whole ++ t.current.toList <+:
        (workerSections clientFd reports sections opened).map (sectionText render) := by
  have start_ops :=
    logOps_sectionEvents render (startLines clientFd) (by simp [startLines, Event.logged])
  have stop_ops :=
    logOps_sectionEvents render (stopLines clientFd) (by simp [stopLines, Event.logged])
  let early := startLines clientFd :: (reports.map fun report => [Effect.logLine report.1 report.2])
  let front := (early ++ sections).map (sectionText render)
  have early_ops : logOps render (sectionEvents (startLines clientFd) ++ reportEvents reports) =
      early.flatMap (sectionOps render) := by
    rw [logOps_append, start_ops, logOps_reportEvents]
    rfl
  have served : Spells (logOps render
      (sectionEvents (startLines clientFd) ++ reportEvents reports ++ w.decoder.trace))
      ⟨front, opened.map (sectionText render)⟩ := by
    rw [logOps_append, early_ops, logs.ops, ← List.append_assoc, ← List.flatMap_append]
    refine (spells_append _ _ _).mpr ⟨⟨front, none⟩, ?_, read_open render opened front⟩
    exact read_sections render (early ++ sections) []
  by_cases running : w.decoder.status = .running
  case pos =>
    have closed := logs.returned.mpr (.inl running)
    subst closed
    refine ⟨⟨front ++ [sectionText render (stopLines clientFd)], none⟩, ?_, ?_⟩
    · rw [workerEvents, if_pos running, logOps_append, stop_ops]
      exact (spells_append _ _ _).mpr ⟨_, served, read_section render _ front⟩
    · simp [front, early, workerSections]
  case neg =>
    refine ⟨⟨front, opened.map (sectionText render)⟩, ?_, ?_⟩
    · rw [workerEvents, if_neg running, List.append_nil]
      exact served
    · cases opened with
      | none => simp [front, early, workerSections]
      | some lines => simp [front, early, workerSections]

end Texts

section Workers

variable {Process : Type} [DecidableEq Process]

/--
In a run in which the log lock is in order, the log file is what it was, then the sections that
each process has been through, then at most a part of one more. Those of a worker are, one for
each unlock that it has come to, its start, the reports, and one for each read, with the bytes
that came, in its order; a section that a parser leaves open is the last.
-/
theorem log_file_sections (render : Effect → List UInt8) (now : Int) (before : List UInt8)
    (clientFd serverFd : Process → Int) (bufferSize : Nat) (saveTraffic : Bool)
    (heap : Process → Nat → UInt8) (reports : Process → List (String × List Arg))
    (arrivals : Process → List Arrival) (working : Process → Prop)
    (actions : List (LogAction Process)) (s : LogFile Process)
    (orderly : Steps.Along LogLock.step LogLock.Orderly (.initial now) (locksOf actions))
    (workers : ∀ p, working p → opsOf p actions <+:
      logOps render (workerEvents (clientFd p) (reports p)
        ((Worker.start bufferSize saveTraffic (heap p)).run (clientFd p) (serverFd p)
          (arrivals p))))
    (others : ∀ p, ¬ working p → ∃ t, Spells (opsOf p actions) t)
    (reached : Steps.run LogFile.step (.initial now before) actions = some s) :
    ∃ log part, s.file = before ++ log.flatMap Prod.snd ++ part ∧
      ((∀ p, ¬ s.lock.Inside p) → part = []) ∧
      (∀ p, ∃ t, Spells (opsOf p actions) t ∧ textsOf p log = t.whole ∧
        (s.lock.Inside p → ∃ shown, t.current = some shown ∧ part <+: shown)) ∧
      ∀ p, working p → ∃ sections opened,
        Recorded ((Worker.start bufferSize saveTraffic (heap p)).handledArrivals (clientFd p)
          (serverFd p) (arrivals p)) sections opened ∧
        let texts :=
          (workerSections (clientFd p) (reports p) sections opened).map (sectionText render)
        let ended := (opsOf p actions).count .unlock
        ended ≤ texts.length ∧ textsOf p log = texts.take ended ∧
          (s.lock.Inside p → ∃ text, texts[ended]? = some text ∧ part <+: text) := by
  have goes_on (p : Process) (works : working p) : ∃ sections opened t,
      Recorded ((Worker.start bufferSize saveTraffic (heap p)).handledArrivals (clientFd p)
        (serverFd p) (arrivals p)) sections opened ∧ Spells (opsOf p actions) t ∧
      ∃ late, t.Begins late ∧ late.whole ++ late.current.toList <+:
        (workerSections (clientFd p) (reports p) sections opened).map (sectionText render) := by
    obtain ⟨sections, opened, logs⟩ := run_logs render (clientFd p) (serverFd p)
      bufferSize saveTraffic (heap p) (arrivals p)
    obtain ⟨late, spells, texts⟩ :=
      worker_spells render (clientFd p) (reports p) _ _ sections opened logs
    obtain ⟨rest, whole⟩ := workers p works
    rw [← whole, spells_append] at spells
    obtain ⟨t, here, more⟩ := spells
    exact ⟨sections, opened, t, logs.recorded, here, late, read_begins rest t late more, texts⟩
  have stands (p : Process) : ∃ t, Spells (opsOf p actions) t := by
    by_cases works : working p
    · obtain ⟨_, _, t, _, spells, _⟩ := goes_on p works
      exact ⟨t, spells⟩
    · exact others p works
  obtain ⟨log, part, sectioned⟩ := sectioned_run now before actions s orderly stands reached
  refine ⟨log, part, sectioned.file, sectioned.nobody, fun p => ?_, fun p works => ?_⟩
  · obtain ⟨t, spells, whole, place⟩ := sectioned.each p
    refine ⟨t, spells, whole.symm, fun inside => ?_⟩
    exact ⟨_, place.inside inside, List.prefix_append _ _⟩
  · obtain ⟨sections, opened, t, recorded, spells, late, begins, texts⟩ := goes_on p works
    obtain ⟨t', spells', whole, place⟩ := sectioned.each p
    rw [spells_same spells' spells] at whole place
    have front := begins.1.trans texts
    have length := spells_count _ t spells
    refine ⟨sections, opened, recorded, ?_, ?_, fun inside => ?_⟩
    · rw [← length]
      exact front.length_le
    · rw [← whole, ← length]
      exact List.prefix_iff_eq_take.mp front
    · obtain ⟨text, next, shown⟩ := begins.2 _ (place.inside inside)
      refine ⟨text, ?_, (List.prefix_append part _).trans shown⟩
      obtain ⟨rest, same⟩ := next.trans texts
      rw [← length, ← same]
      simp

theorem Recorded.none_handled {sections : List (List Effect)} {opened : Option (List Effect)}
    (recorded : Recorded [] sections opened) : sections = [] ∧ opened = none := by
  generalize nothing : ([] : List Arrival) = handled at recorded
  cases recorded with
  | nil => exact ⟨rfl, rfl⟩
  | snoc => simp at nothing

theorem log_file_sections_two :
    let actions : List (LogAction Bool) :=
      [.lock (.call false), .lock (.call true), .lock (.exchange false), .print false [65],
        .append false 2, .print false [65], .append false 2, .lock (.unlock false),
        .lock (.exchange true), .print true [65], .append true 1]
    ∃ s, Steps.run LogFile.step (.initial 0 []) actions = some s ∧
      ∃ (log : List (Bool × List UInt8)) (part : List UInt8),
        s.file = log.flatMap Prod.snd ++ part ∧ textsOf false log = [[65, 10, 65, 10]] ∧
          textsOf true log = [] ∧ part <+: [65, 10, 65, 10] := by
  intro actions
  have orderly : Steps.Along LogLock.step LogLock.Orderly (.initial 0) (locksOf actions) := by
    simp only [locksOf, actions, List.filterMap_cons, List.filterMap_nil, LogAction.onLock,
      Steps.along_cons, Steps.along_nil]
    refine fun after first => ⟨trivial, ?_⟩
    obtain rfl := Option.some.inj first
    refine fun after second => ⟨trivial, ?_⟩
    obtain rfl := Option.some.inj second
    refine fun after third => ⟨fun _ other => by cases other <;> decide, ?_⟩
    obtain rfl := Option.some.inj third
    refine fun after fourth => ⟨trivial, ?_⟩
    obtain rfl := Option.some.inj fourth
    exact fun _ _ => ⟨fun _ other => by cases other <;> decide, trivial⟩
  obtain ⟨log, part, file, _, _, each⟩ := log_file_sections (fun _ => [65]) 0 [] (fun _ => 5)
    (fun _ => 6) maxBufferSize false (fun _ _ => 0) (fun _ => []) (fun _ => []) (fun _ => True)
    actions _ orderly (by decide) (by simp) rfl
  obtain ⟨_, _, recorded, _, first, _⟩ := each false trivial
  obtain ⟨rfl, rfl⟩ := recorded.none_handled
  obtain ⟨_, _, recorded, _, second, inside⟩ := each true trivial
  obtain ⟨rfl, rfl⟩ := recorded.none_handled
  obtain ⟨text, next, shown⟩ := inside (.inl rfl)
  obtain rfl := Option.some.inj next
  exact ⟨_, rfl, log, part, file, first, second, shown⟩

end Workers

end Pgprtdbg
