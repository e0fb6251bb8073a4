import Pgprtdbg.Sharing.TraceText
import Pgprtdbg.Worker.DumpText
import Pgprtdbg.Worker.Traffic

set_option autoImplicit false

namespace Pgprtdbg

open CText

/-- What clock_gettime, gmtime_r and strftime give: the seconds as text, and the nanoseconds. -/
structure Clock where
  ymds : List UInt8
  nanoseconds : Nat
  oneLine : 10 ∉ ymds
  short : ymds.length < 64
  below : nanoseconds < 10 ^ 9

-- round(curtime.tv_nsec / 1.0e6), which is 1000 near the end of a second.
def Clock.ms (clock : Clock) : Nat := (clock.nanoseconds + 500000) / 1000000

-- "%03ld"
def decimalPadded (value : Nat) : List UInt8 :=
  List.replicate (3 - (decimal value).length) 48 ++ decimal value

def Clock.tbuf (clock : Clock) : List UInt8 := clock.ymds ++ [44] ++ decimalPadded clock.ms

-- snprintf into an array of MISC_LENGTH, and a newline behind it in the file.
def snprintfLine (content : List UInt8) : List UInt8 := content.take (miscLength - 1) ++ [10]

def pgprtdbgSaveBeginMarker (clock : Clock) : List UInt8 :=
  snprintfLine (text "| BEGIN: " ++ clock.tbuf ++ text " -----")

def pgprtdbgSaveEndMarker (clock : Clock) : List UInt8 :=
  snprintfLine (text "| END: " ++ clock.tbuf ++ text " -----")

def trafficRecord (heap : Nat → UInt8) (identifier : Nat) (clock : Clock) (block : List UInt8) :
    List UInt8 :=
  snprintfLine (text "----- " ++ decimal identifier ++ text " -----") ++
    (snprintfLine (text "===== " ++ clock.tbuf ++ text " =====") ++
      (snprintfLine (text "===== " ++ decimal block.length ++ text " =====") ++
        ((writeTraffic heap block block.length).text ++ [10])))

/-- The files "%d-client.bin" and "%d-server.bin" of a process. -/
structure TrafficFiles where
  client : List UInt8
  server : List UInt8
  deriving DecidableEq

def TrafficFiles.save (heap : Nat → UInt8) (files : TrafficFiles) (entry : Clock × Saved) :
    TrafficFiles :=
  let record := trafficRecord heap entry.2.identifier entry.1 entry.2.block
  match entry.2.side with
  | .client => { files with client := files.client ++ record }
  | .server => { files with server := files.server ++ record }

/-- The files of a worker from its begin marker on; one that is killed writes no end marker. -/
def trafficFiles (heap : Nat → UInt8) (begun : Clock) (entries : List (Clock × Saved))
    (ended : Option Clock) : TrafficFiles :=
  let files := entries.foldl (TrafficFiles.save heap) ⟨pgprtdbgSaveBeginMarker begun, []⟩
  { files with client := files.client ++ (ended.map pgprtdbgSaveEndMarker).getD [] }

def sideText (heap : Nat → UInt8) (side : Side) (entries : List (Clock × Saved)) : List UInt8 :=
  (entries.filter (·.2.side = side)).flatMap fun entry =>
    trafficRecord heap entry.2.identifier entry.1 entry.2.block

theorem save_files (heap : Nat → UInt8) (entries : List (Clock × Saved)) (files : TrafficFiles) :
    entries.foldl (TrafficFiles.save heap) files =
      ⟨files.client ++ sideText heap .client entries, files.server ++ sideText heap .server entries⟩ := by
  induction entries generalizing files with
  | nil => simp [sideText]
  | cons entry entries ih =>
      rw [List.foldl_cons, ih]
      cases side : entry.2.side <;> simp [TrafficFiles.save, sideText, side]

section Lines

theorem line_cut (first second rest others : List UInt8) (clean : 10 ∉ first) (clean' : 10 ∉ second)
    (same : first ++ 10 :: rest = second ++ 10 :: others) : first = second ∧ rest = others := by
  have heads := congrArg (List.takeWhile fun byte => decide (byte ≠ 10)) same
  rw [takeWhile_first 10 first rest clean, takeWhile_first 10 second others clean'] at heads
  rw [heads, List.append_cancel_left_eq, List.cons.injEq] at same
  exact ⟨heads, same.2⟩

theorem snprintfLine_cut (first second rest others : List UInt8)
    (clean : 10 ∉ first) (clean' : 10 ∉ second)
    (same : snprintfLine first ++ rest = snprintfLine second ++ others) :
    first.take (miscLength - 1) = second.take (miscLength - 1) ∧ rest = others := by
  simp only [snprintfLine, List.append_assoc, List.singleton_append] at same
  exact line_cut _ _ _ _ (fun member => clean (List.mem_of_mem_take member))
    (fun member => clean' (List.mem_of_mem_take member)) same

theorem decimal_long (value : Nat) (small : value < 2 ^ 63) : (decimal value).length ≤ 19 := by
  have short : (numeral value).length ≤ 19 := by
    rw [numeral, List.length_map, List.length_reverse, Nat.digits_length_le_iff (by decide)]
    omega
  rw [decimal_numeral]
  split
  · omega
  · split
    · simp
    · simpa using short

-- The number in a header comes back, whatever is around it.
theorem header_number (front back : List UInt8) (first second : Nat)
    (short : front.length + back.length ≤ 64) (small : first < 2 ^ 63) (small' : second < 2 ^ 63)
    (same : (front ++ decimal first ++ back).take (miscLength - 1) =
      (front ++ decimal second ++ back).take (miscLength - 1)) : first = second := by
  have long := decimal_long first small
  have long' := decimal_long second small'
  rw [List.take_of_length_le (by simp only [List.length_append, miscLength]; omega),
    List.take_of_length_le (by simp only [List.length_append, miscLength]; omega),
    List.append_cancel_right_eq, List.append_cancel_left_eq] at same
  exact Int.ofNat_inj.mp (decimal_injective first second same)

theorem decimalPadded_bytes (value : Nat) : 10 ∉ decimalPadded value := by
  intro member
  cases List.mem_append.mp member with
  | inl zero => exact absurd (List.eq_of_mem_replicate zero) (by decide)
  | inr digit => exact decimal_no_newline value digit

theorem tbuf_no_newline (clock : Clock) : 10 ∉ clock.tbuf := by
  have padded := decimalPadded_bytes clock.ms
  have seconds := clock.oneLine
  simp [Clock.tbuf, padded, seconds]

end Lines

structure Clear (block : List UInt8) : Prop where
  legible : Legible block
  small : block.length ≤ 65535

theorem Clear.dump {block : List UInt8} (clear : Clear block) (heap : Nat → UInt8) :
    (writeTraffic heap block block.length).text = dumpText block :=
  (hexDump_dumpText_iff block _ (block_getD heap block) clear.small).mpr clear.legible

theorem dumpText_length (block : List UInt8) :
    (dumpText block).length = 3 * block.length + 2 * lineBreaks block.length + 1 := by
  simp only [dumpText, List.length_append, List.length_singleton,
    inLines_length hexPair 2 fun _ => rfl, inLines_length character 1 character_length]
  omega

theorem dumpText_cut (first second rest others : List UInt8) (even : first.length = second.length)
    (same : dumpText first ++ rest = dumpText second ++ others) : first = second ∧ rest = others := by
  have lengths : (dumpText first).length = (dumpText second).length := by
    rw [dumpText_length, dumpText_length, even]
  obtain ⟨dumps, behind⟩ := List.append_inj same lengths
  have back := readBack_dumpText first
  rw [dumps, even, readBack_dumpText second] at back
  exact ⟨back.symm, behind⟩

theorem trafficRecord_cut (heap heap' : Nat → UInt8) (first second : Saved) (clock clock' : Clock)
    (rest others : List UInt8) (clear : Clear first.block) (clear' : Clear second.block)
    (counted : first.identifier < 2 ^ 63) (counted' : second.identifier < 2 ^ 63)
    (same : trafficRecord heap first.identifier clock first.block ++ rest =
      trafficRecord heap' second.identifier clock' second.block ++ others) :
    first.identifier = second.identifier ∧ first.block = second.block ∧ rest = others := by
  have dashes : 10 ∉ text "----- " ∧ 10 ∉ text " -----" := by decide
  have equals : 10 ∉ text "===== " ∧ 10 ∉ text " =====" := by decide
  have clean (mark back content : List UInt8) (ends : 10 ∉ mark ∧ 10 ∉ back) (inner : 10 ∉ content) :
      10 ∉ mark ++ content ++ back := by simp [ends, inner]
  simp only [trafficRecord, clear.dump, clear'.dump, List.append_assoc (snprintfLine _),
    List.append_assoc (dumpText _)] at same
  obtain ⟨numbers, same⟩ := snprintfLine_cut _ _ _ _ (clean _ _ _ dashes (decimal_no_newline _))
    (clean _ _ _ dashes (decimal_no_newline _)) same
  obtain ⟨_, same⟩ := snprintfLine_cut _ _ _ _ (clean _ _ _ equals (tbuf_no_newline clock))
    (clean _ _ _ equals (tbuf_no_newline clock')) same
  obtain ⟨lengths, same⟩ := snprintfLine_cut _ _ _ _ (clean _ _ _ equals (decimal_no_newline _))
    (clean _ _ _ equals (decimal_no_newline _)) same
  have small := clear.small
  have small' := clear'.small
  have even := header_number _ _ _ _ (by decide) (by omega) (by omega) lengths
  obtain ⟨blocks, behind⟩ := dumpText_cut _ _ _ _ even same
  exact ⟨header_number _ _ _ _ (by decide) counted counted' numbers, blocks,
    List.append_cancel_left behind⟩

theorem trafficRecord_head (heap : Nat → UInt8) (identifier : Nat) (clock : Clock)
    (block rest : List UInt8) :
    (trafficRecord heap identifier clock block ++ rest).head? = some 45 := by
  simp [trafficRecord, snprintfLine, text, miscLength]
  rfl

theorem marker_head (clock : Clock) : (pgprtdbgSaveEndMarker clock).head? = some 124 := by
  simp [pgprtdbgSaveEndMarker, snprintfLine, text, miscLength]
  rfl

section Files

def recordText (heap : Nat → UInt8) (entry : Clock × Saved) : List UInt8 :=
  trafficRecord heap entry.2.identifier entry.1 entry.2.block

def recordKey (entry : Clock × Saved) : Nat × List UInt8 := (entry.2.identifier, entry.2.block)

-- The identifier is a long, and the block is one read.
structure Sound (entry : Clock × Saved) : Prop where
  clear : Clear entry.2.block
  counted : entry.2.identifier < 2 ^ 63

theorem records_determine (heap heap' : Nat → UInt8) (entries others : List (Clock × Saved))
    (sound : ∀ entry ∈ entries, Sound entry) (sound' : ∀ entry ∈ others, Sound entry)
    (tail tail' : List UInt8) (ends : tail.head? ≠ some 45) (ends' : tail'.head? ≠ some 45)
    (same : entries.flatMap (recordText heap) ++ tail = others.flatMap (recordText heap') ++ tail') :
    entries.map recordKey = others.map recordKey ∧ tail = tail' := by
  induction entries generalizing others with
  | nil =>
      cases others with
      | nil => exact ⟨rfl, by simpa using same⟩
      | cons other others =>
          rw [List.flatMap_nil, List.nil_append, List.flatMap_cons, List.append_assoc] at same
          exact absurd (same ▸ trafficRecord_head _ _ _ _ _) ends
  | cons entry entries ih =>
      cases others with
      | nil =>
          rw [List.flatMap_nil, List.nil_append, List.flatMap_cons, List.append_assoc] at same
          exact absurd (same ▸ trafficRecord_head _ _ _ _ _) ends'
      | cons other others =>
          have here := sound entry List.mem_cons_self
          have there := sound' other List.mem_cons_self
          rw [List.flatMap_cons, List.flatMap_cons, List.append_assoc, List.append_assoc] at same
          obtain ⟨number, block, rest⟩ := trafficRecord_cut heap heap' entry.2 other.2 _ _ _ _
            here.clear there.clear here.counted there.counted same
          have later := ih others (fun entry member => sound entry (List.mem_cons_of_mem _ member))
            (fun entry member => sound' entry (List.mem_cons_of_mem _ member)) rest
          refine ⟨?_, later.2⟩
          simp only [List.map_cons, later.1, recordKey, number, block]

theorem fileRecords_entries (side : Side) (entries : List (Clock × Saved)) :
    fileRecords side (entries.map Prod.snd) =
      (entries.filter (·.2.side = side)).map recordKey := by
  simp [fileRecords, List.filter_map, Function.comp_def, recordKey]

theorem ended_head (ended : Option Clock) :
    ((ended.map pgprtdbgSaveEndMarker).getD []).head? ≠ some 45 := by
  cases ended with
  | none => simp
  | some clock =>
      rw [Option.map_some, Option.getD_some, marker_head]
      decide

theorem files_determine (heap heap' : Nat → UInt8) (begun begun' : Clock)
    (entries others : List (Clock × Saved)) (ended ended' : Option Clock)
    (sound : ∀ entry ∈ entries, Sound entry) (sound' : ∀ entry ∈ others, Sound entry)
    (same : trafficFiles heap begun entries ended = trafficFiles heap' begun' others ended')
    (side : Side) :
    fileRecords side (entries.map Prod.snd) = fileRecords side (others.map Prod.snd) := by
  have inside {entries : List (Clock × Saved)} (sound : ∀ entry ∈ entries, Sound entry) (side : Side) :
      ∀ entry ∈ entries.filter (·.2.side = side), Sound entry :=
    fun entry member => sound entry (List.mem_of_mem_filter member)
  rw [fileRecords_entries, fileRecords_entries]
  simp only [trafficFiles, save_files, TrafficFiles.mk.injEq, List.nil_append, List.append_assoc]
    at same
  cases side with
  | client =>
      have marker (clock : Clock) : 10 ∉ text "| BEGIN: " ++ clock.tbuf ++ text " -----" := by
        have front : 10 ∉ text "| BEGIN: " ∧ 10 ∉ text " -----" := by decide
        simp [front, tbuf_no_newline clock]
      obtain ⟨_, rest⟩ := snprintfLine_cut _ _ _ _ (marker begun) (marker begun') same.1
      exact (records_determine heap heap' _ _ (inside sound .client) (inside sound' .client) _ _
        (ended_head ended) (ended_head ended') rest).1
  | server =>
      apply And.left
      apply records_determine heap heap' _ _ (inside sound .server) (inside sound' .server) [] []
      · simp
      · simp
      · rw [List.append_nil, List.append_nil]
        exact same.2

end Files

section Runs

variable (clientFd serverFd : Int)

-- Every record is written at a time of its own.
def stamped (clock : Nat → Clock) (records : List Saved) : List (Clock × Saved) :=
  records.mapIdx fun index record => (clock index, record)

theorem stamped_snd (clock : Nat → Clock) (records : List Saved) :
    (stamped clock records).map Prod.snd = records := by
  apply List.ext_getElem
  · simp [stamped]
  · intro place first second
    simp [stamped]

theorem run_sound (bufferSize : Nat) (heap : Nat → UInt8) (arrivals : List Arrival)
    (clear : ∀ a ∈ arrivals, Clear a.chunk) (few : arrivals.length < 2 ^ 63) (clock : Nat → Clock) :
    let after := (Worker.start bufferSize true heap).run clientFd serverFd arrivals
    ∀ entry ∈ stamped clock (saves after.decoder.trace), Sound entry := by
  intro after entry member
  obtain ⟨taken, records, before, _⟩ := started_records clientFd serverFd bufferSize heap arrivals
  have saved : entry.2 ∈ numbered 0 taken := by
    rw [← records.saved, ← stamped_snd clock (saves _)]
    exact List.mem_map_of_mem member
  have numbers := numbered_mem 0 taken entry.2 saved
  obtain ⟨a, here, block⟩ := chunks_mem arrivals entry.2.side entry.2.block (before.subset numbers.2)
  have count := before.length_le
  have arrived := chunks_length arrivals
  exact ⟨block ▸ clear a here, by omega⟩

/--
The texts of the two traffic files tell what was saved: two workers that leave the same files have
saved the same chunks of the same sides in the same order, at whatever times they did, and whatever
their sockets and their buffers were.
-/
theorem traffic_files_determine (clientFd' serverFd' : Int) (bufferSize bufferSize' : Nat)
    (heap heap' : Nat → UInt8) (arrivals arrivals' : List Arrival)
    (clear : ∀ a ∈ arrivals, Clear a.chunk) (clear' : ∀ a ∈ arrivals', Clear a.chunk)
    (few : arrivals.length < 2 ^ 63) (few' : arrivals'.length < 2 ^ 63) (clock clock' : Nat → Clock)
    (begun begun' : Clock) (ended ended' : Option Clock) :
    let after := (Worker.start bufferSize true heap).run clientFd serverFd arrivals
    let after' := (Worker.start bufferSize' true heap').run clientFd' serverFd' arrivals'
    trafficFiles heap begun (stamped clock (saves after.decoder.trace)) ended =
        trafficFiles heap' begun' (stamped clock' (saves after'.decoder.trace)) ended' →
      saves after.decoder.trace = saves after'.decoder.trace := by
  intro after after' same
  have equal := files_determine heap heap' begun begun' _ _ ended ended'
    (run_sound clientFd serverFd bufferSize heap arrivals clear few clock)
    (run_sound clientFd' serverFd' bufferSize' heap' arrivals' clear' few' clock') same
  simp only [stamped_snd] at equal
  obtain ⟨taken, records, _⟩ := started_records clientFd serverFd bufferSize heap arrivals
  obtain ⟨others, records', _⟩ := started_records clientFd' serverFd' bufferSize' heap' arrivals'
  rw [records.saved, records'.saved] at equal ⊢
  have client := congrArg (List.map Prod.snd) (equal .client)
  have server := equal .server
  rw [numbered_client, numbered_client] at client
  rw [numbered_server, numbered_server] at server
  have woven := Weave.weave_notes 0 taken
  rw [client, server, Weave.weave_notes] at woven
  rw [woven]

end Runs

def newYear : Clock := ⟨text "2024-01-01 00:00:00", 0, by decide, by decide, by decide⟩

theorem traffic_files_determine_sync :
    saves ((Worker.start 64 true fun _ => 0).run 5 6
        [arrival .client [83, 0, 0, 0, 4], arrival .server [90, 0, 0, 0, 5, 73]]).decoder.trace =
      saves ((Worker.start 512 true fun _ => 0).run 7 8
        [arrival .client [83, 0, 0, 0, 4], arrival .server [90, 0, 0, 0, 5, 73],
          ⟨.client, .zero, []⟩]).decoder.trace := by
  have sync : Clear [83, 0, 0, 0, 4] := ⟨by decide, by decide⟩
  have ready : Clear [90, 0, 0, 0, 5, 73] := ⟨by decide, by decide⟩
  have nothing : Clear [] := ⟨by decide, by decide⟩
  have saved : saves ((Worker.start 64 true fun _ => 0).run 5 6
      [arrival .client [83, 0, 0, 0, 4], arrival .server [90, 0, 0, 0, 5, 73]]).decoder.trace =
      [⟨.client, 1, [83, 0, 0, 0, 4]⟩, ⟨.server, 1, [90, 0, 0, 0, 5, 73]⟩] := by decide +kernel
  have saved' : saves ((Worker.start 512 true fun _ => 0).run 7 8
      [arrival .client [83, 0, 0, 0, 4], arrival .server [90, 0, 0, 0, 5, 73],
        ⟨.client, .zero, []⟩]).decoder.trace =
      [⟨.client, 1, [83, 0, 0, 0, 4]⟩, ⟨.server, 1, [90, 0, 0, 0, 5, 73]⟩] := by decide +kernel
  refine traffic_files_determine 5 6 7 8 64 512 (fun _ => 0) (fun _ => 0) _ _ ?_ ?_
    (by decide) (by decide) (fun _ => newYear) (fun _ => newYear) newYear newYear none none ?_
  · intro a member
    simp only [List.mem_cons, List.not_mem_nil, or_false] at member
    rcases member with rfl | rfl
    · exact sync
    · exact ready
  · intro a member
    simp only [List.mem_cons, List.not_mem_nil, or_false] at member
    rcases member with rfl | rfl | rfl
    · exact sync
    · exact ready
    · exact nothing
  · rw [saved, saved']

end Pgprtdbg
