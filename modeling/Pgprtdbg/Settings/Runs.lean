import Pgprtdbg.Settings.Files

set_option autoImplicit false

namespace Pgprtdbg

open CText

-- Two files with the same sections and the same assignments in them leave the same server.
theorem read_server_same (content content' : List UInt8) (srv srv' : Server) (config : Configuration)
    (sections : servers (entries content) = servers (entries content'))
    (few : (servers (entries content)).length ≤ 1)
    (nameless : servers (entries content) = [[]] → srv = srv')
    (fields : ∀ key : Key,
      (key.inServer .zeroed).map (key.writeAll (values .server key (settings (entries content)))) =
        (key.inServer .zeroed).map
          (key.writeAll (values .server key (settings (entries content'))))) :
    (pgprtdbgReadConfiguration (some content) srv config).config.server =
      (pgprtdbgReadConfiguration (some content') srv' config).config.server := by
  rcases servers_few few with nobody | ⟨name, only⟩
  · rw [read_no_server _ _ _ nobody, read_no_server _ _ _ (sections.symm.trans nobody)]
  by_cases empty : name = []
  · subst empty
    rw [read_nameless _ _ _ only, read_nameless _ _ _ (sections.symm.trans only)]
    exact nameless only
  obtain ⟨called, inServer⟩ := read_server content srv config name only empty
  obtain ⟨called', inServer'⟩ := read_server content' srv' config name (sections.symm.trans only) empty
  apply Server.ext_fields
  case name => rw [called, called']
  case fields =>
    intro key
    rw [inServer, inServer', fields]

/-- What the stack holds reaches the configuration through one kind of file only. -/
theorem read_stack (file : Option (List UInt8)) (config : Configuration) :
    (∀ first second : Server,
      (pgprtdbgReadConfiguration file first config).status =
          (pgprtdbgReadConfiguration file second config).status ∧
        ((pgprtdbgReadConfiguration file first config).status = 0 →
          (pgprtdbgReadConfiguration file first config).config =
            (pgprtdbgReadConfiguration file second config).config)) ↔
      ∀ content ∈ file, servers (entries content) ≠ [[]] := by
  constructor
  case mp =>
    rintro same content ⟨⟩ nameless
    have success := (read_status content .zeroed config).mpr (by rw [nameless]; exact Nat.le_refl 1)
    have equal := (same .zeroed { Server.zeroed with port := 1 }).2 success
    have ports := congrArg (fun c => c.server.port) equal
    dsimp only at ports
    rw [read_nameless content _ config nameless, read_nameless content _ config nameless] at ports
    cases ports
  case mpr =>
    intro named first second
    cases file with
    | none =>
        constructor
        · rfl
        · intro never
          cases never
    | some content =>
        have named := named content rfl
        constructor
        · rw [read_returns, read_returns]
        · intro success
          have few := (read_status content first config).mp success
          have success' := (read_status content second config).mpr few
          apply Configuration.ext_fields
          case fields =>
            intro key
            rw [read_fields _ _ _ success, read_fields _ _ _ success']
          case server =>
            exact read_server_same content content first second config rfl few
              (fun only => absurd only named) (fun _ => rfl)

-- One run copies a server without a port, the other one with port 1.
theorem read_stack_leak :
    ¬ ∀ (file : Option (List UInt8)) (first second : Server),
      (pgprtdbgReadConfiguration file first initialConfiguration).status =
          (pgprtdbgReadConfiguration file second initialConfiguration).status ∧
        ((pgprtdbgReadConfiguration file first initialConfiguration).status = 0 →
          (pgprtdbgReadConfiguration file first initialConfiguration).config =
            (pgprtdbgReadConfiguration file second initialConfiguration).config) := by
  intro same
  have broken : ¬ ((pgprtdbgReadConfiguration (some [91, 93, 10]) .zeroed
        initialConfiguration).status = 0 →
      (pgprtdbgReadConfiguration (some [91, 93, 10]) .zeroed initialConfiguration).config.server.port =
        (pgprtdbgReadConfiguration (some [91, 93, 10]) { Server.zeroed with port := 1 }
          initialConfiguration).config.server.port) := by
    decide +kernel
  apply broken
  intro success
  rw [(same (some [91, 93, 10]) .zeroed { Server.zeroed with port := 1 }).2 success]

section LastSetting

def held (config : Configuration) (seen : List Entry) (key : Key) : Part → Option Value
  | .outside => none
  | .main => some (key.writeAll (values .main key (settings seen)) (key.field config))
  | .server => (key.inServer .zeroed).map (key.writeAll (values .server key (settings seen)))

def Changes (config : Configuration) (seen : List Entry) (raw value : List UInt8) : Prop :=
  ∃ key : Key, raw = key.text ∧
    ∃ old ∈ held config seen key (part (sectionAfter [] seen)), key.kind.write value old ≠ old

variable {seen : List Entry} {raw value : List UInt8}

theorem servers_current (few : (servers seen).length ≤ 1)
    (inside : part (sectionAfter [] seen) = .server) :
    servers seen = [sectionAfter [] seen] ∧ sectionAfter [] seen ≠ [] := by
  obtain ⟨p, reached⟩ := run_exists .zeroed initialConfiguration seen few
  have tracks := run_tracks _ _ seen p reached
  rw [← tracks.sectionName] at inside ⊢
  have member := tracks.current inside
  constructor
  · rcases servers_few few with nobody | ⟨name, only⟩
    · rw [nobody] at member
      cases member
    · rw [only] at member ⊢
      rw [List.mem_singleton.mp member]
  · exact List.length_pos_iff.mp ((part_server _).mp inside).2

-- One more assignment is one more value of its key, where its section has the key.
theorem values_snoc (seen : List Entry) (raw value : List UInt8) (part' : Part) (key : Key) :
    values part' key (settings (seen ++ [.setting raw value])) =
      values part' key (settings seen) ++
        values part' key [⟨part (sectionAfter [] seen), raw, value⟩] := by
  rw [settings_snoc, values_append]
  rfl

-- A file with too many servers fails where the second one is; nobody reads on.
theorem read_many (content content' : List UInt8) (rest rest' : List Entry) (srv : Server)
    (config : Configuration) (same : entries content = seen ++ rest)
    (same' : entries content' = seen ++ rest') (many : ¬ (servers seen).length ≤ 1) :
    pgprtdbgReadConfiguration (some content) srv config =
      pgprtdbgReadConfiguration (some content') srv config := by
  rw [read_entries, read_entries, same, same', List.foldlM_append, List.foldlM_append]
  cases reached : seen.foldlM Parse.enter (.start srv config) with
  | error p => rfl
  | ok p => exact absurd (run_tracks srv config seen p ((foldlM_run _ _ p).mp reached)).few many

theorem held_nothing (config : Configuration) (key : Key) (part' : Part) :
    held config (seen ++ [.nothing]) key part' = held config seen key part' := by
  have listed : settings (seen ++ [.nothing]) = settings seen := by
    rw [settings_snoc]
    exact List.append_nil _
  cases part' <;> simp only [held, listed]

theorem held_setting (config : Configuration) (key : Key) (part' : Part) :
    held config (seen ++ [.setting raw value]) key part' =
      (held config seen key part').map
        (key.writeAll (values part' key [⟨part (sectionAfter [] seen), raw, value⟩])) := by
  cases part' with
  | outside => rfl
  | main => simp only [held, values_snoc, writeAll_append, Option.map_some]
  | server =>
      simp only [held, values_snoc, Option.map_map]
      congr 1
      funext old
      exact writeAll_append key _ _ old

theorem held_unchanged (config : Configuration) (unchanged : ¬ Changes config seen raw value)
    (key : Key) (part' : Part) :
    held config (seen ++ [.setting raw value]) key part' = held config seen key part' := by
  rw [held_setting]
  by_cases known : part (sectionAfter [] seen) = part' ∧ raw = key.text
  case neg =>
    rw [values_miss _ _ _ (not_and_or.mp known)]
    exact congrFun Option.map_id _
  obtain ⟨rfl, rfl⟩ := known
  rw [values_hit]
  cases found : held config seen key (part (sectionAfter [] seen)) with
  | none => rfl
  | some old =>
      by_contra changes
      exact unchanged ⟨key, rfl, old, found, fun same => changes (congrArg some same)⟩

def stored (config : Configuration) (key : Key) : Part → Option Value
  | .outside => none
  | .main => some (key.field config)
  | .server => key.inServer config.server

-- What is held for the part that a file ends in is in the configuration.
theorem held_stored (content : List UInt8) (srv : Server) (config : Configuration)
    (few : (servers (entries content)).length ≤ 1) (key : Key) :
    held config (entries content) key (part (sectionAfter [] (entries content))) =
      stored (pgprtdbgReadConfiguration (some content) srv config).config key
        (part (sectionAfter [] (entries content))) := by
  cases here : part (sectionAfter [] (entries content)) with
  | outside => rfl
  | main =>
      have success := (read_status content srv config).mpr few
      exact congrArg some (read_fields content srv config success key).symm
  | server =>
      obtain ⟨only, nonempty⟩ := servers_current few here
      exact ((read_server content srv config _ only nonempty).2 key).symm

-- Nothing else of the entries is in the configuration but the fields they hold.
theorem read_held_same (content content' : List UInt8) (srv : Server) (config : Configuration)
    (sections : servers (entries content) = servers (entries content'))
    (few : (servers (entries content)).length ≤ 1)
    (same : ∀ (key : Key) (part' : Part),
      held config (entries content) key part' = held config (entries content') key part') :
    (pgprtdbgReadConfiguration (some content) srv config).config =
      (pgprtdbgReadConfiguration (some content') srv config).config := by
  have success := (read_status content srv config).mpr few
  have success' := (read_status content' srv config).mpr (sections ▸ few)
  apply Configuration.ext_fields
  case fields =>
    intro key
    rw [read_fields _ _ _ success, read_fields _ _ _ success']
    exact Option.some.inj (same key .main)
  case server =>
    exact read_server_same content content' srv srv config sections few (fun _ => rfl)
      fun key => same key .server

theorem read_setting (content content' : List UInt8) (srv : Server) (config : Configuration)
    (without : entries content = seen ++ [.nothing])
    (with' : entries content' = seen ++ [.setting raw value])
    (few : (servers seen).length ≤ 1) :
    (pgprtdbgReadConfiguration (some content) srv config).config =
        (pgprtdbgReadConfiguration (some content') srv config).config ↔
      ¬ Changes config seen raw value := by
  have listed : servers (entries content) = servers seen := by
    rw [without, servers_append]
    exact List.append_nil _
  have listed' : servers (entries content') = servers seen := by
    rw [with', servers_append]
    exact List.append_nil _
  constructor
  case mp =>
    rintro same ⟨key, rfl, old, found, changes⟩
    have before := held_stored content srv config (by rw [listed]; exact few) key
    have after := held_stored content' srv config (by rw [listed']; exact few) key
    rw [without, sectionAfter_snoc, held_nothing, same] at before
    rw [with', sectionAfter_snoc, held_setting, values_hit] at after
    have kept := after.trans before.symm
    rw [Option.mem_def.mp found] at kept
    exact changes (Option.some.inj kept)
  case mpr =>
    intro unchanged
    apply read_held_same content content' srv config (listed.trans listed'.symm)
      (by rw [listed]; exact few)
    intro key part'
    rw [without, with', held_nothing, held_unchanged config unchanged]

end LastSetting

section LastLine

-- A line without its newline says the same, unless its value is the last that it has.
theorem entry_newline (line : List UInt8) (nonempty : line ≠ []) (noZero : 0 ∉ line) :
    entry (line ++ [10]) = entry line ∨
      ∃ key separator value, Scanned line key separator value [] ∧ entry line = .nothing ∧
        entry (line ++ [10]) = .setting key value := by
  have clean : 0 ∉ line ++ [10] := by
    simpa using noZero
  obtain ⟨first, rest, rfl⟩ := List.exists_cons_of_ne_nil nonempty
  rw [entry, entry, string_clean _ clean, string_clean _ noZero, List.cons_append]
  dsimp only
  by_cases bracket : first = 91
  · rw [if_pos bracket, if_pos bracket]
    by_cases closed : 93 ∈ rest
    · obtain ⟨name, more, shape, bare⟩ := List.eq_append_cons_of_mem closed
      rw [if_pos closed, if_pos (List.mem_append_left _ closed), shape,
        takeWhile_first 93 name _ bare, List.append_assoc, List.cons_append,
        takeWhile_first 93 name _ bare]
      exact Or.inl rfl
    · have unclosed : 93 ∉ rest ++ [10] := by
        simpa using closed
      rw [if_neg closed, if_neg unclosed]
      exact Or.inl rfl
  rw [if_neg bracket, if_neg bracket]
  by_cases mark : first = 35 ∨ first = 59
  · rw [if_pos mark, if_pos mark]
    exact Or.inl rfl
  rw [if_neg mark, if_neg mark, ← List.cons_append]
  rcases scanned_exists (first :: rest) with bare | ⟨key, separator, value, ending, scanned⟩
  · have bare' : ∀ byte ∈ first :: rest ++ [10], byte ≠ 32 ∧ byte ≠ 61 := by
      intro byte member
      rcases List.mem_append.mp member with inside | newline
      · exact bare byte inside
      · rw [List.mem_singleton.mp newline]
        decide
    rw [extractKeyValue_bare _ bare, extractKeyValue_bare _ bare']
    exact Or.inl rfl
  · have longer := scanned.newline.extract
    have shown := scanned.extract
    rw [longer, shown]
    cases ending with
    | cons stop ending => exact Or.inl rfl
    | nil => exact Or.inr ⟨key, separator, value, scanned, rfl, rfl⟩

theorem Scanned.shaped {separator value : List UInt8} {key : Key} {line : List UInt8}
    (scanned : Scanned line key.text separator value []) :
    line = (Line.assignment key separator value).bytes ∧
      (Line.assignment key separator value).Shaped := by
  constructor
  · simpa [Line.bytes] using scanned.parts
  · have starts := scanned.starts
    rw [List.append_nil] at starts
    exact ⟨scanned.first, scanned.between, scanned.plain, fun tab => (starts 9 tab).2.1 rfl,
      fun equal => (starts 61 equal).2.2 rfl⟩

theorem shaped_scanned (key : Key) (separator value : List UInt8)
    (shaped : (Line.assignment key separator value).Shaped) :
    Scanned (Line.assignment key separator value).bytes key.text separator value [] := by
  obtain ⟨first, between, plain, noTab, noEqual⟩ := shaped
  constructor
  case parts => simp [Line.bytes]
  case bare => exact key.text_bare
  case first => exact first
  case between => exact between
  case plain => exact plain
  case starts =>
    intro byte here
    rw [List.append_nil] at here
    constructor
    · exact (plain byte (List.mem_of_head? here)).1
    constructor
    · rintro rfl
      exact noTab here
    · rintro rfl
      exact noEqual here
  case stops => simp

theorem entry_unended (key : Key) (separator value : List UInt8)
    (shaped : (Line.assignment key separator value).Shaped)
    (noZero : 0 ∉ (Line.assignment key separator value).bytes) :
    entry (Line.assignment key separator value).bytes = .nothing := by
  have extracted := (shaped_scanned key separator value shaped).extract
  obtain ⟨head, tail, text, bracket, mark, _⟩ := key.text_first
  rw [entry, string_clean _ noZero]
  simp only [Line.bytes, text, List.cons_append] at extracted ⊢
  rw [if_neg bracket, if_neg mark, extracted]
  rfl

/--
The last line is a key that its section has, a separator and a value that would set the
field to something else, with nothing behind the value.
-/
def LostValue (config : Configuration) (before line : List UInt8) : Prop :=
  (servers (entries before)).length ≤ 1 ∧
    ∃ (key : Key) (separator value : List UInt8),
      line = (Line.assignment key separator value).bytes ∧
        (Line.assignment key separator value).Shaped ∧
          ∃ old ∈ held config (entries before) key (part (sectionAfter [] (entries before))),
            key.kind.write value old ≠ old

/-- A newline at the end of the file is missed by the value in front of it and by nothing else. -/
theorem read_last_line (before line : List UInt8) (srv : Server) (config : Configuration)
    (ended : Ended before) (nonempty : line ≠ []) (noNewline : 10 ∉ line) (noZero : 0 ∉ line)
    (short : line.length + 1 < configurationLineLength) :
    ((pgprtdbgReadConfiguration (some (before ++ line)) srv config).status =
          (pgprtdbgReadConfiguration (some (before ++ line ++ [10])) srv config).status ∧
        (pgprtdbgReadConfiguration (some (before ++ line)) srv config).config =
          (pgprtdbgReadConfiguration (some (before ++ line ++ [10])) srv config).config) ↔
      ¬ LostValue config before line := by
  have unended : entries (before ++ line) = entries before ++ [entry line] := by
    rw [entries_append before line ended]
    congr 1
    rw [entries, fgetsLines_rest _ line nonempty noNewline short]
    rfl
  have closed : entries (before ++ line ++ [10]) = entries before ++ [entry (line ++ [10])] := by
    rw [List.append_assoc, entries_append before _ ended]
    congr 1
    rw [entries, fgetsLines_cons _ line [] noNewline short]
    rfl
  by_cases few : (servers (entries before)).length ≤ 1
  case neg =>
    rw [read_many _ _ _ _ srv config unended closed few]
    simp only [and_self, true_iff]
    exact fun lost => few lost.1
  rcases entry_newline line nonempty noZero with same | ⟨raw, separator, value, scanned, nothing, set⟩
  · have equal : pgprtdbgReadConfiguration (some (before ++ line)) srv config =
        pgprtdbgReadConfiguration (some (before ++ line ++ [10])) srv config := by
      rw [read_entries, read_entries, unended, closed, same]
    rw [equal]
    simp only [and_self, true_iff]
    rintro ⟨_, key, separator, value, rfl, shaped, _⟩
    rw [entry_assignment key separator value ⟨noZero, noNewline, shaped⟩,
      entry_unended key separator value shaped noZero] at same
    cases same
  · rw [nothing] at unended
    rw [set] at closed
    have status : (pgprtdbgReadConfiguration (some (before ++ line)) srv config).status =
        (pgprtdbgReadConfiguration (some (before ++ line ++ [10])) srv config).status := by
      rw [read_returns, read_returns, unended, closed, servers_append, servers_append]
      rfl
    have lost : LostValue config before line ↔ Changes config (entries before) raw value := by
      constructor
      · rintro ⟨_, key, separator, value, rfl, shaped, changes⟩
        rw [entry_assignment key separator value ⟨noZero, noNewline, shaped⟩] at set
        cases set
        exact ⟨key, rfl, changes⟩
      · rintro ⟨key, rfl, changes⟩
        obtain ⟨parts, shaped⟩ := scanned.shaped
        exact ⟨few, key, separator, value, parts, shaped, changes⟩
    rw [lost, ← read_setting _ _ srv config unended closed few]
    exact ⟨fun both => both.2, fun config => ⟨status, config⟩⟩

def mainHeader : List UInt8 := text "[pgprtdbg]\n"

def portLine : List UInt8 := text "port = 5432"

-- The value of the last line is there with a newline only.
theorem read_last_line_port :
    ¬ ∀ (before line : List UInt8) (srv : Server), Ended before → line ≠ [] → 10 ∉ line →
      0 ∉ before ++ line → line.length + 1 < configurationLineLength →
        (pgprtdbgReadConfiguration (some (before ++ line)) srv initialConfiguration).status =
            (pgprtdbgReadConfiguration (some (before ++ line ++ [10])) srv
              initialConfiguration).status ∧
          (pgprtdbgReadConfiguration (some (before ++ line)) srv initialConfiguration).config =
            (pgprtdbgReadConfiguration (some (before ++ line ++ [10])) srv
              initialConfiguration).config := by
  intro same
  have equal := (same mainHeader portLine .zeroed (Or.inr (by decide +kernel)) (by decide +kernel)
    (by decide +kernel) (by decide +kernel) (by decide +kernel)).2
  have ports := congrArg Configuration.port equal
  revert ports
  decide +kernel

-- With a space behind it the same value is not lost.
theorem read_last_line_space :
    ¬ LostValue initialConfiguration mainHeader (portLine ++ [32]) := by
  apply (read_last_line mainHeader (portLine ++ [32]) .zeroed initialConfiguration
    (Or.inr (by decide +kernel)) (by decide +kernel) (by decide +kernel) (by decide +kernel)
    (by decide +kernel)).mp
  constructor
  · decide +kernel
  · decide +kernel

end LastLine

end Pgprtdbg
