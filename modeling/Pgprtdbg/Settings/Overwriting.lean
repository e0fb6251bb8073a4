import Pgprtdbg.Settings.Runs

set_option autoImplicit false

namespace Pgprtdbg

open CText

section Texts

theorem writeAll_text (key : Key) (string : key.kind = .string) (values : List (List UInt8))
    (buffer : Text) : key.writeAll values (.text buffer) = .text (buffer.storeAll values) := by
  induction values generalizing buffer with
  | nil => rfl
  | cons value values ih =>
      have first : key.kind.write value (.text buffer) = .text (buffer.store value) := by
        rw [string]
        rfl
      rw [Key.writeAll, List.foldl_cons, first]
      exact ih (buffer.store value)

theorem field_initial (key : Key) (string : key.kind = .string) :
    key.field initialConfiguration = .text (.zeroed miscLength) := by
  cases key
  case statisticsOutput =>
    have cleared : initialConfiguration.statisticsOutput = .zeroed miscLength := by decide
    rw [Key.field, cleared]
  all_goals first | rfl | cases string

theorem entry_setting (line key value : List UInt8) (said : entry line = .setting key value) :
    ∃ separator ending, Scanned (string line) key separator value ending := by
  unfold entry at said
  cases shape : string line with
  | nil =>
      rw [shape] at said
      cases said
  | cons first rest =>
      rw [shape] at said
      dsimp only at said
      split at said
      next => split at said <;> cases said
      next =>
        split at said
        next => cases said
        next =>
          rcases scanned_exists (first :: rest) with bare | ⟨found, separator, read, ending, scanned⟩
          · rw [extractKeyValue_bare _ bare] at said
            cases said
          · rw [scanned.extract] at said
            cases ending with
            | nil => cases said
            | cons stop ending =>
                cases said
                exact ⟨separator, stop :: ending, scanned⟩

theorem entry_value_clean (line key value : List UInt8) (said : entry line = .setting key value) :
    0 ∉ value := by
  obtain ⟨separator, ending, scanned⟩ := entry_setting line key value said
  intro zero
  have inside : 0 ∈ string line := by
    rw [scanned.parts]
    simp [zero]
  have nonzero := List.mem_takeWhile_imp inside
  simp at nonzero

theorem settingsFrom_clean (lines : List (List UInt8)) (name : List UInt8) (s : Setting)
    (member : s ∈ settingsFrom name (lines.map entry)) : 0 ∉ s.value := by
  induction lines generalizing name with
  | nil => cases member
  | cons line lines ih =>
      rw [List.map_cons] at member
      cases said : entry line with
      | nothing =>
          rw [said] at member
          exact ih name member
      | header name' =>
          rw [said] at member
          exact ih (sectionOf name') member
      | setting key value =>
          rw [said] at member
          rcases List.mem_cons.mp member with rfl | later
          · exact entry_value_clean line key value said
          · exact ih name later

theorem values_clean (content : List UInt8) (part : Part) (key : Key) :
    ∀ value ∈ values part key (settings (entries content)), 0 ∉ value := by
  intro value member
  obtain ⟨s, among, rfl⟩ := List.mem_map.mp member
  exact settingsFrom_clean _ [] s (List.mem_of_mem_filter among)

end Texts

-- A section that gives a key values is there, and has a name.
theorem servers_of_values (seen : List Entry) (few : (servers seen).length ≤ 1) (key : Key)
    (given : values .server key (settings seen) ≠ []) : ∃ name, name ≠ [] ∧ servers seen = [name] := by
  induction seen using List.reverseRecOn with
  | nil => exact absurd rfl given
  | append_singleton seen e ih =>
      have fewer : (servers seen).length ≤ 1 ∧ (servers [e]).length ≤ 1 - (servers seen).length := by
        rw [servers_append, List.length_append] at few
        omega
      by_cases before : values .server key (settings seen) = []
      case neg =>
        obtain ⟨name, nonempty, only⟩ := ih fewer.1 before
        have nobody : servers [e] = [] := by
          have length := fewer.2
          rw [only] at length
          exact List.length_eq_zero_iff.mp (Nat.le_zero.mp length)
        exists name
        constructor
        · exact nonempty
        · rw [servers_append, only, nobody, List.append_nil]
      cases e with
      | nothing =>
          rw [settings_snoc, settingsFrom, settingsFrom, List.append_nil] at given
          exact absurd before given
      | header name =>
          rw [settings_snoc, settingsFrom, settingsFrom, List.append_nil] at given
          exact absurd before given
      | setting raw value =>
          have here : part (sectionAfter [] seen) = .server := by
            by_contra elsewhere
            apply given
            rw [values_snoc, before, values_miss _ _ _ (Or.inl elsewhere), List.append_nil]
          obtain ⟨only, nonempty⟩ := servers_current fewer.1 here
          exists sectionAfter [] seen
          constructor
          · exact nonempty
          · rw [servers_append, only]
            rfl

section LastValue

def Leaves (lines : List Line) (part : Part) (key : Key) (last : List UInt8) : Prop :=
  ∀ srv : Server,
    (pgprtdbgReadConfiguration (some (fileOf lines)) srv initialConfiguration).status = 0 →
      stored (pgprtdbgReadConfiguration (some (fileOf lines)) srv initialConfiguration).config key
        part = some (.text (.holding miscLength (last.take (miscLength - 1))))

structure Covered (lines : List Line) (part : Part) (key : Key) (last : List UInt8) : Prop where
  opened : part = .server → servers (entries (fileOf lines)) ≠ [[]]
  bytes : ∀ place < miscLength - 1,
    Buffer.overlaid (values part key (settings (entries (fileOf lines)))) place = last[place]?

variable {lines : List Line} {part : Part} {key : Key}

theorem stored_read (srv : Server) (string : key.kind = .string) (known : KnownIn part key)
    (success : (pgprtdbgReadConfiguration (some (fileOf lines)) srv initialConfiguration).status = 0)
    (opened : part = .server → servers (entries (fileOf lines)) ≠ [[]]) :
    stored (pgprtdbgReadConfiguration (some (fileOf lines)) srv initialConfiguration).config key part =
      some (.text ((Buffer.zeroed miscLength).storeAll
        (values part key (settings (entries (fileOf lines)))))) := by
  have few := (read_status _ _ _).mp success
  rcases known with rfl | ⟨rfl, rfl | rfl⟩
  case inl =>
    rw [stored, read_fields _ _ _ success, field_initial key string, writeAll_text key string]
  case inr.inr => cases string
  rcases servers_few few with nobody | ⟨name, only⟩
  · have unset : values .server .host (settings (entries (fileOf lines))) = [] := by
      by_contra given
      obtain ⟨name, _, only⟩ := servers_of_values _ few .host given
      rw [nobody] at only
      cases only
    rw [stored, read_no_server _ _ _ nobody, unset]
    rfl
  · have nonempty : name ≠ [] := by
      rintro rfl
      exact opened rfl only
    have inServer := (read_server _ srv initialConfiguration name only nonempty).2 .host
    rw [stored, inServer]
    exact congrArg some (writeAll_text .host rfl _ _)

-- Nothing but the srv of a section `[]` keeps an accepted file from being the stores of its values.
theorem leaves_iff (string : key.kind = .string)
    (known : KnownIn part key) (last : List UInt8) (clean : 0 ∉ last) :
    Leaves lines part key last ↔
      ((servers (entries (fileOf lines))).length ≤ 1 → Covered lines part key last) := by
  have success (srv : Server) := read_status (fileOf lines) srv initialConfiguration
  have bytes := @Buffer.storeAll_holding miscLength _ last
    (values_clean (fileOf lines) part key) clean
  constructor
  case mp =>
    intro leaves few
    have opened : part = .server → servers (entries (fileOf lines)) ≠ [[]] := by
      rintro rfl nameless
      rcases known with never | ⟨_, rfl | rfl⟩
      case inl => cases never
      case inr.inr => cases string
      have held (srv : Server) :
          srv.host = .holding miscLength (last.take (miscLength - 1)) := by
        have left := leaves srv ((success srv).mpr few)
        rw [stored, read_nameless _ _ _ nameless] at left
        exact Value.text.inj (Option.some.inj left)
      have equal := (held .zeroed).trans (held ⟨.zeroed miscLength, .holding miscLength [1], 0⟩).symm
      revert equal
      decide +kernel
    constructor
    case opened => exact opened
    case bytes =>
      have accepted := (success .zeroed).mpr few
      have left := leaves .zeroed accepted
      rw [stored_read .zeroed string known accepted opened] at left
      exact bytes.mp (Value.text.inj (Option.some.inj left))
  case mpr =>
    intro covered srv accepted
    obtain ⟨opened, same⟩ := covered ((success srv).mp accepted)
    rw [stored_read srv string known accepted opened, bytes.mpr same]

-- Where fgets delivers whole lines, only a longer value from before shows behind the last one.
theorem covered_iff (proper : ∀ line ∈ lines, line.Proper) (earlier : List (List UInt8))
    (last : List UInt8) (assigned : given part key (assigned [] lines) = earlier ++ [last])
    (short : ∀ line ∈ lines, line.bytes.length + 1 < configurationLineLength)
    (few : (servers (entries (fileOf lines))).length ≤ 1) :
    Covered lines part key last ↔
      ∀ value ∈ earlier, min value.length (miscLength - 1) ≤ min last.length (miscLength - 1) := by
  have whole : values part key (settings (entries (fileOf lines))) = earlier ++ [last] := by
    rw [← assigned, settings, entries_fileOf lines proper short]
    exact values_fileOf part key lines proper [] [] rfl
  have opened : part = .server → servers (entries (fileOf lines)) ≠ [[]] := by
    rintro rfl nameless
    have given : values .server key (settings (entries (fileOf lines))) ≠ [] := by
      rw [whole]
      simp
    obtain ⟨name, nonempty, only⟩ := servers_of_values _ few key given
    rw [nameless] at only
    cases only
    exact nonempty rfl
  have place (place : Nat) : Buffer.overlaid (values part key (settings (entries (fileOf lines))))
      place = last[place]? ↔ last.length ≤ place → ∀ value ∈ earlier, value.length ≤ place := by
    rw [whole, Buffer.overlaid_snoc, ← Buffer.overlaid_none]
    by_cases inside : place < last.length
    · rw [List.getElem?_eq_getElem inside]
      simp [inside]
    · have beyond : last[place]? = none := List.getElem?_eq_none (by omega)
      rw [beyond, Option.none_or]
      simp [Nat.not_lt.mp inside]
  constructor
  case mp =>
    intro covered value member
    by_contra longer
    have inside : last.length < miscLength - 1 := by omega
    have reached := (place last.length).mp (covered.bytes _ inside) (Nat.le_refl _) value member
    omega
  case mpr =>
    intro shorter
    constructor
    case opened => exact opened
    case bytes =>
      intro here inside
      apply (place here).mpr
      intro beyond value member
      have bound := shorter value member
      omega

theorem assigned_clean (name : List UInt8) (proper : ∀ line ∈ lines, line.Proper)
    (value : List UInt8) (member : (part, key, value) ∈ assigned name lines) : 0 ∉ value := by
  induction lines generalizing name with
  | nil => cases member
  | cons line lines ih =>
      have later := fun name => ih name fun line member => proper line (List.mem_cons_of_mem _ member)
      have here := (proper line List.mem_cons_self).noZero
      cases line with
      | blank white => exact later name member
      | comment mark rest => exact later name member
      | header name' => exact later name' member
      | assignment other separator value' =>
          rcases List.mem_cons.mp member with same | behind
          · cases same
            intro zero
            apply here
            simp [Line.bytes, zero]
          · exact later name behind

/--
A string key that is assigned any number of times has the last value, exactly where no byte
of an earlier one is left behind it: in a file of lines that fgets delivers whole, exactly
where no earlier value is longer, as far as both are stored.
-/
theorem last_assignment (lines : List Line) (part : Part) (key : Key) (earlier : List (List UInt8))
    (last : List UInt8) (proper : ∀ line ∈ lines, line.Proper) (string : key.kind = .string)
    (known : KnownIn part key) (assigned : given part key (assigned [] lines) = earlier ++ [last]) :
    (Leaves lines part key last ↔
        ((servers (entries (fileOf lines))).length ≤ 1 → Covered lines part key last)) ∧
      ((∀ line ∈ lines, line.bytes.length + 1 < configurationLineLength) →
        (Leaves lines part key last ↔
          ((servers (entries (fileOf lines))).length ≤ 1 →
            ∀ value ∈ earlier,
              min value.length (miscLength - 1) ≤ min last.length (miscLength - 1)))) := by
  have clean : 0 ∉ last := by
    have member : last ∈ given part key (Pgprtdbg.assigned [] lines) := by
      rw [assigned]
      simp
    obtain ⟨a, among, rfl⟩ := List.mem_map.mp member
    obtain ⟨inside, here⟩ := List.mem_filter.mp among
    exact assigned_clean [] proper a.2.2 inside
  have leaves : Leaves lines part key last ↔ _ := leaves_iff string known last clean
  constructor
  · exact leaves
  · intro short
    rw [leaves]
    constructor
    · exact fun covered few => (covered_iff proper earlier last assigned short few).mp (covered few)
    · exact fun shorter few => (covered_iff proper earlier last assigned short few).mpr (shorter few)

def hostTwice (first second : List UInt8) : List Line :=
  [.header (text "pgprtdbg"), .assignment .host [61] first, .assignment .host [61] second]

-- Of "host=ab" and then "host=c" comes the host "cb".
theorem last_assignment_longer :
    ¬ ∀ (lines : List Line) (part : Part) (key : Key) (earlier : List (List UInt8))
      (last : List UInt8), (∀ line ∈ lines, line.Proper) → key.kind = .string →
        KnownIn part key → given part key (assigned [] lines) = earlier ++ [last] →
          Leaves lines part key last := by
  intro wins
  have leaves := wins (hostTwice [97, 98] [99]) .main .host [[97, 98]] [99] (by decide +kernel) rfl
    (by decide) (by decide +kernel) .zeroed (by decide +kernel)
  revert leaves
  decide +kernel

-- The other way round the last value is all there is.
theorem last_assignment_shorter : Leaves (hostTwice [99] [97, 98]) .main .host [97, 98] := by
  have shape := (last_assignment (hostTwice [99] [97, 98]) .main .host [[99]] [97, 98]
    (by decide +kernel) rfl (by decide) (by decide +kernel)).2 (by decide +kernel)
  apply shape.mpr
  intro _
  decide

end LastValue

end Pgprtdbg
