import Pgprtdbg.Settings.Reading

set_option autoImplicit false

namespace Pgprtdbg

open CText

/-- A line of a configuration file, without its newline. -/
inductive Line where
  | blank (white : List UInt8)
  | comment (mark : UInt8) (rest : List UInt8)
  | header (name : List UInt8)
  | assignment (key : Key) (separator value : List UInt8)
  deriving DecidableEq, Repr

def Line.bytes : Line → List UInt8
  | .blank white => white
  | .comment mark rest => mark :: rest
  | .header name => 91 :: (name ++ [93])
  | .assignment key separator value => key.text ++ (separator ++ value)

def fileOf (lines : List Line) : List UInt8 := lines.flatMap fun line => line.bytes ++ [10]

def Line.Formed : Line → Prop
  | .blank white => ∀ byte ∈ white, isSpace byte
  | .comment mark _ => mark = 35 ∨ mark = 59
  | .header name => name ≠ [] ∧ 93 ∉ name ∧ name.length < miscLength
  | .assignment _ separator value =>
      (separator.head? = some 32 ∨ separator.head? = some 61) ∧
        (∀ byte ∈ separator, byte = 32 ∨ byte = 9 ∨ byte = 61) ∧
          (∀ byte ∈ value, byte ≠ 32 ∧ byte ≠ 13 ∧ byte ≠ 10) ∧
            value.head? ≠ some 9 ∧ value.head? ≠ some 61 ∧ value.length < miscLength

instance decidableAll (bytes : List UInt8) (p : UInt8 → Prop) [DecidablePred p] :
    Decidable (∀ byte ∈ bytes, p byte) :=
  List.decidableBAll p bytes

instance (line : Line) : Decidable line.Formed := by
  cases line <;> unfold Line.Formed <;> infer_instance

structure Line.WellFormed (line : Line) : Prop where
  noZero : 0 ∉ line.bytes
  noNewline : 10 ∉ line.bytes
  short : line.bytes.length + 1 < configurationLineLength
  formed : line.Formed

instance (line : Line) : Decidable line.WellFormed :=
  decidable_of_iff (0 ∉ line.bytes ∧ 10 ∉ line.bytes ∧
      line.bytes.length + 1 < configurationLineLength ∧ line.Formed)
    ⟨fun all => ⟨all.1, all.2.1, all.2.2.1, all.2.2.2⟩,
      fun line => ⟨line.noZero, line.noNewline, line.short, line.formed⟩⟩

def Line.Shaped : Line → Prop
  | .blank white => ∀ byte ∈ white, isSpace byte
  | .comment mark _ => mark = 35 ∨ mark = 59
  | .header name => name ≠ [] ∧ 93 ∉ name
  | .assignment _ separator value =>
      (separator.head? = some 32 ∨ separator.head? = some 61) ∧
        (∀ byte ∈ separator, byte = 32 ∨ byte = 9 ∨ byte = 61) ∧
          (∀ byte ∈ value, byte ≠ 32 ∧ byte ≠ 13 ∧ byte ≠ 10) ∧
            value.head? ≠ some 9 ∧ value.head? ≠ some 61

instance (line : Line) : Decidable line.Shaped := by
  cases line <;> unfold Line.Shaped <;> infer_instance

structure Line.Proper (line : Line) : Prop where
  noZero : 0 ∉ line.bytes
  noNewline : 10 ∉ line.bytes
  shaped : line.Shaped

instance (line : Line) : Decidable line.Proper :=
  decidable_of_iff (0 ∉ line.bytes ∧ 10 ∉ line.bytes ∧ line.Shaped)
    ⟨fun all => ⟨all.1, all.2.1, all.2.2⟩, fun line => ⟨line.noZero, line.noNewline, line.shaped⟩⟩

theorem Line.WellFormed.proper {line : Line} (wellFormed : line.WellFormed) : line.Proper := by
  constructor
  case noZero => exact wellFormed.noZero
  case noNewline => exact wellFormed.noNewline
  case shaped =>
    have formed := wellFormed.formed
    cases line with
    | blank white => exact formed
    | comment mark rest => exact formed
    | header name => exact ⟨formed.1, formed.2.1⟩
    | assignment key separator value =>
        obtain ⟨first, between, plain, noTab, noEqual, _⟩ := formed
        exact ⟨first, between, plain, noTab, noEqual⟩

def assigned (name : List UInt8) : List Line → List (Part × Key × List UInt8)
  | [] => []
  | .header name' :: rest => assigned name' rest
  | .assignment key _ value :: rest => (part name, key, value) :: assigned name rest
  | .blank _ :: rest => assigned name rest
  | .comment _ _ :: rest => assigned name rest

def serverNames (lines : List Line) : List (List UInt8) :=
  lines.filterMap fun line => match line with
    | .header name => if name = text "pgprtdbg" then none else some name
    | _ => none

def KnownIn (part : Part) (key : Key) : Prop :=
  part = .main ∨ part = .server ∧ (key = .host ∨ key = .port)

instance (part : Part) (key : Key) : Decidable (KnownIn part key) := by
  unfold KnownIn
  infer_instance

structure Documented (name : List UInt8) (lines : List Line) : Prop where
  wellFormed : ∀ line ∈ lines, line.WellFormed
  server : serverNames lines = [name]
  known : ∀ a ∈ assigned [] lines, KnownIn a.1 a.2.1
  once : ((assigned [] lines).map fun a => (a.1, a.2.1)).Nodup

theorem extractKeyValue_assignment (key separator value : List UInt8)
    (bare : ∀ byte ∈ key, byte ≠ 32 ∧ byte ≠ 61)
    (first : separator.head? = some 32 ∨ separator.head? = some 61)
    (between : ∀ byte ∈ separator, byte = 32 ∨ byte = 9 ∨ byte = 61)
    (plain : ∀ byte ∈ value, byte ≠ 32 ∧ byte ≠ 13 ∧ byte ≠ 10)
    (noTab : value.head? ≠ some 9) (noEqual : value.head? ≠ some 61) :
    extractKeyValue (key ++ (separator ++ (value ++ [10]))) none none = (some key, some value) := by
  have scanned : Scanned (key ++ (separator ++ (value ++ [10]))) key separator value [10] := by
    constructor
    case parts => rfl
    case bare => exact bare
    case first => exact first
    case between => exact between
    case plain => exact plain
    case starts =>
      intro byte here
      cases value with
      | nil =>
          cases here
          decide
      | cons head rest =>
          have same : head = byte := Option.some.inj here
          rw [← same]
          exact ⟨(plain head List.mem_cons_self).1, fun tab => noTab (congrArg some tab),
            fun equal => noEqual (congrArg some equal)⟩
    case stops =>
      intro byte here
      cases here
      decide
  exact scanned.extract

theorem extractKeyValue_key (str found value : List UInt8)
    (both : extractKeyValue str none none = (some found, some value)) : found <+: str := by
  unfold extractKeyValue at both
  dsimp only at both
  split at both
  next => cases both
  next =>
    split at both
    next =>
      cases both
      exact List.takeWhile_prefix _
    next => cases both

theorem Key.text_bare (key : Key) : ∀ byte ∈ key.text, byte ≠ 32 ∧ byte ≠ 61 := by
  have bare : (key.text.all fun byte => decide (byte ≠ 32 ∧ byte ≠ 61)) = true := by
    cases key <;> decide
  intro byte member
  exact of_decide_eq_true (List.all_eq_true.mp bare byte member)

theorem Key.text_first (key : Key) :
    ∃ first rest, key.text = first :: rest ∧ first ≠ 91 ∧ ¬ (first = 35 ∨ first = 59) ∧
      isSpace first = false := by
  cases key <;> exact ⟨_, _, rfl, by decide, by decide, by decide⟩

theorem entry_assignment (key : Key) (separator value : List UInt8)
    (proper : (Line.assignment key separator value).Proper) :
    entry ((Line.assignment key separator value).bytes ++ [10]) = .setting key.text value := by
  obtain ⟨first, between, plain, noTab, noEqual⟩ := proper.shaped
  have clean : 0 ∉ (Line.assignment key separator value).bytes ++ [10] := by
    simpa using proper.noZero
  have extracted := extractKeyValue_assignment key.text separator value key.text_bare first between
    plain noTab noEqual
  obtain ⟨head, tail, text, bracket, mark, _⟩ := key.text_first
  rw [entry, string_clean _ clean]
  simp only [Line.bytes, List.append_assoc, text, List.cons_append] at extracted ⊢
  rw [if_neg bracket, if_neg mark, extracted]

theorem entry_comment (mark : UInt8) (rest : List UInt8)
    (proper : (Line.comment mark rest).Proper) :
    entry ((Line.comment mark rest).bytes ++ [10]) = .nothing := by
  have clean : 0 ∉ (Line.comment mark rest).bytes ++ [10] := by
    simpa using proper.noZero
  have marked : mark = 35 ∨ mark = 59 := proper.shaped
  have bracket : mark ≠ 91 := by
    rcases marked with rfl | rfl <;> decide
  rw [entry, string_clean _ clean]
  simp only [Line.bytes, List.cons_append]
  rw [if_neg bracket, if_pos marked]

theorem entry_header (name : List UInt8) (proper : (Line.header name).Proper) :
    entry ((Line.header name).bytes ++ [10]) = .header name := by
  obtain ⟨_, unmarked⟩ := proper.shaped
  have clean : 0 ∉ (Line.header name).bytes ++ [10] := by
    simpa using proper.noZero
  have closed : (93 : UInt8) ∈ name ++ [93, 10] := by simp
  have between := takeWhile_first 93 name [10] unmarked
  rw [entry, string_clean _ clean]
  simp only [Line.bytes, List.cons_append, List.append_assoc, List.nil_append, if_true]
  rw [if_pos closed, between]

-- What a blank line has for a key is white as well.
theorem entry_blank (white : List UInt8) (proper : (Line.blank white).Proper) :
    entry ((Line.blank white).bytes ++ [10]) = .nothing ∨
      ∃ raw value, entry ((Line.blank white).bytes ++ [10]) = .setting raw value ∧
        ∀ key : Key, raw ≠ key.text := by
  have clean : 0 ∉ white ++ [10] := by
    simpa [Line.bytes] using proper.noZero
  have allWhite : ∀ byte ∈ white ++ [10], isSpace byte = true := by
    intro byte member
    rcases List.mem_append.mp member with inside | newline
    · exact proper.shaped byte inside
    · rw [List.mem_singleton.mp newline]
      rfl
  obtain ⟨first, rest, shape⟩ : ∃ first rest, white ++ [10] = first :: rest := by
    cases white with
    | nil => exact ⟨10, [], rfl⟩
    | cons first rest => exact ⟨first, rest ++ [10], rfl⟩
  have white_first := allWhite first (by rw [shape]; exact List.mem_cons_self)
  have bracket : first ≠ 91 := by
    rintro rfl
    cases white_first
  have mark : ¬ (first = 35 ∨ first = 59) := by
    rintro (rfl | rfl) <;> cases white_first
  simp only [Line.bytes]
  rw [entry, string_clean _ clean, shape]
  simp only [if_neg bracket, if_neg mark]
  rcases extractKeyValue_cases (first :: rest) with neither | ⟨found, key⟩ | ⟨found, value, both⟩
  · rw [neither]
    exact Or.inl rfl
  · rw [key]
    exact Or.inl rfl
  · rw [both]
    apply Or.inr
    exists found, value
    constructor
    · rfl
    intro key same
    obtain ⟨head, tail, text, _, _, other⟩ := key.text_first
    have front := extractKeyValue_key _ _ _ (both none)
    have inside : head ∈ first :: rest := by
      apply front.subset
      rw [same, text]
      exact List.mem_cons_self
    rw [← shape] at inside
    rw [allWhite head inside] at other
    cases other

theorem entries_fileOf (lines : List Line) (proper : ∀ line ∈ lines, line.Proper)
    (short : ∀ line ∈ lines, line.bytes.length + 1 < configurationLineLength) :
    entries (fileOf lines) = lines.map fun line => entry (line.bytes ++ [10]) := by
  induction lines with
  | nil => rfl
  | cons line lines ih =>
      have later := ih (fun line member => proper line (List.mem_cons_of_mem _ member))
        fun line member => short line (List.mem_cons_of_mem _ member)
      have split : fileOf (line :: lines) = line.bytes ++ 10 :: fileOf lines := by
        simp [fileOf]
      rw [entries, split, fgetsLines_cons _ _ _ (proper line List.mem_cons_self).noNewline
        (short line List.mem_cons_self), List.map_cons, List.map_cons]
      exact congrArg _ later

-- A name that does not fit is cut, but the section is for the same as before.
theorem part_sectionOf (name : List UInt8) : part (sectionOf name) = part name := by
  by_cases fits : name.length ≤ miscLength - 1
  · rw [sectionOf, List.take_of_length_le fits]
  · have cut : (sectionOf name).length = miscLength - 1 := by
      rw [sectionOf, List.length_take]
      omega
    have server (long : List UInt8) (more : miscLength - 1 ≤ long.length) : part long = .server := by
      apply (part_server long).mpr
      constructor
      · rintro rfl
        revert more
        decide +kernel
      · exact Nat.lt_of_lt_of_le (by decide) more
    rw [server _ (Nat.le_of_eq cut.symm), server name (by omega)]

theorem sectionOf_short (name : List UInt8) (short : name.length < miscLength) :
    sectionOf name = name :=
  List.take_of_length_le (by unfold miscLength at short ⊢; omega)

theorem servers_cons (e : Entry) (es : List Entry) : servers (e :: es) = servers [e] ++ servers es :=
  servers_append [e] es

theorem serverNames_append (first second : List Line) :
    serverNames (first ++ second) = serverNames first ++ serverNames second := List.filterMap_append

theorem serverNames_cons (line : Line) (lines : List Line) :
    serverNames (line :: lines) = serverNames [line] ++ serverNames lines :=
  serverNames_append [line] lines

theorem servers_line (line : Line) (wellFormed : line.WellFormed) :
    servers [entry (line.bytes ++ [10])] = serverNames [line] := by
  cases line with
  | blank white =>
      rcases entry_blank white wellFormed.proper with nothing | ⟨raw, value, setting, _⟩
      · rw [nothing]
        rfl
      · rw [setting]
        rfl
  | comment mark rest =>
      rw [entry_comment mark rest wellFormed.proper]
      rfl
  | header name =>
      have short := sectionOf_short name wellFormed.formed.2.2
      rw [entry_header name wellFormed.proper]
      by_cases main : name = text "pgprtdbg"
      · subst main
        simp [servers, serverNames, short]
      · simp [servers, serverNames, short, main]
  | assignment key separator value =>
      rw [entry_assignment key separator value wellFormed.proper]
      rfl

theorem servers_fileOf (lines : List Line) (wellFormed : ∀ line ∈ lines, line.WellFormed) :
    servers (entries (fileOf lines)) = serverNames lines := by
  rw [entries_fileOf lines (fun line member => (wellFormed line member).proper)
    fun line member => (wellFormed line member).short]
  induction lines with
  | nil => rfl
  | cons line lines ih =>
      have later := ih fun line member => wellFormed line (List.mem_cons_of_mem _ member)
      rw [List.map_cons, servers_cons, serverNames_cons, later,
        servers_line line (wellFormed line List.mem_cons_self)]

def given (part : Part) (key : Key) (as : List (Part × Key × List UInt8)) : List (List UInt8) :=
  (as.filter fun a => a.1 = part ∧ a.2.1 = key).map fun a => a.2.2

theorem given_cons (part : Part) (key : Key) (a : Part × Key × List UInt8)
    (as : List (Part × Key × List UInt8)) :
    given part key (a :: as) = given part key [a] ++ given part key as := by
  rw [given, ← List.singleton_append, List.filter_append, List.map_append]
  rfl

theorem values_cons (part : Part) (key : Key) (s : Setting) (rest : List Setting) :
    values part key (s :: rest) = values part key [s] ++ values part key rest :=
  values_append part key [s] rest

theorem values_known (here part : Part) (key other : Key) (value : List UInt8) :
    values part key [⟨here, other.text, value⟩] = given part key [(here, other, value)] := by
  by_cases same : here = part ∧ other = key
  · obtain ⟨rfl, rfl⟩ := same
    rw [values_hit]
    simp [given]
  · have miss : here ≠ part ∨ other.text ≠ key.text := by
      by_cases here' : here = part
      · exact Or.inr fun text => same ⟨here', Key.text_injective _ _ text⟩
      · exact Or.inl here'
    rw [values_miss _ _ _ miss]
    simp [given, same]

theorem values_fileOf (part' : Part) (key : Key) (lines : List Line)
    (proper : ∀ line ∈ lines, line.Proper) (cut name : List UInt8) (same : part cut = part name) :
    values part' key (settingsFrom cut (lines.map fun line => entry (line.bytes ++ [10]))) =
      given part' key (assigned name lines) := by
  induction lines generalizing cut name with
  | nil => rfl
  | cons line lines ih =>
      have here := proper line List.mem_cons_self
      have later := ih fun line member => proper line (List.mem_cons_of_mem _ member)
      rw [List.map_cons]
      cases line with
      | blank white =>
          rcases entry_blank white here with nothing | ⟨raw, value, setting, unknown⟩
          · rw [nothing]
            exact later cut name same
          · rw [setting, settingsFrom, values_cons, values_miss _ _ _ (Or.inr (unknown key)),
              List.nil_append]
            exact later cut name same
      | comment mark rest =>
          rw [entry_comment mark rest here]
          exact later cut name same
      | header name' =>
          rw [entry_header name' here]
          exact later (sectionOf name') name' (part_sectionOf name')
      | assignment other separator value =>
          rw [entry_assignment other separator value here, settingsFrom, assigned, values_cons,
            given_cons, values_known, later cut name same, same]

theorem given_absent (part : Part) (key : Key) (as : List (Part × Key × List UInt8))
    (absent : ∀ value, (part, key, value) ∉ as) : given part key as = [] := by
  rw [given, List.map_eq_nil_iff, List.filter_eq_nil_iff]
  rintro ⟨here, other, value⟩ member
  rw [decide_eq_true_iff]
  rintro ⟨rfl, rfl⟩
  exact absent value member

-- A pair that occurs once is given one value, and another pair none.
theorem given_once (part : Part) (key : Key) (value : List UInt8)
    (as : List (Part × Key × List UInt8)) (once : (as.map fun a => (a.1, a.2.1)).Nodup)
    (member : (part, key, value) ∈ as) : given part key as = [value] := by
  induction as with
  | nil => cases member
  | cons a as ih =>
      rw [List.map_cons, List.nodup_cons] at once
      rw [given_cons]
      rcases List.mem_cons.mp member with rfl | later
      · have absent : given part key as = [] := by
          apply given_absent
          intro value' again
          exact once.1 (List.mem_map.mpr ⟨_, again, rfl⟩)
        rw [absent]
        simp [given]
      · have other : ¬ (a.1 = part ∧ a.2.1 = key) := by
          rintro ⟨rfl, rfl⟩
          exact once.1 (List.mem_map.mpr ⟨_, later, rfl⟩)
        rw [ih once.2 later]
        simp [given, other]

section Documents

variable {name : List UInt8} {lines : List Line}

theorem assigned_fits (name : List UInt8) (wellFormed : ∀ line ∈ lines, line.WellFormed)
    (part : Part) (key : Key) (value : List UInt8)
    (member : (part, key, value) ∈ assigned name lines) : value.length < miscLength := by
  induction lines generalizing name with
  | nil => cases member
  | cons line lines ih =>
      have later := fun name => ih name fun line member =>
        wellFormed line (List.mem_cons_of_mem _ member)
      have here := wellFormed line List.mem_cons_self
      cases line with
      | blank white => exact later name member
      | comment mark rest => exact later name member
      | header name' => exact later name' member
      | assignment other separator value' =>
          rcases List.mem_cons.mp member with same | behind
          · cases same
            exact here.formed.2.2.2.2.2
          · exact later name behind

-- In a zeroed string nothing is left of what was there before.
theorem write_initial (key : Key) (value : List UInt8) (fits : value.length < miscLength) :
    key.kind.write value (key.field initialConfiguration) = key.kind.hold value := by
  have stored := congrArg Value.text (Buffer.store_zeroed value fits)
  cases key
  case statisticsOutput =>
    have cleared : initialConfiguration.statisticsOutput = .zeroed miscLength := by decide
    rw [Key.field, cleared]
    exact stored
  all_goals first | rfl | exact stored

theorem write_zeroed (key : Key) (value : List UInt8) (fits : value.length < miscLength)
    (known : key = .host ∨ key = .port) :
    (key.inServer .zeroed).map (key.kind.write value) = some (key.kind.hold value) := by
  rcases known with rfl | rfl
  · exact congrArg (some ∘ Value.text) (Buffer.store_zeroed value fits)
  · rfl

structure Means (name : List UInt8) (lines : List Line) (config : Configuration) : Prop where
  listed : ∀ key value, (Part.main, key, value) ∈ assigned [] lines →
    key.field config = key.kind.hold value
  unlisted : ∀ key, (∀ value, (Part.main, key, value) ∉ assigned [] lines) →
    key.field config = key.field initialConfiguration
  serverName : config.server.name = .holding miscLength name
  serverListed : ∀ key value, (Part.server, key, value) ∈ assigned [] lines →
    key.inServer config.server = some (key.kind.hold value)
  serverUnlisted : ∀ key, (∀ value, (Part.server, key, value) ∉ assigned [] lines) →
    key.inServer config.server = key.inServer .zeroed

theorem Documented.named (documented : Documented name lines) : name ≠ [] := by
  have member : name ∈ serverNames lines := by
    rw [documented.server]
    exact List.mem_cons_self
  obtain ⟨line, among, called⟩ := List.mem_filterMap.mp member
  have formed := (documented.wellFormed line among).formed
  cases line with
  | blank white => cases called
  | comment mark rest => cases called
  | assignment key separator value => cases called
  | header name' =>
      dsimp only at called
      split at called
      next => cases called
      next =>
        cases called
        exact formed.1

theorem Documented.values (documented : Documented name lines) (part : Part) (key : Key) :
    Pgprtdbg.values part key (settings (entries (fileOf lines))) =
      given part key (assigned [] lines) := by
  have proper := fun line member => (documented.wellFormed line member).proper
  rw [settings, entries_fileOf lines proper fun line member =>
    (documented.wellFormed line member).short]
  exact values_fileOf part key lines proper [] [] rfl

theorem Documented.read (documented : Documented name lines) (srv : Server) :
    (pgprtdbgReadConfiguration (some (fileOf lines)) srv initialConfiguration).status = 0 ∧
      Means name lines
        (pgprtdbgReadConfiguration (some (fileOf lines)) srv initialConfiguration).config := by
  have only : servers (entries (fileOf lines)) = [name] := by
    rw [servers_fileOf lines documented.wellFormed, documented.server]
  have success : (pgprtdbgReadConfiguration (some (fileOf lines)) srv
      initialConfiguration).status = 0 := by
    rw [read_status, only]
    exact Nat.le_refl 1
  have fields := read_fields (fileOf lines) srv initialConfiguration success
  obtain ⟨called, server⟩ := read_server (fileOf lines) srv initialConfiguration name only
    documented.named
  constructor
  · exact success
  constructor
  case listed =>
    intro key value member
    rw [fields, documented.values, given_once _ _ value _ documented.once member]
    exact write_initial key value (assigned_fits [] documented.wellFormed _ _ _ member)
  case unlisted =>
    intro key absent
    rw [fields, documented.values, given_absent _ _ _ absent, writeAll_nil]
  case serverName => exact called
  case serverListed =>
    intro key value member
    have known : key = .host ∨ key = .port := by
      rcases documented.known _ member with never | ⟨_, known⟩
      · cases never
      · exact known
    rw [server, documented.values, given_once _ _ value _ documented.once member]
    exact write_zeroed key value (assigned_fits [] documented.wellFormed _ _ _ member) known
  case serverUnlisted =>
    intro key absent
    rw [server, documented.values, given_absent _ _ _ absent]
    cases key <;> rfl

theorem Documented.reordered (documented : Documented name lines) (other : List Line)
    (lines' : other.Perm lines) (sections : (assigned [] other).Perm (assigned [] lines)) :
    Documented name other := by
  constructor
  case wellFormed =>
    intro line member
    exact documented.wellFormed line (lines'.mem_iff.mp member)
  case server =>
    have same : (serverNames other).Perm (serverNames lines) := lines'.filterMap _
    rw [documented.server] at same
    exact List.perm_singleton.mp same
  case known =>
    intro a member
    exact documented.known a (sections.mem_iff.mp member)
  case once => exact ((sections.map _).nodup_iff).mpr documented.once

theorem Means.reordered {config : Configuration} (other : List Line)
    (sections : (assigned [] other).Perm (assigned [] lines)) (means : Means name other config) :
    Means name lines config := by
  have same (part : Part) (key : Key) (value : List UInt8) :
      (part, key, value) ∈ assigned [] other ↔ (part, key, value) ∈ assigned [] lines :=
    sections.mem_iff
  constructor
  case listed => simpa only [same] using means.listed
  case unlisted => simpa only [same] using means.unlisted
  case serverName => exact means.serverName
  case serverListed => simpa only [same] using means.serverListed
  case serverUnlisted => simpa only [same] using means.serverUnlisted

theorem Means.unique {first second : Configuration} (one : Means name lines first)
    (two : Means name lines second) : first = second := by
  have inServer (key : Key) : key.inServer first.server = key.inServer second.server := by
    by_cases listed : ∃ value, (Part.server, key, value) ∈ assigned [] lines
    · obtain ⟨value, member⟩ := listed
      rw [one.serverListed key value member, two.serverListed key value member]
    · have absent := not_exists.mp listed
      rw [one.serverUnlisted key absent, two.serverUnlisted key absent]
  apply Configuration.ext_fields
  case fields =>
    intro key
    by_cases listed : ∃ value, (Part.main, key, value) ∈ assigned [] lines
    · obtain ⟨value, member⟩ := listed
      rw [one.listed key value member, two.listed key value member]
    · have absent := not_exists.mp listed
      rw [one.unlisted key absent, two.unlisted key absent]
  case server =>
    apply Server.ext_fields
    case name => rw [one.serverName, two.serverName]
    case fields => exact inServer

end Documents

/-- A documented file is read, sets what it lists and nothing else, and in any order the same. -/
theorem read_documented (srv : Server) (name : List UInt8) (lines : List Line)
    (documented : Documented name lines) :
    (pgprtdbgReadConfiguration (some (fileOf lines)) srv initialConfiguration).status = 0 ∧
      Means name lines
        (pgprtdbgReadConfiguration (some (fileOf lines)) srv initialConfiguration).config ∧
      ∀ other : List Line, other.Perm lines → (assigned [] other).Perm (assigned [] lines) →
        (pgprtdbgReadConfiguration (some (fileOf other)) srv initialConfiguration).status = 0 ∧
          (pgprtdbgReadConfiguration (some (fileOf other)) srv initialConfiguration).config =
            (pgprtdbgReadConfiguration (some (fileOf lines)) srv initialConfiguration).config := by
  obtain ⟨success, means⟩ := documented.read srv
  constructor
  · exact success
  constructor
  · exact means
  · intro other permuted sections
    obtain ⟨success', means'⟩ := (documented.reordered other permuted sections).read srv
    exact ⟨success', (means'.reordered other sections).unique means⟩

def serverLines : List Line :=
  [.header (text "primary"), .assignment .host (text " = ") (text "localhost"),
    .assignment .port (text " \t= ") (text "5432")]

def mainLines : List Line :=
  [.header (text "pgprtdbg"), .assignment .host (text "=") (text "*"), .blank (text "\t "),
    .assignment .port (text " = ") (text "2346"), .comment 35 (text " 64 kB"),
    .assignment .bufferSize (text " = ") (text "70000")]

theorem read_documented_order :
    (pgprtdbgReadConfiguration (some (fileOf (mainLines ++ serverLines))) .zeroed
        initialConfiguration).status = 0 ∧
      (pgprtdbgReadConfiguration (some (fileOf (serverLines ++ mainLines))) .zeroed
          initialConfiguration).config =
        (pgprtdbgReadConfiguration (some (fileOf (mainLines ++ serverLines))) .zeroed
          initialConfiguration).config := by
  have documented : Documented (text "primary") (mainLines ++ serverLines) := by
    constructor
    case wellFormed => decide +kernel
    case server => decide +kernel
    case known => decide +kernel
    case once => decide +kernel
  obtain ⟨success, _, same⟩ := read_documented .zeroed (text "primary") _ documented
  exact ⟨success, (same (serverLines ++ mainLines) List.perm_append_comm (by decide +kernel)).2⟩

end Pgprtdbg
