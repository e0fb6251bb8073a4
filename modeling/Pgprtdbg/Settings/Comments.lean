import Pgprtdbg.Settings.Overwriting

set_option autoImplicit false

namespace Pgprtdbg

open CText

section Likeness

structure Parse.Like (p q : Parse) : Prop where
  sectionName : p.sectionName = q.sectionName
  idxServer : p.idxServer = q.idxServer
  srv : p.srv = q.srv
  config : p.config = q.config

inductive Together : Except Parse Parse → Except Parse Parse → Prop where
  | ok (p q : Parse) (like : p.Like q) : Together (.ok p) (.ok q)
  | error (p q : Parse) (like : p.Like q) : Together (.error p) (.error q)

theorem Parse.Like.refl (p : Parse) : p.Like p := ⟨rfl, rfl, rfl, rfl⟩

theorem Parse.Like.trans {p q r : Parse} (first : p.Like q) (second : q.Like r) : p.Like r := by
  constructor
  case sectionName => rw [first.sectionName, second.sectionName]
  case idxServer => rw [first.idxServer, second.idxServer]
  case srv => rw [first.srv, second.srv]
  case config => rw [first.config, second.config]

theorem Parse.Like.printed {p q : Parse} (like : p.Like q) : p = { q with printed := p.printed } := by
  obtain ⟨sectionName, idxServer, srv, config⟩ := like
  cases p
  cases q
  cases sectionName
  cases idxServer
  cases srv
  cases config
  rfl

theorem assign_printed (p : Parse) (printed : List Printed) (raw value : List UInt8) :
    Parse.Like ({ p with printed := printed }.assign raw value) (p.assign raw value) := by
  rcases p.assign_cases raw value with ⟨key, rfl⟩ | ⟨unknown, same⟩
  case inr =>
    rw [same, Parse.assign_other raw value unknown]
    exact ⟨rfl, rfl, rfl, rfl⟩
  have main : { p with printed := printed }.inMain = p.inMain := rfl
  cases both : key.changeServer value with
  | none =>
      rw [Parse.assign_alone key value both, Parse.assign_alone key value both, Parse.set, Parse.set,
        main]
      split <;> exact ⟨rfl, rfl, rfl, rfl⟩
  | some change =>
      rw [Parse.assign_both key value change both, Parse.assign_both key value change both,
        Parse.setBoth, Parse.setBoth, main]
      split
      next => exact ⟨rfl, rfl, rfl, rfl⟩
      next => split <;> exact ⟨rfl, rfl, rfl, rfl⟩

theorem enter_printed (p : Parse) (printed : List Printed) (e : Entry) :
    Together ({ p with printed := printed }.enter e) (p.enter e) := by
  cases e with
  | nothing => exact .ok _ _ ⟨rfl, rfl, rfl, rfl⟩
  | setting key value => exact .ok _ _ (assign_printed p printed key value)
  | header name =>
      by_cases main : sectionOf name = text "pgprtdbg"
      · rw [Parse.enter, Parse.enter, header_main name main, header_main name main]
        exact .ok _ _ ⟨rfl, rfl, rfl, rfl⟩
      · rw [Parse.enter, Parse.enter, header_other name main, header_other name main]
        dsimp only
        split
        next => exact .ok _ _ ⟨rfl, rfl, rfl, rfl⟩
        next => exact .error _ _ ⟨rfl, rfl, rfl, rfl⟩

theorem fold_like (es : List Entry) (p q : Parse) (like : p.Like q) :
    Together (es.foldlM Parse.enter p) (es.foldlM Parse.enter q) := by
  induction es generalizing p q with
  | nil => exact .ok p q like
  | cons e es ih =>
      have step : Together (p.enter e) (q.enter e) := by
        rw [like.printed]
        exact enter_printed q p.printed e
      rw [List.foldlM_cons, List.foldlM_cons]
      generalize p.enter e = first at step
      generalize q.enter e = second at step
      cases step with
      | ok p' q' like' => exact ih p' q' like'
      | error p' q' like' => exact .error p' q' like'

def Outcome.Same (a b : Outcome) : Prop := a.status = b.status ∧ a.config = b.config

def concluded : Except Parse Parse → Outcome
  | .ok p => p.finish
  | .error p => ⟨1, p.config, p.printed⟩

theorem read_concluded (content : List UInt8) (srv : Server) (config : Configuration) :
    pgprtdbgReadConfiguration (some content) srv config =
      concluded ((entries content).foldlM Parse.enter (.start srv config)) :=
  read_entries content srv config

theorem Together.same {first second : Except Parse Parse} (together : Together first second) :
    (concluded first).Same (concluded second) := by
  cases together with
  | ok p q like =>
      rw [like.printed, concluded, concluded, Parse.finish, Parse.finish]
      split <;> exact ⟨rfl, rfl⟩
  | error p q like => exact ⟨rfl, like.config⟩

end Likeness

section Inertia

/-- The entry changes neither the section nor a field, wherever it stands. -/
def Entry.Inert : Entry → Prop
  | .nothing => True
  | .header _ => False
  | .setting raw value => ∀ key : Key, raw = key.text → key.kind = .string ∧ value = []

theorem store_nothing (b : Text) : b.store [] = b := by
  apply Buffer.ext_bytes
  rfl

theorem change_nothing (key : Key) (string : key.kind = .string) (c : Configuration) :
    key.change [] c = c := by
  cases key
  all_goals first | (simp only [Key.change, store_nothing]; done) | cases string

-- A string key with nothing for a value stores no byte.
theorem assign_nothing (key : Key) (string : key.kind = .string) (p : Parse)
    (named : part p.sectionName = .server → p.srv.name.store p.sectionName = p.srv.name) :
    (p.assign key.text []).Like p := by
  cases both : key.changeServer [] with
  | none =>
      rw [Parse.assign_alone key [] both, Parse.set, change_nothing key string]
      split <;> exact ⟨rfl, rfl, rfl, rfl⟩
  | some change =>
      rw [Parse.assign_both key [] change both, Parse.setBoth, change_nothing key string]
      split
      next => exact ⟨rfl, rfl, rfl, rfl⟩
      next elsewhere =>
        split
        next nonempty =>
          have server : part p.sectionName = .server := by
            apply (part_server _).mpr
            constructor
            · rw [inMain_iff, part_main] at elsewhere
              exact elsewhere
            · exact nonempty
          rw [named server]
          cases key
          case host =>
            cases both
            simp only [store_nothing]
            exact Parse.Like.refl p
          case port => cases string
          all_goals cases both
        next => exact ⟨rfl, rfl, rfl, rfl⟩

theorem Tracks.inert {srv : Server} {config : Configuration} {seen : List Entry} {p : Parse}
    (tracks : Tracks srv config seen p) (e : Entry) (inert : e.Inert) :
    ∃ after, p.enter e = .ok after ∧ after.Like p := by
  cases e with
  | nothing => exact ⟨p, rfl, Parse.Like.refl p⟩
  | header name => cases inert
  | setting raw value =>
      exists p.assign raw value
      constructor
      · rfl
      rcases p.assign_cases raw value with ⟨key, rfl⟩ | ⟨_, same⟩
      · obtain ⟨string, rfl⟩ := inert key rfl
        exact assign_nothing key string p tracks.named
      · rw [same]
        exact Parse.Like.refl p

theorem Tracks.inert_run {srv : Server} {config : Configuration} {seen : List Entry} {p : Parse}
    (tracks : Tracks srv config seen p) (es : List Entry) (inert : ∀ e ∈ es, e.Inert) :
    ∃ after, es.foldlM Parse.enter p = .ok after ∧ after.Like p := by
  induction es generalizing seen p with
  | nil => exact ⟨p, rfl, Parse.Like.refl p⟩
  | cons e es ih =>
      obtain ⟨middle, taken, like⟩ := tracks.inert e (inert e List.mem_cons_self)
      have tracks' := tracks.advance e middle (by rw [Parse.advance, taken]; rfl)
      obtain ⟨after, reached, like'⟩ :=
        ih tracks' fun e member => inert e (List.mem_cons_of_mem _ member)
      exists after
      constructor
      · rw [List.foldlM_cons, taken]
        exact reached
      · exact like'.trans like

-- Lines whose entries are inert can stand anywhere in a file.
theorem read_inserted (before inserted after : List UInt8) (srv : Server) (config : Configuration)
    (ended : Ended before) (ended' : Ended inserted) (inert : ∀ e ∈ entries inserted, e.Inert) :
    (pgprtdbgReadConfiguration (some (before ++ (inserted ++ after))) srv config).Same
      (pgprtdbgReadConfiguration (some (before ++ after)) srv config) := by
  rw [read_concluded, read_concluded, entries_append _ _ ended, entries_append _ _ ended,
    entries_append _ _ ended', List.foldlM_append, List.foldlM_append]
  cases reached : (entries before).foldlM Parse.enter (.start srv config) with
  | error p => exact ⟨rfl, rfl⟩
  | ok p =>
      have tracks := run_tracks srv config _ p ((foldlM_run _ _ p).mp reached)
      obtain ⟨middle, through, like⟩ := tracks.inert_run (entries inserted) inert
      have whole : (entries inserted ++ entries after).foldlM Parse.enter p =
          (entries after).foldlM Parse.enter middle := by
        rw [List.foldlM_append, through]
        rfl
      have same := (fold_like (entries after) middle p like).same
      rw [← whole] at same
      exact same

end Inertia

section Samples

def Key.sample (first : Bool) : Key → List UInt8
  | .logType => if first then CText.text "console" else CText.text "file"
  | _ => if first then [49] else [50]

theorem sample_distinct (key : Key) :
    key.kind.hold (key.sample true) ≠ key.kind.hold (key.sample false) := by
  cases key <;> decide +kernel

theorem write_other (kind : Kind) (other : kind ≠ .string) (value : List UInt8) (old : Value) :
    kind.write value old = kind.hold value := by
  cases kind
  case string => exact absurd rfl other
  all_goals rfl

theorem writeAll_last (key : Key) (other : key.kind ≠ .string) (values : List (List UInt8))
    (last : List UInt8) (old : Value) :
    key.writeAll (values ++ [last]) old = key.kind.hold last := by
  rw [writeAll_append]
  exact write_other _ other last _

theorem field_text (key : Key) (string : key.kind = .string) (config : Configuration) :
    ∃ buffer, key.field config = .text buffer := by
  cases key
  all_goals first | exact ⟨_, rfl⟩ | cases string

-- What a value of its own does to a field is not to be seen behind a later one.
theorem sample_hidden (key : Key) (values : List (List UInt8)) (value : List UInt8)
    (member : value ∈ values) (effective : ¬ (key.kind = .string ∧ value = []))
    (config : Configuration) :
    ∃ first, key.writeAll (key.sample first :: values) (key.field config) ≠
      key.writeAll [key.sample first] (key.field config) := by
  by_contra never
  have same : ∀ first, key.writeAll (key.sample first :: values) (key.field config) =
      key.writeAll [key.sample first] (key.field config) := by
    intro first
    by_contra different
    exact never ⟨first, different⟩
  by_cases string : key.kind = .string
  · obtain ⟨buffer, text⟩ := field_text key string config
    have reached : Buffer.overlaid values 0 ≠ none := by
      rw [Ne, Buffer.overlaid_none]
      intro short
      have empty := List.length_eq_zero_iff.mp (Nat.le_zero.mp (short value member))
      exact effective ⟨string, empty⟩
    obtain ⟨byte, seen⟩ := Option.ne_none_iff_exists'.mp reached
    have start (first : Bool) : some byte = (key.sample first)[0]? := by
      have equal := same first
      rw [text, writeAll_text key string, writeAll_text key string, Value.text.injEq] at equal
      have bytes := congrArg (fun b : Text => b.bytes[0]?) equal
      obtain ⟨shown, here⟩ : ∃ shown, (key.sample first)[0]? = some shown := by
        cases key <;> cases first <;> exact ⟨_, rfl⟩
      rw [Buffer.storeAll_byte _ _ 0 (by decide), Buffer.storeAll_byte _ _ 0 (by decide),
        Buffer.overlaid_cons, Buffer.overlaid_cons, seen, here] at bytes
      rw [here]
      exact bytes
    have one := start true
    have two := start false
    rw [one] at two
    revert two
    cases key <;> decide
  · have nonempty := List.ne_nil_of_mem member
    obtain ⟨init, last, rfl⟩ : ∃ init last, values = init ++ [last] :=
      ⟨values.dropLast, values.getLast nonempty, (List.dropLast_append_getLast nonempty).symm⟩
    have hold (first : Bool) : key.kind.hold last = key.kind.hold (key.sample first) := by
      have equal := same first
      rw [← List.cons_append, writeAll_last key string] at equal
      rw [equal]
      exact writeAll_last key string [] _ _
    apply sample_distinct key
    rw [← hold true, ← hold false]

end Samples

section Necessity

variable {inserted : List UInt8} {srv : Server} {config : Configuration}

/-- The text can be inserted anywhere between the lines of any file. -/
def NoEffect (srv : Server) (config : Configuration) (inserted : List UInt8) : Prop :=
  ∀ before after : List UInt8, Ended before →
    (pgprtdbgReadConfiguration (some (before ++ (inserted ++ after))) srv config).Same
      (pgprtdbgReadConfiguration (some (before ++ after)) srv config)

/-- "[a]" -/
def otherSection : List UInt8 := [91, 97, 93, 10]

theorem entries_otherSection : entries otherSection = [.header [97]] := by decide +kernel

-- A server behind a server is one too many.
theorem NoEffect.no_server (noEffect : NoEffect srv config inserted) :
    servers (entries inserted) = [] := by
  have same := (noEffect otherSection [] (Or.inr rfl)).1
  rw [read_returns, read_returns, List.append_nil, List.append_nil,
    entries_append _ _ (Or.inr rfl), entries_otherSection] at same
  have one : servers [.header [97]] = [[97]] := by decide +kernel
  rw [servers_append, one] at same
  by_contra server
  have many : ¬ ([[97]] ++ servers (entries inserted)).length ≤ 1 := by
    have length := List.length_pos_iff.mpr server
    rw [List.length_append, List.length_singleton]
    omega
  rw [if_neg many, if_pos (by decide)] at same
  cases same

theorem sectionAfter_stays (es : List Entry) (nobody : servers es = []) :
    sectionAfter (text "pgprtdbg") es = text "pgprtdbg" := by
  induction es with
  | nil => rfl
  | cons e es ih =>
      rw [servers_cons, List.append_eq_nil_iff] at nobody
      cases e with
      | nothing => exact ih nobody.2
      | setting key value => exact ih nobody.2
      | header name =>
          have main : sectionOf name = text "pgprtdbg" := by
            by_contra other
            simp [servers, other] at nobody
          have step : sectionAfter (text "pgprtdbg") (.header name :: es) =
              sectionAfter (sectionOf name) es := rfl
          rw [step, main]
          exact ih nobody.2

theorem entered_main (es : List Entry) (nobody : servers es = []) (name : List UInt8)
    (member : .header name ∈ es) (start : List UInt8) : sectionAfter start es = text "pgprtdbg" := by
  obtain ⟨first, rest, rfl⟩ := List.append_of_mem member
  rw [servers_append, List.append_eq_nil_iff, servers_cons, List.append_eq_nil_iff] at nobody
  have main : sectionOf name = text "pgprtdbg" := by
    by_contra different
    have here := nobody.2.1
    simp [servers, different] at here
  have stays := sectionAfter_stays rest nobody.2.2
  rw [← main] at stays ⊢
  simpa [sectionAfter] using stays

-- No field depends on the text, in a file that has one server at most.
theorem NoEffect.fields (noEffect : NoEffect srv config inserted) (ended : Ended inserted)
    (before after : List UInt8) (ended' : Ended before)
    (few : (servers (entries before ++ entries after)).length ≤ 1) (key : Key) :
    key.writeAll
        (values .main key (settings (entries before ++ (entries inserted ++ entries after))))
        (key.field config) =
      key.writeAll (values .main key (settings (entries before ++ entries after)))
        (key.field config) := by
  have all : entries (before ++ (inserted ++ after)) =
      entries before ++ (entries inserted ++ entries after) := by
    rw [entries_append _ _ ended', entries_append _ _ ended]
  have rest := entries_append before after ended'
  have success := (read_status (before ++ (inserted ++ after)) srv config).mpr (by
    rw [all, servers_append, servers_append, noEffect.no_server, List.nil_append, ← servers_append]
    exact few)
  have success' := (read_status (before ++ after) srv config).mpr (by
    rw [rest]
    exact few)
  have fields := congrArg key.field (noEffect before after ended').2
  rwa [read_fields _ _ _ success, read_fields _ _ _ success', all, rest] at fields

/-- "port=7", with any digit -/
def digitLine (digit : UInt8) : List UInt8 := [112, 111, 114, 116, 61, digit, 10]

theorem other_digit (port : Int) :
    ∃ digit : UInt8, entries (digitLine digit) = [.setting Key.port.text [digit]] ∧
      asInt [digit] ≠ port := by
  have seven : asInt [55] = 7 := by decide
  have eight : asInt [56] = 8 := by decide
  by_cases taken : port = 7
  · refine ⟨56, ?_, ?_⟩
    · decide +kernel
    · rw [eight, taken]
      decide
  · refine ⟨55, ?_, ?_⟩
    · decide +kernel
    · rw [seven]
      exact Ne.symm taken

-- A header [pgprtdbg] takes the next line out of its section.
theorem NoEffect.no_header (noEffect : NoEffect srv config inserted) (ended : Ended inserted)
    (name : List UInt8) : .header name ∉ entries inserted := by
  intro member
  obtain ⟨digit, line, other⟩ := other_digit config.port
  have few : (servers (entries otherSection ++ entries (digitLine digit))).length ≤ 1 := by
    have one : servers [.header [97]] = [[97]] := by decide +kernel
    rw [entries_otherSection, line, servers_append, one]
    exact Nat.le_refl 1
  have there : sectionAfter [] ([.header [97]] ++ entries inserted) = text "pgprtdbg" :=
    entered_main (entries inserted) noEffect.no_server name member (sectionOf [97])
  have elsewhere : part (sectionAfter [] [.header [97]]) ≠ .main := by decide +kernel
  have ports := noEffect.fields ended otherSection (digitLine digit) (Or.inr rfl) few .port
  rw [entries_otherSection, line, ← List.append_assoc, values_snoc, values_snoc, there,
    (part_main _).mpr rfl, values_hit, values_miss _ _ _ (Or.inl elsewhere), writeAll_append] at ports
  exact other (Value.number.inj ports)

theorem ended_fileOf (lines : List Line) : Ended (fileOf lines) := by
  induction lines using List.reverseRecOn with
  | nil => exact Or.inl rfl
  | append_singleton lines line _ =>
      right
      simp [fileOf]

def sampleLines (key : Key) (first : Bool) : List Line :=
  [.header (text "pgprtdbg"), .assignment key [61] (key.sample first)]

theorem entries_sampleLines (key : Key) (first : Bool) :
    entries (fileOf (sampleLines key first)) =
      [.header (text "pgprtdbg"), .setting key.text (key.sample first)] := by
  cases key <;> cases first <;> decide +kernel

theorem sectionOf_main : sectionOf (text "pgprtdbg") = text "pgprtdbg" := by decide +kernel

theorem settings_main (key value : List UInt8) (es : List Entry) :
    settings ([.header (text "pgprtdbg"), .setting key value] ++ es) =
      ⟨.main, key, value⟩ :: settingsFrom (text "pgprtdbg") es := by
  have shape : settings ([.header (text "pgprtdbg"), .setting key value] ++ es) =
      ⟨part (sectionOf (text "pgprtdbg")), key, value⟩ ::
        settingsFrom (sectionOf (text "pgprtdbg")) es := rfl
  rw [shape, sectionOf_main, (part_main _).mpr rfl]

theorem servers_main (key value : List UInt8) :
    servers [.header (text "pgprtdbg"), .setting key value] = [] := by
  have main : servers [.header (text "pgprtdbg")] = [] := by
    simp [servers, sectionOf_main]
  rw [servers_cons, main]
  rfl

-- Behind [pgprtdbg] all that the text assigns is assigned there.
theorem values_stay (es : List Entry) (nobody : servers es = []) (key : Key) (value : List UInt8)
    (member : .setting key.text value ∈ es) :
    value ∈ values .main key (settingsFrom (text "pgprtdbg") es) := by
  obtain ⟨first, rest, rfl⟩ := List.append_of_mem member
  rw [servers_append, List.append_eq_nil_iff] at nobody
  rw [settingsFrom_append, sectionAfter_stays first nobody.1, values_append, settingsFrom, values_cons,
    (part_main _).mpr rfl, values_hit]
  simp

-- A value that counts hides what [pgprtdbg] has assigned before.
theorem NoEffect.no_setting (noEffect : NoEffect srv config inserted) (ended : Ended inserted)
    (key : Key) (value : List UInt8) (member : .setting key.text value ∈ entries inserted) :
    key.kind = .string ∧ value = [] := by
  by_contra effective
  have given := values_stay _ noEffect.no_server key value member
  obtain ⟨first, hidden⟩ := sample_hidden key _ value given effective config
  apply hidden
  have few : (servers (entries (fileOf (sampleLines key first)) ++ entries [])).length ≤ 1 := by
    rw [entries_sampleLines, servers_append, servers_main]
    exact Nat.zero_le 1
  have fields := noEffect.fields ended _ [] (ended_fileOf (sampleLines key first)) few key
  have nothing : entries [] = [] := rfl
  rw [entries_sampleLines, nothing, List.append_nil, settings_main, settings_main, values_cons,
    values_hit, values_cons _ _ _ (settingsFrom _ []), values_hit] at fields
  exact fields

theorem noEffect_iff (ended : Ended inserted) :
    NoEffect srv config inserted ↔ ∀ e ∈ entries inserted, e.Inert := by
  constructor
  case mp =>
    intro noEffect e member
    cases e with
    | nothing => trivial
    | header name => exact noEffect.no_header ended name member
    | setting raw value =>
        rintro key rfl
        exact noEffect.no_setting ended key value member
  case mpr =>
    intro inert before after ended'
    exact read_inserted before inserted after srv config ended' ended inert

end Necessity

section Comments

def commentLine (mark : UInt8) (rest : List UInt8) : List UInt8 :=
  (Line.comment mark rest).bytes ++ [10]

theorem ended_commentLine (mark : UInt8) (rest : List UInt8) : Ended (commentLine mark rest) := by
  right
  simp [commentLine]

theorem entries_comment (mark : UInt8) (rest : List UInt8) (proper : (Line.comment mark rest).Proper) :
    ∃ pieces, entries (commentLine mark rest) = .nothing :: pieces := by
  have marked : mark = 35 ∨ mark = 59 := proper.shaped
  have inside : ¬ (mark = 10 ∨ ([] : List UInt8).length + 2 = configurationLineLength) := by
    rcases marked with rfl | rfl <;> decide
  obtain ⟨piece, more, first⟩ := fgetsFrom_first configurationLineLength [mark] (rest ++ [10]) (by simp)
  have quiet : entry ([mark] ++ piece) = .nothing := by
    rcases marked with rfl | rfl <;> rfl
  exists more.map entry
  have pieces : fgetsLines configurationLineLength (commentLine mark rest) =
      ([mark] ++ piece) :: more := by
    rw [commentLine, Line.bytes, List.cons_append, fgetsLines, fgetsFrom, if_neg inside]
    exact first
  rw [entries, pieces, List.map_cons, quiet]

/--
A comment has no effect on any file, exactly where the pieces that fgets makes of it have none:
each piece behind the first one is nothing to the parser, a key that it does not know, or a
string key without a value.
-/
theorem comment_ignored (mark : UInt8) (rest : List UInt8) (srv : Server) (config : Configuration)
    (proper : (Line.comment mark rest).Proper) :
    (∀ before after : List UInt8, Ended before →
      (pgprtdbgReadConfiguration (some (before ++ (commentLine mark rest ++ after))) srv
            config).status =
          (pgprtdbgReadConfiguration (some (before ++ after)) srv config).status ∧
        (pgprtdbgReadConfiguration (some (before ++ (commentLine mark rest ++ after))) srv
            config).config =
          (pgprtdbgReadConfiguration (some (before ++ after)) srv config).config) ↔
      ∀ e ∈ (entries (commentLine mark rest)).tail, e.Inert := by
  obtain ⟨pieces, shape⟩ := entries_comment mark rest proper
  have whole : (∀ e ∈ entries (commentLine mark rest), e.Inert) ↔ ∀ e ∈ pieces, e.Inert := by
    rw [shape, List.forall_mem_cons]
    exact ⟨fun both => both.2, fun later => ⟨trivial, later⟩⟩
  rw [shape, List.tail_cons, ← whole]
  exact noEffect_iff (ended_commentLine mark rest)

def longComment : List UInt8 := List.replicate 254 45 ++ [112, 111, 114, 116, 61, 55]

-- Of a comment of 254 dashes and "port=7" the second piece sets the port.
theorem comment_ignored_long :
    ¬ ∀ (mark : UInt8) (rest : List UInt8) (srv : Server) (before after : List UInt8),
      (Line.comment mark rest).Proper → Ended before →
        (pgprtdbgReadConfiguration (some (before ++ (commentLine mark rest ++ after))) srv
              initialConfiguration).status =
            (pgprtdbgReadConfiguration (some (before ++ after)) srv initialConfiguration).status ∧
          (pgprtdbgReadConfiguration (some (before ++ (commentLine mark rest ++ after))) srv
              initialConfiguration).config =
            (pgprtdbgReadConfiguration (some (before ++ after)) srv initialConfiguration).config := by
  intro same
  have equal := (same 35 longComment .zeroed mainHeader [] (by decide +kernel)
    (Or.inr (by decide +kernel))).2
  have ports := congrArg Configuration.port equal
  revert ports
  decide +kernel

-- A comment of 300 dashes has two pieces as well, but the second one is nothing.
theorem comment_ignored_dashes :
    (pgprtdbgReadConfiguration (some (mainHeader ++ (commentLine 35 (List.replicate 300 45) ++
          portLine))) .zeroed initialConfiguration).config =
      (pgprtdbgReadConfiguration (some (mainHeader ++ portLine)) .zeroed
          initialConfiguration).config := by
  have pieces : (entries (commentLine 35 (List.replicate 300 45))).tail = [.nothing] := by
    decide +kernel
  have ignored := (comment_ignored 35 (List.replicate 300 45) .zeroed initialConfiguration
    (by decide +kernel)).mpr
  rw [pieces] at ignored
  exact (ignored (by simp [Entry.Inert]) mainHeader portLine (Or.inr (by decide +kernel))).2

-- A comment that fgets reads in one call is always ignored.
theorem comment_short (mark : UInt8) (rest : List UInt8) (srv : Server) (config : Configuration)
    (proper : (Line.comment mark rest).Proper) (short : rest.length + 2 < configurationLineLength) :
    NoEffect srv config (commentLine mark rest) := by
  apply (noEffect_iff (ended_commentLine mark rest)).mpr
  intro e member
  rw [entries, commentLine, fgetsLines_cons _ _ [] proper.noNewline
    (by simpa [Line.bytes] using short)] at member
  have nothing := entry_comment mark rest proper
  have same : e = .nothing := by
    simpa [fgetsLines, fgetsFrom, nothing] using member
  rw [same]
  trivial

end Comments

end Pgprtdbg
