import Pgprtdbg.Settings.History

set_option autoImplicit false

namespace Pgprtdbg

open CText

section Assigning

variable (p : Parse) (raw value : List UInt8)

def Parse.setting (raw value : List UInt8) (p : Parse) : Setting := ⟨part p.sectionName, raw, value⟩

theorem assign_field (key : Key) :
    key.field (p.assign raw value).config =
      key.writeAll (values .main key [p.setting raw value]) (key.field p.config) := by
  by_cases main : part p.sectionName = .main
  case neg =>
    rw [assign_elsewhere p value main, values_miss _ _ _ (Or.inl main), writeAll_nil]
  rcases p.assign_cases raw value with ⟨other, rfl⟩ | ⟨unknown, same⟩
  case inr => rw [same, values_miss _ _ _ (Or.inr (unknown key)), writeAll_nil]
  rw [assign_main p value main]
  by_cases same : key = other
  · subst same
    rw [Parse.setting, main, values_hit]
    exact key.field_change value p.config
  · have miss : other.text ≠ key.text := fun text => same (Key.text_injective _ _ text).symm
    rw [values_miss _ _ _ (Or.inr miss), writeAll_nil]
    exact other.field_other key same value p.config

theorem assign_keeps_server : (p.assign raw value).config.server = p.config.server := by
  by_cases main : part p.sectionName = .main
  case neg => rw [assign_elsewhere p value main]
  rcases p.assign_cases raw value with ⟨key, rfl⟩ | ⟨_, same⟩
  case inr => rw [same]
  rw [assign_main p value main]
  exact key.change_server value p.config

theorem assign_inServer (key : Key)
    (named : part p.sectionName = .server → p.srv.name.store p.sectionName = p.srv.name) :
    key.inServer (p.assign raw value).srv =
      (key.inServer p.srv).map (key.writeAll (values .server key [p.setting raw value])) := by
  have kept (srv : (p.assign raw value).srv = p.srv)
      (miss : values .server key [p.setting raw value] = []) :
      key.inServer (p.assign raw value).srv =
        (key.inServer p.srv).map (key.writeAll (values .server key [p.setting raw value])) := by
    rw [srv, miss]
    cases key.inServer p.srv <;> rfl
  by_cases server : part p.sectionName = .server
  case neg => exact kept (assign_no_server p value server raw) (values_miss _ _ _ (Or.inl server))
  rcases p.assign_cases raw value with ⟨other, rfl⟩ | ⟨unknown, same⟩
  case inr => exact kept (by rw [same]) (values_miss _ _ _ (Or.inr (unknown key)))
  cases both : other.changeServer value with
  | none =>
      have same := assign_alone_srv p value other both
      by_cases equal : key = other
      · subst equal
        rw [same, key.inServer_alone value both]
        rfl
      · apply kept same (values_miss _ _ _ (Or.inr _))
        exact fun text => equal (Key.text_injective _ _ text).symm
  | some change =>
      obtain ⟨_, written, kept'⟩ := other.changeServer_spec value change both p.srv
      rw [assign_server p value server other (named server) change both]
      by_cases equal : key = other
      · subst equal
        rw [Parse.setting, server, values_hit, written]
        rfl
      · rw [kept' key equal,
          values_miss _ _ _ (Or.inr fun text => equal (Key.text_injective _ _ text).symm)]
        cases key.inServer p.srv <;> rfl

theorem assign_name
    (named : part p.sectionName = .server → p.srv.name.store p.sectionName = p.srv.name) :
    (p.assign raw value).srv.name = p.srv.name := by
  by_cases server : part p.sectionName = .server
  case neg => rw [assign_no_server p value server raw]
  rcases p.assign_cases raw value with ⟨key, rfl⟩ | ⟨_, same⟩
  case inr => rw [same]
  cases both : key.changeServer value with
  | none => rw [assign_alone_srv p value key both]
  | some change =>
      rw [assign_server p value server key (named server) change both]
      exact (key.changeServer_spec value change both p.srv).1

end Assigning

structure Tracks (srv : Server) (config : Configuration) (seen : List Entry) (p : Parse) : Prop where
  sectionName : p.sectionName = sectionAfter [] seen
  idxServer : p.idxServer = (servers seen).length - 1
  few : (servers seen).length ≤ 1
  current : part p.sectionName = .server → p.sectionName ∈ servers seen
  fields (key : Key) : key.field p.config =
    key.writeAll (values .main key (settings seen)) (key.field config)
  before : servers seen = [] → p.srv = srv ∧ p.config.server = config.server ∧
    ∀ key : Key, values .server key (settings seen) = []
  behind (name : List UInt8) : servers seen = [name] →
    p.srv.name = Server.zeroed.name.store name ∧ p.config.server = srv ∧
      ∀ key : Key, key.inServer p.srv =
        (key.inServer .zeroed).map (key.writeAll (values .server key (settings seen)))

section Tracking

variable {srv : Server} {config : Configuration} {seen : List Entry} {p : Parse}

theorem tracks_start (srv : Server) (config : Configuration) :
    Tracks srv config [] (.start srv config) := by
  constructor
  case sectionName => rfl
  case idxServer => rfl
  case few => exact Nat.zero_le 1
  case current => exact fun never => by cases never
  case fields => exact fun key => rfl
  case before => exact fun _ => ⟨rfl, rfl, fun key => rfl⟩
  case behind => exact fun name never => by cases never

theorem Tracks.named (tracks : Tracks srv config seen p) (server : part p.sectionName = .server) :
    p.srv.name.store p.sectionName = p.srv.name := by
  have member := tracks.current server
  have few := tracks.few
  cases only : servers seen with
  | nil =>
      rw [only] at member
      cases member
  | cons name rest =>
      rw [only] at member few
      have last : rest = [] := List.length_eq_zero_iff.mp (by simpa using few)
      subst last
      have same : p.sectionName = name := List.mem_singleton.mp member
      rw [(tracks.behind name only).1, same, Buffer.store_again]

-- What a line without a header leaves as it is.
theorem Tracks.assign (tracks : Tracks srv config seen p) (raw value : List UInt8) :
    Tracks srv config (seen ++ [.setting raw value]) (p.assign raw value) := by
  obtain ⟨sectionName, idxServer⟩ := assign_frame p value raw
  have same : servers (seen ++ [.setting raw value]) = servers seen := by
    rw [servers_append]
    exact List.append_nil _
  have made : settings (seen ++ [.setting raw value]) = settings seen ++ [p.setting raw value] := by
    rw [settings_snoc, ← tracks.sectionName]
    rfl
  constructor
  case sectionName => rw [sectionName, tracks.sectionName, sectionAfter_snoc]
  case idxServer => rw [idxServer, tracks.idxServer, same]
  case few =>
    rw [same]
    exact tracks.few
  case current =>
    rw [same, sectionName]
    exact tracks.current
  case fields =>
    intro key
    rw [assign_field, tracks.fields, made, values_append, writeAll_append]
  case before =>
    intro nobody
    rw [same] at nobody
    obtain ⟨untouched, server, empty⟩ := tracks.before nobody
    have elsewhere : part p.sectionName ≠ .server := by
      intro inside
      have member := tracks.current inside
      rw [nobody] at member
      cases member
    constructor
    · rw [assign_no_server p value elsewhere, untouched]
    constructor
    · rw [assign_keeps_server, server]
    · intro key
      rw [made, values_append, empty, values_miss _ _ _ (Or.inl elsewhere), List.append_nil]
  case behind =>
    intro name only
    rw [same] at only
    obtain ⟨called, server, fields⟩ := tracks.behind name only
    constructor
    · rw [assign_name p raw value tracks.named, called]
    constructor
    · rw [assign_keeps_server, server]
    · intro key
      rw [assign_inServer p raw value key tracks.named, fields, made, values_append, Option.map_map]
      congr 1
      funext old
      exact (writeAll_append key _ _ old).symm

-- A line that neither assigns nor opens a server section moves the parser at most elsewhere.
theorem Tracks.moved (tracks : Tracks srv config seen p) (e : Entry) (after : Parse)
    (noServer : servers [e] = []) (noSetting : ∀ name, settingsFrom name [e] = [])
    (here : after.sectionName = sectionAfter p.sectionName [e])
    (current : part after.sectionName = .server → after.sectionName = p.sectionName)
    (idxServer : after.idxServer = p.idxServer) (pending : after.srv = p.srv)
    (same : after.config = p.config) : Tracks srv config (seen ++ [e]) after := by
  have sections : servers (seen ++ [e]) = servers seen := by
    rw [servers_append, noServer, List.append_nil]
  have made : settings (seen ++ [e]) = settings seen := by
    rw [settings_snoc, noSetting, List.append_nil]
  constructor
  case sectionName => rw [here, tracks.sectionName, sectionAfter, sectionAfter, sectionAfter,
    List.foldl_append]
  case idxServer => rw [sections, idxServer, tracks.idxServer]
  case few =>
    rw [sections]
    exact tracks.few
  case current =>
    intro server
    have stays := current server
    rw [stays] at server ⊢
    rw [sections]
    exact tracks.current server
  case fields =>
    rw [made, same]
    exact tracks.fields
  case before =>
    rw [sections, made, pending, same]
    exact tracks.before
  case behind =>
    rw [sections, made, pending, same]
    exact tracks.behind

theorem Tracks.nothing (tracks : Tracks srv config seen p) :
    Tracks srv config (seen ++ [.nothing]) p := by
  apply tracks.moved .nothing p
  case noServer => rfl
  case noSetting => exact fun name => rfl
  case here => rfl
  case current => exact fun _ => rfl
  case idxServer => rfl
  case pending => rfl
  case same => rfl

theorem header_main (name : List UInt8) (main : sectionOf name = text "pgprtdbg") (p : Parse) :
    p.header name = .ok (p.moveTo name) := by
  have here : (p.moveTo name).inMain = true := decide_eq_true main
  rw [Parse.header, if_pos here]

theorem header_other (name : List UInt8) (other : sectionOf name ≠ text "pgprtdbg") (p : Parse) :
    p.header name =
      if p.idxServer + 1 = 0 then .ok { p.moveTo name with idxServer := p.idxServer + 1 }.openServer
      else .error ({ p.moveTo name with idxServer := p.idxServer + 1 }.print
        "Maximum number of servers exceeded\n" []) := by
  have elsewhere : ¬ (p.moveTo name).inMain = true := by
    rw [Parse.inMain, decide_eq_true_iff]
    exact other
  rw [Parse.header, if_neg elsewhere]
  rfl

theorem Tracks.main (tracks : Tracks srv config seen p) (name : List UInt8)
    (main : sectionOf name = text "pgprtdbg") :
    Tracks srv config (seen ++ [.header name]) (p.moveTo name) := by
  apply tracks.moved (.header name) (p.moveTo name)
  case noServer => simp [servers, main]
  case noSetting => exact fun name => rfl
  case here => rfl
  case current => exact fun server => absurd main ((part_server _).mp server).1
  case idxServer => rfl
  case pending => rfl
  case same => rfl

theorem Tracks.server (tracks : Tracks srv config seen p) (name : List UInt8)
    (other : sectionOf name ≠ text "pgprtdbg") (first : servers seen = []) :
    Tracks srv config (seen ++ [.header name])
      { p.moveTo name with idxServer := p.idxServer + 1 }.openServer := by
  obtain ⟨untouched, server, empty⟩ := tracks.before first
  have one : servers (seen ++ [.header name]) = [sectionOf name] := by
    rw [servers_append, first]
    simp [servers, other]
  have made : settings (seen ++ [.header name]) = settings seen := by
    rw [settings_snoc]
    exact List.append_nil _
  constructor
  case sectionName =>
    rw [sectionAfter_snoc]
    rfl
  case idxServer =>
    change p.idxServer + 1 = _
    rw [tracks.idxServer, first, one]
    rfl
  case few =>
    rw [one]
    exact Nat.le_refl 1
  case current =>
    intro _
    rw [one]
    exact List.mem_cons_self
  case fields =>
    intro key
    rw [made, ← tracks.fields]
    cases key <;> rfl
  case before =>
    intro nobody
    rw [one] at nobody
    cases nobody
  case behind =>
    intro name' only
    rw [one] at only
    cases only
    constructor
    · rfl
    constructor
    · exact untouched
    · intro key
      rw [made, empty]
      cases key <;> rfl

def Parse.advance (p : Parse) (e : Entry) : Option Parse := (p.enter e).toOption

theorem Tracks.advance (tracks : Tracks srv config seen p) (e : Entry) (after : Parse)
    (taken : p.advance e = some after) : Tracks srv config (seen ++ [e]) after := by
  cases e with
  | nothing =>
      cases taken
      exact tracks.nothing
  | setting key value =>
      cases taken
      exact tracks.assign key value
  | header name =>
      rw [Parse.advance, Parse.enter] at taken
      by_cases main : sectionOf name = text "pgprtdbg"
      · rw [header_main name main] at taken
        cases taken
        exact tracks.main name main
      · rw [header_other name main] at taken
        have count := tracks.idxServer
        by_cases first : servers seen = []
        · rw [first] at count
          rw [if_pos (by simp [count])] at taken
          cases taken
          exact tracks.server name main first
        · have more : ¬ p.idxServer + 1 = 0 := by
            have earlier := List.length_pos_iff.mpr first
            omega
          rw [if_neg more] at taken
          cases taken

theorem Tracks.advances (tracks : Tracks srv config seen p) (e : Entry)
    (few : (servers (seen ++ [e])).length ≤ 1) : ∃ after, p.advance e = some after := by
  cases e with
  | nothing => exact ⟨p, rfl⟩
  | setting key value => exact ⟨p.assign key value, rfl⟩
  | header name =>
      rw [Parse.advance, Parse.enter]
      by_cases main : sectionOf name = text "pgprtdbg"
      · rw [header_main name main]
        exact ⟨_, rfl⟩
      · have first : servers seen = [] := by
          rw [servers_append, List.length_append] at few
          have one : (servers [.header name]).length = 1 := by simp [servers, main]
          exact List.length_eq_zero_iff.mp (by omega)
        rw [header_other name main, tracks.idxServer, first]
        exact ⟨_, rfl⟩

end Tracking

theorem foldlM_run (es : List Entry) (p after : Parse) :
    es.foldlM Parse.enter p = .ok after ↔ Steps.run Parse.advance p es = some after := by
  induction es generalizing p with
  | nil =>
      constructor
      · rintro ⟨⟩
        rfl
      · rintro ⟨⟩
        rfl
  | cons e es ih =>
      rw [List.foldlM_cons, Steps.run_cons]
      unfold Parse.advance
      cases p.enter e with
      | error stopped =>
          constructor
          · rintro ⟨⟩
          · rintro ⟨middle, never, _⟩
            cases never
      | ok middle =>
          constructor
          · intro reached
            exact ⟨middle, rfl, (ih middle).mp reached⟩
          · rintro ⟨_, ⟨⟩, reached⟩
            exact (ih middle).mpr reached

theorem run_tracks (srv : Server) (config : Configuration) (es : List Entry) (after : Parse)
    (reached : Steps.run Parse.advance (.start srv config) es = some after) :
    Tracks srv config es after := by
  apply Steps.run_invariant Parse.advance (Tracks srv config) (.start srv config)
  · exact tracks_start srv config
  · intro seen before e after tracks taken
    exact tracks.advance e after taken
  · exact reached

theorem run_exists (srv : Server) (config : Configuration) (es : List Entry)
    (few : (servers es).length ≤ 1) :
    ∃ after, Steps.run Parse.advance (.start srv config) es = some after := by
  induction es using List.reverseRecOn with
  | nil => exact ⟨_, rfl⟩
  | append_singleton es e ih =>
      have fewer : (servers es).length ≤ 1 := by
        rw [servers_append, List.length_append] at few
        omega
      obtain ⟨before, reached⟩ := ih fewer
      obtain ⟨after, taken⟩ := (run_tracks srv config es before reached).advances e few
      exact ⟨after, (Steps.run_snoc Parse.advance _ es e after).mpr ⟨before, reached, taken⟩⟩

theorem servers_clean (content name : List UInt8) (member : name ∈ servers (entries content)) :
    0 ∉ name ∧ name.length < miscLength := by
  obtain ⟨e, among, named⟩ := List.mem_filterMap.mp member
  obtain ⟨line, _, rfl⟩ := List.mem_map.mp among
  cases said : entry line with
  | nothing =>
      rw [said] at named
      cases named
  | setting key value =>
      rw [said] at named
      cases named
  | header whole =>
      rw [said] at named
      dsimp only at named
      split at named
      next => cases named
      next =>
        cases named
        constructor
        · intro zero
          exact entry_header_clean line whole said (List.mem_of_mem_take zero)
        · rw [sectionOf, List.length_take, miscLength]
          omega

theorem read_ok (content : List UInt8) (srv : Server) (config : Configuration)
    (success : (pgprtdbgReadConfiguration (some content) srv config).status = 0) :
    ∃ p, Tracks srv config (entries content) p ∧
      pgprtdbgReadConfiguration (some content) srv config = p.finish := by
  rw [read_entries] at success ⊢
  cases reached : (entries content).foldlM Parse.enter (.start srv config) with
  | error p =>
      rw [reached] at success
      cases success
  | ok p => exact ⟨p, run_tracks srv config _ p ((foldlM_run _ _ p).mp reached), rfl⟩

theorem finish_status (p : Parse) : p.finish.status = 0 := by
  unfold Parse.finish
  split <;> rfl

theorem finish_field (key : Key) (p : Parse) : key.field p.finish.config = key.field p.config := by
  unfold Parse.finish
  split
  next => cases key <;> rfl
  next => rfl

-- A file is read when it has at most one section besides [pgprtdbg].
theorem read_status (content : List UInt8) (srv : Server) (config : Configuration) :
    (pgprtdbgReadConfiguration (some content) srv config).status = 0 ↔
      (servers (entries content)).length ≤ 1 := by
  constructor
  · intro success
    obtain ⟨p, tracks, _⟩ := read_ok content srv config success
    exact tracks.few
  · intro few
    obtain ⟨p, reached⟩ := run_exists srv config (entries content) few
    rw [read_entries, (foldlM_run _ _ p).mpr reached]
    exact finish_status p

theorem read_returns (content : List UInt8) (srv : Server) (config : Configuration) :
    (pgprtdbgReadConfiguration (some content) srv config).status =
      if (servers (entries content)).length ≤ 1 then 0 else 1 := by
  split
  next few => exact (read_status content srv config).mpr few
  next many =>
    have failed := (read_status content srv config).not.mpr many
    rw [read_entries] at failed ⊢
    split
    next reached =>
      rw [reached] at failed
      exact absurd (finish_status _) failed
    next => rfl

theorem read_fields (content : List UInt8) (srv : Server) (config : Configuration)
    (success : (pgprtdbgReadConfiguration (some content) srv config).status = 0) (key : Key) :
    key.field (pgprtdbgReadConfiguration (some content) srv config).config =
      key.writeAll (values .main key (settings (entries content))) (key.field config) := by
  obtain ⟨p, tracks, finished⟩ := read_ok content srv config success
  rw [finished, finish_field, tracks.fields]

theorem read_no_server (content : List UInt8) (srv : Server) (config : Configuration)
    (nobody : servers (entries content) = []) :
    (pgprtdbgReadConfiguration (some content) srv config).config.server = config.server := by
  have success := (read_status content srv config).mpr (by rw [nobody]; exact Nat.zero_le 1)
  obtain ⟨p, tracks, finished⟩ := read_ok content srv config success
  have count := tracks.idxServer
  rw [nobody] at count
  have unopened : ¬ (p.idxServer ≠ -1 ∧ 0 < p.srv.name.string.length) := fun opened => opened.1 count
  rw [finished, Parse.finish, if_neg unopened]
  exact (tracks.before nobody).2.1

-- The server of a section `[]` is what the stack held when the parser began.
theorem read_nameless (content : List UInt8) (srv : Server) (config : Configuration)
    (only : servers (entries content) = [[]]) :
    (pgprtdbgReadConfiguration (some content) srv config).config.server = srv := by
  have success := (read_status content srv config).mpr (by rw [only]; exact Nat.le_refl 1)
  obtain ⟨p, tracks, finished⟩ := read_ok content srv config success
  obtain ⟨called, server, _⟩ := tracks.behind [] only
  have unnamed : ¬ (p.idxServer ≠ -1 ∧ 0 < p.srv.name.string.length) := by
    rw [called]
    exact fun named => absurd named.2 (by decide)
  rw [finished, Parse.finish, if_neg unnamed]
  exact server

theorem read_server (content : List UInt8) (srv : Server) (config : Configuration)
    (name : List UInt8) (only : servers (entries content) = [name]) (nonempty : name ≠ []) :
    (pgprtdbgReadConfiguration (some content) srv config).config.server.name =
        .holding miscLength name ∧
      ∀ key : Key, key.inServer (pgprtdbgReadConfiguration (some content) srv config).config.server =
        (key.inServer .zeroed).map
          (key.writeAll (values .server key (settings (entries content)))) := by
  have success := (read_status content srv config).mpr (by rw [only]; exact Nat.le_refl 1)
  obtain ⟨p, tracks, finished⟩ := read_ok content srv config success
  obtain ⟨called, _, fields⟩ := tracks.behind name only
  obtain ⟨clean, fits⟩ := servers_clean content name (by rw [only]; exact List.mem_cons_self)
  have stored : p.srv.name = .holding miscLength name := called.trans (Buffer.store_zeroed name fits)
  have named : p.idxServer ≠ -1 ∧ 0 < p.srv.name.string.length := by
    constructor
    · rw [tracks.idxServer, only, List.length_singleton]
      decide
    · rw [stored, Buffer.holding_string name fits clean]
      exact List.length_pos_iff.mpr nonempty
  rw [finished, Parse.finish, if_pos named]
  exact ⟨stored, fields⟩

end Pgprtdbg
