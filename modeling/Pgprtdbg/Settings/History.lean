import Pgprtdbg.Settings.Entries

set_option autoImplicit false

namespace Pgprtdbg

open CText

def sectionOf (name : List UInt8) : List UInt8 := name.take (miscLength - 1)

/-- What a section is for; a line above all headers and a line behind `[]` are in none. -/
inductive Part where
  | outside
  | main
  | server
  deriving DecidableEq, Repr

def part (name : List UInt8) : Part :=
  if name = text "pgprtdbg" then .main else if name = [] then .outside else .server

structure Setting where
  part : Part
  key : List UInt8
  value : List UInt8
  deriving DecidableEq, Repr

def settingsFrom (name : List UInt8) : List Entry → List Setting
  | [] => []
  | .nothing :: rest => settingsFrom name rest
  | .header name :: rest => settingsFrom (sectionOf name) rest
  | .setting key value :: rest => ⟨part name, key, value⟩ :: settingsFrom name rest

def settings (seen : List Entry) : List Setting := settingsFrom [] seen

def sectionAfter (name : List UInt8) (seen : List Entry) : List UInt8 :=
  seen.foldl (fun name e => match e with | .header name => sectionOf name | _ => name) name

/-- The sections other than [pgprtdbg]. -/
def servers (seen : List Entry) : List (List UInt8) :=
  seen.filterMap fun e => match e with
    | .header name => if sectionOf name = text "pgprtdbg" then none else some (sectionOf name)
    | _ => none

def values (part : Part) (key : Key) (settings : List Setting) : List (List UInt8) :=
  (settings.filter fun s => s.part = part ∧ s.key = key.text).map Setting.value

def Key.writeAll (values : List (List UInt8)) (key : Key) (old : Value) : Value :=
  values.foldl (fun old value => key.kind.write value old) old

@[simp] theorem values_nil (part : Part) (key : Key) : values part key [] = [] := rfl

@[simp] theorem values_append (part : Part) (key : Key) (first second : List Setting) :
    values part key (first ++ second) = values part key first ++ values part key second := by
  simp [values]

@[simp] theorem writeAll_nil (key : Key) (old : Value) : key.writeAll [] old = old := rfl

@[simp] theorem writeAll_append (key : Key) (first second : List (List UInt8)) (old : Value) :
    key.writeAll (first ++ second) old = key.writeAll second (key.writeAll first old) := by
  simp [Key.writeAll]

theorem values_hit (part : Part) (key : Key) (value : List UInt8) :
    values part key [⟨part, key.text, value⟩] = [value] := by
  simp [values]

theorem values_miss (part : Part) (key : Key) (s : Setting)
    (other : s.part ≠ part ∨ s.key ≠ key.text) : values part key [s] = [] := by
  have dropped : ¬ (s.part = part ∧ s.key = key.text) := fun both =>
    other.elim (fun different => different both.1) (fun different => different both.2)
  simp [values, dropped]

theorem settingsFrom_append (name : List UInt8) (first second : List Entry) :
    settingsFrom name (first ++ second) =
      settingsFrom name first ++ settingsFrom (sectionAfter name first) second := by
  induction first generalizing name with
  | nil => rfl
  | cons e first ih =>
      cases e with
      | nothing => exact ih name
      | header name' => exact ih (sectionOf name')
      | setting key value => exact congrArg (List.cons _) (ih name)

theorem settings_snoc (seen : List Entry) (e : Entry) :
    settings (seen ++ [e]) = settings seen ++ settingsFrom (sectionAfter [] seen) [e] :=
  settingsFrom_append [] seen [e]

theorem sectionAfter_snoc (name : List UInt8) (seen : List Entry) (e : Entry) :
    sectionAfter name (seen ++ [e]) =
      match e with | .header name' => sectionOf name' | _ => sectionAfter name seen := by
  simp [sectionAfter]

theorem servers_append (first second : List Entry) :
    servers (first ++ second) = servers first ++ servers second := List.filterMap_append

theorem servers_few {seen : List Entry} (few : (servers seen).length ≤ 1) :
    servers seen = [] ∨ ∃ name, servers seen = [name] :=
  (Nat.le_one_iff_eq_zero_or_eq_one.mp few).imp List.length_eq_zero_iff.mp List.length_eq_one_iff.mp

theorem part_main (name : List UInt8) : part name = .main ↔ name = text "pgprtdbg" := by
  unfold part
  split
  next same => simp [same]
  next other => split <;> simp [other]

theorem part_server (name : List UInt8) :
    part name = .server ↔ name ≠ text "pgprtdbg" ∧ 0 < name.length := by
  unfold part
  split
  next same => simp [same]
  next other => split <;> simp_all [List.length_pos_iff]

section Assigning

variable (p : Parse) (value : List UInt8)

theorem inMain_iff : p.inMain = true ↔ part p.sectionName = .main := by
  rw [part_main, Parse.inMain, decide_eq_true_iff]

theorem assign_main (main : part p.sectionName = .main) (key : Key) :
    p.assign key.text value = { p with config := key.change value p.config } := by
  have here := (inMain_iff p).mpr main
  cases both : key.changeServer value with
  | none => rw [Parse.assign_alone key value both, Parse.set, if_pos here]
  | some change => rw [Parse.assign_both key value change both, Parse.setBoth, if_pos here]

theorem assign_elsewhere (elsewhere : part p.sectionName ≠ .main) (raw : List UInt8) :
    (p.assign raw value).config = p.config := by
  have outside : ¬ p.inMain = true := (inMain_iff p).not.mpr elsewhere
  rcases p.assign_cases raw value with ⟨key, rfl⟩ | ⟨_, same⟩
  case inr => rw [same]
  cases both : key.changeServer value with
  | none =>
      rw [Parse.assign_alone key value both, Parse.set, if_neg outside]
      rfl
  | some change =>
      rw [Parse.assign_both key value change both, Parse.setBoth, if_neg outside]
      split <;> rfl

theorem assign_server (server : part p.sectionName = .server) (key : Key)
    (named : p.srv.name.store p.sectionName = p.srv.name) (change : Server → Server)
    (both : key.changeServer value = some change) :
    (p.assign key.text value).srv = change p.srv := by
  obtain ⟨other, nonempty⟩ := (part_server _).mp server
  have elsewhere : ¬ p.inMain = true := by
    rw [inMain_iff, server]
    exact Part.noConfusion
  rw [Parse.assign_both key value change both, Parse.setBoth, if_neg elsewhere, if_pos nonempty, named]

theorem assign_no_server (elsewhere : part p.sectionName ≠ .server) (raw : List UInt8) :
    (p.assign raw value).srv = p.srv := by
  rcases p.assign_cases raw value with ⟨key, rfl⟩ | ⟨_, same⟩
  case inr => rw [same]
  by_cases main : part p.sectionName = .main
  · rw [assign_main p value main]
  have outside : ¬ p.inMain = true := (inMain_iff p).not.mpr main
  have nowhere : ¬ 0 < p.sectionName.length := fun nonempty =>
    elsewhere ((part_server _).mpr ⟨(part_main _).not.mp main, nonempty⟩)
  cases both : key.changeServer value with
  | none =>
      rw [Parse.assign_alone key value both, Parse.set, if_neg outside]
      rfl
  | some change =>
      rw [Parse.assign_both key value change both, Parse.setBoth, if_neg outside, if_neg nowhere]
      rfl

-- A key that the server section does not have changes nothing in the pending server.
theorem assign_alone_srv (key : Key) (alone : key.changeServer value = none) :
    (p.assign key.text value).srv = p.srv := by
  rw [Parse.assign_alone key value alone, Parse.set]
  split <;> rfl

theorem assign_frame (raw : List UInt8) :
    (p.assign raw value).sectionName = p.sectionName ∧
      (p.assign raw value).idxServer = p.idxServer := by
  rcases p.assign_cases raw value with ⟨key, rfl⟩ | ⟨_, same⟩
  case inr =>
    rw [same]
    exact ⟨rfl, rfl⟩
  cases both : key.changeServer value with
  | none =>
      rw [Parse.assign_alone key value both, Parse.set]
      split <;> exact ⟨rfl, rfl⟩
  | some change =>
      rw [Parse.assign_both key value change both, Parse.setBoth]
      split
      next => exact ⟨rfl, rfl⟩
      next => split <;> exact ⟨rfl, rfl⟩

end Assigning

end Pgprtdbg
