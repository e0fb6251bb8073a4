import Mathlib.Data.List.TakeWhile
import Pgprtdbg.Settings.Keys
import Pgprtdbg.Shared.Steps

set_option autoImplicit false

namespace Pgprtdbg

open CText

inductive Entry where
  | nothing
  | header (name : List UInt8)
  | setting (key value : List UInt8)
  deriving DecidableEq, Repr

def entry (line : List UInt8) : Entry :=
  match string line with
  | [] => .nothing
  | first :: rest =>
      if first = 91 then
        if 93 ∈ rest then .header (rest.takeWhile (· ≠ 93)) else .nothing
      else if first = 35 ∨ first = 59 then
        .nothing
      else
        match extractKeyValue (first :: rest) none none with
        | (some key, some value) => .setting key value
        | _ => .nothing

def entries (content : List UInt8) : List Entry :=
  (fgetsLines configurationLineLength content).map entry

theorem entries_append (first second : List UInt8) (ended : Ended first) :
    entries (first ++ second) = entries first ++ entries second := by
  rw [entries, fgetsLines_append _ first second ended, List.map_append]
  rfl

def Parse.enter (p : Parse) : Entry → Except Parse Parse
  | .nothing => .ok p
  | .header name => p.header name
  | .setting key value => .ok (p.assign key value)

structure Scanned (line key separator value ending : List UInt8) : Prop where
  parts : line = key ++ (separator ++ (value ++ ending))
  bare : ∀ byte ∈ key, byte ≠ 32 ∧ byte ≠ 61
  first : separator.head? = some 32 ∨ separator.head? = some 61
  between : ∀ byte ∈ separator, byte = 32 ∨ byte = 9 ∨ byte = 61
  plain : ∀ byte ∈ value, byte ≠ 32 ∧ byte ≠ 13 ∧ byte ≠ 10
  starts : ∀ byte ∈ (value ++ ending).head?, byte ≠ 32 ∧ byte ≠ 9 ∧ byte ≠ 61
  stops : ∀ byte ∈ ending.head?, byte = 32 ∨ byte = 13 ∨ byte = 10

section Scanning

variable {line key separator value ending : List UInt8}

-- The value counts only when the line goes on behind it.
theorem Scanned.extract (scanned : Scanned line key separator value ending) :
    extractKeyValue line none none = (some key, if ending = [] then none else some value) := by
  let inKey : UInt8 → Bool := fun byte => byte ≠ 32 ∧ byte ≠ 61
  let inSeparator : UInt8 → Bool := fun byte => byte = 32 ∨ byte = 9 ∨ byte = 61
  let inValue : UInt8 → Bool := fun byte => byte ≠ 32 ∧ byte ≠ 13 ∧ byte ≠ 10
  have keyAll : ∀ byte ∈ key, inKey byte = true :=
    fun byte member => decide_eq_true (scanned.bare byte member)
  have keyStop : ∀ byte ∈ (separator ++ (value ++ ending)).head?, inKey byte = false := by
    intro byte here
    rcases scanned.first with space | equal
    · rw [List.head?_append, space] at here
      cases here
      rfl
    · rw [List.head?_append, equal] at here
      cases here
      rfl
  have separatorAll : ∀ byte ∈ separator, inSeparator byte = true :=
    fun byte member => decide_eq_true (scanned.between byte member)
  have separatorStop : ∀ byte ∈ (value ++ ending).head?, inSeparator byte = false := by
    intro byte here
    have other := scanned.starts byte here
    simp [inSeparator, other]
  have valueAll : ∀ byte ∈ value, inValue byte = true :=
    fun byte member => decide_eq_true (scanned.plain byte member)
  have valueStop : ∀ byte ∈ ending.head?, inValue byte = false := by
    intro byte here
    rcases scanned.stops byte here with rfl | rfl | rfl <;> rfl
  have nonempty : separator ++ (value ++ ending) ≠ [] := by
    intro nothing
    have first := scanned.first
    rw [(List.append_eq_nil_iff.mp nothing).1] at first
    rcases first with never | never <;> cases never
  have found := takeWhile_stops inKey key _ keyAll keyStop
  have behind := dropWhile_stops inKey key _ keyAll keyStop
  have rest := dropWhile_stops inSeparator separator _ separatorAll separatorStop
  have read := takeWhile_stops inValue value _ valueAll valueStop
  simp only [inKey, inSeparator, inValue] at found behind rest read
  simp only [extractKeyValue, scanned.parts, found, behind, rest, read, if_neg nonempty]
  cases ending with
  | nil => simp
  | cons byte ending => simp

theorem head_dropWhile (inside : UInt8 → Bool) (bytes : List UInt8) :
    ∀ byte ∈ (bytes.dropWhile inside).head?, inside byte = false := by
  intro byte here
  have first := List.head?_dropWhile_not inside bytes
  rw [here] at first
  exact first

theorem scanned_exists (line : List UInt8) :
    (∀ byte ∈ line, byte ≠ 32 ∧ byte ≠ 61) ∨
      ∃ key separator value ending, Scanned line key separator value ending := by
  let inKey : UInt8 → Bool := fun byte => byte ≠ 32 ∧ byte ≠ 61
  let inSeparator : UInt8 → Bool := fun byte => byte = 32 ∨ byte = 9 ∨ byte = 61
  let inValue : UInt8 → Bool := fun byte => byte ≠ 32 ∧ byte ≠ 13 ∧ byte ≠ 10
  let behind := line.dropWhile inKey
  let rest := behind.dropWhile inSeparator
  have taken (inside : UInt8 → Bool) (bytes : List UInt8) :
      ∀ byte ∈ bytes.takeWhile inside, inside byte = true := fun _ => List.mem_takeWhile_imp
  have parts : line.takeWhile inKey ++ behind = line := List.takeWhile_append_dropWhile
  have between : behind.takeWhile inSeparator ++ rest = behind := List.takeWhile_append_dropWhile
  have whole : rest.takeWhile inValue ++ rest.dropWhile inValue = rest :=
    List.takeWhile_append_dropWhile
  by_cases nothing : behind = []
  · left
    intro byte member
    rw [nothing, List.append_nil] at parts
    rw [← parts] at member
    exact of_decide_eq_true (taken inKey line byte member)
  right
  exists line.takeWhile inKey, behind.takeWhile inSeparator, rest.takeWhile inValue,
    rest.dropWhile inValue
  constructor
  case parts => rw [whole, between, parts]
  case bare => exact fun byte member => of_decide_eq_true (taken inKey line byte member)
  case first =>
    obtain ⟨stop, more, shape⟩ := List.exists_cons_of_ne_nil nothing
    have stops : inKey stop = false := head_dropWhile inKey line stop (by
      change stop ∈ behind.head?
      rw [shape]
      rfl)
    have separates : stop = 32 ∨ stop = 61 := by
      have ends : ¬ (stop ≠ 32 ∧ stop ≠ 61) := of_decide_eq_false stops
      by_cases space : stop = 32
      · exact Or.inl space
      · exact Or.inr (not_not.mp fun equal => ends ⟨space, equal⟩)
    rw [shape]
    rcases separates with rfl | rfl
    · exact Or.inl rfl
    · exact Or.inr rfl
  case between =>
    exact fun byte member => of_decide_eq_true (taken inSeparator behind byte member)
  case plain => exact fun byte member => of_decide_eq_true (taken inValue rest byte member)
  case starts =>
    intro byte here
    rw [whole] at here
    have other := of_decide_eq_false (head_dropWhile inSeparator behind byte here)
    exact ⟨fun space => other (Or.inl space), fun tab => other (Or.inr (Or.inl tab)),
      fun equal => other (Or.inr (Or.inr equal))⟩
  case stops =>
    intro byte here
    have other := of_decide_eq_false (head_dropWhile inValue rest byte here)
    by_cases space : byte = 32
    · exact Or.inl space
    by_cases back : byte = 13
    · exact Or.inr (Or.inl back)
    · exact Or.inr (Or.inr (not_not.mp fun newline => other ⟨space, back, newline⟩))

theorem extractKeyValue_bare (line : List UInt8) (bare : ∀ byte ∈ line, byte ≠ 32 ∧ byte ≠ 61) :
    extractKeyValue line none none = (none, none) := by
  have behind : line.dropWhile (fun byte => decide (byte ≠ 32 ∧ byte ≠ 61)) = [] := by
    apply List.dropWhile_eq_nil_iff.mpr
    exact fun byte member => decide_eq_true (bare byte member)
  rw [extractKeyValue, if_pos behind]

-- A newline behind a line is one more byte behind its value.
theorem Scanned.newline (scanned : Scanned line key separator value ending) :
    Scanned (line ++ [10]) key separator value (ending ++ [10]) := by
  constructor
  case parts => simp [scanned.parts]
  case bare => exact scanned.bare
  case first => exact scanned.first
  case between => exact scanned.between
  case plain => exact scanned.plain
  case starts =>
    intro byte here
    rw [← List.append_assoc, List.head?_append] at here
    cases inside : (value ++ ending).head? with
    | some first =>
        rw [inside] at here
        cases here
        exact scanned.starts _ inside
    | none =>
        rw [inside] at here
        cases here
        decide
  case stops =>
    intro byte here
    rw [List.head?_append] at here
    cases inside : ending.head? with
    | some first =>
        rw [inside] at here
        cases here
        exact scanned.stops _ inside
    | none =>
        rw [inside] at here
        cases here
        decide

end Scanning

-- What is found does not depend on a key that an earlier line left behind.
theorem extractKeyValue_cases (str : List UInt8) :
    (∀ key, extractKeyValue str key none = (key, none)) ∨
      (∃ found, ∀ key, extractKeyValue str key none = (some found, none)) ∨
        ∃ found value, ∀ key, extractKeyValue str key none = (some found, some value) := by
  unfold extractKeyValue
  generalize (str.takeWhile fun byte => byte ≠ 32 ∧ byte ≠ 61) = found
  generalize (str.dropWhile fun byte => byte ≠ 32 ∧ byte ≠ 61) = behind
  by_cases bare : behind = []
  · exact Or.inl fun key => if_pos bare
  apply Or.inr
  simp only [if_neg bare]
  generalize (behind.dropWhile fun byte => byte = 32 ∨ byte = 9 ∨ byte = 61) = rest
  generalize (rest.takeWhile fun byte => byte ≠ 32 ∧ byte ≠ 13 ∧ byte ≠ 10) = value
  by_cases bounded : value.length < rest.length
  · exact Or.inr ⟨found, value, fun key => if_pos bounded⟩
  · exact Or.inl ⟨found, fun key => if_neg bounded⟩

def Follows (parse : Except Parse Parse) (outcome : Except Parse Reader) : Prop :=
  outcome.map Reader.parse = parse ∧ ∀ r, outcome = .ok r → r.value = none

theorem follows_ok (r : Reader) (quiet : r.value = none) : Follows (.ok r.parse) (.ok r) := by
  constructor
  · rfl
  · rintro after ⟨⟩
    exact quiet

theorem follows_header (r : Reader) (quiet : r.value = none) (outcome : Except Parse Parse) :
    Follows outcome (outcome.map fun parse => { r with parse := parse }) := by
  cases outcome with
  | error p =>
      constructor
      · rfl
      · intro after never
        cases never
  | ok p => exact follows_ok { r with parse := p } quiet

theorem Reader.line_follows (r : Reader) (line : List UInt8) (quiet : r.value = none) :
    Follows (r.parse.enter (entry line)) (r.line line) := by
  unfold Reader.line entry
  cases string line with
  | nil => exact follows_ok r quiet
  | cons first rest =>
      dsimp only
      by_cases bracket : first = 91
      · rw [if_pos bracket, if_pos bracket]
        by_cases closed : 93 ∈ rest
        · rw [if_pos closed, if_pos closed]
          exact follows_header r quiet _
        · rw [if_neg closed, if_neg closed]
          exact follows_ok r quiet
      rw [if_neg bracket, if_neg bracket]
      by_cases mark : first = 35 ∨ first = 59
      · rw [if_pos mark, if_pos mark]
        exact follows_ok r quiet
      rw [if_neg mark, if_neg mark, quiet]
      rcases extractKeyValue_cases (first :: rest) with neither | ⟨found, key⟩ | ⟨found, value, both⟩
      · rw [neither, neither]
        cases r.key with
        | none => exact follows_ok _ rfl
        | some key => exact follows_ok _ rfl
      · rw [key, key]
        exact follows_ok _ rfl
      · rw [both, both]
        exact follows_ok ⟨r.parse.assign found value, none, none⟩ rfl

theorem lines_follow (lines : List (List UInt8)) (r : Reader) (quiet : r.value = none) :
    (lines.foldlM (fun r line => r.line line) r : Except Parse Reader).map Reader.parse =
      (lines.map entry).foldlM Parse.enter r.parse := by
  induction lines generalizing r with
  | nil => rfl
  | cons line lines ih =>
      obtain ⟨same, quiet⟩ := r.line_follows line quiet
      rw [List.foldlM_cons, List.map_cons, List.foldlM_cons, ← same]
      cases outcome : r.line line with
      | error p => rfl
      | ok after => exact ih after (quiet after outcome)

theorem entry_header_clean (line name : List UInt8) (said : entry line = .header name) :
    0 ∉ name := by
  unfold entry at said
  have clean : 0 ∉ string line := by
    intro zero
    have nonzero := List.mem_takeWhile_imp zero
    simp at nonzero
  cases text : string line with
  | nil =>
      rw [text] at said
      cases said
  | cons first rest =>
      rw [text] at said clean
      dsimp only at said
      split at said
      next =>
        split at said
        next =>
          cases said
          intro zero
          exact clean (List.mem_cons_of_mem first (List.takeWhile_subset _ zero))
        next => cases said
      next =>
        split at said
        next => cases said
        next => split at said <;> cases said

-- Reading a file is entering what its lines say.
theorem read_entries (content : List UInt8) (srv : Server) (config : Configuration) :
    pgprtdbgReadConfiguration (some content) srv config =
      match (entries content).foldlM Parse.enter (.start srv config) with
      | .ok p => p.finish
      | .error p => ⟨1, p.config, p.printed⟩ := by
  have follow := lines_follow (fgetsLines configurationLineLength content)
    ⟨.start srv config, none, none⟩ rfl
  rw [entries, ← follow]
  simp only [pgprtdbgReadConfiguration]
  cases (fgetsLines configurationLineLength content).foldlM (fun r line => Reader.line line r)
    (⟨.start srv config, none, none⟩ : Reader) <;> rfl

end Pgprtdbg
