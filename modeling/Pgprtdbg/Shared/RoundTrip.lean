import Mathlib.Data.List.Induction
import Mathlib.Data.List.Infix
import Pgprtdbg.Shared.Walk

set_option autoImplicit false

/-!
What a walk makes of cells that are known: which value it recovers from them, and that it goes
over exactly them.
-/

namespace Walk

variable {Cell Entry Halt Value Result : Type}

structure Leads (walk : Walk Cell Entry Halt Value) (data : List Cell) (offset : Nat)
    (cells : List Cell) (log : List Entry) (later : Walk Cell Entry Halt Value) : Prop where
  returns : (walk data offset).value = (later data (offset + cells.length)).value
  cursor : (walk data offset).offset = (later data (offset + cells.length)).offset
  logs : (walk data offset).log = log ++ (later data (offset + cells.length)).log
  reads : ∀ position ∈ (walk data offset).reads, offset ≤ position ∧
    position < offset + cells.length ∨ position ∈ (later data (offset + cells.length)).reads

/-- Wherever a block has these cells, the walk gets over them and goes on as the later one. -/
def Reaches (walk : Walk Cell Entry Halt Value) (cells : List Cell) (log : List Entry)
    (later : Walk Cell Entry Halt Value) : Prop :=
  ∀ data offset, cells <+: data.drop offset → Leads walk data offset cells log later

abbrev Recovers (walk : Walk Cell Entry Halt Value) (cells : List Cell) (value : Value)
    (log : List Entry) : Prop :=
  Reaches walk cells log (pure value)

section Leads

variable {data : List Cell} {offset : Nat}

theorem Leads.refl (walk : Walk Cell Entry Halt Value) : Leads walk data offset [] [] walk where
  returns := rfl
  cursor := rfl
  logs := rfl
  reads _ member := .inr member

theorem leads_of_eq {walk later : Walk Cell Entry Halt Value}
    (same : walk data offset = later data offset) : Leads walk data offset [] [] later where
  returns := congrArg Outcome.value same
  cursor := congrArg Outcome.offset same
  logs := congrArg Outcome.log same
  reads position member := by
    rw [same] at member
    exact .inr member

theorem leads_ahead (rest : List Cell → Walk Cell Entry Halt Value) :
    Leads (Walk.andThen ahead rest) data offset [] [] (rest (data.drop offset)) :=
  leads_of_eq rfl

theorem Leads.trans {walk middle later : Walk Cell Entry Halt Value} {front back : List Cell}
    {early late : List Entry} (first : Leads walk data offset front early middle)
    (second : Leads middle data (offset + front.length) back late later) :
    Leads walk data offset (front ++ back) (early ++ late) later := by
  have far : offset + (front ++ back).length = offset + front.length + back.length := by
    rw [List.length_append]
    omega
  constructor
  · rw [first.returns, second.returns, far]
  · rw [first.cursor, second.cursor, far]
  · rw [first.logs, second.logs, far, List.append_assoc]
  · intro position member
    rw [far]
    cases first.reads position member with
    | inl before => exact .inl ⟨before.1, by omega⟩
    | inr after =>
        cases second.reads position after with
        | inl within => exact .inl ⟨by omega, within.2⟩
        | inr behind => exact .inr behind

theorem Leads.inside {walk : Walk Cell Entry Halt Value} {cells : List Cell} {log : List Entry}
    {value : Value} (leads : Leads walk data offset cells log (pure value)) (position : Nat)
    (member : position ∈ (walk data offset).reads) :
    offset ≤ position ∧ position < offset + cells.length := by
  cases leads.reads position member with
  | inl within => exact within
  | inr nothing => cases nothing

theorem Leads.logged {walk : Walk Cell Entry Halt Value} {cells : List Cell} {log : List Entry}
    {value : Value} (leads : Leads walk data offset cells log (pure value)) :
    (walk data offset).log = log :=
  leads.logs.trans (List.append_nil log)

theorem Leads.andThen {walk : Walk Cell Entry Halt Value} {cells : List Cell}
    {log : List Entry} {value : Value} (leads : Leads walk data offset cells log (pure value))
    (rest : Value → Walk Cell Entry Halt Result) :
    Leads (Walk.andThen walk rest) data offset cells log (rest value) := by
  have ended : (walk data offset).value = .ok value := leads.returns
  have cursor : (walk data offset).offset = offset + cells.length := leads.cursor
  constructor
  · simp only [Walk.andThen, ended, cursor]
  · simp only [Walk.andThen, ended, cursor]
  · simp only [Walk.andThen, ended, cursor, leads.logged]
  · intro position member
    simp only [Walk.andThen, ended, cursor, List.mem_append] at member
    cases member with
    | inl before => exact .inl (leads.inside position before)
    | inr after => exact .inr after

-- What follows the cells reads nothing more.
theorem Leads.closing {walk : Walk Cell Entry Halt Value} {cells : List Cell} {log : List Entry}
    {value : Value} {rest : Value → Walk Cell Entry Halt Result} {later : Walk Cell Entry Halt Result}
    (first : Leads walk data offset cells [] (pure value))
    (second : Leads (rest value) data (offset + cells.length) [] log later) :
    Leads (Walk.andThen walk rest) data offset cells log later := by
  have whole := (first.andThen rest).trans second
  rwa [List.append_nil, List.nil_append] at whole

-- A second pass over the same cells.
theorem Leads.rewind {walk : Walk Cell Entry Halt Value} {cells : List Cell} {log : List Entry}
    {value : Value} {rest : Value → Walk Cell Entry Halt Result} {later : Walk Cell Entry Halt Result}
    (first : Leads walk data offset cells [] (pure value))
    (second : Leads (rest value) data offset cells log later) :
    Leads (Walk.andThen walk fun value => Walk.andThen (seek offset) fun _ => rest value) data offset
      cells log later := by
  have ended : (walk data offset).value = .ok value := first.returns
  constructor
  · simpa only [Walk.andThen, ended, seek] using second.returns
  · simpa only [Walk.andThen, ended, seek] using second.cursor
  · simpa only [Walk.andThen, ended, seek, first.logged, List.nil_append] using second.logs
  · intro position member
    simp only [Walk.andThen, ended, seek, List.mem_append, List.nil_append] at member
    cases member with
    | inl before => exact .inl (first.inside position before)
    | inr after => exact second.reads position after

end Leads

theorem prefix_behind {front back : List Cell} {data : List Cell} {offset : Nat}
    (here : front ++ back <+: data.drop offset) :
    front <+: data.drop offset ∧ back <+: data.drop (offset + front.length) := by
  obtain ⟨rest, whole⟩ := here
  rw [← List.drop_drop, ← whole, List.append_assoc, List.drop_left]
  exact ⟨List.prefix_append _ _, List.prefix_append _ _⟩

theorem emit_speaks (entry : Entry) (rest : Unit → Walk Cell Entry Halt Result) (data : List Cell)
    (offset : Nat) : (Walk.andThen (emit entry) rest data offset).log ≠ [] := by
  simp [Walk.andThen, emit]

-- A walk that logs whatever it has read: if it ends well, it has logged something.
theorem andThen_speaks {walk : Walk Cell Entry Halt Value}
    {rest : Value → Walk Cell Entry Halt Result}
    (speaks : ∀ value data offset, (rest value data offset).log ≠ []) (data : List Cell)
    (offset : Nat) :
    (∀ result, (Walk.andThen walk rest data offset).value ≠ .ok result) ∨
      (Walk.andThen walk rest data offset).log ≠ [] := by
  cases ended : (walk data offset).value with
  | error stop =>
      left
      simp [Walk.andThen, ended]
  | ok value =>
      right
      simp [Walk.andThen, ended, speaks]

section Recovers

theorem reaches_refl (walk : Walk Cell Entry Halt Value) : Reaches walk [] [] walk :=
  fun _ _ _ => Leads.refl walk

theorem Reaches.andThen {walk : Walk Cell Entry Halt Value}
    {rest : Value → Walk Cell Entry Halt Result} {later : Walk Cell Entry Halt Result}
    {front back : List Cell} {early late : List Entry} {value : Value}
    (first : Recovers walk front value early) (second : Reaches (rest value) back late later) :
    Reaches (Walk.andThen walk rest) (front ++ back) (early ++ late) later := by
  intro data offset here
  have parts := prefix_behind here
  exact ((first data offset parts.1).andThen rest).trans (second data _ parts.2)

theorem Reaches.trans {walk middle later : Walk Cell Entry Halt Value} {front back : List Cell}
    {early late : List Entry} (first : Reaches walk front early middle)
    (second : Reaches middle back late later) :
    Reaches walk (front ++ back) (early ++ late) later := by
  intro data offset here
  have parts := prefix_behind here
  exact (first data offset parts.1).trans (second data _ parts.2)

-- A walk that only reads leaves the whole log to what follows.
theorem Reaches.reading {walk : Walk Cell Entry Halt Value}
    {rest : Value → Walk Cell Entry Halt Result} {later : Walk Cell Entry Halt Result}
    {front back : List Cell} {log : List Entry} {value : Value} (first : Recovers walk front value [])
    (second : Reaches (rest value) back log later) :
    Reaches (Walk.andThen walk rest) (front ++ back) log later :=
  first.andThen second

theorem recovers_pure (value : Value) :
    Recovers (pure value : Walk Cell Entry Halt Value) [] value [] :=
  reaches_refl _

theorem Reaches.map {walk : Walk Cell Entry Halt Value} {cells : List Cell} {log : List Entry}
    {value : Value} (first : Recovers walk cells value log) (convert : Value → Result) :
    Recovers (Walk.andThen walk fun value => pure (convert value)) cells (convert value) log := by
  intro data offset here
  have converted : Leads (Walk.andThen walk fun value => pure (convert value)) data offset cells log
      (pure (convert value)) := (first data offset here).andThen _
  exact converted

theorem recovers_emit (entry : Entry) :
    Recovers (emit entry : Walk Cell Entry Halt Unit) [] () [entry] := by
  intro data offset _
  constructor <;> simp [emit, pure]

theorem Reaches.emit_andThen {rest : Unit → Walk Cell Entry Halt Result}
    {later : Walk Cell Entry Halt Result} {cells : List Cell} {log : List Entry}
    (second : Reaches (rest ()) cells log later) (entry : Entry) :
    Reaches (Walk.andThen (emit entry) rest) cells (entry :: log) later :=
  (recovers_emit entry).andThen second

theorem recovers_skip (cells : List Cell) :
    Recovers (skip cells.length : Walk Cell Entry Halt Unit) cells () [] := by
  intro data offset _
  constructor <;> simp [skip, pure]

theorem recovers_read (cells : List Cell) :
    Recovers (read cells.length : Walk Cell Entry Halt (List Cell)) cells cells [] := by
  intro data offset here
  have room : cells.length ≤ (data.drop offset).length := here.length_le
  have taken : (data.drop offset).take cells.length = cells :=
    (List.prefix_iff_eq_take.mp here).symm
  constructor
  · simp only [read, room, if_true, taken]
    rfl
  · simp only [read, room, if_true]
    rfl
  · simp only [read, room, if_true]
    rfl
  · intro position member
    simp only [read, room, if_true, List.mem_range'_1] at member
    exact .inl member

theorem recovers_readUntil [DecidableEq Cell] (terminator : Cell) (text : List Cell)
    (clean : terminator ∉ text) :
    Recovers (readUntil terminator : Walk Cell Entry Halt (List Cell)) (text ++ [terminator]) text
      [] := by
  intro data offset here
  obtain ⟨rest, whole⟩ := here
  have stops : (data.drop offset).takeWhile (· ≠ terminator) = text := by
    rw [← whole, List.append_assoc, List.takeWhile_append_of_pos]
    · simp
    · intro cell member
      have other : cell ≠ terminator := fun same => clean (same ▸ member)
      simp [other]
  have room : text.length < (data.drop offset).length := by
    rw [← whole]
    simp
  constructor
  · simp only [readUntil, stops, room, if_true]
    rfl
  · simp only [readUntil, stops, room, if_true, List.length_append]
    rfl
  · simp only [readUntil, stops, room, if_true]
    rfl
  · intro position member
    simp only [readUntil, stops, room, if_true, List.mem_range'_1] at member
    rw [List.length_append, List.length_singleton]
    exact .inl ⟨member.1, by omega⟩

theorem recovers_times {Item : Type} {body : Walk Cell Entry Halt Unit} {items : List Item}
    {encode : Item → List Cell} {lines : Item → List Entry}
    (each : ∀ item ∈ items, Recovers body (encode item) () (lines item)) :
    Recovers (times body items.length) (items.flatMap encode) () (items.flatMap lines) := by
  induction items with
  | nil => exact recovers_pure ()
  | cons item items ih =>
      have first := each item (List.mem_cons_self ..)
      have more := ih fun other member => each other (List.mem_cons_of_mem item member)
      exact first.andThen more

end Recovers

section Loops

variable {Vars : Type} {body : Vars → Walk Cell Entry Halt (Option Vars)} {data : List Cell}

theorem leads_loop_stop {vars : Vars} {offset : Nat}
    (stops : body vars data offset = (pure none : Walk Cell Entry Halt (Option Vars)) data offset)
    (fuel : Nat) : Leads (loop body (fuel + 1) vars) data offset [] [] (pure ()) :=
  (leads_of_eq stops).andThen _

/-- Each round goes over an item: the loop gets over all of them and goes on behind the last one. -/
theorem reaches_loop {Item : Type} (encode : Item → List Cell) (lines : Nat → Item → List Entry)
    (vars : Nat → Vars) (items : List Item)
    (round : ∀ before item after, items = before ++ item :: after →
      Recovers (body (vars before.length)) (encode item) (some (vars (before.length + 1)))
        (lines before.length item))
    (fuel : Nat) :
    Reaches (loop body (items.length + fuel) (vars 0)) (items.flatMap encode)
      (items.mapIdx lines).flatten (loop body fuel (vars items.length)) := by
  -- From the end of the list: the fuel left there is what the last round starts on.
  induction items using List.reverseRecOn generalizing fuel with
  | nil => simpa using reaches_refl _
  | append_singleton items item ih =>
      have earlier := ih (fun before other after split => by
        apply round before other (after ++ [item])
        rw [split, List.append_assoc, List.cons_append]) (fuel + 1)
      have again : Reaches (loop body (fuel + 1) (vars items.length)) (encode item ++ [])
          (lines items.length item ++ []) (loop body fuel (vars (items.length + 1))) :=
        (round items item [] rfl).andThen (reaches_refl _)
      have whole := earlier.trans again
      simpa [List.mapIdx_append, Nat.add_comm 1, Nat.add_assoc] using whole

end Loops

section Kept

variable {Item : Type} (encode : Item → List Cell)

theorem encode_length_le (items : List Item) (item : Item) (member : item ∈ items) :
    (encode item).length ≤ (items.flatMap encode).length := by
  obtain ⟨before, after, rfl⟩ := List.append_of_mem member
  simp
  omega

theorem items_le_cells (items : List Item) (filled : ∀ item ∈ items, encode item ≠ []) :
    items.length ≤ (items.flatMap encode).length := by
  induction items with
  | nil => exact Nat.zero_le _
  | cons item items ih =>
      have more := ih fun other member => filled other (List.mem_cons_of_mem item member)
      have first := List.length_pos_of_ne_nil (filled item (List.mem_cons_self ..))
      rw [List.flatMap_cons, List.length_append, List.length_cons]
      omega

-- The items a loop gets to that goes on only while more than `least` cells are left.
def kept (least : Nat) : List Item → List Item
  | [] => []
  | item :: items =>
      if least < ((item :: items).flatMap encode).length then item :: kept least items else []

theorem kept_prefix (least : Nat) (items : List Item) : kept encode least items <+: items := by
  induction items with
  | nil => exact List.prefix_refl _
  | cons item items ih =>
      rw [kept]
      split
      · exact (List.prefix_cons_inj item).mpr ih
      · exact List.nil_prefix

theorem kept_cells (least : Nat) (items : List Item) :
    ((kept encode least items).flatMap encode).length ≤ (items.flatMap encode).length := by
  obtain ⟨left, whole⟩ := kept_prefix encode least items
  have cells := congrArg (fun items => (items.flatMap encode).length) whole
  simp only [List.flatMap_append, List.length_append] at cells
  omega

-- The last item is the one that is left out first.
theorem kept_all (least : Nat) (items : List Item) :
    kept encode least items = items ↔ ∀ item ∈ items.getLast?, least < (encode item).length := by
  induction items with
  | nil => simp [kept]
  | cons item items ih =>
      cases items with
      | nil => simp [kept]
      | cons next items =>
          rw [kept, List.getLast?_cons_cons, ← ih]
          constructor
          · intro all
            split at all
            · exact List.cons.inj all |>.2
            · cases all
          · intro all
            have last := ih.mp all
            have room : least < ((item :: next :: items).flatMap encode).length := by
              have long := last _ (List.getLast?_eq_some_getLast (List.cons_ne_nil next items))
              have within := encode_length_le encode (item :: next :: items) _
                (List.mem_cons_of_mem item (List.getLast_mem (List.cons_ne_nil next items)))
              omega
            rw [if_pos room, all]

theorem kept_lines (lines : Item → List Entry) (speaks : ∀ item, lines item ≠ []) (least : Nat)
    (items : List Item) :
    (kept encode least items).flatMap lines = items.flatMap lines ↔
      ∀ item ∈ items.getLast?, least < (encode item).length := by
  rw [← kept_all]
  constructor
  · intro same
    obtain ⟨left, whole⟩ := kept_prefix encode least items
    have nothing : left.flatMap lines = [] := by
      rw [← whole, List.flatMap_append] at same
      simpa [whole] using same.symm
    cases left with
    | nil => simpa using whole
    | cons item left => simp [speaks item] at nothing
  · intro same
    rw [same]

theorem leads_kept {body : Unit → Walk Cell Entry Halt (Option Unit)}
    {round : Walk Cell Entry Halt (Option Unit)} {data : List Cell} {lines : Item → List Entry}
    {least limit : Nat} {items : List Item}
    (recovers : ∀ item ∈ items, Recovers round (encode item) (some ()) (lines item))
    (goes : ∀ offset, offset + least < limit → body () data offset = round data offset)
    (stops : ∀ offset, limit ≤ offset + least →
      body () data offset = (pure none : Walk Cell Entry Halt (Option Unit)) data offset)
    (filled : ∀ item ∈ items, encode item ≠ []) (offset : Nat)
    (here : items.flatMap encode <+: data.drop offset)
    (ends : offset + (items.flatMap encode).length = limit) (fuel : Nat)
    (enough : (items.flatMap encode).length < fuel) :
    Leads (loop body fuel ()) data offset ((kept encode least items).flatMap encode)
      ((kept encode least items).flatMap lines) (pure ()) := by
  induction items generalizing offset fuel with
  | nil =>
      obtain ⟨fuel, rfl⟩ : ∃ more, fuel = more + 1 := ⟨fuel - 1, by omega⟩
      refine leads_loop_stop (stops offset ?_) fuel
      simp only [List.flatMap_nil, List.length_nil] at ends
      omega
  | cons item items ih =>
      obtain ⟨fuel, rfl⟩ : ∃ more, fuel = more + 1 := ⟨fuel - 1, by omega⟩
      have split : (item :: items).flatMap encode = encode item ++ items.flatMap encode :=
        List.flatMap_cons
      by_cases long : least < ((item :: items).flatMap encode).length
      · rw [split] at here
        have parts := prefix_behind here
        have first := (leads_of_eq (goes offset (by omega))).trans
          (recovers item (List.mem_cons_self ..) data offset parts.1)
        have some_cells := List.length_pos_of_ne_nil (filled item (List.mem_cons_self ..))
        rw [split, List.length_append] at ends enough
        have more := ih (fun other member => recovers other (List.mem_cons_of_mem item member))
          (fun other member => filled other (List.mem_cons_of_mem item member))
          (offset + (encode item).length) parts.2 (by omega) fuel (by omega)
        rw [kept, if_pos long, List.flatMap_cons, List.flatMap_cons]
        exact (first.andThen _).trans more
      · rw [kept, if_neg long]
        exact leads_loop_stop (stops offset (by omega)) fuel

end Kept

end Walk
