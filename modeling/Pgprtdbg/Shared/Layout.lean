import Mathlib.Logic.Relation
import Pgprtdbg.Shared.Walk

set_option autoImplicit false

/-!
What a block is made of, field by field, and which walks stay inside a block exactly when its
fields are all there.
-/

/-- Relates a block to what is left of it behind its first field. -/
def Layout (Cell : Type) : Type := List Cell → List Cell → Prop

namespace Layout

variable {Cell : Type}

def Fits (layout : Layout Cell) (xs : List Cell) : Prop := ∃ rest, layout xs rest

def nothing : Layout Cell := fun xs rest => xs = rest

def cells (count : Nat) : Layout Cell := fun xs rest => count ≤ xs.length ∧ xs.drop count = rest

def text (terminator : Cell) : Layout Cell := fun xs rest =>
  ∃ front, xs = front ++ terminator :: rest ∧ terminator ∉ front

-- The first `count` cells tell what follows them.
def prefixed (count : Nat) (layout : List Cell → Layout Cell) : Layout Cell := fun xs rest =>
  count ≤ xs.length ∧ layout (xs.take count) (xs.drop count) rest

def seq : List (Layout Cell) → Layout Cell
  | [] => nothing
  | layout :: more => Relation.Comp layout (seq more)

def times (item : Layout Cell) : Nat → Layout Cell
  | 0 => nothing
  | count + 1 => Relation.Comp item (times item count)

inductive WhileLonger (least : Nat) (item : Layout Cell) : List Cell → List Cell → Prop
  | stop {xs : List Cell} (short : xs.length ≤ least) : WhileLonger least item xs xs
  | item {xs middle rest : List Cell} (long : least < xs.length) (here : item xs middle)
      (more : WhileLonger least item middle rest) : WhileLonger least item xs rest

def whileLonger (least : Nat) (item : Layout Cell) : Layout Cell := WhileLonger least item

def Shrinks (layout : Layout Cell) : Prop := ∀ xs rest, layout xs rest → rest.length < xs.length

@[simp] theorem nothing_fits (xs : List Cell) : (nothing : Layout Cell).Fits xs := ⟨xs, rfl⟩

@[simp] theorem cells_fits (count : Nat) (xs : List Cell) :
    (cells count).Fits xs ↔ count ≤ xs.length := by
  simp [Fits, cells]

@[simp] theorem prefixed_fits (count : Nat) (layout : List Cell → Layout Cell) (xs : List Cell) :
    (prefixed count layout).Fits xs ↔
      count ≤ xs.length ∧ (layout (xs.take count)).Fits (xs.drop count) := by
  simp [Fits, prefixed]

theorem comp_nothing (layout : Layout Cell) : Relation.Comp layout nothing = layout :=
  Relation.comp_eq

theorem prefixed_comp (count : Nat) (layout : List Cell → Layout Cell) (more : Layout Cell) :
    (prefixed count fun cells => Relation.Comp (layout cells) more) =
      Relation.Comp (prefixed count layout) more := by
  funext xs rest
  refine propext ⟨?_, ?_⟩
  · rintro ⟨room, middle, here, later⟩
    exact ⟨middle, ⟨room, here⟩, later⟩
  · rintro ⟨middle, ⟨room, here⟩, later⟩
    exact ⟨room, middle, here, later⟩

theorem whileLonger_fits_stop (least : Nat) (item : Layout Cell) (xs : List Cell)
    (short : xs.length ≤ least) : (whileLonger least item).Fits xs :=
  ⟨xs, .stop short⟩

theorem whileLonger_iff (least : Nat) (item : Layout Cell) (xs rest : List Cell)
    (long : least < xs.length) :
    whileLonger least item xs rest ↔
      Relation.Comp item (whileLonger least item) xs rest := by
  constructor
  · intro some_items
    cases some_items with
    | stop short => omega
    | item _ here more => exact ⟨_, here, more⟩
  · rintro ⟨middle, here, more⟩
    exact .item long here more

theorem text_shrinks (terminator : Cell) : (text terminator).Shrinks := by
  rintro xs rest ⟨front, rfl, _⟩
  simp
  omega

theorem cells_shrinks (count : Nat) (positive : 0 < count) :
    (cells count : Layout Cell).Shrinks := by
  rintro xs rest ⟨fits, rfl⟩
  rw [List.length_drop]
  omega

end Layout

namespace Walk

variable {Cell Entry Halt Value Result : Type}

/-- The walk reads below the limit exactly where the layout is there, and then gets behind it. -/
structure Covers (limit : Nat) (data : List Cell) (walk : Walk Cell Entry Halt Value)
    (layout : Layout Cell) : Prop where
  inside : ∀ offset, Inside limit walk data offset ↔ layout.Fits (window data limit offset)
  ends : ∀ offset rest, layout (window data limit offset) rest →
    ∃ value, (walk data offset).value = .ok value ∧
      window data limit (walk data offset).offset = rest

theorem offset_andThen {walk : Walk Cell Entry Halt Value} {data : List Cell} {offset : Nat}
    {value : Value} (ended : (walk data offset).value = .ok value)
    (rest : Value → Walk Cell Entry Halt Result) :
    (andThen walk rest data offset).offset = (rest value data (walk data offset).offset).offset := by
  simp only [andThen, ended]

def ReturnsOnly (allowed : Value → Prop) (walk : Walk Cell Entry Halt Value) : Prop :=
  ∀ data offset value, (walk data offset).value = .ok value → allowed value

theorem returnsOnly_pure {allowed : Value → Prop} (value : Value) (fine : allowed value) :
    ReturnsOnly allowed (pure value : Walk Cell Entry Halt Value) := by
  intro data offset other ended
  cases ended
  exact fine

theorem returnsOnly_andThen {allowed : Result → Prop} (walk : Walk Cell Entry Halt Value)
    {rest : Value → Walk Cell Entry Halt Result} (last : ∀ value, ReturnsOnly allowed (rest value)) :
    ReturnsOnly allowed (andThen walk rest) := by
  intro data offset result ended
  cases first : (walk data offset).value with
  | error stop => simp [andThen, first] at ended
  | ok value =>
      rw [value_andThen first] at ended
      exact last value _ _ result ended

section Covers

variable {limit : Nat} {data : List Cell}

theorem inside_covers_andThen {walk : Walk Cell Entry Halt Value} {layout : Layout Cell}
    (covers : Covers limit data walk layout) (rest : Value → Walk Cell Entry Halt Result)
    (last : List Cell → Prop) (offset : Nat)
    (inside : ∀ value after, layout (window data limit offset) (window data limit after) →
      (Inside limit (rest value) data after ↔ last (window data limit after))) :
    Inside limit (andThen walk rest) data offset ↔
      ∃ middle, layout (window data limit offset) middle ∧ last middle := by
  rw [inside_andThen, covers.inside]
  constructor
  · rintro ⟨⟨middle, here⟩, later⟩
    obtain ⟨value, ended, rfl⟩ := covers.ends offset middle here
    exact ⟨_, here, (inside value _ here).mp (later value ended)⟩
  · rintro ⟨middle, here, more⟩
    refine ⟨⟨middle, here⟩, fun value _ => ?_⟩
    obtain ⟨_, _, rfl⟩ := covers.ends offset middle here
    exact (inside value _ here).mpr more

theorem Covers.andThen {walk : Walk Cell Entry Halt Value} {layout more : Layout Cell}
    {rest : Value → Walk Cell Entry Halt Result} (first : Covers limit data walk layout)
    (second : ∀ value, Covers limit data (rest value) more) :
    Covers limit data (andThen walk rest) (Relation.Comp layout more) where
  inside offset := by
    rw [inside_covers_andThen first rest more.Fits offset fun value after _ =>
      (second value).inside after]
    constructor
    · rintro ⟨middle, here, behind, later⟩
      exact ⟨behind, middle, here, later⟩
    · rintro ⟨behind, middle, here, later⟩
      exact ⟨middle, here, behind, later⟩
  ends offset behind := by
    rintro ⟨middle, here, later⟩
    obtain ⟨value, ended, same⟩ := first.ends offset middle here
    rw [← same] at later
    obtain ⟨result, finished, last⟩ := (second value).ends _ behind later
    exact ⟨result, (value_andThen ended rest).trans finished, by rwa [offset_andThen ended rest]⟩

theorem Covers.andThen_nothing {walk : Walk Cell Entry Halt Value} {layout : Layout Cell}
    {rest : Value → Walk Cell Entry Halt Result} (first : Covers limit data walk layout)
    (silent : ∀ value, Covers limit data (rest value) Layout.nothing) :
    Covers limit data (Walk.andThen walk rest) layout := by
  rw [← Layout.comp_nothing layout]
  exact first.andThen silent

theorem covers_pure (value : Value) :
    Covers limit data (pure value : Walk Cell Entry Halt Value) Layout.nothing where
  inside offset := by simp
  ends offset rest same := ⟨value, rfl, same⟩

theorem covers_emit (entry : Entry) :
    Covers limit data (emit entry : Walk Cell Entry Halt Unit) Layout.nothing where
  inside offset := by simp
  ends offset rest same := ⟨(), rfl, same⟩

theorem Covers.emit_andThen {layout : Layout Cell} {rest : Unit → Walk Cell Entry Halt Result}
    (covers : Covers limit data (rest ()) layout) (entry : Entry) :
    Covers limit data (Walk.andThen (emit entry) rest) layout where
  inside offset := by rw [inside_emit_andThen, covers.inside]
  ends offset behind here := by
    obtain ⟨value, ended, same⟩ := covers.ends offset behind here
    exact ⟨value, ended, same⟩

theorem covers_prefixed (fits : limit ≤ data.length) (count : Nat)
    (layout : List Cell → Layout Cell) (rest : List Cell → Walk Cell Entry Halt Result)
    (covers : ∀ cells, Covers limit data (rest cells) (layout cells)) :
    Covers limit data (andThen (read count) rest) (Layout.prefixed count layout) where
  inside offset := by
    rw [inside_read_andThen fits, (covers _).inside, Layout.prefixed_fits, window_drop]
  ends offset behind := by
    rintro ⟨room, later⟩
    rw [window_drop] at later
    obtain ⟨value, ended, same⟩ := (covers _).ends _ behind later
    have here : (read count : Walk Cell Entry Halt (List Cell)) data offset = _ :=
      read_window fits count room
    refine ⟨value, ?_, ?_⟩
    · rw [value_andThen (congrArg Outcome.value here), here]
      exact ended
    · rw [offset_andThen (congrArg Outcome.value here), here]
      exact same

theorem covers_read (fits : limit ≤ data.length) (count : Nat) :
    Covers limit data (read count : Walk Cell Entry Halt (List Cell)) (Layout.cells count) where
  inside offset := by rw [inside_read fits, Layout.cells_fits]
  ends offset rest := by
    rintro ⟨room, rfl⟩
    rw [read_window fits count room]
    exact ⟨_, rfl, (window_drop data limit offset count).symm⟩

theorem covers_readUntil [DecidableEq Cell] (fits : limit ≤ data.length) (terminator : Cell) :
    Covers limit data (readUntil terminator : Walk Cell Entry Halt (List Cell))
      (Layout.text terminator) where
  inside offset := by
    rw [inside_readUntil fits terminator]
    constructor
    · rintro ⟨front, rest, here, free⟩
      exact ⟨rest, front, here, free⟩
    · rintro ⟨rest, front, here, free⟩
      exact ⟨front, rest, here, free⟩
  ends offset rest := by
    rintro ⟨front, here, free⟩
    rw [readUntil_window fits terminator front rest here free]
    refine ⟨front, rfl, ?_⟩
    rw [Nat.add_assoc, ← window_drop, here]
    simp

theorem covers_times {body : Walk Cell Entry Halt Unit} {item : Layout Cell}
    (covers : Covers limit data body item) (count : Nat) :
    Covers limit data (times body count) (Layout.times item count) := by
  induction count with
  | zero => exact covers_pure ()
  | succ count ih => exact covers.andThen fun _ => ih

theorem andThen_congr {walk other : Walk Cell Entry Halt Value} {offset : Nat}
    (same : walk data offset = other data offset) (rest : Value → Walk Cell Entry Halt Result) :
    andThen walk rest data offset = andThen other rest data offset := by
  simp only [andThen, same]

-- A loop that goes on for as long as more than `least` cells are left, on fuel for all of them.
theorem covers_loop {body : Unit → Walk Cell Entry Halt (Option Unit)}
    {round : Walk Cell Entry Halt (Option Unit)} {item : Layout Cell} (least : Nat)
    (covers : Covers limit data round item) (shrinks : item.Shrinks)
    (again : ReturnsOnly (· = some ()) round)
    (goes : ∀ offset, least < (window data limit offset).length →
      body () data offset = round data offset)
    (stops : ∀ offset, (window data limit offset).length ≤ least →
      body () data offset = (pure none : Walk Cell Entry Halt (Option Unit)) data offset)
    (fuel offset : Nat) (enough : (window data limit offset).length < fuel) :
    Inside limit (loop body fuel ()) data offset ↔
      (Layout.whileLonger least item).Fits (window data limit offset) := by
  induction fuel generalizing offset with
  | zero => omega
  | succ fuel ih =>
      rw [loop]
      by_cases long : least < (window data limit offset).length
      · rw [Inside, andThen_congr (goes offset long), ← Inside, inside_andThen, covers.inside]
        constructor
        · rintro ⟨⟨middle, here⟩, later⟩
          obtain ⟨value, ended, behind⟩ := covers.ends offset middle here
          have shorter := shrinks _ _ here
          have more := later value ended
          rw [again _ _ _ ended, ih _ (by rw [behind]; omega), behind] at more
          rcases more with ⟨rest, items⟩
          exact ⟨rest, .item long here items⟩
        · rintro ⟨rest, items⟩
          obtain ⟨middle, here, more⟩ := (Layout.whileLonger_iff least item _ rest long).mp items
          have shorter := shrinks _ _ here
          refine ⟨⟨middle, here⟩, fun value ended => ?_⟩
          obtain ⟨_, _, behind⟩ := covers.ends offset middle here
          rw [again _ _ _ ended]
          exact (ih _ (by rw [behind]; omega)).mpr ⟨rest, by rwa [behind]⟩
      · have short : (window data limit offset).length ≤ least := by omega
        have fits := Layout.whileLonger_fits_stop least item _ short
        rw [Inside, andThen_congr (stops offset short), ← Inside, inside_pure_andThen]
        simp [fits]

end Covers

end Walk
