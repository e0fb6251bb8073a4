import Mathlib.Data.List.Basic
import Mathlib.Tactic.Common

set_option autoImplicit false

namespace Framing

variable {α : Type}

/--
Cutting the frames `frames` off the front of a stream, one after another, leaves `rest`.
`next` reads the size of the frame at the head of a stream, if there is one to cut.
-/
inductive Cuts (next : List α → Option Nat) : List α → List (List α) → List α → Prop where
  | nil (xs : List α) : Cuts next xs [] xs
  | cons {xs rest : List α} {frames : List (List α)} {size : Nat} (head : next xs = some size)
      (positive : 0 < size) (whole : size ≤ xs.length)
      (more : Cuts next (xs.drop size) frames rest) :
      Cuts next xs (xs.take size :: frames) rest

def Splits (next : List α → Option Nat) (xs : List α) (frames : List (List α))
    (rest : List α) : Prop :=
  Cuts next xs frames rest ∧ next rest = none

-- A head that can neither be cut nor waited for.
def Stuck (next : List α → Option Nat) (xs : List α) : Prop :=
  ∃ size, next xs = some size ∧ (size = 0 ∨ xs.length < size)

def ProperPrefix (xs ys : List α) : Prop := ∃ more, more ≠ [] ∧ xs ++ more = ys

theorem ProperPrefix.length_lt {xs ys : List α} (proper : ProperPrefix xs ys) :
    xs.length < ys.length := by
  obtain ⟨more, nonempty, rfl⟩ := proper
  have positive := List.length_pos_iff.mpr nonempty
  simp only [List.length_append]
  omega

section Cuts

variable {next : List α → Option Nat}

theorem Cuts.flatten {xs rest : List α} {frames : List (List α)}
    (cuts : Cuts next xs frames rest) : frames.flatten ++ rest = xs := by
  induction cuts with
  | nil => simp
  | cons head positive whole more ih =>
      rw [List.flatten_cons, List.append_assoc, ih, List.take_append_drop]

theorem Cuts.length_le {xs rest : List α} {frames : List (List α)}
    (cuts : Cuts next xs frames rest) : frames.length + rest.length ≤ xs.length := by
  induction cuts with
  | nil => simp
  | cons head positive whole more ih =>
      rw [List.length_drop] at ih
      rw [List.length_cons]
      omega

theorem Cuts.trans {xs ys zs : List α} {frames others : List (List α)}
    (front : Cuts next xs frames ys) (back : Cuts next ys others zs) :
    Cuts next xs (frames ++ others) zs := by
  induction front with
  | nil => simpa using back
  | cons head positive whole more ih => exact .cons head positive whole (ih back)

theorem Cuts.extends {xs ys zs : List α} {frames others : List (List α)}
    (one : Cuts next xs frames ys) (two : Cuts next xs others zs) :
    (∃ more, others = frames ++ more ∧ Cuts next ys more zs) ∨
      (∃ more, frames = others ++ more ∧ Cuts next zs more ys) := by
  induction one generalizing others zs with
  | nil xs => exact .inl ⟨others, rfl, two⟩
  | @cons xs rest frames size head positive whole more ih =>
      cases two with
      | nil => exact .inr ⟨_, rfl, .cons head positive whole more⟩
      | @cons _ _ others' size' head' positive' whole' more' =>
          obtain rfl : size = size' := by simpa [head] using head'
          obtain ⟨extra, same, cut⟩ | ⟨extra, same, cut⟩ := ih more'
          · exact .inl ⟨extra, by simp [same], cut⟩
          · exact .inr ⟨extra, by simp [same], cut⟩

theorem Cuts.eq_of_no_more {ys zs : List α} {more : List (List α)} (cuts : Cuts next ys more zs)
    (done : ∀ size, next ys = some size → size = 0 ∨ ys.length < size) : more = [] ∧ ys = zs := by
  cases cuts with
  | nil => exact ⟨rfl, rfl⟩
  | cons head positive whole _ =>
      have := done _ head
      omega

theorem Splits.unique {xs ys zs : List α} {frames others : List (List α)}
    (one : Splits next xs frames ys) (two : Splits next xs others zs) :
    frames = others ∧ ys = zs := by
  obtain ⟨more, rfl, cut⟩ | ⟨more, rfl, cut⟩ := one.1.extends two.1
  · obtain ⟨rfl, rfl⟩ := cut.eq_of_no_more (by simp [one.2])
    simp
  · obtain ⟨rfl, rfl⟩ := cut.eq_of_no_more (by simp [two.2])
    simp

-- A head that is read the same whatever follows lets frames be cut off a longer stream.
theorem Cuts.append {xs rest : List α} {frames : List (List α)} (ys : List α)
    (stable : ∀ zs size, next zs = some size → size ≤ zs.length → next (zs ++ ys) = some size)
    (cuts : Cuts next xs frames rest) : Cuts next (xs ++ ys) frames (rest ++ ys) := by
  induction cuts with
  | nil xs => exact .nil (xs ++ ys)
  | @cons xs rest frames size head positive whole more ih =>
      have room : size ≤ (xs ++ ys).length := by
        rw [List.length_append]
        omega
      rw [← List.drop_append_of_le_length whole] at ih
      have cut := Cuts.cons (stable xs size head whole) positive room ih
      rwa [List.take_append_of_le_length whole] at cut

theorem cuts_to_end (next : List α → Option Nat) (xs : List α) :
    ∃ frames rest, Cuts next xs frames rest ∧ (next rest = none ∨ Stuck next rest) := by
  induction length : xs.length using Nat.strongRecOn generalizing xs with
  | _ _ ih =>
      cases head : next xs with
      | none => exact ⟨[], xs, .nil xs, .inl head⟩
      | some size =>
          by_cases stuck : size = 0 ∨ xs.length < size
          · exact ⟨[], xs, .nil xs, .inr ⟨size, head, stuck⟩⟩
          · have shorter : (xs.drop size).length < xs.length := by
              rw [List.length_drop]
              omega
            obtain ⟨frames, rest, cuts, final⟩ := ih _ (length ▸ shorter) (xs.drop size) rfl
            exact ⟨_, rest, .cons head (by omega) (by omega) cuts, final⟩

theorem Splits.not_stuck {xs ys zs : List α} {frames others : List (List α)}
    (splits : Splits next xs frames ys) (cuts : Cuts next xs others zs) : ¬ Stuck next zs := by
  rintro ⟨size, head, stuck⟩
  obtain ⟨more, rfl, cut⟩ | ⟨more, rfl, cut⟩ := splits.1.extends cuts
  · obtain ⟨rfl, rfl⟩ := cut.eq_of_no_more (by simp [splits.2])
    simp [splits.2] at head
  · obtain ⟨rfl, rfl⟩ := cut.eq_of_no_more (by
      intro other found
      obtain rfl : size = other := by simpa [head] using found
      exact stuck)
    simp [splits.2] at head

end Cuts

section Encoding

variable {Frame : Type} {next : List α → Option Nat} {encode : Frame → List α}

def Reads (next : List α → Option Nat) (encode : Frame → List α) : Prop :=
  ∀ frame rest, next (encode frame ++ rest) = some (encode frame).length ∧ encode frame ≠ []

theorem cuts_encoded (reads : Reads next encode) (frames : List Frame) (tail : List α) :
    Cuts next (frames.flatMap encode ++ tail) (frames.map encode) tail := by
  induction frames with
  | nil => exact .nil tail
  | cons frame frames ih =>
      obtain ⟨head, nonempty⟩ := reads frame (frames.flatMap encode ++ tail)
      have positive : 0 < (encode frame).length := List.length_pos_iff.mpr nonempty
      have cut : Cuts next (encode frame ++ (frames.flatMap encode ++ tail))
          ((encode frame ++ (frames.flatMap encode ++ tail)).take (encode frame).length ::
            frames.map encode) tail :=
        .cons head positive (by simp) (by simpa using ih)
      simpa using cut

/--
A stream of frames is broken off after `front`: the frames `done` are over, and what is
left of `front` is a part of the next frame.
-/
structure Breaks (encode : Frame → List α) (frames : List Frame) (tail front : List α)
    (done more : List Frame) (part back : List α) : Prop where
  frames : frames = done ++ more
  front : front = done.flatMap encode ++ part
  back : part ++ back = more.flatMap encode ++ tail
  under : ∀ frame rest, more = frame :: rest → ProperPrefix part (encode frame)

-- Wherever a stream of frames is broken, some frames are over and at most one is under way.
theorem break_encoded (encode : Frame → List α) (frames : List Frame) (tail front back : List α)
    (broken : front ++ back = frames.flatMap encode ++ tail) :
    ∃ done more part, Breaks encode frames tail front done more part back := by
  induction frames generalizing front with
  | nil => exact ⟨[], [], front, rfl, rfl, broken, by simp⟩
  | cons frame frames ih =>
      rw [List.flatMap_cons, List.append_assoc] at broken
      rcases List.append_eq_append_iff.mp broken with ⟨left, whole, back_eq⟩ | ⟨after, front_eq, rest_eq⟩
      · cases left with
        | nil =>
            have complete : front = encode frame := by simpa using whole.symm
            obtain ⟨done, more, part, split⟩ := ih [] (by simpa using back_eq)
            refine ⟨frame :: done, more, part, ?_, ?_, split.back, split.under⟩
            · rw [split.frames, List.cons_append]
            · rw [complete, List.flatMap_cons, List.append_assoc, ← split.front, List.append_nil]
        | cons cell left =>
            refine ⟨[], frame :: frames, front, rfl, rfl, ?_, ?_⟩
            · rw [broken, List.flatMap_cons, List.append_assoc]
            · intro other rest same
              obtain ⟨rfl, rfl⟩ := List.cons.inj same
              exact ⟨cell :: left, by simp, whole.symm⟩
      · obtain ⟨done, more, part, split⟩ := ih after rest_eq.symm
        refine ⟨frame :: done, more, part, ?_, ?_, split.back, split.under⟩
        · rw [split.frames, List.cons_append]
        · rw [front_eq, split.front, List.flatMap_cons, List.append_assoc]

variable {frames done more : List Frame} {tail front part back : List α}

theorem Breaks.trans {further final : List Frame} {piece last ahead : List α}
    (first : Breaks encode frames tail front done more part back)
    (second : Breaks encode more tail (part ++ piece) further final last ahead) :
    Breaks encode frames tail (front ++ piece) (done ++ further) final last ahead where
  frames := by rw [first.frames, second.frames, List.append_assoc]
  front := by
    rw [first.front, List.append_assoc, second.front, List.flatMap_append, List.append_assoc]
  back := second.back
  under := second.under

theorem Breaks.ends (breaks : Breaks encode frames tail front done more part []) :
    more = [] ∧ part = tail := by
  have left := breaks.back
  rw [List.append_nil] at left
  cases more with
  | nil => exact ⟨rfl, left⟩
  | cons frame rest =>
      have shorter := (breaks.under frame rest rfl).length_lt
      rw [left, List.flatMap_cons, List.append_assoc, List.length_append] at shorter
      omega

theorem Breaks.done_le {others rest : List Frame} {piece behind : List α}
    (one : Breaks encode frames tail front done more part back)
    (two : Breaks encode frames tail front (done ++ others) rest piece behind) : others = [] := by
  cases others with
  | nil => rfl
  | cons frame others =>
      have after : more = frame :: (others ++ rest) := by
        have same := one.frames.symm.trans two.frames
        simpa using same
      have shorter := (one.under frame _ after).length_lt
      have same := one.front.symm.trans two.front
      simp only [List.flatMap_append, List.flatMap_cons, List.append_assoc,
        List.append_cancel_left_eq] at same
      rw [same, List.length_append] at shorter
      omega

theorem Breaks.unique {others rest : List Frame} {piece behind : List α}
    (one : Breaks encode frames tail front done more part back)
    (two : Breaks encode frames tail front others rest piece behind) :
    done = others ∧ part = piece := by
  have same : done = others := by
    rcases List.append_eq_append_iff.mp (one.frames.symm.trans two.frames) with
      ⟨extra, longer, _⟩ | ⟨extra, longer, _⟩
    · rw [longer] at two
      rw [longer, one.done_le two, List.append_nil]
    · rw [longer] at one
      rw [longer, two.done_le one, List.append_nil]
  have fronts := one.front.symm.trans two.front
  rw [same, List.append_cancel_left_eq] at fronts
  exact ⟨same, fronts⟩

theorem ProperPrefix.of_append {xs ys zs : List α} (under : ProperPrefix (xs ++ ys) zs) :
    ProperPrefix xs zs := by
  rcases under with ⟨more, nonempty, whole⟩
  refine ⟨ys ++ more, ?_, ?_⟩
  · simp [nonempty]
  · rw [← whole, List.append_assoc]

theorem Breaks.part_under (breaks : Breaks encode frames tail front done more part back)
    (last : Frame) (under : ProperPrefix tail (encode last)) :
    ∃ frame, ProperPrefix part (encode frame) := by
  cases more with
  | nil =>
      have left := breaks.back
      rw [List.flatMap_nil, List.nil_append] at left
      rw [← left] at under
      exact ⟨last, under.of_append⟩
  | cons frame rest => exact ⟨frame, breaks.under frame rest rfl⟩

/-- A frame that `piece` completes, with what has come behind the frame by then. -/
def Arrives (encode : Frame → List α) (frames : List Frame) (front piece : List α)
    (frame : Frame) (behind : List α) : Prop :=
  ∃ earlier rest, frames = earlier ++ frame :: rest ∧
    front ++ piece = earlier.flatMap encode ++ (encode frame ++ behind) ∧
    front.length < (earlier.flatMap encode ++ encode frame).length

-- Of two ways to point into a list, one points at the frame or past it.
theorem append_split (xs ys earlier rest : List Frame) (frame : Frame)
    (same : xs ++ ys = earlier ++ frame :: rest) :
    (∃ extra, earlier = xs ++ extra ∧ ys = extra ++ frame :: rest) ∨
      ∃ extra, xs = earlier ++ frame :: extra ∧ rest = extra ++ ys := by
  rcases List.append_eq_append_iff.mp same with ⟨extra, front, back⟩ | ⟨extra, front, back⟩
  · exact .inl ⟨extra, front, back⟩
  · cases extra with
    | nil =>
        rw [List.append_nil] at front
        exact .inl ⟨[], by rw [front, List.append_nil], back.symm⟩
    | cons first extra =>
        obtain ⟨rfl, later⟩ := List.cons.inj back
        exact .inr ⟨extra, front, later⟩

theorem Breaks.part_lt {earlier rest : List Frame} {frame : Frame}
    (breaks : Breaks encode frames tail front done more part back)
    (split : more = earlier ++ frame :: rest) :
    part.length < (earlier.flatMap encode ++ encode frame).length := by
  cases earlier with
  | nil => exact (breaks.under frame rest split).length_lt
  | cons first earlier =>
      have shorter := (breaks.under first _ split).length_lt
      simp only [List.flatMap_cons, List.length_append]
      omega

theorem Breaks.arrives_iff {further final : List Frame} {piece last ahead : List α}
    (one : Breaks encode frames tail front done more part back)
    (two : Breaks encode more tail (part ++ piece) further final last ahead)
    (frame : Frame) (behind : List α) :
    Arrives encode frames front piece frame behind ↔
      ∃ earlier rest, further = earlier ++ frame :: rest ∧ behind = rest.flatMap encode ++ last := by
  have cut : front ++ piece = done.flatMap encode ++ (further.flatMap encode ++ last) := by
    rw [one.front, List.append_assoc, two.front]
  constructor
  · rintro ⟨earlier, rest, split, whole, longer⟩
    rcases append_split done more earlier rest frame (one.frames.symm.trans split) with
      ⟨extra, rfl, left⟩ | ⟨extra, before, _⟩
    · rw [cut, List.flatMap_append, List.append_assoc, List.append_cancel_left_eq] at whole
      rcases append_split further final extra rest frame (two.frames.symm.trans left) with
        ⟨missing, rfl, open_⟩ | ⟨others, done_here, _⟩
      · have shorter := two.part_lt open_
        rw [List.flatMap_append, List.append_assoc, List.append_cancel_left_eq] at whole
        have length := congrArg List.length whole
        simp only [List.length_append] at length shorter
        omega
      · refine ⟨extra, others, done_here, ?_⟩
        simpa [done_here] using whole.symm
    · rw [one.front, before] at longer
      simp only [List.flatMap_append, List.flatMap_cons, List.length_append] at longer
      omega
  · rintro ⟨earlier, rest, rfl, rfl⟩
    have split : more = earlier ++ frame :: (rest ++ final) := by
      rw [two.frames, List.append_assoc, List.cons_append]
    refine ⟨done ++ earlier, rest ++ final, ?_, ?_, ?_⟩
    · rw [one.frames, split, List.append_assoc]
    · rw [cut]
      simp only [List.flatMap_append, List.flatMap_cons, List.append_assoc]
    · have shorter := one.part_lt split
      rw [one.front, List.flatMap_append]
      simp only [List.length_append] at shorter ⊢
      omega

end Encoding

section Pieces

variable {Frame : Type} {encode : Frame → List α}

/--
How a stream comes in pieces: the frames that each of them completes, and the part of a frame that
is under way behind the last. What is under way between two pieces has to be waited for.
-/
inductive Batches (encode : Frame → List α) (waits : List α → Prop) :
    List α → List (List α) → List (List Frame) → List α → Prop where
  | nil (part : List α) : Batches encode waits part [] [] part
  | cons {part left tail piece : List α} {pieces : List (List α)} {done : List Frame}
      {groups : List (List Frame)} (cut : part ++ piece = done.flatMap encode ++ left)
      (waiting : waits left) (more : Batches encode waits left pieces groups tail) :
      Batches encode waits part (piece :: pieces) (done :: groups) tail

theorem Batches.stream {waits : List α → Prop} {part tail : List α} {pieces : List (List α)}
    {groups : List (List Frame)} (batches : Batches encode waits part pieces groups tail) :
    part ++ pieces.flatten = groups.flatten.flatMap encode ++ tail := by
  induction batches with
  | nil part => simp
  | cons cut _ _ ih =>
      rw [List.flatten_cons, ← List.append_assoc, cut, List.append_assoc, ih, List.flatten_cons,
        List.flatMap_append, List.append_assoc]

theorem batches_of_cut {waits : List α → Prop} (pieces : List (List α)) (frames : List Frame)
    (tail part : List α) (cut : part ++ pieces.flatten = frames.flatMap encode ++ tail)
    (under : ∀ frame rest, frames = frame :: rest → ProperPrefix part (encode frame))
    (waiting : ∀ seen done more left back, seen <+: pieces →
      Breaks encode frames tail (part ++ seen.flatten) done more left back → waits left) :
    ∃ groups, groups.flatten = frames ∧ Batches encode waits part pieces groups tail := by
  induction pieces generalizing part frames with
  | nil =>
      cases frames with
      | nil =>
          have same : part = tail := by simpa using cut
          exact ⟨[], rfl, same ▸ .nil part⟩
      | cons frame frames =>
          have shorter := (under frame frames rfl).length_lt
          have whole := congrArg List.length cut
          simp only [List.flatten_nil, List.append_nil, List.flatMap_cons, List.length_append] at whole
          omega
  | cons piece pieces ih =>
      rw [List.flatten_cons, ← List.append_assoc] at cut
      obtain ⟨done, more, left, breaks⟩ :=
        break_encoded encode frames tail (part ++ piece) pieces.flatten cut
      have parted : waits left :=
        waiting [piece] done more left pieces.flatten (by simp) (by simpa using breaks)
      have later := ih more left breaks.back breaks.under ?_
      · obtain ⟨groups, all, batches⟩ := later
        refine ⟨done :: groups, ?_, .cons breaks.front parted batches⟩
        rw [List.flatten_cons, all, breaks.frames]
      · intro seen further final inner back before split
        have joined := breaks.trans split
        have prefixed : piece :: seen <+: piece :: pieces := (List.prefix_cons_inj piece).mpr before
        refine waiting (piece :: seen) (done ++ further) final inner back prefixed ?_
        rwa [List.flatten_cons, ← List.append_assoc]

end Pieces

end Framing
