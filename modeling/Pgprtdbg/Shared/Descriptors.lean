import Mathlib.Data.List.Induction
import Mathlib.Data.List.Nodup
import Mathlib.Tactic.Common

set_option autoImplicit false

-- Descriptors that are opened and closed, one after the other.
namespace Descriptors

variable {Fd : Type}

inductive Use (Fd : Type) where
  | opened (fd : Fd)
  | closed (fd : Fd)
  deriving DecidableEq, Repr

variable [DecidableEq Fd]

def step (live : List Fd) : Use Fd → List Fd
  | .opened fd => live ++ [fd]
  | .closed fd => live.erase fd

/-- The descriptors that are open in the end, in the order they were opened in. -/
def live (uses : List (Use Fd)) : List Fd := uses.foldl step []

@[simp] theorem live_nil : live ([] : List (Use Fd)) = [] := rfl

@[simp] theorem live_opened (uses : List (Use Fd)) (fd : Fd) :
    live (uses ++ [.opened fd]) = live uses ++ [fd] := by
  simp [live, step]

@[simp] theorem live_closed (uses : List (Use Fd)) (fd : Fd) :
    live (uses ++ [.closed fd]) = (live uses).erase fd := by
  simp [live, step]

def Along (rule : List Fd → Use Fd → Prop) (uses : List (Use Fd)) : Prop :=
  ∀ before use after, uses = before ++ use :: after → rule (live before) use

theorem along_nil (rule : List Fd → Use Fd → Prop) : Along rule [] := by
  intro before use after shape
  cases before <;> cases shape

theorem along_snoc (rule : List Fd → Use Fd → Prop) (uses : List (Use Fd)) (use : Use Fd) :
    Along rule (uses ++ [use]) ↔ Along rule uses ∧ rule (live uses) use := by
  constructor
  case mp =>
    intro along
    constructor
    · rintro before other after rfl
      exact along before other (after ++ [use]) (by simp)
    · exact along uses use [] rfl
  case mpr =>
    rintro ⟨along, last⟩ before other after shape
    cases after using List.reverseRecOn with
    | nil =>
        obtain ⟨same, here⟩ := List.append_inj' shape rfl
        cases here
        exact same ▸ last
    | append_singleton after final =>
        rw [← List.cons_append, ← List.append_assoc] at shape
        exact along before other after (List.append_inj' shape rfl).1

theorem Along.earlier {rule : List Fd → Use Fd → Prop} {uses more : List (Use Fd)}
    (along : Along rule (uses ++ more)) : Along rule uses := by
  rintro before use after rfl
  exact along before use (after ++ more) (by simp)

def Fresh (uses : List (Use Fd)) : Prop :=
  Along (fun live use => match use with | .opened fd => fd ∉ live | .closed _ => True) uses

def Tidy (uses : List (Use Fd)) : Prop :=
  Along (fun live use => match use with | .opened _ => True | .closed fd => fd ∈ live) uses

@[simp] theorem fresh_nil : Fresh ([] : List (Use Fd)) := along_nil _

@[simp] theorem tidy_nil : Tidy ([] : List (Use Fd)) := along_nil _

@[simp] theorem fresh_opened (uses : List (Use Fd)) (fd : Fd) :
    Fresh (uses ++ [.opened fd]) ↔ Fresh uses ∧ fd ∉ live uses := along_snoc _ _ _

@[simp] theorem fresh_closed (uses : List (Use Fd)) (fd : Fd) :
    Fresh (uses ++ [.closed fd]) ↔ Fresh uses := by
  rw [Fresh, along_snoc]
  exact and_iff_left trivial

@[simp] theorem tidy_opened (uses : List (Use Fd)) (fd : Fd) :
    Tidy (uses ++ [.opened fd]) ↔ Tidy uses := by
  rw [Tidy, along_snoc]
  exact and_iff_left trivial

@[simp] theorem tidy_closed (uses : List (Use Fd)) (fd : Fd) :
    Tidy (uses ++ [.closed fd]) ↔ Tidy uses ∧ fd ∈ live uses := along_snoc _ _ _

def straysFrom (live : List Fd) : List (Use Fd) → List Fd
  | [] => []
  | .opened fd :: uses => straysFrom (step live (.opened fd)) uses
  | .closed fd :: uses =>
      if fd ∈ live then straysFrom (step live (.closed fd)) uses
      else fd :: straysFrom (step live (.closed fd)) uses

/-- The descriptors that are closed while they are not open. -/
def strays (uses : List (Use Fd)) : List Fd := straysFrom [] uses

theorem straysFrom_append (fds : List Fd) (uses more : List (Use Fd)) :
    straysFrom fds (uses ++ more) = straysFrom fds uses ++ straysFrom (uses.foldl step fds) more := by
  induction uses generalizing fds with
  | nil => rfl
  | cons use uses ih =>
      cases use with
      | opened fd => exact ih _
      | closed fd =>
          simp only [List.cons_append, straysFrom, ih, List.foldl_cons]
          split <;> rfl

@[simp] theorem strays_nil : strays ([] : List (Use Fd)) = [] := rfl

@[simp] theorem strays_opened (uses : List (Use Fd)) (fd : Fd) :
    strays (uses ++ [.opened fd]) = strays uses := by
  simp [strays, straysFrom_append, straysFrom]

@[simp] theorem strays_closed (uses : List (Use Fd)) (fd : Fd) :
    strays (uses ++ [.closed fd]) = strays uses ++ if fd ∈ live uses then [] else [fd] := by
  rw [strays, straysFrom_append]
  rfl

theorem tidy_iff (uses : List (Use Fd)) : Tidy uses ↔ strays uses = [] := by
  induction uses using List.reverseRecOn with
  | nil => simp
  | append_singleton uses use ih =>
      cases use with
      | opened fd => rw [tidy_opened, strays_opened, ih]
      | closed fd =>
          rw [tidy_closed, strays_closed, List.append_eq_nil_iff, ih]
          simp

theorem fresh_one (fd : Fd) : Fresh [.opened fd] := (fresh_opened [] fd).mpr (by simp)

theorem tidy_one (fd : Fd) : Tidy [.opened fd] := (tidy_opened [] fd).mpr tidy_nil

theorem live_one (fd : Fd) : live [.opened fd] = [fd] := rfl

theorem fresh_pair (fd : Fd) : Fresh [.opened fd, .closed fd] :=
  (fresh_closed [.opened fd] fd).mpr (fresh_one fd)

theorem tidy_pair (fd : Fd) : Tidy [.opened fd, .closed fd] :=
  (tidy_closed [.opened fd] fd).mpr ⟨tidy_one fd, by rw [live_one]; exact List.mem_singleton_self fd⟩

theorem live_nodup (uses : List (Use Fd)) (fresh : Fresh uses) : (live uses).Nodup := by
  induction uses using List.reverseRecOn with
  | nil => exact List.nodup_nil
  | append_singleton uses use ih =>
      cases use with
      | opened fd =>
          obtain ⟨earlier, unused⟩ := (fresh_opened uses fd).mp fresh
          rw [live_opened]
          apply List.nodup_append.mpr
          constructor
          · exact ih earlier
          constructor
          · exact List.nodup_singleton fd
          · intro other member new here
            rw [List.mem_singleton.mp here]
            exact fun same => unused (same ▸ member)
      | closed fd =>
          rw [live_closed]
          exact (ih ((fresh_closed uses fd).mp fresh)).erase fd

-- A process that is forked has the descriptors of its parent.
theorem live_inherited (fds : List Fd) (nodup : fds.Nodup) :
    live (fds.map Use.opened) = fds ∧ Fresh (fds.map Use.opened) ∧ Tidy (fds.map Use.opened) := by
  induction fds using List.reverseRecOn with
  | nil => exact ⟨rfl, fresh_nil, tidy_nil⟩
  | append_singleton fds fd ih =>
      rw [List.nodup_append] at nodup
      obtain ⟨same, fresh, tidy⟩ := ih nodup.1
      rw [List.map_append, List.map_singleton, live_opened, fresh_opened, tidy_opened, same]
      refine ⟨rfl, ⟨fresh, ?_⟩, tidy⟩
      intro member
      exact nodup.2.2 fd member fd (List.mem_singleton_self fd) rfl

-- Closing some of the open descriptors one by one leaves the others.
theorem live_closing (uses : List (Use Fd)) (front fds back : List Fd) (nodup : (live uses).Nodup)
    (shape : live uses = front ++ (fds ++ back)) (tidy : Tidy uses) :
    live (uses ++ fds.map Use.closed) = front ++ back ∧ Tidy (uses ++ fds.map Use.closed) := by
  induction fds generalizing uses with
  | nil => exact ⟨by simpa using shape, by simpa using tidy⟩
  | cons fd fds ih =>
      rw [List.cons_append] at shape
      have missing : fd ∉ front := by
        intro member
        rw [shape] at nodup
        exact (List.nodup_append.mp nodup).2.2 fd member fd (by simp) rfl
      have step := ih (uses ++ [.closed fd])
      rw [live_closed, tidy_closed] at step
      have erased : (live uses).erase fd = front ++ (fds ++ back) := by
        rw [shape, List.erase_append_right _ missing, List.erase_cons_head]
      have here : fd ∈ live uses := by
        rw [shape]
        simp
      have left := step (nodup.erase fd) erased ⟨tidy, here⟩
      simpa using left

/-- What a loop does that opens descriptors one after the other and keeps those that it can use. -/
inductive Attempt (Fd : Type) where
  | unopened
  | dropped (fd : Fd)
  | kept (fd : Fd)
  deriving DecidableEq, Repr

def Attempt.uses : Attempt Fd → List (Use Fd)
  | .unopened => []
  | .dropped fd => [.opened fd, .closed fd]
  | .kept fd => [.opened fd]

def Attempt.keeps : Attempt Fd → Option Fd
  | .kept fd => some fd
  | _ => none

-- The loop leaves open what it keeps, and has closed everything else once.
theorem live_attempts (attempts : List (Attempt Fd))
    (fresh : Fresh (attempts.flatMap Attempt.uses)) :
    live (attempts.flatMap Attempt.uses) = attempts.filterMap Attempt.keeps ∧
      Tidy (attempts.flatMap Attempt.uses) := by
  induction attempts using List.reverseRecOn with
  | nil => exact ⟨rfl, tidy_nil⟩
  | append_singleton attempts attempt ih =>
      rw [List.flatMap_append, List.flatMap_singleton] at fresh ⊢
      obtain ⟨same, tidy⟩ := ih fresh.earlier
      rw [List.filterMap_append]
      cases attempt with
      | unopened =>
          rw [Attempt.uses, List.append_nil]
          constructor
          · simp [same, Attempt.keeps]
          · exact tidy
      | kept fd =>
          constructor
          · rw [Attempt.uses, live_opened, same]
            rfl
          · exact (tidy_opened _ fd).mpr tidy
      | dropped fd =>
          have shape : attempts.flatMap Attempt.uses ++ (Attempt.dropped fd).uses =
              attempts.flatMap Attempt.uses ++ [.opened fd] ++ [.closed fd] := by
            simp [Attempt.uses]
          rw [shape] at fresh ⊢
          obtain ⟨_, unused⟩ := (fresh_opened _ fd).mp fresh.earlier
          constructor
          · rw [live_closed, live_opened, List.erase_append_right _ unused, same]
            simp [Attempt.keeps]
          · rw [tidy_closed, tidy_opened, live_opened]
            exact ⟨tidy, by simp⟩

end Descriptors
