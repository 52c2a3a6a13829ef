import Mathlib.Logic.Function.Basic
import MultiOS.Lib.Runs

/-!
# Threads around one non-recursive mutex

Each thread `t` is at a position of its own type `π t`. A program `offers`
moves: from given positions, thread `t` may go to another position, and on the
way acquire the mutex, release it, or leave it alone. The mutex grants an
acquisition only while nobody owns it and a release only to its owner.

`guards t p` counts the lock guards alive in thread `t` at position `p`, a
fact about the text of the program (`CountsGuards`). The mutex being
non-recursive, the count never passes one in a state reached:

* `guards_eq` — the owner is the one thread with a guard alive;
* `mutual_exclusion` — no two threads have one;
* `LockState.Guarded.owner_iff` — a thread owns the mutex exactly when its
  position says that a guard is alive there, also where it waits;
* `blocks_itself_forever` — such a thread never moves again, and the mutex is
  never free again.
-/

namespace Lib

/-- What a move does to the mutex. -/
inductive LockOp where
  | acquire
  | body
  | release
  deriving DecidableEq, Repr

/-- A step of one thread: what it does to the mutex and where it goes. -/
structure LockMove (τ : Type*) (π : τ → Type*) where
  thread : τ
  op : LockOp
  target : π thread

/-- The positions of the threads and the owner of the mutex. -/
structure LockState (τ : Type*) (π : τ → Type*) where
  pos : ∀ t, π t
  owner : Option τ

variable {τ : Type*} {π : τ → Type*} [DecidableEq τ]
variable {offers : (∀ t, π t) → LockMove τ π → Prop}

/-- The mutex grants the operation to the thread. -/
def LockState.Grants (s : LockState τ π) (thread : τ) : LockOp → Prop
  | .acquire => s.owner = none
  | .body => True
  | .release => s.owner = some thread

/-- The state after a move. -/
def LockState.after (s : LockState τ π) (m : LockMove τ π) : LockState τ π where
  pos := Function.update s.pos m.thread m.target
  owner := match m.op with
    | .acquire => some m.thread
    | .body => s.owner
    | .release => none

/-- A step that the thread offers and the mutex grants. -/
def LockStep (offers : (∀ t, π t) → LockMove τ π → Prop) (s : LockState τ π)
    (m : LockMove τ π) (s' : LockState τ π) : Prop :=
  offers s.pos m ∧ s.Grants m.thread m.op ∧ s' = s.after m

/-- Thread `t` is about to acquire the mutex. -/
def LockState.Waits (offers : (∀ t, π t) → LockMove τ π → Prop) (s : LockState τ π)
    (t : τ) : Prop :=
  ∃ p, offers s.pos ⟨t, .acquire, p⟩

/-- Moves of `t`, and of threads that help it, lead to a state in which the
mutex is free. -/
def LockState.CanRelease (offers : (∀ t, π t) → LockMove τ π → Prop) (helper : τ → Prop)
    (s : LockState τ π) (t : τ) : Prop :=
  ∃ moves s', Steps (LockStep offers) s moves s' ∧
    (∀ m ∈ moves, m.thread = t ∨ helper m.thread) ∧ s'.owner = none

/-- A free mutex is released. -/
theorem LockState.CanRelease.now {helper : τ → Prop} {s : LockState τ π} {t : τ}
    (h : s.owner = none) : s.CanRelease offers helper t :=
  ⟨[], s, rfl, nofun, h⟩

/-- A step of the thread or of a helper on the way to the release. -/
theorem LockState.CanRelease.cons {helper : τ → Prop} {s : LockState τ π} {t : τ}
    {m : LockMove τ π} (hOffers : offers s.pos m) (hGrants : s.Grants m.thread m.op)
    (hThread : m.thread = t ∨ helper m.thread) (h : (s.after m).CanRelease offers helper t) :
    s.CanRelease offers helper t := by
  obtain ⟨moves, s', hRun, hMoves, hFree⟩ := h
  refine ⟨m :: moves, s', ⟨s.after m, ⟨hOffers, hGrants, rfl⟩, hRun⟩, ?_, hFree⟩
  intro m' hm'
  rcases List.mem_cons.mp hm' with rfl | hRest
  · exact hThread
  · exact hMoves m' hRest

-- ---------------------------------------------------------------------------
-- Positions after a move
-- ---------------------------------------------------------------------------

@[simp] theorem LockState.after_pos_self (s : LockState τ π) (t : τ) (op : LockOp) (p : π t) :
    (s.after ⟨t, op, p⟩).pos t = p := Function.update_self ..

/-- A step moves its own thread only. -/
theorem LockState.after_pos_of_ne (s : LockState τ π) {m : LockMove τ π} {t : τ}
    (h : t ≠ m.thread) : (s.after m).pos t = s.pos t := Function.update_of_ne h ..

-- ---------------------------------------------------------------------------
-- Guards
-- ---------------------------------------------------------------------------

/-- The numbers of guards alive before and after the operation: one more after
an acquisition, one less after a release. -/
def LockOp.Counts : LockOp → Nat → Nat → Prop
  | .acquire, before, after => after = before + 1
  | .body, before, after => after = before
  | .release, before, after => before = after + 1

/-- `guards` follows the operations of every move offered. -/
def CountsGuards (offers : (∀ t, π t) → LockMove τ π → Prop) (guards : ∀ t, π t → Nat) : Prop :=
  ∀ pos m, offers pos m → m.op.Counts (guards m.thread (pos m.thread)) (guards m.thread m.target)

/-- The owner has one guard alive, every other thread none. -/
def LockState.Guarded (guards : ∀ t, π t → Nat) (s : LockState τ π) : Prop :=
  ∀ t, guards t (s.pos t) = if s.owner = some t then 1 else 0

variable {guards : ∀ t, π t → Nat}

/-- Where guards are counted, a step keeps the count. -/
theorem LockState.Guarded.step (hCounts : CountsGuards offers guards) {s s' : LockState τ π}
    {m : LockMove τ π} (h : s.Guarded guards) (hStep : LockStep offers s m s') :
    s'.Guarded guards := by
  obtain ⟨hOffers, hGrants, rfl⟩ := hStep
  obtain ⟨thread, op, target⟩ := m
  have hCount := hCounts _ _ hOffers
  have hSelf := h thread
  intro t
  by_cases ht : t = thread
  · subst ht
    rw [LockState.after_pos_self]
    cases op with
    | acquire =>
      have hFree : s.owner = none := hGrants
      rw [hFree, if_neg nofun] at hSelf
      have hCount' : guards t target = guards t (s.pos t) + 1 := hCount
      rw [hCount', hSelf, LockState.after, if_pos rfl]
    | body => exact hCount.trans hSelf
    | release =>
      have hOwner : s.owner = some t := hGrants
      have hCount' : guards t (s.pos t) = guards t target + 1 := hCount
      rw [hOwner, if_pos rfl] at hSelf
      rw [LockState.after, if_neg nofun]
      omega
  · rw [LockState.after_pos_of_ne s ht, h t]
    cases op with
    | acquire =>
      have hFree : s.owner = none := hGrants
      have hNe : some thread ≠ some t := fun hEq => ht (Option.some.inj hEq).symm
      rw [hFree, LockState.after, if_neg nofun, if_neg hNe]
    | body => rfl
    | release =>
      have hOwner : s.owner = some thread := hGrants
      have hNe : some thread ≠ some t := fun hEq => ht (Option.some.inj hEq).symm
      rw [hOwner, LockState.after, if_neg hNe, if_neg nofun]

/-- **Owners and guards.** In every state reached, the owner of the mutex has
exactly one guard alive and no other thread has any. -/
theorem guards_eq (hCounts : CountsGuards offers guards) {s s' : LockState τ π}
    {moves : List (LockMove τ π)} (hStart : s.Guarded guards)
    (hRun : Steps (LockStep offers) s moves s') : s'.Guarded guards :=
  Always.final (always_of_inv hStart fun _ _ _ _ h hStep => h.step hCounts hStep) hRun

/-- A thread that holds a guard owns the mutex. -/
theorem LockState.Guarded.owner_of_pos {s : LockState τ π} (h : s.Guarded guards) {t : τ}
    (hPos : 0 < guards t (s.pos t)) : s.owner = some t := by
  by_contra hNot
  rw [h t, if_neg hNot] at hPos
  omega

/-- **Mutual exclusion.** -/
theorem LockState.Guarded.mutual_exclusion {s : LockState τ π} (h : s.Guarded guards) {t u : τ}
    (ht : 0 < guards t (s.pos t)) (hu : 0 < guards u (s.pos u)) : t = u :=
  Option.some.inj ((h.owner_of_pos ht).symm.trans (h.owner_of_pos hu))

/-- A thread owns the mutex exactly where its position has a guard alive. -/
theorem LockState.Guarded.owner_iff {s : LockState τ π} (h : s.Guarded guards) (t : τ) :
    s.owner = some t ↔ 0 < guards t (s.pos t) := by
  refine ⟨?_, ?_⟩
  · intro hOwner
    rw [h t, if_pos hOwner]
    omega
  · exact h.owner_of_pos

-- ---------------------------------------------------------------------------
-- Blocking
-- ---------------------------------------------------------------------------

/-- At position `p` thread `t` can do nothing but acquire the mutex. -/
def OnlyAcquires (offers : (∀ t, π t) → LockMove τ π → Prop) (t : τ) (p : π t) : Prop :=
  ∀ pos op target, pos t = p → offers pos ⟨t, op, target⟩ → op = .acquire

/-- **A thread that waits for itself.** A thread that owns the mutex where it
can only acquire it stays there, and stays the owner, whatever the others
do. -/
theorem blocks_itself_forever {s s' : LockState τ π} {moves : List (LockMove τ π)} {t : τ}
    (hOnly : OnlyAcquires offers t (s.pos t)) (hOwner : s.owner = some t)
    (hRun : Steps (LockStep offers) s moves s') :
    s'.owner = some t ∧ s'.pos t = s.pos t := by
  have hAlways : Always (LockStep offers) s moves
      fun u => u.owner = some t ∧ u.pos t = s.pos t := by
    refine always_of_inv ?_ ?_
    · exact ⟨hOwner, rfl⟩
    · rintro u ⟨thread, op, target⟩ u' - ⟨hOwn, hPos⟩ ⟨hOffers, hGrants, rfl⟩
      have hNe : t ≠ thread := by
        rintro rfl
        obtain rfl := hOnly _ _ _ hPos hOffers
        have hFree : u.owner = none := hGrants
        rw [hFree] at hOwn
        simp at hOwn
      refine ⟨?_, ?_⟩
      · cases op with
        | acquire =>
          have hFree : u.owner = none := hGrants
          rw [hFree] at hOwn
          simp at hOwn
        | body => exact hOwn
        | release =>
          have hThread : u.owner = some thread := hGrants
          rw [hThread] at hOwn
          exact absurd (Option.some.inj hOwn).symm hNe
      · rw [← hPos]
        exact LockState.after_pos_of_ne u hNe
  exact hAlways.final hRun

end Lib
