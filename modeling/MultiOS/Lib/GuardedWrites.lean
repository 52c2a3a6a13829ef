import Mathlib.Data.List.Basic
import Mathlib.Logic.Function.Basic

/-!
# Guarded writes

A write that is made only where a place holds the value expected there. A list
of them is made in order, so one may make the next one happen. In a list that is
`Unchained` no write sets what a later one expects: then each looks at what was
there at first (`runAll_apply`), no place is written twice, and the writes might
as well be made all at once.
-/

namespace Lib

variable {κ β : Type*}

/-- Set a place that holds the value expected. -/
structure GuardedWrite (κ β : Type*) where
  place : κ
  expect : β
  set : β

variable [DecidableEq κ] [DecidableEq β]

def GuardedWrite.run (w : GuardedWrite κ β) (s : κ → β) : κ → β :=
  if s w.place = w.expect then Function.update s w.place w.set else s

def runAll (ws : List (GuardedWrite κ β)) (s : κ → β) : κ → β :=
  ws.foldl (fun s w => w.run s) s

/-- No write sets what a later one expects at the same place. -/
def Unchained (ws : List (GuardedWrite κ β)) : Prop :=
  ws.Pairwise fun w w' => w.place = w'.place → w.set ≠ w'.expect

/-- The write is for this place, and for what it holds. -/
def GuardedWrite.Matches (w : GuardedWrite κ β) (s : κ → β) (p : κ) : Prop :=
  w.place = p ∧ w.expect = s p

instance (w : GuardedWrite κ β) (s : κ → β) (p : κ) : Decidable (w.Matches s p) :=
  inferInstanceAs (Decidable (_ ∧ _))

theorem runAll_append (ws ws' : List (GuardedWrite κ β)) (s : κ → β) :
    runAll (ws ++ ws') s = runAll ws' (runAll ws s) :=
  List.foldl_append

theorem GuardedWrite.run_of_matches {w : GuardedWrite κ β} {s : κ → β} {p : κ}
    (h : w.Matches s p) : w.run s p = w.set := by
  obtain ⟨rfl, hExpect⟩ := h
  rw [GuardedWrite.run, if_pos hExpect.symm, Function.update_self]

theorem GuardedWrite.run_of_not_matches {w : GuardedWrite κ β} {s : κ → β} {p : κ}
    (h : ¬ w.Matches s p) : w.run s p = s p := by
  unfold GuardedWrite.run
  split
  · next hExpect =>
    refine Function.update_of_ne ?_ _ _
    rintro rfl
    exact h ⟨rfl, hExpect.symm⟩
  · rfl

/-- **Writes that are made one after the other are made at once.** What a place holds
after them is set by the first that matches what it held before. -/
theorem runAll_apply {ws : List (GuardedWrite κ β)} (h : Unchained ws) (s : κ → β) (p : κ) :
    runAll ws s p = ((ws.find? fun w => w.Matches s p).map GuardedWrite.set).getD (s p) := by
  induction ws generalizing s with
  | nil => rfl
  | cons w ws ih =>
    obtain ⟨hFirst, hRest⟩ := List.pairwise_cons.mp h
    have hRun : runAll (w :: ws) s p = runAll ws (w.run s) p := rfl
    rw [hRun, ih hRest, List.find?_cons]
    by_cases hMatch : w.Matches s p
    · have hNone : ws.find? (fun w' => w'.Matches (w.run s) p) = none := by
        rw [List.find?_eq_none]
        intro w' hw' hMatch'
        obtain ⟨hPlace, hExpect⟩ := of_decide_eq_true hMatch'
        rw [GuardedWrite.run_of_matches hMatch] at hExpect
        exact hFirst w' hw' (hMatch.1.trans hPlace.symm) hExpect.symm
      rw [hNone, GuardedWrite.run_of_matches hMatch, decide_eq_true hMatch]
      rfl
    · have hSame : ∀ w' : GuardedWrite κ β, w'.Matches (w.run s) p ↔ w'.Matches s p := by
        intro w'
        rw [GuardedWrite.Matches, GuardedWrite.run_of_not_matches hMatch]
        rfl
      simp only [hSame]
      rw [GuardedWrite.run_of_not_matches hMatch, decide_eq_false hMatch]

end Lib
