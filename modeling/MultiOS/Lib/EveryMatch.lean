import Mathlib.Algebra.BigOperators.Group.List.Basic
import MultiOS.Lib.FirstMatch

/-!
# Every-match update of a list

`updateWhere p f` overwrites by `f` every element that satisfies `p`;
`sumWhere p w` is what these elements weigh together. When `f` makes an element
that a second update would not match, two updates are one update for either
condition (`updateWhere_updateWhere`), and their weights add up
(`sumWhere_updateWhere`): an element that both match is overwritten, and
counted, once.

A loop that stops at its first match does the same where its condition picks
out one key and the keys are distinct (`updateFirst_eq_updateWhere`,
`sumWhere_of_updateFirst`).
-/

namespace Lib

variable {α β M : Type*} {p q : α → Bool} {f : α → α}

/-- Overwrite every element satisfying `p` by `f`. -/
def updateWhere (p : α → Bool) (f : α → α) (as : List α) : List α :=
  as.map fun a => if p a then f a else a

/-- The sum of the weights of the elements satisfying `p`. -/
def sumWhere [AddCommMonoid M] (p : α → Bool) (w : α → M) (as : List α) : M :=
  ((as.filter p).map w).sum

-- ---------------------------------------------------------------------------
-- One update
-- ---------------------------------------------------------------------------

theorem updateWhere_append (as bs : List α) :
    updateWhere p f (as ++ bs) = updateWhere p f as ++ updateWhere p f bs :=
  List.map_append

theorem updateWhere_cons_pos {a : α} {as : List α} (ha : p a = true) :
    updateWhere p f (a :: as) = f a :: updateWhere p f as := by
  simp [updateWhere, ha]

theorem updateWhere_cons_neg {a : α} {as : List α} (ha : p a = false) :
    updateWhere p f (a :: as) = a :: updateWhere p f as := by
  simp [updateWhere, ha]

theorem updateWhere_of_none {as : List α} (h : ∀ a ∈ as, p a = false) :
    updateWhere p f as = as := by
  induction as with
  | nil => rfl
  | cons a as ih =>
    rw [updateWhere_cons_neg (h a List.mem_cons_self),
      ih fun x hx => h x (List.mem_cons_of_mem _ hx)]

/-- An attribute that `f` does not touch reads the same before and after. -/
theorem updateWhere_map (key : α → β) (hf : ∀ x, key (f x) = key x) (as : List α) :
    (updateWhere p f as).map key = as.map key := by
  induction as with
  | nil => rfl
  | cons a as ih =>
    by_cases ha : p a = true
    · rw [updateWhere_cons_pos ha, List.map_cons, List.map_cons, hf, ih]
    · rw [Bool.not_eq_true] at ha
      rw [updateWhere_cons_neg ha, List.map_cons, List.map_cons, ih]

section
variable [AddCommMonoid M] (w : α → M)

theorem sumWhere_append (as bs : List α) :
    sumWhere p w (as ++ bs) = sumWhere p w as + sumWhere p w bs := by
  simp [sumWhere]

theorem sumWhere_cons_pos {a : α} {as : List α} (ha : p a = true) :
    sumWhere p w (a :: as) = w a + sumWhere p w as := by
  simp [sumWhere, ha]

theorem sumWhere_cons_neg {a : α} {as : List α} (ha : p a = false) :
    sumWhere p w (a :: as) = sumWhere p w as := by
  simp [sumWhere, ha]

theorem sumWhere_of_none {as : List α} (h : ∀ a ∈ as, p a = false) : sumWhere p w as = 0 := by
  have hNone : as.filter p = [] := by simpa [List.filter_eq_nil_iff] using h
  rw [sumWhere, hNone]
  rfl

end

-- ---------------------------------------------------------------------------
-- One update after another
-- ---------------------------------------------------------------------------

/-- Two updates, the second of which matches nothing that the first wrote,
are one update for either condition. -/
theorem updateWhere_updateWhere (hDone : ∀ a, p a = true → q (f a) = false) (as : List α) :
    updateWhere q f (updateWhere p f as) = updateWhere (fun a => p a || q a) f as := by
  induction as with
  | nil => rfl
  | cons a as ih =>
    by_cases hp : p a = true
    · rw [updateWhere_cons_pos hp, updateWhere_cons_neg (hDone a hp),
        updateWhere_cons_pos (by simp [hp]), ih]
    · rw [Bool.not_eq_true] at hp
      rw [updateWhere_cons_neg hp]
      by_cases hq : q a = true
      · rw [updateWhere_cons_pos hq, updateWhere_cons_pos (by simp [hq]), ih]
      · rw [Bool.not_eq_true] at hq
        rw [updateWhere_cons_neg hq, updateWhere_cons_neg (by simp [hp, hq]), ih]

/-- What such updates match weighs together what the one update matches. -/
theorem sumWhere_updateWhere [AddCommMonoid M] (w : α → M)
    (hDone : ∀ a, p a = true → q (f a) = false) (as : List α) :
    sumWhere p w as + sumWhere q w (updateWhere p f as) =
      sumWhere (fun a => p a || q a) w as := by
  induction as with
  | nil => simp [sumWhere, updateWhere]
  | cons a as ih =>
    by_cases hp : p a = true
    · rw [updateWhere_cons_pos hp, sumWhere_cons_neg w (hDone a hp), sumWhere_cons_pos w hp,
        sumWhere_cons_pos w (by simp [hp]), ← ih, add_assoc]
    · rw [Bool.not_eq_true] at hp
      rw [updateWhere_cons_neg hp, sumWhere_cons_neg w hp]
      by_cases hq : q a = true
      · rw [sumWhere_cons_pos w hq, sumWhere_cons_pos w (by simp [hq]), ← ih, add_left_comm]
      · rw [Bool.not_eq_true] at hq
        rw [sumWhere_cons_neg w hq, sumWhere_cons_neg w (by simp [hp, hq]), ih]

-- ---------------------------------------------------------------------------
-- The first match as the only one
-- ---------------------------------------------------------------------------

section
variable {key : α → β} {k : β} {as bs : List α} {a : α}

/-- With distinct keys, a condition that picks out one key matches nothing
around its first match. -/
theorem updateFirst_only_match (hKeys : (as.map key).Nodup) (hKey : ∀ x, p x = true → key x = k)
    (h : updateFirst p f as = some (a, bs)) :
    ∃ pre post, as = pre ++ a :: post ∧ p a = true ∧ bs = pre ++ f a :: post ∧
      (∀ x ∈ pre, p x = false) ∧ ∀ x ∈ post, p x = false := by
  obtain ⟨pre, post, rfl, hPre, ha, rfl⟩ := updateFirst_eq_some.mp h
  refine ⟨pre, post, rfl, ha, rfl, hPre, ?_⟩
  intro x hx
  by_contra hp
  rw [Bool.not_eq_false] at hp
  refine key_ne_of_nodup_split hKeys (Or.inr hx) ?_
  rw [hKey x hp, hKey a ha]

theorem updateFirst_eq_updateWhere (hKeys : (as.map key).Nodup)
    (hKey : ∀ x, p x = true → key x = k) (h : updateFirst p f as = some (a, bs)) :
    bs = updateWhere p f as := by
  obtain ⟨pre, post, rfl, ha, rfl, hPre, hPost⟩ := updateFirst_only_match hKeys hKey h
  rw [updateWhere_append, updateWhere_cons_pos ha, updateWhere_of_none hPre,
    updateWhere_of_none hPost]

theorem sumWhere_of_updateFirst [AddCommMonoid M] (w : α → M) (hKeys : (as.map key).Nodup)
    (hKey : ∀ x, p x = true → key x = k) (h : updateFirst p f as = some (a, bs)) :
    sumWhere p w as = w a := by
  obtain ⟨pre, post, rfl, ha, rfl, hPre, hPost⟩ := updateFirst_only_match hKeys hKey h
  rw [sumWhere_append, sumWhere_cons_pos w ha, sumWhere_of_none w hPre, sumWhere_of_none w hPost,
    zero_add, add_zero]

end

end Lib
