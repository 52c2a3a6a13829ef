import Mathlib.Data.List.Basic

/-!
# Lists whose optional keys are distinct

A table some of whose rows carry a key: `DistinctKeys key l` says that no two
rows carry the same one. Rows without a key are not constrained. Appending a
row with a new key, or one without a key, and removing rows keep it.
-/

namespace Lib

variable {α κ : Type*} {key : α → Option κ} {l : List α}

/-- No two entries of `l` carry the same key. -/
def DistinctKeys (key : α → Option κ) (l : List α) : Prop :=
  l.Pairwise fun x y => ∀ k, key x = some k → key y ≠ some k

theorem distinctKeys_of_none (h : ∀ x ∈ l, key x = none) : DistinctKeys key l := by
  refine List.pairwise_of_forall_mem_list fun x hx y _ k hk => ?_
  rw [h x hx] at hk
  simp at hk

theorem DistinctKeys.eraseIdx (h : DistinctKeys key l) (i : Nat) :
    DistinctKeys key (l.eraseIdx i) :=
  List.Pairwise.sublist (List.eraseIdx_sublist l i) h

theorem DistinctKeys.append_one (h : DistinctKeys key l) {a : α}
    (hNew : ∀ x ∈ l, ∀ k, key a = some k → key x ≠ some k) : DistinctKeys key (l ++ [a]) := by
  unfold DistinctKeys at *
  rw [List.pairwise_append]
  refine ⟨h, List.pairwise_singleton _ _, ?_⟩
  intro x hx y hy k hk
  rw [List.mem_singleton.mp hy]
  exact fun hak => hNew x hx k hak hk

/-- A key is carried at one position. -/
theorem DistinctKeys.index_unique (h : DistinctKeys key l) {i j : Nat} {x y : α} {k : κ}
    (hi : l[i]? = some x) (hj : l[j]? = some y) (hx : key x = some k) (hy : key y = some k) :
    i = j := by
  obtain ⟨hiLen, hiEq⟩ := List.getElem?_eq_some_iff.mp hi
  obtain ⟨hjLen, hjEq⟩ := List.getElem?_eq_some_iff.mp hj
  have hPair := List.pairwise_iff_getElem.mp h
  rcases Nat.lt_trichotomy i j with hlt | heq | hgt
  · exact absurd (hjEq ▸ hy) (hPair i j hiLen hjLen hlt k (hiEq ▸ hx))
  · exact heq
  · exact absurd (hiEq ▸ hx) (hPair j i hjLen hiLen hgt k (hjEq ▸ hy))

/-- The key of the entry removed is carried by no entry left. -/
theorem DistinctKeys.not_mem_eraseIdx (h : DistinctKeys key l) {i : Nat} {x : α} {k : κ}
    (hi : l[i]? = some x) (hx : key x = some k) : ∀ y ∈ l.eraseIdx i, key y ≠ some k := by
  intro y hy hk
  obtain ⟨j, hne, hj⟩ := List.mem_eraseIdx_iff_getElem?.mp hy
  exact hne (h.index_unique hj hi hk hx)

/-- How many entries carry a key: one if any does. -/
theorem DistinctKeys.countP_eq_one [DecidableEq κ] (h : DistinctKeys key l) {k : κ} :
    l.countP (fun x => key x = some k) = 1 ↔ ∃ x ∈ l, key x = some k := by
  induction l with
  | nil => simp
  | cons a l ih =>
    unfold DistinctKeys at h
    obtain ⟨hHead, hTail⟩ := List.pairwise_cons.mp h
    by_cases ha : key a = some k
    · have hZero : l.countP (fun x => key x = some k) = 0 := by
        rw [List.countP_eq_zero]
        intro x hx
        simpa using hHead x hx k ha
      simp [ha, hZero]
    · simp [ha, ih hTail]

end Lib
