import Mathlib.Data.List.Nodup
import Mathlib.Data.List.Basic

/-!
# First-match update of a list

The loop `for (auto& x : xs) if (p(x)) { f(x); return; }`: the first element
that satisfies `p` is overwritten by `f`, the rest of the list is not looked
at. `updateFirst` also returns the element as it was, since such loops read
from the element they found.

`updateFirst_eq_some` splits the list at the match; the other lemmas say what
the update keeps: the keys, the length, and, when the keys are distinct, every
element but the one matched.
-/

namespace Lib

variable {α β : Type*}

/-- Overwrite the first element satisfying `p` by `f`, and return that element
as it was together with the updated list. -/
def updateFirst (p : α → Bool) (f : α → α) : List α → Option (α × List α)
  | [] => none
  | a :: as =>
    if p a then some (a, f a :: as)
    else (updateFirst p f as).map fun r => (r.1, a :: r.2)

theorem updateFirst_eq_none {p : α → Bool} {f : α → α} {as : List α} :
    updateFirst p f as = none ↔ ∀ a ∈ as, p a = false := by
  induction as with
  | nil => simp [updateFirst]
  | cons a as ih =>
    by_cases ha : p a = true
    · simp [updateFirst, ha]
    · simp [updateFirst, ha, ih]

/-- A successful scan splits the list at the first match. -/
theorem updateFirst_eq_some {p : α → Bool} {f : α → α} {as bs : List α} {a : α} :
    updateFirst p f as = some (a, bs) ↔
      ∃ pre post, as = pre ++ a :: post ∧ (∀ x ∈ pre, p x = false) ∧ p a = true ∧
        bs = pre ++ f a :: post := by
  induction as generalizing bs with
  | nil => simp [updateFirst]
  | cons x as ih =>
    rw [updateFirst]
    split
    · next hx =>
      refine ⟨?_, ?_⟩
      · intro h
        obtain ⟨rfl, rfl⟩ : x = a ∧ f x :: as = bs := by simpa using h
        exact ⟨[], as, rfl, by simp, hx, rfl⟩
      · rintro ⟨pre, post, has, hPre, ha, rfl⟩
        cases pre with
        | nil =>
          obtain ⟨rfl, rfl⟩ : x = a ∧ as = post := by simpa using has
          rfl
        | cons y pre =>
          obtain ⟨rfl, -⟩ : x = y ∧ as = pre ++ a :: post := by simpa using has
          rw [hPre x (by simp)] at hx
          exact absurd hx (by simp)
    · next hx =>
      refine ⟨?_, ?_⟩
      · intro h
        obtain ⟨⟨a', bs'⟩, hr, hEq⟩ := Option.map_eq_some_iff.mp h
        obtain ⟨rfl, rfl⟩ : a' = a ∧ x :: bs' = bs := by simpa using hEq
        obtain ⟨pre, post, rfl, hPre, ha, rfl⟩ := ih.mp hr
        refine ⟨x :: pre, post, rfl, ?_, ha, rfl⟩
        intro y hy
        rcases List.mem_cons.mp hy with rfl | hy
        · simpa using hx
        · exact hPre y hy
      · rintro ⟨pre, post, has, hPre, ha, rfl⟩
        cases pre with
        | nil =>
          obtain ⟨rfl, rfl⟩ : x = a ∧ as = post := by simpa using has
          exact absurd ha hx
        | cons y pre =>
          obtain ⟨rfl, rfl⟩ : x = y ∧ as = pre ++ a :: post := by simpa using has
          rw [ih.mpr ⟨pre, post, rfl, fun z hz => hPre z (List.mem_cons_of_mem _ hz), ha, rfl⟩]
          rfl

theorem updateFirst_mem {p : α → Bool} {f : α → α} {as bs : List α} {a : α}
    (h : updateFirst p f as = some (a, bs)) : a ∈ as ∧ p a = true := by
  obtain ⟨pre, post, rfl, -, ha, -⟩ := updateFirst_eq_some.mp h
  exact ⟨by simp, ha⟩

/-- The element overwritten is the one a search for `p` finds. -/
theorem updateFirst_find? {p : α → Bool} {f : α → α} {as bs : List α} {a : α}
    (h : updateFirst p f as = some (a, bs)) : as.find? p = some a := by
  obtain ⟨pre, post, rfl, hPre, ha, -⟩ := updateFirst_eq_some.mp h
  have hNone : pre.find? p = none := by simpa [List.find?_eq_none] using hPre
  rw [List.find?_append, hNone, List.find?_cons_of_pos ha]
  rfl

/-- A search for `p` then finds what the match was overwritten by. -/
theorem find?_updateFirst {p : α → Bool} {f : α → α} {as bs : List α} {a : α}
    (h : updateFirst p f as = some (a, bs)) (ha : p (f a) = true) : bs.find? p = some (f a) := by
  obtain ⟨pre, post, rfl, hPre, -, rfl⟩ := updateFirst_eq_some.mp h
  have hNone : pre.find? p = none := by simpa [List.find?_eq_none] using hPre
  rw [List.find?_append, hNone, List.find?_cons_of_pos ha]
  rfl

/-- A search that passes over the match, before and after, finds the same. -/
theorem find?_updateFirst_of_neg {p q : α → Bool} {f : α → α} {as bs : List α} {a : α}
    (h : updateFirst p f as = some (a, bs)) (ha : q a = false) (hf : q (f a) = false) :
    bs.find? q = as.find? q := by
  obtain ⟨pre, post, rfl, -, -, rfl⟩ := updateFirst_eq_some.mp h
  rw [List.find?_append, List.find?_append, List.find?_cons_of_neg (by simp [hf]),
    List.find?_cons_of_neg (by simp [ha])]

/-- An attribute that `f` does not touch reads the same before and after. -/
theorem updateFirst_map (key : α → β) {p : α → Bool} {f : α → α} {as bs : List α} {a : α}
    (hf : ∀ x, key (f x) = key x) (h : updateFirst p f as = some (a, bs)) :
    bs.map key = as.map key := by
  obtain ⟨pre, post, rfl, -, -, rfl⟩ := updateFirst_eq_some.mp h
  simp [hf]

/-- With distinct keys, the elements around one have other keys. -/
theorem key_ne_of_nodup_split {key : α → β} {pre post : List α} {a : α}
    (hKeys : ((pre ++ a :: post).map key).Nodup) {x : α} (hx : x ∈ pre ∨ x ∈ post) :
    key x ≠ key a := by
  intro hEq
  rw [List.map_append, List.map_cons, List.nodup_middle, List.nodup_cons] at hKeys
  refine hKeys.1 (hEq ▸ ?_)
  rw [← List.map_append]
  exact List.mem_map_of_mem (List.mem_append.mpr hx)

/-- With distinct keys, the updated list holds the overwritten element and
every element with another key. -/
theorem mem_of_updateFirst {p : α → Bool} {f : α → α} {as bs : List α} {a : α} {key : α → β}
    (hKeys : (as.map key).Nodup)
    (h : updateFirst p f as = some (a, bs)) {x : α} :
    x ∈ bs ↔ x = f a ∨ (x ∈ as ∧ key x ≠ key a) := by
  obtain ⟨pre, post, rfl, -, -, rfl⟩ := updateFirst_eq_some.mp h
  simp only [List.mem_append, List.mem_cons]
  refine ⟨?_, ?_⟩
  · rintro (hx | rfl | hx)
    · exact Or.inr ⟨Or.inl hx, key_ne_of_nodup_split hKeys (Or.inl hx)⟩
    · exact Or.inl rfl
    · exact Or.inr ⟨Or.inr (Or.inr hx), key_ne_of_nodup_split hKeys (Or.inr hx)⟩
  · rintro (rfl | ⟨hx | rfl | hx, hKey⟩)
    · exact Or.inr (Or.inl rfl)
    · exact Or.inl hx
    · exact absurd rfl hKey
    · exact Or.inr (Or.inr hx)

end Lib
