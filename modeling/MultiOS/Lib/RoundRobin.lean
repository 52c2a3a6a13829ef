import Mathlib.Data.List.Nodup
import Mathlib.Data.List.Range

/-!
# Round robin over a growing group

Members are numbered `0 … n - 1` in the order in which they joined; a tick
makes member `(i + 1) % n` active after member `i`. New members may join
between two ticks, so the modulus may grow while a round is under way, also
just before or just after the index wraps.

`Rotation n i is` is the path of the index: from member `i` active among `n`,
the ticks make `is` active in turn. `Rotation.between_turns` is the shape of a
round: from one turn of `p` to its next the index climbs from `p + 1` to the
last member of that moment, wraps once, and climbs from 0 to `p`. Hence every
member present since the first of the two turns has exactly one in between
(`Rotation.count_between`).
-/

namespace Lib

/-- The ticks from member `i` active among `n` members make `is` active. -/
inductive Rotation : Nat → Nat → List Nat → Prop where
  | nil {n i : Nat} : Rotation n i []
  | tick {n m i : Nat} {is : List Nat} (hGrow : n ≤ m) (hRest : Rotation m ((i + 1) % m) is) :
      Rotation n i ((i + 1) % m :: is)

namespace Rotation

variable {n i p : Nat} {mid rest : List Nat}

/-- A group that counts fewer members at the start has the same path. -/
theorem mono {n' : Nat} {is : List Nat} (h : Rotation n i is) (hLe : n' ≤ n) :
    Rotation n' i is := by
  cases h with
  | nil => exact .nil
  | tick hGrow hRest => exact .tick (Nat.le_trans hLe hGrow) hRest

/-- The first tick of a path. -/
theorem first_tick {j : Nat} {is : List Nat} (h : Rotation n i (j :: is)) :
    ∃ m, n ≤ m ∧ (i + 1) % m = j ∧ Rotation m j is := by
  generalize hPath : j :: is = path at h
  cases h with
  | nil => simp at hPath
  | @tick _ m _ is' hGrow hRest =>
    obtain ⟨rfl, rfl⟩ := List.cons.inj hPath
    exact ⟨m, hGrow, rfl, hRest⟩

/-- Below a member `p` that is present, the index climbs to `p` without
wrapping. -/
theorem climb (h : Rotation n i (mid ++ p :: rest)) (hPresent : p < n) (hBelow : i < p)
    (hMid : p ∉ mid) : mid = List.range' (i + 1) (p - (i + 1)) := by
  induction mid generalizing n i with
  | nil =>
    obtain ⟨m, hGrow, hNext, -⟩ := h.first_tick
    rw [Nat.mod_eq_of_lt (by omega)] at hNext
    rw [hNext, Nat.sub_self]
    rfl
  | cons j mid ih =>
    obtain ⟨m, hGrow, hNext, hRest⟩ := h.first_tick
    rw [Nat.mod_eq_of_lt (by omega)] at hNext
    subst hNext
    have hNe : p ≠ i + 1 := fun hEq => hMid (by simp [hEq])
    have hMid' : p ∉ mid := fun hMem => hMid (List.mem_cons_of_mem _ hMem)
    have hLen : p - (i + 1) = p - (i + 1 + 1) + 1 := by omega
    rw [hLen, List.range'_succ, ← ih hRest (by omega) (by omega) hMid']

/-- From member `i`, at or past `p`, to the next turn of `p`: up to the last
member, then from 0 up to `p`. -/
theorem around (h : Rotation n i (mid ++ p :: rest)) (hPresent : i < n) (hPast : p ≤ i)
    (hMid : p ∉ mid) :
    ∃ k, n ≤ i + 1 + k ∧ mid = List.range' (i + 1) k ++ List.range p := by
  induction mid generalizing n i with
  | nil =>
    obtain ⟨m, hGrow, hNext, -⟩ := h.first_tick
    have hWrap : i + 1 = m := by
      -- without a wrap the index passes `p`
      by_contra hBelow
      rw [Nat.mod_eq_of_lt (by omega)] at hNext
      omega
    rw [hWrap, Nat.mod_self] at hNext
    refine ⟨0, by omega, ?_⟩
    rw [← hNext]
    rfl
  | cons j mid ih =>
    obtain ⟨m, hGrow, hNext, hRest⟩ := h.first_tick
    have hMid' : p ∉ mid := fun hMem => hMid (List.mem_cons_of_mem _ hMem)
    by_cases hWrap : i + 1 = m
    · rw [hWrap, Nat.mod_self] at hNext
      subst hNext
      have hNe : p ≠ 0 := fun hEq => hMid (by simp [hEq])
      have hLen : p = p - 1 + 1 := by omega
      refine ⟨0, by omega, ?_⟩
      rw [climb hRest (by omega) (by omega) hMid', List.range_eq_range', hLen, List.range'_succ]
      rfl
    · rw [Nat.mod_eq_of_lt (by omega)] at hNext
      subst hNext
      obtain ⟨k, hk, hShape⟩ := ih hRest (by omega) (by omega) hMid'
      refine ⟨k + 1, by omega, ?_⟩
      rw [hShape, List.range'_succ, List.cons_append]

/-- **The shape of a round.** What lies between a turn of `p` and its next. -/
theorem between_turns (h : Rotation n p (mid ++ p :: rest)) (hPresent : p < n) (hMid : p ∉ mid) :
    ∃ k, n ≤ p + 1 + k ∧ mid = List.range' (p + 1) k ++ List.range p :=
  around h hPresent (Nat.le_refl p) hMid

/-- **Exactly one turn each.** Every other member present at a turn of `p` has
exactly one turn before the next turn of `p`. -/
theorem count_between (h : Rotation n p (mid ++ p :: rest)) (hPresent : p < n) (hMid : p ∉ mid)
    {q : Nat} (hq : q < n) (hOther : q ≠ p) : mid.count q = 1 := by
  obtain ⟨k, hk, rfl⟩ := between_turns h hPresent hMid
  have hUp : (List.range' (p + 1) k).Nodup := List.nodup_range'
  have hDown : (List.range p).Nodup := List.nodup_range
  rw [List.count_append]
  rcases Nat.lt_or_ge q p with hBelow | hPast
  · have hNot : q ∉ List.range' (p + 1) k := by
      intro hMem
      have := (List.mem_range'_1.mp hMem).1
      omega
    rw [List.count_eq_zero_of_not_mem hNot,
      List.count_eq_one_of_mem hDown (List.mem_range.mpr hBelow)]
  · have hMem : q ∈ List.range' (p + 1) k := List.mem_range'_1.mpr ⟨by omega, by omega⟩
    have hNot : q ∉ List.range p := fun hIn => absurd (List.mem_range.mp hIn) (by omega)
    rw [List.count_eq_one_of_mem hUp hMem, List.count_eq_zero_of_not_mem hNot]

end Rotation

end Lib
