import Mathlib.Data.List.Basic

/-!
# Extents

An extent is a run of consecutive blocks of a device. A list of extents covers
a sequence of blocks; two lists that cover the same sequence are two ways to
read the same data, in fewer or more transfers.

`layOut` puts the elements of a list into memory one after the other, at a
fixed width each: what a transfer of an extent to an address leaves there.
-/

namespace Lib

variable {δ α β : Type*}

-- ---------------------------------------------------------------------------
-- Extents and what they cover
-- ---------------------------------------------------------------------------

/-- `count` blocks of `device`, from block `first` on. -/
structure Extent (δ : Type*) where
  device : δ
  first : Nat
  count : Nat
  deriving DecidableEq, Repr

/-- The blocks of an extent, in order. -/
def Extent.blocks (e : Extent δ) : List (δ × Nat) :=
  (List.range' e.first e.count).map (Prod.mk e.device)

@[simp] theorem Extent.length_blocks (e : Extent δ) : e.blocks.length = e.count := by
  simp [Extent.blocks]

theorem Extent.mem_blocks {e : Extent δ} {d : δ} {n : Nat} :
    (d, n) ∈ e.blocks ↔ d = e.device ∧ e.first ≤ n ∧ n < e.first + e.count := by
  unfold Extent.blocks
  rw [List.mem_map]
  refine ⟨?_, ?_⟩
  · rintro ⟨m, hm, hEq⟩
    rw [List.mem_range'_1] at hm
    obtain ⟨rfl, rfl⟩ := Prod.mk.inj hEq
    exact ⟨rfl, hm⟩
  · rintro ⟨rfl, hn⟩
    exact ⟨n, List.mem_range'_1.mpr hn, rfl⟩

/-- A single block. -/
theorem Extent.blocks_one (d : δ) (n : Nat) : (Extent.mk d n 1).blocks = [(d, n)] := rfl

/-- An extent read in two parts. -/
theorem Extent.blocks_add (d : δ) (first n m : Nat) :
    (Extent.mk d first (n + m)).blocks =
      (Extent.mk d first n).blocks ++ (Extent.mk d (first + n) m).blocks := by
  unfold Extent.blocks
  rw [← List.map_append, List.range'_append_1]

/-- The blocks a list of extents covers, in order. -/
def cover (es : List (Extent δ)) : List (δ × Nat) := es.flatMap Extent.blocks

@[simp] theorem cover_nil : cover ([] : List (Extent δ)) = [] := rfl

@[simp] theorem cover_cons (e : Extent δ) (es : List (Extent δ)) :
    cover (e :: es) = e.blocks ++ cover es := by
  simp [cover]

-- ---------------------------------------------------------------------------
-- Laying out in memory
-- ---------------------------------------------------------------------------

/-- The elements with the addresses they are put at. -/
def layOut (width : Nat) : Nat → List α → List (Nat × α)
  | _, [] => []
  | address, x :: xs => (address, x) :: layOut width (address + width) xs

@[simp] theorem length_layOut (width address : Nat) (xs : List α) :
    (layOut width address xs).length = xs.length := by
  induction xs generalizing address with
  | nil => rfl
  | cons x xs ih => rw [layOut, List.length_cons, ih, List.length_cons]

theorem layOut_append (width address : Nat) (xs ys : List α) :
    layOut width address (xs ++ ys) =
      layOut width address xs ++ layOut width (address + width * xs.length) ys := by
  induction xs generalizing address with
  | nil => rfl
  | cons x xs ih =>
    have hNext : address + width + width * xs.length = address + width * (x :: xs).length := by
      rw [List.length_cons, Nat.mul_succ]
      omega
    rw [List.cons_append, layOut, layOut, ih, hNext, List.cons_append]

theorem layOut_map (width address : Nat) (f : α → β) (xs : List α) :
    (layOut width address xs).map (Prod.map id f) = layOut width address (xs.map f) := by
  induction xs generalizing address with
  | nil => rfl
  | cons x xs ih => rw [layOut, List.map_cons, ih, List.map_cons, layOut, Prod.map_apply, id]

/-- A layout is within its bounds. -/
theorem bounds_of_mem_layOut {width address : Nat} {p : Nat × α} {xs : List α}
    (h : p ∈ layOut width address xs) :
    address ≤ p.1 ∧ p.1 + width ≤ address + width * xs.length := by
  induction xs generalizing address with
  | nil => cases h
  | cons x xs ih =>
    rw [List.length_cons, Nat.mul_succ]
    rcases List.mem_cons.mp h with rfl | h
    · exact ⟨Nat.le_refl address, by omega⟩
    · have hTail := ih h
      omega

/-- A layout that is moved as a whole. -/
theorem layOut_move (width base offset destination : Nat) (xs : List α) :
    (layOut width (base + offset) xs).map (fun p => (p.1 - base + destination, p.2)) =
      layOut width (destination + offset) xs := by
  induction xs generalizing offset with
  | nil => rfl
  | cons x xs ih =>
    have hHere : base + offset - base + destination = destination + offset := by omega
    rw [layOut, List.map_cons, Nat.add_assoc, ih, layOut, hHere, Nat.add_assoc]

end Lib
