import Mathlib.Data.Finset.Lattice.Lemmas
import MultiOS.Lib.EveryMatch
import MultiOS.Model.Kernel

/-!
# MultiOS — giving back several blocks

One call of `deallocateMemory` frees at most one block: the first that is
allocated at the address. What a list of calls does might depend on their
order, and an address that comes twice might be paid for twice.

With distinct start addresses neither happens. The calls together do what the
*set* of their addresses says (`releaseAt`): every block allocated at one of
them becomes free, and the counter grows by the sizes of these blocks. One call
is the action of one address (`deallocateMemory_eq_releaseAt`), two actions are
the action of the union (`releaseAt_union`), and by induction on the list the
whole is the action of the set of its members (`deallocateAll_eq_releaseAt`).
-/

namespace MultiOS

open Lib

namespace MemoryBlock

/-- The block is allocated at one of the addresses. -/
def takenAmong (addresses : Finset Int) (block : MemoryBlock) : Bool :=
  !block.free && decide (block.startAddress ∈ addresses)

theorem takenAmong_empty (block : MemoryBlock) : block.takenAmong ∅ = false := by
  simp [takenAmong]

theorem takenAmong_singleton (startAddress : Int) :
    takenAmong {startAddress} = takenAt startAddress := by
  funext block
  simp [takenAmong, takenAt, Bool.beq_eq_decide_eq]

theorem takenAmong_union (s t : Finset Int) (block : MemoryBlock) :
    block.takenAmong (s ∪ t) = (block.takenAmong s || block.takenAmong t) := by
  simp [takenAmong, Bool.decide_or, Bool.and_or_distrib_left]

/-- A block that was given back is allocated nowhere. -/
theorem takenAmong_release (addresses : Finset Int) (block : MemoryBlock) :
    block.release.takenAmong addresses = false := by
  simp [takenAmong]

end MemoryBlock

namespace MemoryManager

/-- `deallocateMemory` called on each of the addresses in turn. -/
def deallocateAll (m : MemoryManager) (addresses : List Int) : MemoryManager :=
  addresses.foldl deallocateMemory m

/-- Every block allocated at one of the addresses becomes free, and the counter
grows by the sizes of these blocks. -/
def releaseAt (m : MemoryManager) (addresses : Finset Int) : MemoryManager :=
  { m with
    remainingMemory := m.remainingMemory +
      sumWhere (MemoryBlock.takenAmong addresses) MemoryBlock.size m.memoryBlocks
    memoryBlocks :=
      updateWhere (MemoryBlock.takenAmong addresses) MemoryBlock.release m.memoryBlocks }

-- ---------------------------------------------------------------------------
-- The action of a set of addresses
-- ---------------------------------------------------------------------------

theorem releaseAt_empty (m : MemoryManager) : m.releaseAt ∅ = m := by
  have hNone : ∀ block ∈ m.memoryBlocks, block.takenAmong ∅ = false :=
    fun block _ => block.takenAmong_empty
  unfold releaseAt
  rw [updateWhere_of_none hNone, sumWhere_of_none _ hNone, add_zero]

theorem releaseAt_union (m : MemoryManager) (s t : Finset Int) :
    (m.releaseAt s).releaseAt t = m.releaseAt (s ∪ t) := by
  have hDone : ∀ block : MemoryBlock, block.takenAmong s = true →
      block.release.takenAmong t = false := fun block _ => block.takenAmong_release t
  have hEither : MemoryBlock.takenAmong (s ∪ t) =
      fun block => block.takenAmong s || block.takenAmong t :=
    funext (MemoryBlock.takenAmong_union s t)
  unfold releaseAt
  rw [updateWhere_updateWhere hDone, add_assoc, sumWhere_updateWhere _ hDone, hEither]

theorem releaseAt_starts (m : MemoryManager) (addresses : Finset Int) :
    (m.releaseAt addresses).starts = m.starts :=
  updateWhere_map MemoryBlock.startAddress MemoryBlock.release_startAddress m.memoryBlocks

/-- With distinct start addresses, one call is the action of its address. -/
theorem deallocateMemory_eq_releaseAt {m : MemoryManager} (hStarts : m.starts.Nodup)
    (startAddress : Int) : m.deallocateMemory startAddress = m.releaseAt {startAddress} := by
  have hKey : ∀ block : MemoryBlock, block.takenAt startAddress = true →
      block.startAddress = startAddress := fun block h => (MemoryBlock.takenAt_iff.mp h).2
  unfold deallocateMemory releaseAt
  rw [MemoryBlock.takenAmong_singleton]
  split
  · next block blocks h =>
    rw [updateFirst_eq_updateWhere hStarts hKey h, sumWhere_of_updateFirst _ hStarts hKey h]
  · next h =>
    have hNone := updateFirst_eq_none.mp h
    rw [updateWhere_of_none hNone, sumWhere_of_none _ hNone, add_zero]

-- ---------------------------------------------------------------------------
-- Lists of calls
-- ---------------------------------------------------------------------------

/-- A list of calls is the action of the set of its addresses. -/
theorem deallocateAll_eq_releaseAt {m : MemoryManager} (hStarts : m.starts.Nodup)
    (addresses : List Int) : m.deallocateAll addresses = m.releaseAt addresses.toFinset := by
  induction addresses generalizing m with
  | nil => exact m.releaseAt_empty.symm
  | cons address addresses ih =>
    have hAfter : (m.releaseAt {address}).starts.Nodup := by
      rw [releaseAt_starts]
      exact hStarts
    calc m.deallocateAll (address :: addresses)
        = (m.deallocateMemory address).deallocateAll addresses := rfl
      _ = (m.releaseAt {address}).deallocateAll addresses := by
          rw [deallocateMemory_eq_releaseAt hStarts]
      _ = (m.releaseAt {address}).releaseAt addresses.toFinset := ih hAfter
      _ = m.releaseAt (address :: addresses).toFinset := by
          rw [releaseAt_union, List.toFinset_cons, Finset.insert_eq]

end MemoryManager

/-- Giving back the memory of several processes is the action of the set of
their start addresses; a process without memory adds nothing. -/
theorem deallocateProcessMemory_eq_releaseAt {m : MemoryManager} (hStarts : m.starts.Nodup)
    (processes : List Process) :
    processes.foldl KernelState.deallocateProcessMemory m =
      m.releaseAt (processes.filterMap Process.startAddress).toFinset := by
  rw [← MemoryManager.deallocateAll_eq_releaseAt hStarts]
  unfold MemoryManager.deallocateAll
  rw [List.foldl_filterMap]
  congr 1
  funext m process
  unfold KernelState.deallocateProcessMemory
  cases process.startAddress with
  | none => rfl
  | some startAddress => rfl

/--
**Deallocation is order-independent and safe to repeat.** For blocks with
distinct start addresses and two lists of addresses with the same members,
calling `deallocateMemory` on the addresses of either list ends in the same
state: every block allocated at one of the addresses is free, every other block
is as it was, and the counter has grown by the sizes of the blocks freed.
-/
theorem deallocation_order_independent {m : MemoryManager} (hStarts : m.starts.Nodup)
    {as bs : List Int} (hSame : ∀ address, address ∈ as ↔ address ∈ bs) :
    m.deallocateAll as = m.deallocateAll bs ∧
      m.deallocateAll as = m.releaseAt as.toFinset := by
  have hSets : as.toFinset = bs.toFinset := by
    ext address
    rw [List.mem_toFinset, List.mem_toFinset]
    exact hSame address
  refine ⟨?_, MemoryManager.deallocateAll_eq_releaseAt hStarts as⟩
  rw [MemoryManager.deallocateAll_eq_releaseAt hStarts,
    MemoryManager.deallocateAll_eq_releaseAt hStarts, hSets]

/-- Three blocks, one of them free. Both lists name it, one of the others, and
an address where no block starts; one list names an address twice. -/
theorem deallocation_order_independent_three :
    (⟨100, 0, [⟨0, 40, false⟩, ⟨40, 30, true⟩, ⟨70, 30, false⟩]⟩ : MemoryManager).deallocateAll
        [70, 5, 40, 70] =
      (⟨100, 0, [⟨0, 40, false⟩, ⟨40, 30, true⟩, ⟨70, 30, false⟩]⟩ : MemoryManager).deallocateAll
        [40, 70, 5] ∧
    (⟨100, 0, [⟨0, 40, false⟩, ⟨40, 30, true⟩, ⟨70, 30, false⟩]⟩ : MemoryManager).deallocateAll
        [70, 5, 40, 70] =
      (⟨100, 0, [⟨0, 40, false⟩, ⟨40, 30, true⟩, ⟨70, 30, false⟩]⟩ : MemoryManager).releaseAt
        [70, 5, 40, 70].toFinset :=
  deallocation_order_independent (by decide) (by simp; tauto)

end MultiOS
