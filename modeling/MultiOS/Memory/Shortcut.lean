import Mathlib.Algebra.Ring.Int.Defs
import MultiOS.Memory.Accounting

/-!
# MultiOS — the counter test is redundant

`allocateMemory` looks at the blocks only if `size <= remainingMemory`. The
counter is not the free memory: an allocation lowers it by the request, a
deallocation raises it by the block. But it never falls below the free memory
(`Covers`): an accepted request is at most the size of its block, which leaves
the free memory, and a freed block adds the same to both. A block that could
take a request is free, so the counter covers the request as well, and the
test never decides anything (`counter_test_redundant`).
-/

namespace MultiOS

open Lib

namespace MemoryManager

/-- `allocateMemory` without its test of the counter. -/
def allocateFirstFit (m : MemoryManager) (size : Int) : Int × MemoryManager :=
  match updateFirst (MemoryBlock.accepts size) MemoryBlock.take m.memoryBlocks with
  | some (block, blocks) =>
    (block.startAddress,
      { m with remainingMemory := m.remainingMemory - size, memoryBlocks := blocks })
  | none => (allocationFailed, m)

/-- What a block adds to the free memory. -/
def freeBytes (block : MemoryBlock) : Int := if block.free then block.size else 0

/-- The sum of the sizes of the free blocks. -/
def freeMemory (blocks : List MemoryBlock) : Int := (blocks.map freeBytes).sum

def call (m : MemoryManager) : MemoryCall → MemoryManager
  | .allocate size => (m.allocateMemory size).2
  | .deallocate address => m.deallocateMemory address

def Step (m : MemoryManager) (c : MemoryCall) (m' : MemoryManager) : Prop := m' = m.call c

/-- No block has a negative size, and the counter is at least the free
memory. -/
structure Covers (m : MemoryManager) : Prop where
  sizes : ∀ block ∈ m.memoryBlocks, 0 ≤ block.size
  counter : freeMemory m.memoryBlocks ≤ m.remainingMemory

-- ---------------------------------------------------------------------------
-- The free memory
-- ---------------------------------------------------------------------------

theorem freeMemory_split (pre post : List MemoryBlock) (block : MemoryBlock) :
    freeMemory (pre ++ block :: post) = freeMemory (pre ++ post) + freeBytes block := by
  simp only [freeMemory, List.map_append, List.map_cons, List.sum_append, List.sum_cons]
  omega

theorem freeMemory_nonneg {blocks : List MemoryBlock} (hSizes : ∀ block ∈ blocks, 0 ≤ block.size) :
    0 ≤ freeMemory blocks := by
  induction blocks with
  | nil => exact Int.le_refl 0
  | cons block blocks ih =>
    have hRest := ih fun b hb => hSizes b (List.mem_cons_of_mem _ hb)
    have hSize := hSizes block List.mem_cons_self
    have hBytes : 0 ≤ freeBytes block := by
      unfold freeBytes
      split
      · exact hSize
      · exact Int.le_refl 0
    show 0 ≤ freeBytes block + freeMemory blocks
    omega

/-- A free block is part of the free memory. -/
theorem size_le_freeMemory {blocks : List MemoryBlock} {block : MemoryBlock}
    (hSizes : ∀ block ∈ blocks, 0 ≤ block.size) (hMem : block ∈ blocks)
    (hFree : block.free = true) : block.size ≤ freeMemory blocks := by
  obtain ⟨pre, post, rfl⟩ := List.append_of_mem hMem
  have hRest : 0 ≤ freeMemory (pre ++ post) := by
    refine freeMemory_nonneg fun b hb => hSizes b ?_
    rcases List.mem_append.mp hb with hb | hb
    · exact List.mem_append_left _ hb
    · exact List.mem_append_right _ (List.mem_cons_of_mem _ hb)
  have hBytes : freeBytes block = block.size := if_pos hFree
  rw [freeMemory_split]
  omega

/-- An update of one block changes the free memory by what that block adds. -/
theorem freeMemory_updateFirst {p : MemoryBlock → Bool} {f : MemoryBlock → MemoryBlock}
    {blocks blocks' : List MemoryBlock} {block : MemoryBlock}
    (h : updateFirst p f blocks = some (block, blocks')) :
    freeMemory blocks' + freeBytes block = freeMemory blocks + freeBytes (f block) := by
  obtain ⟨pre, post, rfl, -, -, rfl⟩ := updateFirst_eq_some.mp h
  rw [freeMemory_split, freeMemory_split]
  omega

theorem freeMemory_allocated {m m' : MemoryManager} {size : Int} {block : MemoryBlock}
    (h : m.Allocated size block m') :
    freeMemory m'.memoryBlocks = freeMemory m.memoryBlocks - block.size := by
  have hUpdate := freeMemory_updateFirst h.blocks
  have hBytes : freeBytes block = block.size := if_pos h.wasFree
  have hTaken : freeBytes block.take = 0 := rfl
  omega

theorem freeMemory_deallocated {m m' : MemoryManager} {address : Int} {block : MemoryBlock}
    (h : m.Deallocated address block m') :
    freeMemory m'.memoryBlocks = freeMemory m.memoryBlocks + block.size := by
  have hUpdate := freeMemory_updateFirst h.blocks
  have hBytes : freeBytes block = 0 := if_neg (by rw [h.wasTaken]; simp)
  have hFreed : freeBytes block.release = block.size := rfl
  omega

/-- The sizes of the blocks are part of the layout. -/
theorem sizes_of_layout {m m' : MemoryManager} (hLayout : m'.layout = m.layout)
    (hSizes : ∀ block ∈ m.memoryBlocks, 0 ≤ block.size) :
    ∀ block ∈ m'.memoryBlocks, 0 ≤ block.size := by
  intro block hBlock
  have hMem : block.bounds ∈ m.layout := hLayout ▸ List.mem_map_of_mem hBlock
  obtain ⟨b, hb, hBounds⟩ := List.mem_map.mp hMem
  have hSize : b.size = block.size := congrArg Prod.snd hBounds
  rw [← hSize]
  exact hSizes b hb

-- ---------------------------------------------------------------------------
-- Steps
-- ---------------------------------------------------------------------------

theorem Covers.step {m : MemoryManager} (h : m.Covers) (c : MemoryCall) : (m.call c).Covers := by
  have hCounter := h.counter
  cases c with
  | allocate size =>
    refine ⟨sizes_of_layout (m.allocateMemory_layout size) h.sizes, ?_⟩
    rcases m.allocateMemory_cases size with ⟨block, m', hEq, hAlloc⟩ | ⟨-, hEq⟩
    · have hFits := hAlloc.fits
      have hFree := freeMemory_allocated hAlloc
      have hRemaining := hAlloc.remaining
      rw [call, hEq]
      show freeMemory m'.memoryBlocks ≤ m'.remainingMemory
      omega
    · rw [call, hEq]
      exact hCounter
  | deallocate address =>
    refine ⟨sizes_of_layout (m.deallocateMemory_layout address) h.sizes, ?_⟩
    rcases m.deallocateMemory_cases address with ⟨block, hDealloc⟩ | ⟨-, hEq⟩
    · have hFree := freeMemory_deallocated hDealloc
      have hRemaining := hDealloc.remaining
      rw [call]
      omega
    · rw [call, hEq]
      exact hCounter

/-- The test of the counter fails only where no block accepts the request. -/
theorem Covers.allocateMemory_eq {m : MemoryManager} (h : m.Covers) (size : Int) :
    m.allocateMemory size = m.allocateFirstFit size := by
  unfold allocateMemory
  by_cases hCov : size ≤ m.remainingMemory
  · rw [if_pos hCov]
    rfl
  · rw [if_neg hCov]
    have hNone : updateFirst (MemoryBlock.accepts size) MemoryBlock.take m.memoryBlocks = none := by
      rw [updateFirst_eq_none]
      intro block hBlock
      by_contra hAccepts
      obtain ⟨hFree, hFits⟩ := MemoryBlock.accepts_iff.mp (Bool.not_eq_false _ ▸ hAccepts)
      have hSize := size_le_freeMemory h.sizes hBlock hFree
      have hCounter := h.counter
      omega
    rw [allocateFirstFit, hNone]

end MemoryManager

/--
**The counter test is redundant.** From a manager whose blocks have no
negative sizes and whose counter is the free memory, in every state that a run
of allocations of any size and deallocations of any address passes through,
`allocateMemory` answers every request, and leaves the manager, as first fit
over the blocks alone would.
-/
theorem counter_test_redundant {m : MemoryManager}
    (hSizes : ∀ block ∈ m.memoryBlocks, 0 ≤ block.size)
    (hCounter : m.remainingMemory = MemoryManager.freeMemory m.memoryBlocks)
    (calls : List MemoryCall) :
    Always MemoryManager.Step m calls fun m' =>
      ∀ size, m'.allocateMemory size = m'.allocateFirstFit size := by
  have hCovers : Always MemoryManager.Step m calls MemoryManager.Covers := by
    apply always_of_inv
    · exact ⟨hSizes, Int.le_of_eq hCounter.symm⟩
    · rintro t c u - h rfl
      exact h.step c
  exact hCovers.imp fun _ h => h.allocateMemory_eq

/-- Three blocks, one of them taken, and a run that uses part of a block. -/
theorem counter_test_redundant_three :
    Always MemoryManager.Step ⟨100, 70, [⟨0, 40, true⟩, ⟨40, 30, false⟩, ⟨70, 30, true⟩]⟩
      [.allocate 10, .deallocate 0, .allocate (-5), .allocate 90] fun m =>
        ∀ size, m.allocateMemory size = m.allocateFirstFit size :=
  counter_test_redundant (by decide) (by decide) _

end MultiOS
