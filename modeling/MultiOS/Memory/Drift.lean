import MultiOS.Kernel.Steps
import MultiOS.Memory.Shortcut

/-!
# MultiOS — what the counter counts

`remainingMemory` is not the free memory. An accepted request lowers the
counter by what it asked for and the free memory by its whole block, a
deallocation raises both by the block. So the two part by the bytes each
accepted request leaves unused in its block, and nothing ever takes these
back (`counter_drift`): the counter of a kernel that has created processes
stands above the free memory by the unused bytes of all of them, the ones
terminated long ago included.
-/

namespace MultiOS

open Lib

namespace MemoryManager

/-- How far the counter stands above the free memory. -/
def drift (m : MemoryManager) : Int := m.remainingMemory - freeMemory m.memoryBlocks

/-- The block an allocation takes. -/
def granted (m : MemoryManager) (size : Int) : Option MemoryBlock :=
  if size ≤ m.remainingMemory then m.memoryBlocks.find? (MemoryBlock.accepts size) else none

/-- The bytes an allocation leaves unused in the block it takes. -/
def unused (m : MemoryManager) (size : Int) : Int :=
  match m.granted size with
  | some block => block.size - size
  | none => 0

/-- The block of an allocation is the one granted. -/
theorem Allocated.granted_eq {m m' : MemoryManager} {size : Int} {block : MemoryBlock}
    (h : m.Allocated size block m') : m.granted size = some block := by
  rw [granted, if_pos h.covered]
  exact updateFirst_find? h.blocks

/-- A refused request is granted none. -/
theorem granted_of_not_admits {m : MemoryManager} {size : Int} (h : ¬ m.Admits size) :
    m.granted size = none := by
  unfold granted
  by_cases hCov : size ≤ m.remainingMemory
  · rw [if_pos hCov, List.find?_eq_none]
    intro block hBlock hAccepts
    obtain ⟨hFree, hFits⟩ := MemoryBlock.accepts_iff.mp hAccepts
    exact h ⟨hCov, block, hBlock, hFree, hFits⟩
  · exact if_neg hCov

/-- An allocation drifts by what the block has more than was asked for. -/
theorem allocateMemory_drift (m : MemoryManager) (size : Int) :
    (m.allocateMemory size).2.drift = m.drift + m.unused size := by
  rcases m.allocateMemory_cases size with ⟨block, m', hEq, h⟩ | ⟨hNot, hEq⟩
  · have hFree := freeMemory_allocated h
    have hCounter := h.remaining
    have hUnused : m.unused size = block.size - size := by rw [unused, h.granted_eq]
    rw [hEq, hUnused]
    show m'.remainingMemory - freeMemory m'.memoryBlocks =
      m.remainingMemory - freeMemory m.memoryBlocks + (block.size - size)
    omega
  · rw [hEq, unused, granted_of_not_admits hNot, Int.add_zero]

/-- A release returns the whole block on both sides. -/
theorem deallocateMemory_drift (m : MemoryManager) (startAddress : Int) :
    (m.deallocateMemory startAddress).drift = m.drift := by
  rcases m.deallocateMemory_cases startAddress with ⟨block, h⟩ | ⟨-, hEq⟩
  · have hFree := freeMemory_deallocated h
    have hCounter := h.remaining
    unfold drift
    omega
  · rw [hEq]

end MemoryManager

/-- The bytes an event leaves unused: those of the block `createProcess` is
granted. A block at -1 would count as well, though `createProcess` takes its
address for a refusal; no kernel has one. -/
def KernelState.unused (k : KernelState) : TableEvent → Int
  | .createProcess input => k.memoryManager.unused input.requiredMemory
  | _ => 0

/-- The bytes left unused along a run, up to the first event that cannot be
taken. -/
def unusedAlong : KernelState → List TableEvent → Int
  | _, [] => 0
  | k, e :: es =>
    match k.tableStep e with
    | .error _ => 0
    | .ok k' => k.unused e + unusedAlong k' es

/-- So does the release of a process's memory. -/
theorem deallocateProcessMemory_drift (m : MemoryManager) (process : Process) :
    (KernelState.deallocateProcessMemory m process).drift = m.drift := by
  unfold KernelState.deallocateProcessMemory
  split
  · exact m.deallocateMemory_drift _
  · rfl

/-- `createProcess` does to the memory what its request does. -/
theorem createProcess_memory (k : KernelState) (input : NewProcess) :
    (k.createProcess input).memoryManager =
      (k.memoryManager.allocateMemory input.requiredMemory).2 := by
  unfold KernelState.createProcess
  dsimp only
  split <;> rfl

/-- The drift of one step. -/
theorem tableStep_drift {k k' : KernelState} {e : TableEvent} (h : TableStep k e k') :
    k'.memoryManager.drift = k.memoryManager.drift + k.unused e := by
  cases tableStep_effect h with
  | tick hSize => exact (Int.add_zero _).symm
  | createProcess input =>
    rw [createProcess_memory]
    exact k.memoryManager.allocateMemory_drift _
  | terminate hTarget => exact (Int.add_zero _).symm
  | processTermination hTarget =>
    exact (deallocateProcessMemory_drift _ _).trans (Int.add_zero _).symm

/--
**The counter against the free memory.** After any run of the process table
from any state, the counter stands above the free memory by what it did at the
start and by the bytes that every process created in the run left unused in
its block, whether or not the process is still there.
-/
theorem counter_drift {k t : KernelState} {es : List TableEvent} (hRun : Steps TableStep k es t) :
    t.memoryManager.remainingMemory - MemoryManager.freeMemory t.memoryManager.memoryBlocks =
      k.memoryManager.remainingMemory - MemoryManager.freeMemory k.memoryManager.memoryBlocks +
        unusedAlong k es := by
  show t.memoryManager.drift = k.memoryManager.drift + unusedAlong k es
  induction es generalizing k with
  | nil =>
    rw [steps_nil.mp hRun]
    exact (Int.add_zero _).symm
  | cons e es ih =>
    obtain ⟨u, hu, ht⟩ := hRun
    have hStep : k.tableStep e = .ok u := hu
    have hAlong : unusedAlong k (e :: es) = k.unused e + unusedAlong u es := by
      rw [unusedAlong, hStep]
    rw [hAlong, ih ht, tableStep_drift hu]
    omega

/-- One process of 100 bytes created and terminated, and one of 7 after it. -/
theorem counter_drift_two :
    ∃ t, Steps TableStep KernelState.boot
        [.createProcess ⟨"a", 1, 100⟩, .processTermination 2, .createProcess ⟨"b", 1, 7⟩] t ∧
      t.memoryManager.remainingMemory - MemoryManager.freeMemory t.memoryManager.memoryBlocks =
        (65536 - 100) + (65536 - 7) := by
  have hRun : Steps TableStep KernelState.boot
      [.createProcess ⟨"a", 1, 100⟩, .processTermination 2, .createProcess ⟨"b", 1, 7⟩] _ :=
    ⟨_, rfl, _, rfl, _, rfl, rfl⟩
  exact ⟨_, hRun, counter_drift hRun⟩

end MultiOS
