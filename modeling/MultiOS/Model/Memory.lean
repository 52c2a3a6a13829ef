import MultiOS.Lib.FirstMatch

/-!
# MultiOS — the memory manager

`class MemoryManager` of `kernel.cpp`: a list of blocks with fixed bounds and
a `free` flag each, and a counter `remainingMemory`. `allocateMemory` hands
out the first free block that is large enough, whole, and lowers the counter
by the *requested* size; `deallocateMemory` frees the first allocated block at
an address and raises the counter by the *block's* size. Blocks are never
split or merged. `int` is modelled by `Int` (exact arithmetic).

Each operation has one specification lemma (`allocateMemory_cases`,
`deallocateMemory_cases`); proofs about runs use these and do not unfold the
two functions.
-/

namespace MultiOS

/-- `struct MemoryBlock`. -/
structure MemoryBlock where
  startAddress : Int
  size : Int
  free : Bool := true
  deriving DecidableEq, Repr

namespace MemoryBlock

/-- The test of the loop in `allocateMemory`. -/
def accepts (size : Int) (block : MemoryBlock) : Bool :=
  block.free && decide (block.size ≥ size)

/-- The test of the loop in `deallocateMemory`. -/
def takenAt (startAddress : Int) (block : MemoryBlock) : Bool :=
  !block.free && block.startAddress == startAddress

def take (block : MemoryBlock) : MemoryBlock := { block with free := false }

def release (block : MemoryBlock) : MemoryBlock := { block with free := true }

/-- The bounds of a block: its start address and its size. -/
def bounds (block : MemoryBlock) : Int × Int := (block.startAddress, block.size)

@[simp] theorem take_startAddress (b : MemoryBlock) : b.take.startAddress = b.startAddress := rfl
@[simp] theorem take_size (b : MemoryBlock) : b.take.size = b.size := rfl
@[simp] theorem take_bounds (b : MemoryBlock) : b.take.bounds = b.bounds := rfl
@[simp] theorem take_free (b : MemoryBlock) : b.take.free = false := rfl
@[simp] theorem release_startAddress (b : MemoryBlock) :
    b.release.startAddress = b.startAddress := rfl
@[simp] theorem release_size (b : MemoryBlock) : b.release.size = b.size := rfl
@[simp] theorem release_bounds (b : MemoryBlock) : b.release.bounds = b.bounds := rfl
@[simp] theorem release_free (b : MemoryBlock) : b.release.free = true := rfl

theorem accepts_iff {size : Int} {b : MemoryBlock} :
    b.accepts size = true ↔ b.free = true ∧ size ≤ b.size := by
  simp [accepts]

theorem takenAt_iff {startAddress : Int} {b : MemoryBlock} :
    b.takenAt startAddress = true ↔ b.free = false ∧ b.startAddress = startAddress := by
  simp [takenAt]

end MemoryBlock

structure MemoryManager where
  totalMemory : Int
  remainingMemory : Int
  memoryBlocks : List MemoryBlock
  deriving DecidableEq, Repr

namespace MemoryManager

/-- The constructor: one free block over the whole memory. -/
def new (initialMemorySize : Int) : MemoryManager where
  totalMemory := initialMemorySize
  remainingMemory := initialMemorySize
  memoryBlocks := [{ startAddress := 0, size := initialMemorySize }]

/-- The value `allocateMemory` returns when it fails. -/
def allocationFailed : Int := -1

/-- `allocateMemory`: the returned address and the manager afterwards. -/
def allocateMemory (m : MemoryManager) (size : Int) : Int × MemoryManager :=
  if size ≤ m.remainingMemory then
    match Lib.updateFirst (MemoryBlock.accepts size) MemoryBlock.take m.memoryBlocks with
    | some (block, blocks) =>
      (block.startAddress,
        { m with remainingMemory := m.remainingMemory - size, memoryBlocks := blocks })
    | none => (allocationFailed, m)
  else (allocationFailed, m)

def deallocateMemory (m : MemoryManager) (startAddress : Int) : MemoryManager :=
  match Lib.updateFirst (MemoryBlock.takenAt startAddress) MemoryBlock.release
      m.memoryBlocks with
  | some (block, blocks) =>
    { m with remainingMemory := m.remainingMemory + block.size, memoryBlocks := blocks }
  | none => m

-- ---------------------------------------------------------------------------
-- Layout: what no operation changes
-- ---------------------------------------------------------------------------

/-- The bounds of the blocks, in list order. -/
def layout (m : MemoryManager) : List (Int × Int) := m.memoryBlocks.map MemoryBlock.bounds

/-- The start addresses of the blocks, in list order. -/
def starts (m : MemoryManager) : List Int := m.memoryBlocks.map MemoryBlock.startAddress

/-- A request is admitted when the counter covers it and some free block is
large enough. -/
def Admits (m : MemoryManager) (size : Int) : Prop :=
  size ≤ m.remainingMemory ∧ ∃ block ∈ m.memoryBlocks, block.free = true ∧ size ≤ block.size

instance (m : MemoryManager) (size : Int) : Decidable (m.Admits size) :=
  inferInstanceAs (Decidable (_ ∧ _))

-- ---------------------------------------------------------------------------
-- Specification of the two operations
-- ---------------------------------------------------------------------------

/-- What an allocation that finds a block does: `block` was free and large
enough, no block before it was, and only its flag and the counter change. -/
structure Allocated (m : MemoryManager) (size : Int) (block : MemoryBlock)
    (m' : MemoryManager) : Prop where
  covered : size ≤ m.remainingMemory
  mem : block ∈ m.memoryBlocks
  wasFree : block.free = true
  fits : size ≤ block.size
  total : m'.totalMemory = m.totalMemory
  remaining : m'.remainingMemory = m.remainingMemory - size
  layout_eq : m'.layout = m.layout
  blocks : Lib.updateFirst (MemoryBlock.accepts size) MemoryBlock.take m.memoryBlocks =
    some (block, m'.memoryBlocks)

/-- What a deallocation that finds a block does: `block` was allocated at the
address, and only its flag and the counter change. -/
structure Deallocated (m : MemoryManager) (startAddress : Int) (block : MemoryBlock)
    (m' : MemoryManager) : Prop where
  mem : block ∈ m.memoryBlocks
  wasTaken : block.free = false
  start_eq : block.startAddress = startAddress
  total : m'.totalMemory = m.totalMemory
  remaining : m'.remainingMemory = m.remainingMemory + block.size
  layout_eq : m'.layout = m.layout
  blocks : Lib.updateFirst (MemoryBlock.takenAt startAddress) MemoryBlock.release
    m.memoryBlocks = some (block, m'.memoryBlocks)

/-- `allocateMemory` finds a block and returns its start address, or refuses
a request that is not admitted and changes nothing. -/
theorem allocateMemory_cases (m : MemoryManager) (size : Int) :
    (∃ block m', m.allocateMemory size = (block.startAddress, m') ∧ m.Allocated size block m') ∨
    (¬ m.Admits size ∧ m.allocateMemory size = (allocationFailed, m)) := by
  unfold allocateMemory
  by_cases hCov : size ≤ m.remainingMemory
  · rw [if_pos hCov]
    split
    · next block blocks h =>
      left
      obtain ⟨hMem, hp⟩ := Lib.updateFirst_mem h
      rw [MemoryBlock.accepts_iff] at hp
      exact ⟨block, _, rfl, hCov, hMem, hp.1, hp.2, rfl, rfl,
        Lib.updateFirst_map MemoryBlock.bounds MemoryBlock.take_bounds h, h⟩
    · next h =>
      right
      refine ⟨?_, rfl⟩
      rintro ⟨-, block, hMem, hFree, hFits⟩
      have hNot := Lib.updateFirst_eq_none.mp h block hMem
      rw [MemoryBlock.accepts_iff.mpr ⟨hFree, hFits⟩] at hNot
      simp at hNot
  · rw [if_neg hCov]
    exact Or.inr ⟨fun h => hCov h.1, rfl⟩

/-- `deallocateMemory` frees a block allocated at the address, or finds none
and changes nothing. -/
theorem deallocateMemory_cases (m : MemoryManager) (startAddress : Int) :
    (∃ block, m.Deallocated startAddress block (m.deallocateMemory startAddress)) ∨
    ((∀ block ∈ m.memoryBlocks, block.startAddress = startAddress → block.free = true) ∧
      m.deallocateMemory startAddress = m) := by
  unfold deallocateMemory
  split
  · next block blocks h =>
    left
    obtain ⟨hMem, hp⟩ := Lib.updateFirst_mem h
    rw [MemoryBlock.takenAt_iff] at hp
    exact ⟨block, hMem, hp.1, hp.2, rfl, rfl,
      Lib.updateFirst_map MemoryBlock.bounds MemoryBlock.release_bounds h, h⟩
  · next h =>
    right
    refine ⟨fun block hMem hStart => ?_, rfl⟩
    have hNot := Lib.updateFirst_eq_none.mp h block hMem
    by_contra hTaken
    rw [Bool.not_eq_true] at hTaken
    rw [MemoryBlock.takenAt_iff.mpr ⟨hTaken, hStart⟩] at hNot
    simp at hNot

theorem Allocated.admits {m m' : MemoryManager} {size : Int} {block : MemoryBlock}
    (h : m.Allocated size block m') : m.Admits size :=
  ⟨h.covered, block, h.mem, h.wasFree, h.fits⟩

/-- Both operations keep the layout. -/
theorem allocateMemory_layout (m : MemoryManager) (size : Int) :
    (m.allocateMemory size).2.layout = m.layout := by
  rcases m.allocateMemory_cases size with ⟨block, m', hEq, h⟩ | ⟨-, hEq⟩
  · rw [hEq]
    exact h.layout_eq
  · rw [hEq]

theorem deallocateMemory_layout (m : MemoryManager) (startAddress : Int) :
    (m.deallocateMemory startAddress).layout = m.layout := by
  rcases m.deallocateMemory_cases startAddress with ⟨block, h⟩ | ⟨-, hEq⟩
  · exact h.layout_eq
  · rw [hEq]

/-- Both operations keep the size of the memory. -/
theorem allocateMemory_total (m : MemoryManager) (size : Int) :
    (m.allocateMemory size).2.totalMemory = m.totalMemory := by
  rcases m.allocateMemory_cases size with ⟨block, m', hEq, h⟩ | ⟨-, hEq⟩
  · rw [hEq]
    exact h.total
  · rw [hEq]

theorem deallocateMemory_total (m : MemoryManager) (startAddress : Int) :
    (m.deallocateMemory startAddress).totalMemory = m.totalMemory := by
  rcases m.deallocateMemory_cases startAddress with ⟨block, h⟩ | ⟨-, hEq⟩
  · exact h.total
  · rw [hEq]

-- ---------------------------------------------------------------------------
-- With distinct start addresses
-- ---------------------------------------------------------------------------

/-- After an allocation the blocks are the one found, now taken, and the
others as they were. -/
theorem Allocated.mem_iff {m m' : MemoryManager} {size : Int} {block : MemoryBlock}
    (h : m.Allocated size block m') (hStarts : m.starts.Nodup) {b : MemoryBlock} :
    b ∈ m'.memoryBlocks ↔ b = block.take ∨
      (b ∈ m.memoryBlocks ∧ b.startAddress ≠ block.startAddress) :=
  Lib.mem_of_updateFirst hStarts h.blocks

/-- After a deallocation the blocks are the one found, now free, and the
others as they were. -/
theorem Deallocated.mem_iff {m m' : MemoryManager} {startAddress : Int} {block : MemoryBlock}
    (h : m.Deallocated startAddress block m') (hStarts : m.starts.Nodup) {b : MemoryBlock} :
    b ∈ m'.memoryBlocks ↔ b = block.release ∨
      (b ∈ m.memoryBlocks ∧ b.startAddress ≠ block.startAddress) :=
  Lib.mem_of_updateFirst hStarts h.blocks

/-- A start address names one block. -/
theorem block_unique {m : MemoryManager} (hStarts : m.starts.Nodup) {b c : MemoryBlock}
    (hb : b ∈ m.memoryBlocks) (hc : c ∈ m.memoryBlocks)
    (hEq : b.startAddress = c.startAddress) : b = c :=
  List.inj_on_of_nodup_map hStarts hb hc hEq

end MemoryManager

end MultiOS
