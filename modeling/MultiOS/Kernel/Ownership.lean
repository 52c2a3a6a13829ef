import MultiOS.Lib.DistinctKeys
import MultiOS.Kernel.Steps

/-!
# MultiOS — who owns which block

The relation between the process table and the block list that every
operation on either has to keep (`Discipline`): the blocks are an arena of
disjoint regions, each process created with a start address has the block at
that address, allocated and at least as large as it asked for, and no two
processes were created with one address.

Every event of the process table keeps the discipline (`Discipline.step`),
whichever process a termination is run on and whether or not it gives the
memory back. Two consequences:

* `memory_isolation` — no address belongs to two processes, and every address
  a process holds lies inside the memory;
* the block a process gives back is its own, so the other processes keep
  theirs.
-/

namespace MultiOS

open Lib

-- ---------------------------------------------------------------------------
-- Arenas
-- ---------------------------------------------------------------------------

/-- Blocks of positive size, pairwise disjoint, inside `[0, total)`. -/
structure Arena (blocks : List MemoryBlock) (total : Int) : Prop where
  positive : ∀ b ∈ blocks, 0 < b.size
  apart : blocks.Pairwise fun b c =>
    b.startAddress + b.size ≤ c.startAddress ∨ c.startAddress + c.size ≤ b.startAddress
  inside : ∀ b ∈ blocks, 0 ≤ b.startAddress ∧ b.startAddress + b.size ≤ total

/-- A manager whose blocks are an arena. -/
def MemoryManager.IsArena (m : MemoryManager) : Prop := Arena m.memoryBlocks m.totalMemory

/-- Being an arena is a matter of the layout. -/
theorem Arena.of_bounds {bs cs : List MemoryBlock} {total : Int} (h : Arena bs total)
    (hEq : cs.map MemoryBlock.bounds = bs.map MemoryBlock.bounds) : Arena cs total := by
  have hMem : ∀ c ∈ cs, ∃ b ∈ bs, b.bounds = c.bounds := by
    intro c hc
    have hIn : c.bounds ∈ bs.map MemoryBlock.bounds := hEq ▸ List.mem_map_of_mem hc
    exact List.mem_map.mp hIn
  refine ⟨?_, ?_, ?_⟩
  · intro c hc
    obtain ⟨b, hb, hbc⟩ := hMem c hc
    obtain ⟨-, hSize⟩ := Prod.mk.inj hbc
    exact hSize ▸ h.positive b hb
  · have hApart : (bs.map MemoryBlock.bounds).Pairwise fun p q =>
        p.1 + p.2 ≤ q.1 ∨ q.1 + q.2 ≤ p.1 := List.pairwise_map.mpr h.apart
    rw [← hEq] at hApart
    exact List.pairwise_map.mp hApart
  · intro c hc
    obtain ⟨b, hb, hbc⟩ := hMem c hc
    obtain ⟨hStart, hSize⟩ := Prod.mk.inj hbc
    have hb' := h.inside b hb
    omega

theorem MemoryManager.IsArena.starts_nodup {m : MemoryManager} (h : m.IsArena) :
    m.starts.Nodup := by
  have hPair : m.memoryBlocks.Pairwise fun b c => b.startAddress ≠ c.startAddress := by
    refine h.apart.imp_of_mem ?_
    intro b c hb hc hApart hEq
    have hbPos := h.positive b hb
    have hcPos := h.positive c hc
    omega
  exact List.pairwise_map.mpr hPair

/-- No block of an arena starts at the address that signals failure. -/
theorem MemoryManager.IsArena.starts_ne_failed {m : MemoryManager} (h : m.IsArena) :
    MemoryManager.allocationFailed ∉ m.starts := by
  intro hMem
  obtain ⟨b, hb, hEq⟩ := List.mem_map.mp hMem
  have hb' := h.inside b hb
  have hFail : MemoryManager.allocationFailed = -1 := rfl
  omega

theorem MemoryManager.IsArena.of_layout {m m' : MemoryManager} (h : m.IsArena)
    (hLayout : m'.layout = m.layout) (hTotal : m'.totalMemory = m.totalMemory) : m'.IsArena := by
  unfold MemoryManager.IsArena at *
  rw [hTotal]
  exact h.of_bounds hLayout

/-- Two blocks of an arena that share an address are the same block. -/
theorem MemoryManager.IsArena.eq_of_common {m : MemoryManager} (h : m.IsArena)
    {b c : MemoryBlock} (hb : b ∈ m.memoryBlocks) (hc : c ∈ m.memoryBlocks) {x : Int}
    (hbx : b.startAddress ≤ x ∧ x < b.startAddress + b.size)
    (hcx : c.startAddress ≤ x ∧ x < c.startAddress + c.size) : b = c := by
  obtain ⟨i, hi, rfl⟩ := List.mem_iff_getElem.mp hb
  obtain ⟨j, hj, rfl⟩ := List.mem_iff_getElem.mp hc
  have hPair := List.pairwise_iff_getElem.mp h.apart
  rcases Nat.lt_trichotomy i j with hlt | heq | hgt
  · have hApart := hPair i j hi hj hlt
    omega
  · subst heq
    rfl
  · have hApart := hPair j i hj hi hgt
    omega

/-- The constructor's block is an arena for a positive size. -/
theorem MemoryManager.new_isArena {n : Int} (hn : 0 < n) : (MemoryManager.new n).IsArena := by
  refine ⟨?_, List.pairwise_singleton _ _, ?_⟩
  · simp [MemoryManager.new, hn]
  · simp [MemoryManager.new]

-- ---------------------------------------------------------------------------
-- The discipline
-- ---------------------------------------------------------------------------

/-- The process at the block it was created on. -/
structure Process.Housed (process : Process) (m : MemoryManager) (start : Int) : Prop where
  block : ∃ b ∈ m.memoryBlocks, b.startAddress = start ∧ b.free = false ∧
    ∀ size, process.memorySize = some size → size ≤ b.size

structure Discipline (k : KernelState) : Prop where
  arena : k.memoryManager.IsArena
  housed : ∀ p ∈ k.processes, ∀ start, p.startAddress = some start →
    p.Housed k.memoryManager start
  owners : DistinctKeys Process.startAddress k.processes

/-- A table of processes without memory over an arena. -/
theorem Discipline.start {k : KernelState} (hArena : k.memoryManager.IsArena)
    (hNone : ∀ p ∈ k.processes, p.startAddress = none) : Discipline k where
  arena := hArena
  housed := by
    intro p hp start hStart
    rw [hNone p hp] at hStart
    simp at hStart
  owners := distinctKeys_of_none hNone

/-- A free block is owned by no process. -/
theorem Discipline.free_not_owned {k : KernelState} (h : Discipline k) {b : MemoryBlock}
    (hb : b ∈ k.memoryManager.memoryBlocks) (hFree : b.free = true) :
    ∀ p ∈ k.processes, p.startAddress ≠ some b.startAddress := by
  intro p hp hStart
  obtain ⟨c, hc, hEq, hTaken, -⟩ := (h.housed p hp _ hStart).block
  have hbc := MemoryManager.block_unique h.arena.starts_nodup hc hb hEq
  rw [hbc, hFree] at hTaken
  simp at hTaken

/-- A process keeps its block while another block is allocated. -/
theorem Process.Housed.allocate {p : Process} {m m' : MemoryManager} {size start : Int}
    {block : MemoryBlock} (h : p.Housed m start) (hStarts : m.starts.Nodup)
    (hAlloc : m.Allocated size block m') : p.Housed m' start := by
  obtain ⟨b, hb, hEq, hTaken, hSize⟩ := h.block
  refine ⟨b, (hAlloc.mem_iff hStarts).mpr (Or.inr ⟨hb, ?_⟩), hEq, hTaken, hSize⟩
  intro hSame
  have hbb := MemoryManager.block_unique hStarts hb hAlloc.mem hSame
  rw [hbb, hAlloc.wasFree] at hTaken
  simp at hTaken

/-- A process keeps its block while the block at another address is freed. -/
theorem Process.Housed.deallocate {p : Process} {m : MemoryManager} {address start : Int}
    (h : p.Housed m start) (hStarts : m.starts.Nodup) (hOther : start ≠ address) :
    p.Housed (m.deallocateMemory address) start := by
  rcases m.deallocateMemory_cases address with ⟨block, hDealloc⟩ | ⟨-, hSame⟩
  · obtain ⟨b, hb, hEq, hTaken, hSize⟩ := h.block
    refine ⟨b, (hDealloc.mem_iff hStarts).mpr (Or.inr ⟨hb, ?_⟩), hEq, hTaken, hSize⟩
    rw [hEq, hDealloc.start_eq]
    exact hOther
  · rw [hSame]
    exact h

theorem Discipline.createProcess {k : KernelState} (h : Discipline k) (input : NewProcess) :
    Discipline (k.createProcess input) := by
  rcases createProcess_cases k input h.arena.starts_ne_failed with
    ⟨block, m', hAlloc, hEq⟩ | ⟨-, hEq⟩
  · rw [hEq]
    refine ⟨h.arena.of_layout hAlloc.layout_eq hAlloc.total, ?_, ?_⟩
    · intro p hp start hStart
      rcases List.mem_append.mp hp with hOld | hNew
      · exact (h.housed p hOld start hStart).allocate h.arena.starts_nodup hAlloc
      · obtain rfl := List.mem_singleton.mp hNew
        obtain rfl := Option.some.inj hStart
        have hTake := (hAlloc.mem_iff h.arena.starts_nodup).mpr (Or.inl rfl)
        refine ⟨block.take, hTake, rfl, rfl, ?_⟩
        intro size hSize
        obtain rfl := Option.some.inj hSize
        exact hAlloc.fits
    · refine h.owners.append_one ?_
      intro p hp start hStart
      obtain rfl := Option.some.inj hStart
      exact h.free_not_owned hAlloc.mem hAlloc.wasFree p hp
  · rw [hEq]
    exact h

/-- Removing a process and keeping its block allocated. -/
theorem Discipline.erase {k : KernelState} (h : Discipline k) (target active : Nat) :
    Discipline
      { k with processes := k.processes.eraseIdx target, activeProcessIndex := active } where
  arena := h.arena
  housed := fun p hp => h.housed p (List.mem_of_mem_eraseIdx hp)
  owners := h.owners.eraseIdx target

/-- Removing a process and freeing its block. -/
theorem Discipline.release {k : KernelState} (h : Discipline k) {target : Nat}
    {process : Process} (hAt : k.processes[target]? = some process) (active : Nat) :
    Discipline
      { k with processes := k.processes.eraseIdx target
               activeProcessIndex := active
               memoryManager := KernelState.deallocateProcessMemory k.memoryManager process } := by
  unfold KernelState.deallocateProcessMemory
  cases hStart : process.startAddress with
  | none => exact h.erase target active
  | some address =>
    refine ⟨?_, ?_, h.owners.eraseIdx target⟩
    · exact h.arena.of_layout (MemoryManager.deallocateMemory_layout _ _)
        (MemoryManager.deallocateMemory_total _ _)
    · intro p hp start hp'
      -- the process removed was the only one created with its address
      have hOther : start ≠ address := by
        rintro rfl
        exact h.owners.not_mem_eraseIdx hAt hStart p hp hp'
      exact (h.housed p (List.mem_of_mem_eraseIdx hp) start hp').deallocate
        h.arena.starts_nodup hOther

/-- Every event of the process table keeps the discipline. -/
theorem Discipline.step {k k' : KernelState} {e : TableEvent} (h : Discipline k)
    (hStep : TableStep k e k') : Discipline k' := by
  cases tableStep_effect hStep with
  | tick hSize => exact ⟨h.arena, h.housed, h.owners⟩
  | createProcess input => exact h.createProcess input
  | terminate hTarget => exact h.erase _ 0
  | processTermination hTarget => exact h.release hTarget 0

/-- The size of the memory never changes. -/
theorem totalMemory_step {k k' : KernelState} {e : TableEvent} (hStep : TableStep k e k') :
    k'.memoryManager.totalMemory = k.memoryManager.totalMemory := by
  cases tableStep_effect hStep with
  | tick hSize => rfl
  | createProcess input =>
    unfold KernelState.createProcess
    dsimp only
    split
    · exact MemoryManager.allocateMemory_total _ _
    · exact MemoryManager.allocateMemory_total _ _
  | terminate hTarget => rfl
  | processTermination hTarget => exact deallocateProcessMemory_total _ _

-- ---------------------------------------------------------------------------
-- Memory isolation
-- ---------------------------------------------------------------------------

/-- The address `x` belongs to `[startAddress, startAddress + memorySize)`. -/
def Process.Holds (process : Process) (x : Int) : Prop :=
  ∃ start size, process.startAddress = some start ∧ process.memorySize = some size ∧
    start ≤ x ∧ x < start + size

/-- No address belongs to two processes of the table, and each one that
belongs to a process lies in the memory. -/
structure Isolated (k : KernelState) : Prop where
  disjoint : ∀ (i j : Nat) (p q : Process) (x : Int),
    k.processes[i]? = some p → k.processes[j]? = some q → p.Holds x → q.Holds x → i = j
  bounded : ∀ p ∈ k.processes, ∀ x, p.Holds x → 0 ≤ x ∧ x < k.memoryManager.totalMemory

/-- An address a process holds lies in the block the process is housed in. -/
theorem Discipline.holds_in_block {k : KernelState} (h : Discipline k) {p : Process}
    (hp : p ∈ k.processes) {x : Int} (hx : p.Holds x) :
    ∃ b ∈ k.memoryManager.memoryBlocks, p.startAddress = some b.startAddress ∧
      b.startAddress ≤ x ∧ x < b.startAddress + b.size := by
  obtain ⟨start, size, hStart, hSize, hLo, hHi⟩ := hx
  obtain ⟨b, hb, rfl, -, hFits⟩ := (h.housed p hp start hStart).block
  have hLe := hFits size hSize
  exact ⟨b, hb, hStart, hLo, by omega⟩

theorem Discipline.isolated {k : KernelState} (h : Discipline k) : Isolated k where
  disjoint := by
    intro i j p q x hi hj hp hq
    obtain ⟨b, hb, hpb, hbx⟩ := h.holds_in_block (List.mem_of_getElem? hi) hp
    obtain ⟨c, hc, hqc, hcx⟩ := h.holds_in_block (List.mem_of_getElem? hj) hq
    obtain rfl := h.arena.eq_of_common hb hc hbx hcx
    exact h.owners.index_unique hi hj hpb hqc
  bounded := by
    intro p hp x hx
    obtain ⟨b, hb, -, hLo, hHi⟩ := h.holds_in_block hp hx
    have hIn := h.arena.inside b hb
    omega

/--
**Memory isolation.** From a memory whose blocks form an arena, with no
process holding memory, along every sequence of ticks, `createProcess` calls
and terminations of any process by either path, each address belongs to at
most one process of the table and lies in the memory.
-/
theorem memory_isolation {k : KernelState} (hArena : k.memoryManager.IsArena)
    (hNone : ∀ p ∈ k.processes, p.startAddress = none) (es : List TableEvent) :
    Always TableStep k es fun k' =>
      Isolated k' ∧ k'.memoryManager.totalMemory = k.memoryManager.totalMemory := by
  have hInv : Always TableStep k es fun k' =>
      Discipline k' ∧ k'.memoryManager.totalMemory = k.memoryManager.totalMemory := by
    apply always_of_inv
    · exact ⟨Discipline.start hArena hNone, rfl⟩
    · rintro k₁ e k₂ - ⟨hDisc, hTotal⟩ hStep
      exact ⟨hDisc.step hStep, (totalMemory_step hStep).trans hTotal⟩
  exact hInv.imp fun k' h => ⟨h.1.isolated, h.2⟩

/-- `kernel_main` isolates the processes of its table, whatever its menu is
told. -/
theorem kernel_main_isolated (rule : JoinRule) (es : List MainEvent) :
    Always (MainStep rule) MainState.boot es fun s => Isolated s.toKernelState := by
  intro fs s _ hRun
  obtain ⟨tes, hTable⟩ := main_table_run hRun
  have hDisc : Always TableStep MainState.boot.toKernelState tes Discipline := by
    apply always_of_inv
    · exact Discipline.start (MemoryManager.new_isArena (by decide)) (by decide)
    · exact fun k e k' _ h hStep => h.step hStep
  exact (hDisc.final hTable).isolated

/-- The boot table: a process is created, terminated on either path, and two
more are created in the memory given back. -/
theorem memory_isolation_boot :
    Always TableStep .boot
      [.createProcess ⟨"a", 1, 100⟩, .processTermination 2, .createProcess ⟨"b", 1, -5⟩,
        .terminate 2, .tick, .createProcess ⟨"c", 1, 0⟩] fun k' =>
      Isolated k' ∧ k'.memoryManager.totalMemory = 65536 :=
  memory_isolation (MemoryManager.new_isArena (by decide)) (by decide) _

end MultiOS
