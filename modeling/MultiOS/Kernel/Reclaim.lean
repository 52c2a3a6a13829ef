import MultiOS.Kernel.Ownership

/-!
# MultiOS — no memory outlives its process

The two-way law between the block list and the process table: a block is
marked allocated exactly when one process of the table was created on it
(`BlocksOwned`). The discipline of `Ownership` is one direction. The other,
that every allocated block still has its process, is what case 7 of
`kernel_main` does not keep: it erases the process and does not give its
memory back, unlike `processTermination`.

`blocks_owned_iff` is the exact condition: the law holds in every state of a
run of `kernel_main` when, and only when, every process that case 7 erases is
one without memory, that is a boot process.
-/

namespace MultiOS

open Lib

/-- The number of processes of the table created with a start address. -/
def KernelState.ownersOf (k : KernelState) (startAddress : Int) : Nat :=
  k.processes.countP fun process => process.startAddress = some startAddress

/-- A block is allocated exactly when one process of the table was created
with its start address. -/
def BlocksOwned (k : KernelState) : Prop :=
  ∀ block ∈ k.memoryManager.memoryBlocks,
    block.free = false ↔ k.ownersOf block.startAddress = 1

/-- If the event is a termination, the active process has no memory. -/
def SparesOwners (s : MainState) (e : MainEvent) : Prop :=
  ∀ input, e = .choice 7 input →
    ∀ process, s.processes[s.activeProcessIndex]? = some process → process.startAddress = none

/-- The discipline, and a process for every allocated block. -/
structure Tenanted (k : KernelState) : Prop extends Discipline k where
  tenant : ∀ block ∈ k.memoryManager.memoryBlocks, block.free = false →
    ∃ p ∈ k.processes, p.startAddress = some block.startAddress

theorem Tenanted.blocksOwned {k : KernelState} (h : Tenanted k) : BlocksOwned k := by
  intro block hBlock
  rw [KernelState.ownersOf, h.owners.countP_eq_one]
  refine ⟨?_, ?_⟩
  · exact h.tenant block hBlock
  · rintro ⟨p, hp, hStart⟩
    by_contra hFree
    rw [Bool.not_eq_false] at hFree
    exact h.free_not_owned hBlock hFree p hp hStart

theorem Tenanted.boot : Tenanted KernelState.boot where
  toDiscipline := Discipline.start (MemoryManager.new_isArena (by decide)) (by decide)
  tenant := by decide

theorem Tenanted.createProcess {k : KernelState} (h : Tenanted k) (input : NewProcess) :
    Tenanted (k.createProcess input) := by
  refine ⟨h.toDiscipline.createProcess input, ?_⟩
  rcases createProcess_cases k input h.arena.starts_ne_failed with
    ⟨block, m', hAlloc, hEq⟩ | ⟨-, hEq⟩
  · rw [hEq]
    intro b hb hTaken
    rcases (hAlloc.mem_iff h.arena.starts_nodup).mp hb with rfl | ⟨hOld, -⟩
    · exact ⟨k.created input block.startAddress, by simp, rfl⟩
    · obtain ⟨p, hp, hStart⟩ := h.tenant b hOld hTaken
      exact ⟨p, List.mem_append_left _ hp, hStart⟩
  · rw [hEq]
    exact h.tenant

/-- Erasing a process without memory leaves every block its tenant. -/
theorem Tenanted.erase {k : KernelState} (h : Tenanted k) {target : Nat}
    (hNone : ∀ p, k.processes[target]? = some p → p.startAddress = none) (active : Nat) :
    Tenanted { k with processes := k.processes.eraseIdx target, activeProcessIndex := active } := by
  refine ⟨h.toDiscipline.erase target active, ?_⟩
  intro b hb hTaken
  obtain ⟨p, hp, hStart⟩ := h.tenant b hb hTaken
  obtain ⟨i, hi⟩ := List.mem_iff_getElem?.mp hp
  refine ⟨p, List.mem_eraseIdx_iff_getElem?.mpr ⟨i, ?_, hi⟩, hStart⟩
  rintro rfl
  rw [hNone p hi] at hStart
  simp at hStart

/-- A step that erases no process with memory keeps every block its tenant. -/
theorem Tenanted.mainStep {rule : JoinRule} {s t : MainState} {e : MainEvent}
    (h : Tenanted s.toKernelState) (hSpares : SparesOwners s e) (hStep : MainStep rule s e t) :
    Tenanted t.toKernelState := by
  cases mainStep_effect hStep with
  | tick hSize => exact ⟨⟨h.arena, h.housed, h.owners⟩, h.tenant⟩
  | callMenu => exact h
  | joinProcessThreads hJoin => exact h
  | joinBrowserThread hChoice hJoin => exact h
  | createProcess input => exact h.createProcess input
  | printActive hIndex => exact h
  | terminateActive hThread hJoin hIndex => exact h.erase (hSpares _ rfl) 0
  | other hChoice => exact h

/-- Erasing a process with memory leaves its block allocated and unowned. -/
theorem Tenanted.breaks {rule : JoinRule} {s t : MainState} {e : MainEvent}
    (h : Tenanted s.toKernelState) (hOwner : ¬ SparesOwners s e) (hStep : MainStep rule s e t) :
    ¬ BlocksOwned t.toKernelState := by
  simp only [SparesOwners, not_forall] at hOwner
  obtain ⟨input, rfl, process, hAt, hSome⟩ := hOwner
  obtain ⟨start, hStart⟩ := Option.ne_none_iff_exists'.mp hSome
  obtain ⟨-, hProcs, -, hMem, -⟩ := mainStep_terminate hStep
  obtain ⟨b, hb, rfl, hTaken, -⟩ :=
    (h.housed process (List.mem_of_getElem? hAt) start hStart).block
  intro hOwned
  have hOne : t.toKernelState.ownersOf b.startAddress = 1 :=
    (hOwned b (hMem ▸ hb)).mp hTaken
  have hZero : t.toKernelState.ownersOf b.startAddress = 0 := by
    rw [KernelState.ownersOf, List.countP_eq_zero, hProcs]
    intro p hp
    simpa using h.owners.not_mem_eraseIdx hAt hStart p hp
  omega

/--
**No memory outlives its process.** Along a run of `kernel_main`, whatever
joins do, in every state reached a block is marked allocated if and only if
exactly one process of the table was created on it, exactly when every
process that choice 7 terminates is one without memory.
-/
theorem blocks_owned_iff (rule : JoinRule) (es : List MainEvent) :
    Always (MainStep rule) MainState.boot es (fun s => BlocksOwned s.toKernelState) ↔
      EachStep (MainStep rule) MainState.boot es fun _ s e => SparesOwners s e := by
  apply always_iff_eachStep fun s => Tenanted s.toKernelState
  · exact Tenanted.boot
  · exact fun s h => h.blocksOwned
  · exact fun fs s e t _ h hC hStep => h.mainStep hC hStep
  · exact fun fs s e t _ h hC hStep => h.breaks hC hStep

/-- A process is created on the only block and terminated from the menu, after
a boot process before it in the table: its block stays allocated. -/
theorem blocks_owned_fails :
    ¬ Always (MainStep .checked) MainState.boot
      [.choice 5 ⟨"a", 1, 100⟩, .choice 7 ⟨"", 0, 0⟩, .tick, .choice 7 ⟨"", 0, 0⟩]
      (fun s => BlocksOwned s.toKernelState) := by
  intro h
  have hRun : ∃ s, Steps (MainStep .checked) MainState.boot
      [.choice 5 ⟨"a", 1, 100⟩, .choice 7 ⟨"", 0, 0⟩, .tick, .choice 7 ⟨"", 0, 0⟩] s ∧
      s.processes.map Process.id = [2] ∧ s.memoryManager.memoryBlocks = [⟨0, 65536, false⟩] ∧
      s.toKernelState.ownersOf 0 = 0 :=
    ⟨_, ⟨_, rfl, _, rfl, _, rfl, _, rfl, rfl⟩, rfl, rfl, rfl⟩
  obtain ⟨s, hs, -, hBlocks, hNone⟩ := hRun
  have hOne := (h.final hs ⟨0, 65536, false⟩ (by rw [hBlocks]; simp)).mp rfl
  rw [hNone] at hOne
  simp at hOne

end MultiOS
