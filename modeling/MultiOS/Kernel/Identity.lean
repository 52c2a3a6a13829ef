import MultiOS.Kernel.Ownership

/-!
# MultiOS — process ids

`createProcess` numbers the new process `processes.size() + 1`, while
terminations remove processes anywhere in the table. Whether the number is
fresh depends on which processes are gone.

The memory keeps the table small: there is one block, so when an allocation
succeeds every process left is a boot process, with id 1 or 2. The number is
then taken in one case only, when process 1 is gone and process 2 is not
(`unique_ids_iff`).
-/

namespace MultiOS

open Lib

/-- The ids of the processes in the table are pairwise distinct. -/
def UniqueIds (k : KernelState) : Prop := (k.processes.map Process.id).Nodup

/-- If the event is a `createProcess` whose request is admitted, the table is
not left with process 2 alone. -/
def NumbersFresh (k : KernelState) (e : TableEvent) : Prop :=
  ∀ input, e = .createProcess input → k.memoryManager.Admits input.requiredMemory →
    k.processes.map Process.id ≠ [2]

/-- One block at address 0, and ids 1 or 2 on the processes without memory. -/
structure Numbered (k : KernelState) : Prop extends Discipline k where
  start_zero : ∀ block ∈ k.memoryManager.memoryBlocks, block.startAddress = 0
  bootIds : ∀ p ∈ k.processes, p.startAddress = none → p.id = 1 ∨ p.id = 2
  unique : UniqueIds k

theorem Numbered.boot : Numbered KernelState.boot where
  toDiscipline := Discipline.start (MemoryManager.new_isArena (by decide)) (by decide)
  start_zero := by decide
  bootIds := by decide
  unique := by unfold UniqueIds; decide

/-- The start addresses of a layout are those of the blocks. -/
theorem start_zero_of_layout {m m' : MemoryManager} (hLayout : m'.layout = m.layout)
    (h : ∀ block ∈ m.memoryBlocks, block.startAddress = 0) :
    ∀ block ∈ m'.memoryBlocks, block.startAddress = 0 := by
  intro block hBlock
  have hMem : block.bounds ∈ m.layout := hLayout ▸ List.mem_map_of_mem hBlock
  obtain ⟨b, hb, hEq⟩ := List.mem_map.mp hMem
  rw [← h b hb]
  exact (Prod.mk.inj hEq).1.symm

/-- The next number is free among the ids 1 and 2, unless 2 stands alone. -/
theorem next_id_fresh {ids : List Nat} (hIds : ∀ i ∈ ids, i = 1 ∨ i = 2) (hAlone : ids ≠ [2]) :
    ids.length + 1 ∉ ids := by
  match ids with
  | [] => simp
  | [i] =>
    have hi := hIds i (by simp)
    have hne : i ≠ 2 := fun hEq => hAlone (by rw [hEq])
    simp only [List.length_singleton, List.mem_singleton]
    omega
  | i :: j :: rest =>
    intro hMem
    have hTwo := hIds _ hMem
    simp only [List.length_cons] at hTwo
    omega

/-- When an allocation finds a block, every process in the table is a boot
process. -/
theorem Numbered.ids_of_allocated {k : KernelState} (h : Numbered k) {size : Int}
    {block : MemoryBlock} {m' : MemoryManager} (hAlloc : k.memoryManager.Allocated size block m') :
    ∀ i ∈ k.processes.map Process.id, i = 1 ∨ i = 2 := by
  intro i hi
  obtain ⟨p, hp, rfl⟩ := List.mem_map.mp hi
  refine h.bootIds p hp ?_
  cases hStart : p.startAddress with
  | none => rfl
  | some start =>
    obtain ⟨b, hb, hEq, -⟩ := (h.housed p hp start hStart).block
    have hZero : start = block.startAddress := by
      rw [← hEq, h.start_zero b hb, h.start_zero block hAlloc.mem]
    exact absurd (hZero ▸ hStart) (h.free_not_owned hAlloc.mem hAlloc.wasFree p hp)

theorem Numbered.createProcess {k : KernelState} (h : Numbered k) {input : NewProcess}
    (hFresh : NumbersFresh k (.createProcess input)) : Numbered (k.createProcess input) := by
  have hDisc := h.toDiscipline.createProcess input
  rcases createProcess_cases k input h.arena.starts_ne_failed with
    ⟨block, m', hAlloc, hEq⟩ | ⟨-, hEq⟩
  · rw [hEq] at hDisc ⊢
    refine ⟨hDisc, start_zero_of_layout hAlloc.layout_eq h.start_zero, ?_, ?_⟩
    · intro p hp hNone
      rcases List.mem_append.mp hp with hOld | hNew
      · exact h.bootIds p hOld hNone
      · obtain rfl := List.mem_singleton.mp hNew
        cases hNone
    · have hNew := next_id_fresh (h.ids_of_allocated hAlloc) (hFresh input rfl hAlloc.admits)
      rw [List.length_map] at hNew
      show ((k.processes ++ [k.created input block.startAddress]).map Process.id).Nodup
      rw [List.map_append, List.map_singleton, List.nodup_append]
      refine ⟨h.unique, List.nodup_singleton _, ?_⟩
      intro i hi j hj hij
      rw [List.mem_singleton] at hj
      rw [hij, hj] at hi
      exact hNew hi
  · rw [hEq]
    exact h

/-- Removing a process keeps the numbering, whatever happens to the memory. -/
theorem Numbered.erase {k k' : KernelState} (h : Numbered k) (hDisc : Discipline k') {target : Nat}
    (hProcs : k'.processes = k.processes.eraseIdx target)
    (hLayout : k'.memoryManager.layout = k.memoryManager.layout) : Numbered k' where
  toDiscipline := hDisc
  start_zero := start_zero_of_layout hLayout h.start_zero
  bootIds := by
    intro p hp
    rw [hProcs] at hp
    exact h.bootIds p (List.mem_of_mem_eraseIdx hp)
  unique := by
    unfold UniqueIds
    rw [hProcs]
    exact h.unique.sublist ((List.eraseIdx_sublist _ _).map _)

theorem Numbered.step {k k' : KernelState} {e : TableEvent} (h : Numbered k)
    (hFresh : NumbersFresh k e) (hStep : TableStep k e k') : Numbered k' := by
  have hDisc := h.toDiscipline.step hStep
  cases tableStep_effect hStep with
  | tick hSize => exact ⟨hDisc, h.start_zero, h.bootIds, h.unique⟩
  | createProcess input => exact h.createProcess hFresh
  | terminate hTarget => exact h.erase hDisc rfl rfl
  | processTermination hTarget =>
    exact h.erase hDisc rfl (deallocateProcessMemory_layout _ _)

/-- With process 2 alone in the table, the new process is number 2 as well. -/
theorem Numbered.breaks {k k' : KernelState} {e : TableEvent} (h : Numbered k)
    (hTaken : ¬ NumbersFresh k e) (hStep : TableStep k e k') : ¬ UniqueIds k' := by
  simp only [NumbersFresh, not_forall] at hTaken
  obtain ⟨input, rfl, hAdmits, hAlone⟩ := hTaken
  rw [not_ne_iff] at hAlone
  obtain rfl := Except.ok.inj hStep
  rcases createProcess_cases k input h.arena.starts_ne_failed with
    ⟨block, m', hAlloc, hEq⟩ | ⟨hNot, -⟩
  · have hLen : k.processes.length = 1 := by simpa using congrArg List.length hAlone
    rw [hEq, UniqueIds, List.map_append, hAlone]
    simp [KernelState.created, hLen]
  · exact absurd hAdmits hNot

/--
**Process ids.** Along every sequence of ticks, `createProcess` calls and
terminations of any process by either path from the boot state, the ids in the
table are pairwise distinct in every state reached, exactly when no
`createProcess` succeeds in a table that holds process 2 alone.
-/
theorem unique_ids_iff (es : List TableEvent) :
    Always TableStep .boot es UniqueIds ↔
      EachStep TableStep .boot es fun _ k e => NumbersFresh k e := by
  apply always_iff_eachStep Numbered
  · exact Numbered.boot
  · exact fun k h => h.unique
  · exact fun fs k e k' _ h hC hStep => h.step hC hStep
  · exact fun fs k e k' _ h hC hStep => h.breaks hC hStep

/-- Process 1 is terminated and a process is created: two processes number 2. -/
theorem unique_ids_fails :
    ¬ Always TableStep .boot [.terminate 0, .createProcess ⟨"a", 1, 100⟩] UniqueIds := by
  intro h
  have hRun : ∃ k, Steps TableStep .boot [.terminate 0, .createProcess ⟨"a", 1, 100⟩] k ∧
      k.processes.map Process.id = [2, 2] := ⟨_, ⟨_, rfl, _, rfl, rfl⟩, rfl⟩
  obtain ⟨k, hk, hIds⟩ := hRun
  have hNodup := h.final hk
  rw [UniqueIds, hIds] at hNodup
  simp at hNodup

end MultiOS
