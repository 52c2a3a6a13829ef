import MultiOS.Kernel.Reclaim

/-!
# MultiOS — where the memory is

Every allocated block has a cause: a process of the table was created on it,
or case 7 has erased a process that was. The two exclude each other, whatever
the run did in between (`allocated_iff`): the block of an erased process is
never handed out again and never given back, since only a process created on
it would give it back, and no process can be. With the table empty, the
blocks still allocated are the ones case 7 has lost.
-/

namespace MultiOS

open Lib

/-- Along the events from `k`, case 7 has erased a process created at the
address. -/
def ErasedAt (k : KernelState) (es : List TableEvent) (address : Int) : Prop :=
  ∃ fs target t process, fs ++ [.terminate target] <+: es ∧ Steps TableStep k fs t ∧
    t.processes[target]? = some process ∧ process.startAddress = some address

/-- Some process of the table was created at the address. -/
def KernelState.Owned (k : KernelState) (address : Int) : Prop :=
  ∃ process ∈ k.processes, process.startAddress = some address

/-- A step of the table has one result. -/
theorem tableStep_unique (k : KernelState) (e : TableEvent) (k₁ k₂ : KernelState)
    (h₁ : TableStep k e k₁) (h₂ : TableStep k e k₂) : k₁ = k₂ :=
  Except.ok.inj (h₁.symm.trans h₂)

/-- Before the run nothing was erased. -/
theorem not_erasedAt_nil (k : KernelState) (address : Int) : ¬ ErasedAt k [] address := by
  rintro ⟨fs, target, t, process, hPre, -⟩
  simp at hPre

/-- One more event erases what it erases in the state reached. -/
theorem erasedAt_snoc {k t : KernelState} {es : List TableEvent} {e : TableEvent} {address : Int}
    (hRun : Steps TableStep k es t) :
    ErasedAt k (es ++ [e]) address ↔ ErasedAt k es address ∨
      ∃ target process, e = .terminate target ∧ t.processes[target]? = some process ∧
        process.startAddress = some address := by
  refine ⟨?_, ?_⟩
  · rintro ⟨fs, target, u, process, hPre, hu, hAt, hStart⟩
    rcases List.prefix_concat_iff.mp hPre with hEq | hOld
    · right
      obtain ⟨rfl, hLast⟩ := List.append_inj' hEq rfl
      obtain rfl := Steps.unique tableStep_unique hu hRun
      exact ⟨target, process, (List.singleton_inj.mp hLast).symm, hAt, hStart⟩
    · exact Or.inl ⟨fs, target, u, process, hOld, hu, hAt, hStart⟩
  · rintro (⟨fs, target, u, process, hPre, hu, hAt, hStart⟩ | ⟨target, process, rfl, hAt, hStart⟩)
    · exact ⟨fs, target, u, process, hPre.trans (List.prefix_append es [e]), hu, hAt, hStart⟩
    · exact ⟨es, target, t, process, List.prefix_refl _, hRun, hAt, hStart⟩

/-- Only case 7 erases a process without releasing its memory. -/
theorem erasedAt_snoc_other {k t : KernelState} {es : List TableEvent} {e : TableEvent}
    {address : Int} (hRun : Steps TableStep k es t) (hOther : ∀ target, e ≠ .terminate target) :
    ErasedAt k (es ++ [e]) address ↔ ErasedAt k es address := by
  rw [erasedAt_snoc hRun, or_iff_left]
  rintro ⟨target, process, hEq, -⟩
  exact hOther target hEq

-- ---------------------------------------------------------------------------
-- The invariant
-- ---------------------------------------------------------------------------

/-- Every allocated block is owned or lost, and what is lost stays allocated
and without an owner. -/
structure Settled (k : KernelState) (es : List TableEvent) (t : KernelState) : Prop
    extends Discipline t where
  cause : ∀ block ∈ t.memoryManager.memoryBlocks, block.free = false →
    t.Owned block.startAddress ∨ ErasedAt k es block.startAddress
  taken : ∀ address, ErasedAt k es address →
    ∃ block ∈ t.memoryManager.memoryBlocks, block.startAddress = address ∧ block.free = false
  unowned : ∀ address, ErasedAt k es address → ¬ t.Owned address

/-- At the start every allocated block has its process. -/
theorem Settled.start {k : KernelState} (h : Tenanted k) : Settled k [] k where
  toDiscipline := h.toDiscipline
  cause block hBlock hTaken := Or.inl (h.tenant block hBlock hTaken)
  taken address hErased := absurd hErased (not_erasedAt_nil k address)
  unowned address hErased := absurd hErased (not_erasedAt_nil k address)

section
variable {k t u : KernelState} {es : List TableEvent}

/-- A lost block is not free. -/
theorem Settled.not_erased_of_free (h : Settled k es t) {block : MemoryBlock}
    (hBlock : block ∈ t.memoryManager.memoryBlocks) (hFree : block.free = true) :
    ¬ ErasedAt k es block.startAddress := by
  intro hErased
  obtain ⟨b, hb, hEq, hTaken⟩ := h.taken _ hErased
  rw [MemoryManager.block_unique h.arena.starts_nodup hb hBlock hEq, hFree] at hTaken
  simp at hTaken

/-- A new process comes with a block that was free. -/
theorem Settled.createProcess (h : Settled k es t) (hRun : Steps TableStep k es t)
    (input : NewProcess) : Settled k (es ++ [.createProcess input]) (t.createProcess input) := by
  have hSame : ∀ address, ErasedAt k (es ++ [.createProcess input]) address ↔
      ErasedAt k es address := fun address => erasedAt_snoc_other hRun (by simp)
  have hDiscipline := h.toDiscipline.createProcess input
  rcases createProcess_cases t input h.arena.starts_ne_failed with
    ⟨block, m', hAlloc, hEq⟩ | ⟨-, hEq⟩
  · have hStarts := h.arena.starts_nodup
    have hNew := h.not_erased_of_free hAlloc.mem hAlloc.wasFree
    rw [hEq] at hDiscipline ⊢
    refine ⟨hDiscipline, ?_, ?_, ?_⟩
    · intro b hb hTaken
      rw [hSame]
      rcases (hAlloc.mem_iff hStarts).mp hb with rfl | ⟨hOld, -⟩
      · exact Or.inl ⟨t.created input block.startAddress, by simp, rfl⟩
      · rcases h.cause b hOld hTaken with ⟨p, hp, hStart⟩ | hErased
        · exact Or.inl ⟨p, List.mem_append_left _ hp, hStart⟩
        · exact Or.inr hErased
    · intro address hErased
      rw [hSame] at hErased
      obtain ⟨b, hb, hStart, hTaken⟩ := h.taken address hErased
      refine ⟨b, (hAlloc.mem_iff hStarts).mpr (Or.inr ⟨hb, ?_⟩), hStart, hTaken⟩
      intro hSameStart
      exact hNew (hSameStart ▸ hStart.symm ▸ hErased)
    · intro address hErased
      rw [hSame] at hErased
      rintro ⟨p, hp, hStart⟩
      rcases List.mem_append.mp hp with hOld | hLast
      · exact h.unowned address hErased ⟨p, hOld, hStart⟩
      · obtain rfl := List.mem_singleton.mp hLast
        obtain rfl := Option.some.inj hStart
        exact hNew hErased
  · rw [hEq]
    refine ⟨h.toDiscipline, ?_, ?_, ?_⟩
    · intro b hb hTaken
      rw [hSame]
      exact h.cause b hb hTaken
    · exact fun address hErased => h.taken address ((hSame address).mp hErased)
    · exact fun address hErased => h.unowned address ((hSame address).mp hErased)

/-- An owner other than the process removed stays. -/
theorem owned_eraseIdx {target : Nat} {address : Int} (h : t.Owned address)
    (hOther : ∀ process, t.processes[target]? = some process →
      process.startAddress ≠ some address) :
    ∃ process ∈ t.processes.eraseIdx target, process.startAddress = some address := by
  obtain ⟨p, hp, hStart⟩ := h
  obtain ⟨i, hi⟩ := List.mem_iff_getElem?.mp hp
  refine ⟨p, List.mem_eraseIdx_iff_getElem?.mpr ⟨i, ?_, hi⟩, hStart⟩
  rintro rfl
  exact hOther p hi hStart

/-- Case 7 turns a tenant into a leak. -/
theorem Settled.terminate (h : Settled k es t) (hRun : Steps TableStep k es t) (target : Nat) :
    Settled k (es ++ [.terminate target])
      { t with processes := t.processes.eraseIdx target, activeProcessIndex := 0 } := by
  refine ⟨h.toDiscipline.erase target 0, ?_, ?_, ?_⟩
  · intro b hb hTaken
    rw [erasedAt_snoc hRun]
    rcases h.cause b hb hTaken with hOwned | hErased
    · by_cases hLast : ∃ process, t.processes[target]? = some process ∧
          process.startAddress = some b.startAddress
      · obtain ⟨process, hAt, hStart⟩ := hLast
        exact Or.inr (Or.inr ⟨target, process, rfl, hAt, hStart⟩)
      · left
        refine owned_eraseIdx hOwned ?_
        intro process hAt hStart
        exact hLast ⟨process, hAt, hStart⟩
    · exact Or.inr (Or.inl hErased)
  · intro address hErased
    rcases (erasedAt_snoc hRun).mp hErased with hOld | ⟨_, process, hEq, hAt, hStart⟩
    · exact h.taken address hOld
    · obtain rfl := TableEvent.terminate.inj hEq
      obtain ⟨b, hb, hbStart, hTaken, -⟩ :=
        (h.housed process (List.mem_of_getElem? hAt) address hStart).block
      exact ⟨b, hb, hbStart, hTaken⟩
  · intro address hErased
    rintro ⟨p, hp, hOwner⟩
    rcases (erasedAt_snoc hRun).mp hErased with hOld | ⟨_, process, hEq, hAt, hStart⟩
    · exact h.unowned address hOld ⟨p, List.mem_of_mem_eraseIdx hp, hOwner⟩
    · obtain rfl := TableEvent.terminate.inj hEq
      exact h.owners.not_mem_eraseIdx hAt hStart p hp hOwner

/-- What giving the memory of a process back leaves of the blocks: the blocks
at other addresses, and the block of the process free. -/
theorem Discipline.released_iff (h : Discipline t) {target : Nat} {process : Process}
    (hAt : t.processes[target]? = some process) {b : MemoryBlock} (hTaken : b.free = false) :
    b ∈ (KernelState.deallocateProcessMemory t.memoryManager process).memoryBlocks ↔
      b ∈ t.memoryManager.memoryBlocks ∧ process.startAddress ≠ some b.startAddress := by
  unfold KernelState.deallocateProcessMemory
  cases hStart : process.startAddress with
  | none => simp
  | some address =>
    obtain ⟨c, hc, hcStart, hcTaken, -⟩ :=
      (h.housed process (List.mem_of_getElem? hAt) address hStart).block
    rcases t.memoryManager.deallocateMemory_cases address with ⟨block, hDealloc⟩ | ⟨hNone, -⟩
    · rw [hDealloc.mem_iff h.arena.starts_nodup, hDealloc.start_eq]
      refine ⟨?_, ?_⟩
      · rintro (rfl | ⟨hOld, hNe⟩)
        · simp at hTaken
        · exact ⟨hOld, fun hEq => hNe (Option.some.inj hEq).symm⟩
      · rintro ⟨hOld, hNe⟩
        exact Or.inr ⟨hOld, fun hEq => hNe (congrArg some hEq.symm)⟩
    · rw [hNone c hc hcStart] at hcTaken
      simp at hcTaken

/-- `processTermination` releases the block with the process. -/
theorem Settled.processTermination (h : Settled k es t) (hRun : Steps TableStep k es t)
    {target : Nat} {process : Process} (hAt : t.processes[target]? = some process) :
    Settled k (es ++ [.processTermination target])
      { t with
        processes := t.processes.eraseIdx target
        activeProcessIndex := 0
        memoryManager := KernelState.deallocateProcessMemory t.memoryManager process } := by
  have hSame : ∀ address, ErasedAt k (es ++ [.processTermination target]) address ↔
      ErasedAt k es address := fun address => erasedAt_snoc_other hRun (by simp)
  refine ⟨h.toDiscipline.release hAt 0, ?_, ?_, ?_⟩
  · intro b hb hTaken
    rw [hSame]
    obtain ⟨hOld, hOther⟩ := (h.toDiscipline.released_iff hAt hTaken).mp hb
    rcases h.cause b hOld hTaken with hOwned | hErased
    · left
      refine owned_eraseIdx hOwned ?_
      intro q hq
      obtain rfl := Option.some.inj (hAt.symm.trans hq)
      exact hOther
    · exact Or.inr hErased
  · intro address hErased
    rw [hSame] at hErased
    obtain ⟨b, hb, rfl, hTaken⟩ := h.taken address hErased
    refine ⟨b, (h.toDiscipline.released_iff hAt hTaken).mpr ⟨hb, ?_⟩, rfl, hTaken⟩
    intro hStart
    exact h.unowned _ hErased ⟨process, List.mem_of_getElem? hAt, hStart⟩
  · intro address hErased
    rw [hSame] at hErased
    rintro ⟨p, hp, hStart⟩
    exact h.unowned address hErased ⟨p, List.mem_of_mem_eraseIdx hp, hStart⟩

/-- Every step keeps the account. -/
theorem Settled.step (h : Settled k es t) (hRun : Steps TableStep k es t) {e : TableEvent}
    (hStep : TableStep t e u) : Settled k (es ++ [e]) u := by
  cases tableStep_effect hStep with
  | tick hSize =>
    have hSame : ∀ address, ErasedAt k (es ++ [.tick]) address ↔ ErasedAt k es address :=
      fun address => erasedAt_snoc_other hRun (by simp)
    refine ⟨⟨h.arena, h.housed, h.owners⟩, ?_, ?_, ?_⟩
    · intro b hb hTaken
      rw [hSame]
      exact h.cause b hb hTaken
    · exact fun address hErased => h.taken address ((hSame address).mp hErased)
    · exact fun address hErased => h.unowned address ((hSame address).mp hErased)
  | createProcess input => exact h.createProcess hRun input
  | terminate hTarget => exact h.terminate hRun _
  | processTermination hTarget => exact h.processTermination hRun hTarget

end

/-- So does every run. -/
theorem Settled.of_run {k t : KernelState} {es : List TableEvent} (h : Tenanted k)
    (hRun : Steps TableStep k es t) : Settled k es t := by
  refine Steps.prefix_induction (fun es t => Settled k es t) (Settled.start h) ?_
    (List.prefix_refl es) hRun
  exact fun fs t e u _ ht hInv hStep => hInv.step ht hStep

/--
**Why a block is allocated.** After any run of the process table from a state
in which every allocated block has its process: a block is allocated exactly
when some process of the table was created on it or case 7 has erased one that
was, at any time of the run, and never for both reasons. What case 7 loses is
lost for good, and nothing else is.
-/
theorem allocated_iff {k t : KernelState} {es : List TableEvent} (hTenanted : Tenanted k)
    (hRun : Steps TableStep k es t) :
    ∀ block ∈ t.memoryManager.memoryBlocks,
      (block.free = false ↔
        t.Owned block.startAddress ∨ ErasedAt k es block.startAddress) ∧
      ¬ (t.Owned block.startAddress ∧ ErasedAt k es block.startAddress) := by
  have hSettled := Settled.of_run hTenanted hRun
  intro block hBlock
  refine ⟨⟨hSettled.cause block hBlock, ?_⟩, ?_⟩
  · intro hReason
    by_contra hFree
    rw [Bool.not_eq_false] at hFree
    rcases hReason with ⟨p, hp, hStart⟩ | hErased
    · exact hSettled.free_not_owned hBlock hFree p hp hStart
    · exact hSettled.not_erased_of_free hBlock hFree hErased
  · rintro ⟨hOwned, hErased⟩
    exact hSettled.unowned _ hErased hOwned

/-- A process is created, both boot processes and then it are terminated by
case 7. -/
theorem allocated_iff_boot :
    ∃ t, Steps TableStep KernelState.boot
        [.createProcess ⟨"a", 1, 100⟩, .terminate 0, .tick, .processTermination 0, .terminate 0] t ∧
      ∀ block ∈ t.memoryManager.memoryBlocks,
        (block.free = false ↔ t.Owned block.startAddress ∨ ErasedAt KernelState.boot
          [.createProcess ⟨"a", 1, 100⟩, .terminate 0, .tick, .processTermination 0, .terminate 0]
          block.startAddress) ∧
        ¬ (t.Owned block.startAddress ∧ ErasedAt KernelState.boot
          [.createProcess ⟨"a", 1, 100⟩, .terminate 0, .tick, .processTermination 0, .terminate 0]
          block.startAddress) := by
  have hRun : Steps TableStep KernelState.boot
      [.createProcess ⟨"a", 1, 100⟩, .terminate 0, .tick, .processTermination 0, .terminate 0] _ :=
    ⟨_, rfl, _, rfl, _, rfl, _, rfl, _, rfl, rfl⟩
  exact ⟨_, hRun, allocated_iff Tenanted.boot hRun⟩

end MultiOS
