import MultiOS.Model.Kernel

/-!
# MultiOS — what a step can do

One inversion lemma for each level, so that the invariants never unfold the
step functions:

* `createProcess_cases`, `processTermination_ok`, … for the operations on the
  process table, collected in `TableEffect` (`tableStep_effect`);
* `MainEffect` (`mainStep_effect`) for `kernel_main`.

`mainStep_table` connects the two: every step of `kernel_main` is a step of
the process table or leaves it as it is. A law of the table that holds of
all its runs is therefore a law of `kernel_main` (`main_table_run`).
-/

namespace MultiOS

open Lib

-- ---------------------------------------------------------------------------
-- The process table
-- ---------------------------------------------------------------------------

/-- The process `createProcess` appends. -/
def KernelState.created (k : KernelState) (input : NewProcess) (address : Int) : Process where
  id := k.processes.length + 1
  name := input.name
  executionTime := input.executionTime
  startAddress := some address
  memorySize := some input.requiredMemory

/-- A tick divides by the size of the table. -/
theorem scheduler_ok {k k' : KernelState} (h : k.scheduler = .ok k') :
    0 < k.processes.length ∧
      k' = { k with activeProcessIndex := (k.activeProcessIndex + 1) % k.processes.length } := by
  unfold KernelState.scheduler at h
  split at h
  · simp at h
  · next hSize =>
    dsimp only at h
    split at h
    · simp at h
    · exact ⟨by omega, (Except.ok.inj h).symm⟩

/-- On a table that is not empty a pass of `scheduler` does not fail. -/
theorem scheduler_of_pos {k : KernelState} (hSize : 0 < k.processes.length) :
    k.scheduler = .ok
      { k with activeProcessIndex := (k.activeProcessIndex + 1) % k.processes.length } := by
  have hLt : (k.activeProcessIndex + 1) % k.processes.length < k.processes.length :=
    Nat.mod_lt _ hSize
  unfold KernelState.scheduler
  rw [if_neg (by omega)]
  simp only [List.getElem?_eq_getElem hLt]

/-- What `createProcess` makes of an allocation that finds a block. -/
theorem createProcess_of_allocated {k : KernelState} {input : NewProcess} {block : MemoryBlock}
    {m' : MemoryManager}
    (hEq : k.memoryManager.allocateMemory input.requiredMemory = (block.startAddress, m')) :
    k.createProcess input =
      if block.startAddress ≠ MemoryManager.allocationFailed then
        { k with processes := k.processes ++ [k.created input block.startAddress]
                 memoryManager := m' }
      else { k with memoryManager := m' } := by
  simp only [KernelState.createProcess, hEq, KernelState.created]

/-- A refused request creates nothing. -/
theorem createProcess_of_refused {k : KernelState} {input : NewProcess}
    (hEq : k.memoryManager.allocateMemory input.requiredMemory =
      (MemoryManager.allocationFailed, k.memoryManager)) : k.createProcess input = k := by
  simp [KernelState.createProcess, hEq]

/-- With no block at the address that signals failure, `createProcess` appends
one process on a block it takes, or changes nothing. -/
theorem createProcess_cases (k : KernelState) (input : NewProcess)
    (hStarts : MemoryManager.allocationFailed ∉ k.memoryManager.starts) :
    (∃ block m', k.memoryManager.Allocated input.requiredMemory block m' ∧
      k.createProcess input =
        { k with
          processes := k.processes ++ [k.created input block.startAddress]
          memoryManager := m' }) ∨
    (¬ k.memoryManager.Admits input.requiredMemory ∧ k.createProcess input = k) := by
  rcases k.memoryManager.allocateMemory_cases input.requiredMemory with
    ⟨block, m', hEq, hAlloc⟩ | ⟨hNot, hEq⟩
  · left
    refine ⟨block, m', hAlloc, ?_⟩
    have hAddr : block.startAddress ≠ MemoryManager.allocationFailed := by
      intro hFail
      exact hStarts (hFail ▸ List.mem_map_of_mem hAlloc.mem)
    rw [createProcess_of_allocated hEq, if_pos hAddr]
  · right
    exact ⟨hNot, createProcess_of_refused hEq⟩

/-- `createProcess` appends to the table or leaves it, and does not touch the
index. -/
theorem createProcess_appends (k : KernelState) (input : NewProcess) :
    k.processes <+: (k.createProcess input).processes ∧
      (k.createProcess input).activeProcessIndex = k.activeProcessIndex := by
  unfold KernelState.createProcess
  dsimp only
  split
  · exact ⟨List.prefix_append _ _, rfl⟩
  · exact ⟨List.prefix_refl _, rfl⟩

/-- Case 7 erases the active process, if there is one. -/
theorem eraseActive_ok {k k' : KernelState} (h : k.eraseActive = .ok k') :
    k.activeProcessIndex < k.processes.length ∧
      k' = { k with processes := k.processes.eraseIdx k.activeProcessIndex
                    activeProcessIndex := 0 } := by
  unfold KernelState.eraseActive at h
  split at h
  · next hLt => exact ⟨hLt, (Except.ok.inj h).symm⟩
  · simp at h

/-- `processTermination` erases it too, and releases its memory. -/
theorem processTermination_ok {k k' : KernelState} (h : k.processTermination = .ok k') :
    ∃ process, k.processes[k.activeProcessIndex]? = some process ∧
      k' = { k with processes := k.processes.eraseIdx k.activeProcessIndex
                    activeProcessIndex := 0
                    memoryManager :=
                      KernelState.deallocateProcessMemory k.memoryManager process } := by
  unfold KernelState.processTermination at h
  split at h
  · simp at h
  · next process hAt => exact ⟨process, hAt, (eraseActive_ok h).2⟩

/-- Releasing memory moves no block. -/
theorem deallocateProcessMemory_layout (m : MemoryManager) (process : Process) :
    (KernelState.deallocateProcessMemory m process).layout = m.layout := by
  unfold KernelState.deallocateProcessMemory
  split
  · exact MemoryManager.deallocateMemory_layout _ _
  · rfl

/-- Nor does it change the total. -/
theorem deallocateProcessMemory_total (m : MemoryManager) (process : Process) :
    (KernelState.deallocateProcessMemory m process).totalMemory = m.totalMemory := by
  unfold KernelState.deallocateProcessMemory
  split
  · exact MemoryManager.deallocateMemory_total _ _
  · rfl

/-- The successors of a table event, guards included. -/
inductive TableEffect (k : KernelState) : TableEvent → KernelState → Prop where
  | tick (hSize : 0 < k.processes.length) :
      TableEffect k .tick
        { k with activeProcessIndex := (k.activeProcessIndex + 1) % k.processes.length }
  | createProcess (input : NewProcess) :
      TableEffect k (.createProcess input) (k.createProcess input)
  | terminate {target : Nat} (hTarget : target < k.processes.length) :
      TableEffect k (.terminate target)
        { k with processes := k.processes.eraseIdx target, activeProcessIndex := 0 }
  | processTermination {target : Nat} {process : Process}
      (hTarget : k.processes[target]? = some process) :
      TableEffect k (.processTermination target)
        { k with processes := k.processes.eraseIdx target
                 activeProcessIndex := 0
                 memoryManager :=
                   KernelState.deallocateProcessMemory k.memoryManager process }

/-- **Inversion** for the process table. -/
theorem tableStep_effect {k k' : KernelState} {e : TableEvent} (h : TableStep k e k') :
    TableEffect k e k' := by
  cases e with
  | tick =>
    obtain ⟨hSize, rfl⟩ := scheduler_ok h
    exact .tick hSize
  | createProcess input =>
    obtain rfl := Except.ok.inj h
    exact .createProcess input
  | terminate target =>
    obtain ⟨hTarget, rfl⟩ := eraseActive_ok h
    exact .terminate hTarget
  | processTermination target =>
    obtain ⟨process, hAt, rfl⟩ := processTermination_ok h
    exact .processTermination hAt

-- ---------------------------------------------------------------------------
-- Threads and the menu
-- ---------------------------------------------------------------------------

/-- A join that returns leaves the thread not joinable. -/
theorem join_ok {rule : JoinRule} {thread thread' : StdThread}
    (h : thread.join rule = .ok thread') : thread' = { thread with joinable := false } := by
  unfold StdThread.join at h
  split at h
  · exact (Except.ok.inj h).symm
  · simp at h

/-- A vector of threads that was joined runs the same tasks, none joinable. -/
theorem joinAll_ok {rule : JoinRule} {threads threads' : List StdThread}
    (h : joinAll rule threads = .ok threads') :
    threads' = threads.map fun thread => { thread with joinable := false } := by
  induction threads generalizing threads' with
  | nil => exact (Except.ok.inj h).symm
  | cons thread threads ih =>
    rw [joinAll] at h
    split at h
    · simp at h
    · next thread' hJoin =>
      split at h
      · simp at h
      · next rest hRest =>
        rw [← Except.ok.inj h, join_ok hJoin, ih hRest, List.map_cons]

/-- Case 7 joins the thread at the active index. -/
theorem joinActive_ok {rule : JoinRule} {s : MainState} {threads : List StdThread}
    (h : s.joinActive rule = .ok threads) :
    ∃ thread, s.threads[s.activeProcessIndex]? = some thread ∧
      (∃ thread', thread.join rule = .ok thread') ∧
      threads = s.threads.set s.activeProcessIndex { thread with joinable := false } := by
  unfold MainState.joinActive at h
  split at h
  · simp at h
  · next thread hAt =>
    split at h
    · simp at h
    · next thread' hJoin =>
      exact ⟨thread, hAt, ⟨thread', hJoin⟩, join_ok hJoin ▸ (Except.ok.inj h).symm⟩

/-- What `pokazMenu`, called with index `i`, and the `switch` make of a value
read from the menu. The switch's own case 6 is not among them. -/
inductive Dispatched (i : Nat) (input : NewProcess) : Int → Action → Prop where
  | joinProcessThreads : Dispatched i input 1 .joinProcessThreads
  | joinBrowserThread {wybor : Int} (hChoice : wybor = 2 ∨ wybor = 3) :
      Dispatched i input wybor .joinBrowserThread
  | leave : Dispatched i input 4 .leave
  | createProcess : Dispatched i input 5 (.createProcess input)
  | printActive : Dispatched i input 6 (.printActive i)
  | terminateActive : Dispatched i input 7 .terminateActive
  | customSystemCallHandler : Dispatched i input 8 .customSystemCallHandler
  | invalidChoice {wybor : Int} (hChoice : wybor ≤ 0 ∨ 9 ≤ wybor) :
      Dispatched i input wybor .invalidChoice

/-- The two levels of the dispatch, read once. -/
theorem menuAction_dispatched (i : Nat) (wybor : Int) (input : NewProcess) :
    Dispatched i input wybor (menuAction i wybor input) := by
  unfold menuAction
  by_cases hSix : wybor = 6
  · rw [if_pos hSix, hSix]
    exact .printActive
  · rw [if_neg hSix]
    unfold kernelSwitch
    split
    · exact .joinProcessThreads
    · exact .joinBrowserThread (Or.inl rfl)
    · exact .joinBrowserThread (Or.inr rfl)
    · exact .leave
    · exact .createProcess
    · exact absurd rfl hSix
    · exact .terminateActive
    · exact .customSystemCallHandler
    · next h1 h2 h3 h4 h5 _ h7 h8 =>
      have hOther : wybor ≠ 1 ∧ wybor ≠ 2 ∧ wybor ≠ 3 ∧ wybor ≠ 4 ∧ wybor ≠ 5 ∧ wybor ≠ 6 ∧
        wybor ≠ 7 ∧ wybor ≠ 8 := ⟨h1, h2, h3, h4, h5, hSix, h7, h8⟩
      exact .invalidChoice (by omega)

section
variable {rule : JoinRule} {s t : MainState}

theorem perform_joinProcessThreads_ok (h : s.perform rule .joinProcessThreads = .ok t) :
    ∃ threads, joinAll rule s.threads = .ok threads ∧
      t = { s with threads, menuIndex := none } := by
  rw [MainState.perform] at h
  split at h
  · simp at h
  · next threads hJoin => exact ⟨threads, hJoin, (Except.ok.inj h).symm⟩

theorem perform_joinBrowserThread_ok (h : s.perform rule .joinBrowserThread = .ok t) :
    ∃ browserThread, s.browserThread.join rule = .ok browserThread ∧
      t = { s with browserThread, menuIndex := none } := by
  rw [MainState.perform] at h
  split at h
  · simp at h
  · next browserThread hJoin => exact ⟨browserThread, hJoin, (Except.ok.inj h).symm⟩

theorem perform_printActive_ok {i : Nat} (h : s.perform rule (.printActive i) = .ok t) :
    i < s.processes.length ∧ t = { s with menuIndex := some i } := by
  rw [MainState.perform] at h
  split at h
  · simp at h
  · next process hAt =>
    exact ⟨(List.getElem?_eq_some_iff.mp hAt).1, (Except.ok.inj h).symm⟩

theorem perform_terminateActive_ok (h : s.perform rule .terminateActive = .ok t) :
    ∃ thread thread', s.threads[s.activeProcessIndex]? = some thread ∧
      thread.join rule = .ok thread' ∧ s.activeProcessIndex < s.processes.length ∧
      t = { s with processes := s.processes.eraseIdx s.activeProcessIndex
                   activeProcessIndex := 0
                   threads :=
                     s.threads.set s.activeProcessIndex { thread with joinable := false }
                   menuIndex := none } := by
  rw [MainState.perform] at h
  split at h
  · simp at h
  · next threads hJoin =>
    obtain ⟨thread, hThread, ⟨thread', hJoined⟩, rfl⟩ := joinActive_ok hJoin
    split at h
    · simp at h
    · next k hErase =>
      obtain ⟨hIndex, rfl⟩ := eraseActive_ok hErase
      exact ⟨thread, thread', hThread, hJoined, hIndex, (Except.ok.inj h).symm⟩

end

/-- The successors of an event of `kernel_main`, guards included. -/
inductive MainEffect (rule : JoinRule) (s : MainState) : MainEvent → MainState → Prop where
  | tick (hSize : 0 < s.processes.length) :
      MainEffect rule s .tick
        { s with activeProcessIndex := (s.activeProcessIndex + 1) % s.processes.length }
  | callMenu :
      MainEffect rule s .callMenu { s with menuIndex := some s.menuArgument }
  | joinProcessThreads {input : NewProcess} {threads : List StdThread}
      (hJoin : joinAll rule s.threads = .ok threads) :
      MainEffect rule s (.choice 1 input) { s with threads, menuIndex := none }
  | joinBrowserThread {wybor : Int} {input : NewProcess} {browserThread : StdThread}
      (hChoice : wybor = 2 ∨ wybor = 3)
      (hJoin : s.browserThread.join rule = .ok browserThread) :
      MainEffect rule s (.choice wybor input) { s with browserThread, menuIndex := none }
  | createProcess (input : NewProcess) :
      MainEffect rule s (.choice 5 input)
        { s with toKernelState := s.toKernelState.createProcess input, menuIndex := none }
  | printActive {input : NewProcess} (hIndex : s.menuArgument < s.processes.length) :
      MainEffect rule s (.choice 6 input) { s with menuIndex := some s.menuArgument }
  | terminateActive {input : NewProcess} {thread thread' : StdThread}
      (hThread : s.threads[s.activeProcessIndex]? = some thread)
      (hJoin : thread.join rule = .ok thread')
      (hIndex : s.activeProcessIndex < s.processes.length) :
      MainEffect rule s (.choice 7 input)
        { s with processes := s.processes.eraseIdx s.activeProcessIndex
                 activeProcessIndex := 0
                 threads :=
                   s.threads.set s.activeProcessIndex { thread with joinable := false }
                 menuIndex := none }
  | other {wybor : Int} {input : NewProcess} (hChoice : wybor ≤ 0 ∨ 8 ≤ wybor) :
      MainEffect rule s (.choice wybor input) { s with menuIndex := none }

/-- A tick of the kernel. -/
theorem mainStep_tick_ok {rule : JoinRule} {s t : MainState} (h : MainStep rule s .tick t) :
    0 < s.processes.length ∧
      t = { s with activeProcessIndex := (s.activeProcessIndex + 1) % s.processes.length } := by
  rw [MainStep, MainState.mainStep] at h
  split at h
  · simp at h
  · next k hTick =>
    obtain ⟨hSize, rfl⟩ := scheduler_ok hTick
    exact ⟨hSize, (Except.ok.inj h).symm⟩

/-- **Inversion** for the kernel: a step is one of the listed effects. -/
theorem mainStep_effect {rule : JoinRule} {s t : MainState} {e : MainEvent}
    (h : MainStep rule s e t) : MainEffect rule s e t := by
  cases e with
  | tick =>
    obtain ⟨hSize, rfl⟩ := mainStep_tick_ok h
    exact .tick hSize
  | callMenu =>
    obtain rfl := Except.ok.inj h
    exact .callMenu
  | choice wybor input =>
    have hDispatched := menuAction_dispatched s.menuArgument wybor input
    rw [MainStep, MainState.mainStep] at h
    generalize menuAction s.menuArgument wybor input = action at h hDispatched
    cases hDispatched with
    | joinProcessThreads =>
      obtain ⟨threads, hJoin, rfl⟩ := perform_joinProcessThreads_ok h
      exact .joinProcessThreads hJoin
    | joinBrowserThread hChoice =>
      obtain ⟨browserThread, hJoin, rfl⟩ := perform_joinBrowserThread_ok h
      exact .joinBrowserThread hChoice hJoin
    | leave => cases h
    | createProcess =>
      obtain rfl := Except.ok.inj h
      exact .createProcess input
    | printActive =>
      obtain ⟨hIndex, rfl⟩ := perform_printActive_ok h
      exact .printActive hIndex
    | terminateActive =>
      obtain ⟨thread, thread', hThread, hJoin, hIndex, rfl⟩ := perform_terminateActive_ok h
      exact .terminateActive hThread hJoin hIndex
    | customSystemCallHandler =>
      obtain rfl := Except.ok.inj h
      exact .other (by omega)
    | invalidChoice hChoice =>
      obtain rfl := Except.ok.inj h
      exact .other (by omega)

/-- Every successor listed is one: the guards are all that a step needs. -/
theorem mainStep_of_effect {rule : JoinRule} {s t : MainState} {e : MainEvent}
    (h : MainEffect rule s e t) : MainStep rule s e t := by
  unfold MainStep
  cases h with
  | tick hSize =>
    rw [MainState.mainStep, scheduler_of_pos hSize]
  | callMenu => rfl
  | joinProcessThreads hJoin =>
    show s.perform rule .joinProcessThreads = _
    rw [MainState.perform, hJoin]
  | joinBrowserThread hChoice hJoin =>
    rcases hChoice with rfl | rfl
    all_goals
      show s.perform rule .joinBrowserThread = _
      rw [MainState.perform, hJoin]
  | createProcess input => rfl
  | printActive hIndex =>
    show s.perform rule (.printActive s.menuArgument) = _
    rw [MainState.perform, List.getElem?_eq_getElem hIndex]
  | terminateActive hThread hJoin hIndex =>
    show s.perform rule .terminateActive = _
    rw [MainState.perform, MainState.joinActive, hThread]
    simp only [hJoin, KernelState.terminateActive, KernelState.eraseActive, if_pos hIndex,
      join_ok hJoin]
  | other hChoice =>
    rename_i wybor input
    have hDispatched := menuAction_dispatched s.menuArgument wybor input
    rw [MainState.mainStep]
    generalize menuAction s.menuArgument wybor input = action at hDispatched
    cases hDispatched with
    | customSystemCallHandler => rfl
    | invalidChoice hOther => rfl
    | _ => omega

/-- What choice 7 does to the table, the index, the memory and the threads. -/
theorem mainStep_terminate {rule : JoinRule} {s t : MainState} {input : NewProcess}
    (hStep : MainStep rule s (.choice 7 input) t) :
    s.activeProcessIndex < s.processes.length ∧
      t.processes = s.processes.eraseIdx s.activeProcessIndex ∧ t.activeProcessIndex = 0 ∧
      t.memoryManager = s.memoryManager ∧ t.threads.length = s.threads.length := by
  obtain ⟨thread, thread', -, -, hIndex, rfl⟩ := perform_terminateActive_ok hStep
  exact ⟨hIndex, rfl, rfl, rfl, List.length_set⟩

/-- Choice 5 runs `createProcess`, granted or refused. -/
theorem mainStep_create {rule : JoinRule} {s t : MainState} {input : NewProcess}
    (hStep : MainStep rule s (.choice 5 input) t) :
    t = { s with toKernelState := s.toKernelState.createProcess input, menuIndex := none } :=
  (Except.ok.inj hStep).symm

/-- A step has one result. -/
theorem mainStep_unique {rule : JoinRule} (s : MainState) (e : MainEvent) (t u : MainState)
    (ht : MainStep rule s e t) (hu : MainStep rule s e u) : t = u :=
  Except.ok.inj (ht.symm.trans hu)

-- ---------------------------------------------------------------------------
-- `kernel_main` over the process table
-- ---------------------------------------------------------------------------

/-- Every step of `kernel_main` is a step of the process table, or leaves the
table, the active index and the memory as they are. -/
theorem mainStep_table {rule : JoinRule} {s t : MainState} {e : MainEvent}
    (h : MainStep rule s e t) :
    (∃ te, TableStep s.toKernelState te t.toKernelState) ∨ t.toKernelState = s.toKernelState := by
  cases mainStep_effect h with
  | tick hSize => exact Or.inl ⟨.tick, scheduler_of_pos hSize⟩
  | callMenu => exact Or.inr rfl
  | joinProcessThreads hJoin => exact Or.inr rfl
  | joinBrowserThread hChoice hJoin => exact Or.inr rfl
  | createProcess input => exact Or.inl ⟨.createProcess input, rfl⟩
  | printActive hIndex => exact Or.inr rfl
  | terminateActive hThread hJoin hIndex =>
    refine Or.inl ⟨.terminate s.activeProcessIndex, ?_⟩
    simp [TableStep, KernelState.tableStep, KernelState.terminateActive, KernelState.eraseActive,
      hIndex]
  | other hChoice => exact Or.inr rfl

/-- The table's part of a run of `kernel_main` is a run of the table. -/
theorem main_table_run {rule : JoinRule} {s t : MainState} {es : List MainEvent}
    (h : Steps (MainStep rule) s es t) :
    ∃ tes, Steps TableStep s.toKernelState tes t.toKernelState := by
  induction es generalizing s with
  | nil => exact ⟨[], by rw [steps_nil.mp h]; rfl⟩
  | cons e es ih =>
    obtain ⟨u, hu, ht⟩ := h
    obtain ⟨tes, hRun⟩ := ih ht
    rcases mainStep_table hu with ⟨te, hTe⟩ | hSame
    · exact ⟨te :: tes, u.toKernelState, hTe, hRun⟩
    · exact ⟨tes, hSame ▸ hRun⟩

end MultiOS
