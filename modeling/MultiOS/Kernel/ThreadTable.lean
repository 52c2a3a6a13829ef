import MultiOS.Kernel.Steps

/-!
# MultiOS — the thread table and the process table

`kernel_main` keeps two vectors side by side, `threads` and `processes`, and
uses one index for both: case 7 joins `threads[activeProcessIndex]` and erases
`processes[activeProcessIndex]`. At boot `threads[i]` runs `processes[i]`.
`createProcess` appends to `processes` only, and a termination erases from
`processes` only, so the first of either breaks the correspondence for good.

`threads_follow_iff` is the exact condition on the input: every process asked
for is refused, because it wants more than the 64 KiB there are, and nothing
is terminated.
-/

namespace MultiOS

open Lib

/-- The two vectors have one length and at each index the thread is the one
started to execute the process stored there. -/
structure ThreadsFollow (s : MainState) : Prop where
  length_eq : s.threads.length = s.processes.length
  runs : ∀ (i : Nat) (thread : StdThread) (process : Process),
    s.threads[i]? = some thread → s.processes[i]? = some process →
      thread.task = .execute process

/-- The event terminates nothing, and creates nothing that fits. -/
def KeepsTables (e : MainEvent) : Prop :=
  (∀ input, e = .choice 5 input → 64 * 1024 < input.requiredMemory) ∧
  ∀ input, e ≠ .choice 7 input

/-- The process table, the memory and the tasks are those of the boot state. -/
structure TablesAsBooted (s : MainState) : Prop where
  processes : s.processes = MainState.boot.processes
  memory : s.memoryManager = MainState.boot.memoryManager
  tasks : s.threads.map StdThread.task = MainState.boot.processes.map Task.execute

theorem TablesAsBooted.boot : TablesAsBooted MainState.boot := ⟨rfl, rfl, rfl⟩

theorem TablesAsBooted.threads_length {s : MainState} (h : TablesAsBooted s) :
    s.threads.length = 2 := by
  have hLen := congrArg List.length h.tasks
  rw [List.length_map, List.length_map] at hLen
  exact hLen

theorem TablesAsBooted.threadsFollow {s : MainState} (h : TablesAsBooted s) :
    ThreadsFollow s := by
  refine ⟨?_, ?_⟩
  · rw [h.threads_length, h.processes]
    rfl
  · intro i thread process hThread hProcess
    have hTask : (s.threads.map StdThread.task)[i]? = some thread.task := by
      rw [List.getElem?_map, hThread]
      rfl
    rw [h.tasks, ← h.processes, List.getElem?_map, hProcess] at hTask
    exact (Option.some.inj hTask).symm

/-- The boot memory admits the requests up to its size. -/
theorem boot_admits_iff (size : Int) :
    MainState.boot.memoryManager.Admits size ↔ size ≤ 64 * 1024 := by
  simp [MemoryManager.Admits, MainState.boot, MainState.kernelMain, KernelState.boot,
    MemoryManager.new]

theorem boot_starts_ne_failed :
    MemoryManager.allocationFailed ∉ MainState.boot.memoryManager.starts := by decide

/-- `createProcess` on the boot memory appends a process, or the request is
larger than the memory. -/
theorem TablesAsBooted.createProcess_cases {s : MainState} (h : TablesAsBooted s)
    (input : NewProcess) :
    (input.requiredMemory ≤ 64 * 1024 ∧
      (s.toKernelState.createProcess input).processes.length = 3) ∨
    (64 * 1024 < input.requiredMemory ∧ s.toKernelState.createProcess input = s.toKernelState) := by
  have hStarts : MemoryManager.allocationFailed ∉ s.memoryManager.starts :=
    h.memory ▸ boot_starts_ne_failed
  rcases MultiOS.createProcess_cases s.toKernelState input hStarts with
    ⟨block, m', hAlloc, hEq⟩ | ⟨hNot, hEq⟩
  · left
    have hFits := hAlloc.admits
    rw [h.memory, boot_admits_iff] at hFits
    refine ⟨hFits, ?_⟩
    rw [hEq]
    show (s.processes ++ [s.toKernelState.created input block.startAddress]).length = 3
    rw [List.length_append, h.processes]
    rfl
  · right
    rw [h.memory, boot_admits_iff] at hNot
    exact ⟨by omega, hEq⟩

/-- A joined thread runs the task it was started on. -/
theorem tasks_map_joined (threads : List StdThread) :
    (threads.map fun thread => { thread with joinable := false }).map StdThread.task =
      threads.map StdThread.task := by
  rw [List.map_map]
  rfl

theorem TablesAsBooted.step {rule : JoinRule} {s t : MainState} {e : MainEvent}
    (h : TablesAsBooted s) (hKeeps : KeepsTables e) (hStep : MainStep rule s e t) :
    TablesAsBooted t := by
  cases mainStep_effect hStep with
  | tick hSize => exact ⟨h.processes, h.memory, h.tasks⟩
  | callMenu => exact ⟨h.processes, h.memory, h.tasks⟩
  | joinProcessThreads hJoin =>
    refine ⟨h.processes, h.memory, ?_⟩
    rw [joinAll_ok hJoin]
    exact (tasks_map_joined s.threads).trans h.tasks
  | joinBrowserThread hChoice hJoin => exact ⟨h.processes, h.memory, h.tasks⟩
  | createProcess input =>
    have hTooLarge := hKeeps.1 input rfl
    rcases h.createProcess_cases input with ⟨hFits, -⟩ | ⟨-, hSame⟩
    · omega
    · rw [hSame]
      exact ⟨h.processes, h.memory, h.tasks⟩
  | printActive hIndex => exact ⟨h.processes, h.memory, h.tasks⟩
  | terminateActive hThread hJoin hIndex => exact absurd rfl (hKeeps.2 _)
  | other hChoice => exact ⟨h.processes, h.memory, h.tasks⟩

/-- The first process created or terminated leaves the vectors of different
lengths. -/
theorem TablesAsBooted.breaks {rule : JoinRule} {s t : MainState} {e : MainEvent}
    (h : TablesAsBooted s) (hChanges : ¬ KeepsTables e) (hStep : MainStep rule s e t) :
    ¬ ThreadsFollow t := by
  intro hFollow
  have hTwo := h.threads_length
  have hLen := hFollow.length_eq
  rw [KeepsTables, not_and_or] at hChanges
  rcases hChanges with hCreate | hTerminate
  · simp only [not_forall] at hCreate
    obtain ⟨input, rfl, hFits⟩ := hCreate
    rcases h.createProcess_cases input with ⟨-, hThree⟩ | ⟨hTooLarge, -⟩
    · have hEq : s.threads.length = (s.toKernelState.createProcess input).processes.length := by
        rw [mainStep_create hStep] at hLen
        exact hLen
      omega
    · omega
  · simp only [not_forall, not_ne_iff] at hTerminate
    obtain ⟨input, rfl⟩ := hTerminate
    obtain ⟨hIndex, hProcs, -, -, hThreads⟩ := mainStep_terminate hStep
    rw [hThreads, hProcs, List.length_eraseIdx_of_lt hIndex, h.processes] at hLen
    rw [hLen] at hTwo
    cases hTwo

/--
**The thread table follows the process table.** Along a run of `kernel_main`,
every state reached has `threads` and `processes` of one length with
`threads[i]` started on `processes[i]`, exactly when each process the run asks
for wants more than 64 KiB and no process is terminated.
-/
theorem threads_follow_iff (rule : JoinRule) (es : List MainEvent) :
    Always (MainStep rule) MainState.boot es ThreadsFollow ↔
      EachStep (MainStep rule) MainState.boot es fun _ _ e => KeepsTables e := by
  apply always_iff_eachStep TablesAsBooted
  · exact TablesAsBooted.boot
  · exact fun s h => h.threadsFollow
  · exact fun fs s e t _ h hC hStep => h.step hC hStep
  · exact fun fs s e t _ h hC hStep => h.breaks hC hStep

/-- A created process has no thread. -/
theorem threads_follow_fails :
    ¬ Always (MainStep .checked) MainState.boot [.choice 5 ⟨"a", 1, 100⟩] ThreadsFollow := by
  intro h
  have hRun : ∃ s, Steps (MainStep .checked) MainState.boot [.choice 5 ⟨"a", 1, 100⟩] s ∧
      s.threads.length = 2 ∧ s.processes.length = 3 := ⟨_, ⟨_, rfl, rfl⟩, rfl, rfl⟩
  obtain ⟨s, hs, hTwo, hThree⟩ := hRun
  have hLen := (h.final hs).length_eq
  omega

end MultiOS
