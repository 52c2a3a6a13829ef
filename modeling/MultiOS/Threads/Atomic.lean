import MultiOS.Kernel.ThreadLife
import MultiOS.Threads.Locks

/-!
# MultiOS — the statements against the atomic steps

`Model/Kernel.lean` takes a pass of `scheduler` and every body of the menu as
one step. A run of the statements is such a run, each step taken where its
last write is (`commits`), with one exception: `createProcess` appends to the
table without the mutex, and if it does so after `scheduler` has computed the
new index from the old size and before it stores it, the pass is torn
(`TableStable` excludes it).

* `threads_refine` — a run that is not torn is the atomic run of its commits.
* `Pending` — what a body that has not committed has changed so far.
-/

namespace MultiOS

open Lib

namespace ThreadState

/-- The atomic step that a statement completes, if it completes one. -/
def commits (s : ThreadState) : ThreadEvent → List MainEvent
  | .scheduler =>
    match s.scheduler with
    | .store _ => [.tick]
    | _ => []
  | .schedulerBySystemCalls => []
  | .menu wybor input =>
    match s.menu with
    | .call => [.callMenu]
    | .choose => if wybor = 6 ∨ wybor ≤ 0 ∨ 8 ≤ wybor then [.choice wybor input] else []
    | .joinProcess i => if i < s.main.threads.length then [] else [.choice 1 input]
    | .joinBrowser chosen => [.choice chosen input]
    | .allocate new =>
      if (s.main.memoryManager.allocateMemory new.requiredMemory).1 ≠ MemoryManager.allocationFailed
      then [] else [.choice 5 new]
    | .emplace new _ => [.choice 5 new]
    | .reset => [.choice 7 input]
    | _ => []
  | .process _ => []

/-- `createProcess` does not append while `scheduler` is about to store an
index that it computed from the size. -/
def TableStable (s : ThreadState) (e : ThreadEvent) : Prop :=
  ∀ wybor input new allocatedMemory i, e = .menu wybor input → s.menu = .emplace new allocatedMemory →
    s.scheduler ≠ .store i

/-- A statement of `scheduler` appends nothing. -/
theorem tableStable_scheduler (s : ThreadState) : s.TableStable .scheduler := by
  intro wybor input new allocatedMemory i hEvent
  simp at hEvent

/-- Away from the store of `scheduler` an append tears no pass. -/
theorem tableStable_of_not_store {s : ThreadState} (h : ∀ i, s.scheduler ≠ .store i)
    (e : ThreadEvent) : s.TableStable e := by
  intro wybor input new allocatedMemory i _ _
  exact h i

end ThreadState

/-- What `scheduler` has computed, in terms of the committed state. -/
def SchedulerAt.Computed (m : MainState) : SchedulerAt → Prop
  | .loadSize i => i = m.activeProcessIndex
  | .store i =>
    0 < m.processes.length ∧ i = (m.activeProcessIndex + 1) % m.processes.length
  | _ => True

/-- The shared variables at a position of the menu's thread, in terms of the
committed state: what the body has done so far. -/
inductive Pending (m : MainState) : MenuAt → MainState → Prop where
  | call (hMenu : m.menuIndex = none) : Pending m .call m
  | choose : Pending m .choose m
  | joinProcess {done rest : List StdThread} (hThreads : m.threads = done ++ rest)
      (hJoinable : ∀ thread ∈ done, thread.joinable = true) :
      Pending m (.joinProcess done.length)
        { m with threads := done.map (fun thread => { thread with joinable := false }) ++ rest }
  | joinBrowser {chosen : Int} (hChoice : chosen = 2 ∨ chosen = 3) :
      Pending m (.joinBrowser chosen) m
  | allocate (new : NewProcess) : Pending m (.allocate new) m
  | emplace {new : NewProcess} {allocatedMemory : Int} {memoryManager : MemoryManager}
      (hAllocate : m.memoryManager.allocateMemory new.requiredMemory =
        (allocatedMemory, memoryManager))
      (hOk : allocatedMemory ≠ MemoryManager.allocationFailed) :
      Pending m (.emplace new allocatedMemory) { m with memoryManager }
  | lock : Pending m .lock m
  | loadActive : Pending m .loadActive m
  | join : Pending m (.join m.activeProcessIndex) m
  | erase {thread : StdThread} (hThread : m.threads[m.activeProcessIndex]? = some thread)
      (hJoinable : thread.joinable = true) :
      Pending m .erase
        { m with threads := m.threads.set m.activeProcessIndex { thread with joinable := false } }
  | reset {thread : StdThread} (hThread : m.threads[m.activeProcessIndex]? = some thread)
      (hJoinable : thread.joinable = true) (hIndex : m.activeProcessIndex < m.processes.length) :
      Pending m .reset
        { m with
          threads := m.threads.set m.activeProcessIndex { thread with joinable := false }
          processes := m.processes.eraseIdx m.activeProcessIndex }
  | unlock (hMenu : m.menuIndex = none) (menuIndex : Option Nat) :
      Pending m .unlock { m with menuIndex }

/-- A state of the threads and the atomic state it has committed to. -/
structure Committed (s : ThreadState) (m : MainState) : Prop where
  guarded : s.locks.Guarded guards
  computed : s.scheduler.Computed m
  pending : Pending m s.menu s.main

-- ---------------------------------------------------------------------------
-- Outside the locked section of case 7
-- ---------------------------------------------------------------------------

/-- The menu's thread outside its locked section has not touched what
`scheduler` reads. -/
theorem Pending.shared {m x : MainState} {menu : MenuAt} (h : Pending m menu x)
    (hOut : (menu.point x.activeProcessIndex).guards = 0) :
    x.activeProcessIndex = m.activeProcessIndex ∧ x.processes = m.processes := by
  cases h with
  | reset hThread hJoinable hIndex => simp [MenuAt.point, MenuPoint.guards] at hOut
  | _ => exact ⟨rfl, rfl⟩

/-- Storing the index then does not disturb the body in progress. -/
theorem Pending.tick {m x : MainState} {menu : MenuAt} (h : Pending m menu x)
    (hOut : (menu.point x.activeProcessIndex).guards = 0) (i : Nat) :
    Pending { m with activeProcessIndex := i } menu { x with activeProcessIndex := i } := by
  cases h with
  | call hMenu => exact .call hMenu
  | choose => exact .choose
  | joinProcess hThreads hJoinable =>
    exact .joinProcess (m := { m with activeProcessIndex := i }) hThreads hJoinable
  | joinBrowser hChoice => exact .joinBrowser hChoice
  | allocate new => exact .allocate new
  | emplace hAllocate hOk =>
    exact .emplace (m := { m with activeProcessIndex := i }) hAllocate hOk
  | lock => exact .lock
  | loadActive => simp [MenuAt.point, MenuPoint.guards] at hOut
  | join => simp [MenuAt.point, MenuPoint.guards] at hOut
  | erase hThread hJoinable => simp [MenuAt.point, MenuPoint.guards] at hOut
  | reset hThread hJoinable hIndex => simp [MenuAt.point, MenuPoint.guards] at hOut
  | unlock hMenu menuIndex => simp [MenuAt.point, MenuPoint.guards] at hOut

/-- Outside its locked section `scheduler` has computed nothing. -/
theorem SchedulerAt.computed_of_out {scheduler : SchedulerAt} (h : scheduler.point.guards = 0)
    (m : MainState) : scheduler.Computed m := by
  cases scheduler with
  | loadSize i => simp [SchedulerAt.point, SchedulerPoint.guards] at h
  | store i => simp [SchedulerAt.point, SchedulerPoint.guards] at h
  | _ => trivial

/-- The computation stands if the committed index and table do. -/
theorem SchedulerAt.Computed.congr {scheduler : SchedulerAt} {m m' : MainState}
    (h : scheduler.Computed m) (hIndex : m'.activeProcessIndex = m.activeProcessIndex)
    (hProcesses : m'.processes = m.processes) : scheduler.Computed m' := by
  cases scheduler with
  | loadSize i => exact h.trans hIndex.symm
  | store i =>
    unfold SchedulerAt.Computed at h ⊢
    rw [hIndex, hProcesses]
    exact h
  | _ => trivial

/-- Before the size is read, the computation does not depend on the table. -/
theorem SchedulerAt.Computed.of_not_store {scheduler : SchedulerAt} {m m' : MainState}
    (h : scheduler.Computed m) (hNot : ∀ i, scheduler ≠ .store i)
    (hIndex : m'.activeProcessIndex = m.activeProcessIndex) : scheduler.Computed m' := by
  cases scheduler with
  | loadSize i => exact h.trans hIndex.symm
  | store i => exact absurd rfl (hNot i)
  | _ => trivial

-- ---------------------------------------------------------------------------
-- The parts of a body
-- ---------------------------------------------------------------------------

/-- The append of case 5 completes `createProcess`. -/
theorem createProcess_emplaced {k : KernelState} {new : NewProcess} {allocatedMemory : Int}
    {memoryManager : MemoryManager}
    (hAllocate : k.memoryManager.allocateMemory new.requiredMemory =
      (allocatedMemory, memoryManager))
    (hOk : allocatedMemory ≠ MemoryManager.allocationFailed) :
    k.createProcess new =
      { k with processes := emplaceBack k.processes new allocatedMemory, memoryManager } := by
  simp only [KernelState.createProcess, hAllocate, emplaceBack, ne_eq, hOk, not_false_eq_true,
    if_true]

/-- A refused request leaves only what the search did to the blocks. -/
theorem createProcess_refused {k : KernelState} {new : NewProcess}
    {memoryManager : MemoryManager}
    (hAllocate : k.memoryManager.allocateMemory new.requiredMemory =
      (MemoryManager.allocationFailed, memoryManager)) :
    k.createProcess new = { k with memoryManager } := by
  simp [KernelState.createProcess, hAllocate]

/-- Case 1 begins. -/
theorem Pending.joinStart (m : MainState) : Pending m (.joinProcess 0) m :=
  @Pending.joinProcess m [] m.threads rfl (by simp)

/-- One more thread joined by case 1. -/
theorem Pending.joinNext {m x : MainState} {i : Nat} {thread : StdThread}
    (h : Pending m (.joinProcess i) x) (hThread : x.threads[i]? = some thread)
    (hJoinable : thread.joinable = true) :
    Pending m (.joinProcess (i + 1))
      { x with threads := x.threads.set i { thread with joinable := false } } := by
  generalize hMenu : MenuAt.joinProcess i = menu at h
  cases h with
  | joinProcess hThreads hDone =>
    rename_i done rest
    obtain rfl := MenuAt.joinProcess.inj hMenu
    -- the thread at `i` is the first that is not joined yet
    have hRest : rest[0]? = some thread := by
      have hAt := hThread
      rw [List.getElem?_append_right (by simp), List.length_map, Nat.sub_self] at hAt
      exact hAt
    obtain ⟨later, rfl⟩ : ∃ later, rest = thread :: later := by
      cases rest with
      | nil => simp at hRest
      | cons first later => exact ⟨later, by rw [Option.some.inj hRest]⟩
    have hSplit : m.threads = (done ++ [thread]) ++ later := by
      rw [hThreads, List.append_assoc]
      rfl
    have hAll : ∀ joined ∈ done ++ [thread], joined.joinable = true := by
      intro joined hMem
      rcases List.mem_append.mp hMem with hOld | hNew
      · exact hDone joined hOld
      · exact List.mem_singleton.mp hNew ▸ hJoinable
    have hNext := Pending.joinProcess hSplit hAll
    rw [List.length_append, List.length_singleton, List.map_append, List.map_singleton,
      List.append_assoc] at hNext
    rw [List.set_append_right _ _ (by simp), List.length_map, Nat.sub_self]
    exact hNext
  | _ => simp at hMenu

/-- All threads joined by case 1. -/
theorem Pending.joinAll {m x : MainState} {i : Nat} (h : Pending m (.joinProcess i) x)
    (hEnd : x.threads.length ≤ i) :
    ∃ threads, joinAll .checked m.threads = .ok threads ∧ x = { m with threads } := by
  generalize hMenu : MenuAt.joinProcess i = menu at h
  cases h with
  | joinProcess hThreads hDone =>
    rename_i done rest
    obtain rfl := MenuAt.joinProcess.inj hMenu
    have hRest : rest = [] := by
      rw [List.length_append, List.length_map] at hEnd
      exact List.length_eq_zero_iff.mp (by omega)
    obtain rfl := hRest
    rw [List.append_nil] at hThreads
    obtain ⟨threads, hJoin⟩ := (joinAll_checked_iff m.threads).mpr (hThreads ▸ hDone)
    refine ⟨threads, hJoin, ?_⟩
    rw [joinAll_ok hJoin, hThreads, List.append_nil]
  | _ => simp at hMenu

-- ---------------------------------------------------------------------------
-- One statement
-- ---------------------------------------------------------------------------

/-- The committed state answers a statement by the atomic steps that it completes. -/
def Answered (m : MainState) (s : ThreadState) (e : ThreadEvent) (t : ThreadState) : Prop :=
  ∃ m', Steps (MainStep .checked) m (s.commits e) m' ∧ Committed t m'

section
variable {s t : ThreadState} {m m' : MainState}

/-- A statement that completes nothing. -/
theorem Committed.silent {e : ThreadEvent} (h : Committed s m) (hStep : ThreadStep s e t)
    (hShown : s.commits e = []) (hComputed : t.scheduler.Computed m)
    (hPending : Pending m t.menu t.main) :
    Answered m s e t := by
  unfold Answered
  rw [hShown]
  exact ⟨m, rfl, ThreadState.Guarded.step h.guarded hStep, hComputed, hPending⟩

/-- A statement that completes an atomic step. -/
theorem Committed.commit {e : ThreadEvent} {c : MainEvent} (h : Committed s m)
    (hStep : ThreadStep s e t) (hShown : s.commits e = [c]) (hEffect : MainEffect .checked m c m')
    (hComputed : t.scheduler.Computed m') (hPending : Pending m' t.menu t.main) :
    Answered m s e t := by
  unfold Answered
  rw [hShown]
  exact ⟨m', ⟨m', mainStep_of_effect hEffect, rfl⟩, ThreadState.Guarded.step h.guarded hStep,
    hComputed, hPending⟩

/-- A pass of `scheduler` is complete at its store: inside the locked section
the menu's thread has not touched what the index was computed from. -/
theorem Committed.scheduler_step (h : Committed s m) (hStep : ThreadStep s .scheduler t) :
    Answered m s .scheduler t := by
  have hComputed := h.computed
  cases threadStep_effect hStep with
  | sleep hAt => exact h.silent hStep (by rw [ThreadState.commits, hAt]) trivial h.pending
  | lock hAt hFree => exact h.silent hStep (by rw [ThreadState.commits, hAt]) trivial h.pending
  | loadIndex hAt =>
    have hOut := ThreadState.menu_out h.guarded (by simp [hAt, SchedulerAt.point,
      SchedulerPoint.guards])
    exact h.silent hStep (by rw [ThreadState.commits, hAt]) (h.pending.shared hOut).1 h.pending
  | loadSize hAt hSize =>
    have hOut := ThreadState.menu_out h.guarded (by simp [hAt, SchedulerAt.point,
      SchedulerPoint.guards])
    obtain ⟨-, hProcesses⟩ := h.pending.shared hOut
    rw [hAt] at hComputed
    obtain rfl := hComputed
    rw [hProcesses] at hSize
    exact h.silent hStep (by rw [ThreadState.commits, hAt]) ⟨hSize, by rw [hProcesses]⟩ h.pending
  | store hAt =>
    have hOut := ThreadState.menu_out h.guarded (by simp [hAt, SchedulerAt.point,
      SchedulerPoint.guards])
    rw [hAt] at hComputed
    obtain ⟨hSize, rfl⟩ := hComputed
    exact h.commit hStep (by rw [ThreadState.commits, hAt]) (.tick hSize) trivial
      (h.pending.tick hOut _)
  | announce hAt hIndex =>
    exact h.silent hStep (by rw [ThreadState.commits, hAt]) trivial h.pending
  | unlock hAt hOwner =>
    exact h.silent hStep (by rw [ThreadState.commits, hAt]) trivial h.pending

section
variable {wybor : Int} {input : NewProcess}

/-- `pokazMenu` is called with a copy of the index. -/
theorem Committed.call_step (h : Committed s m) (hAt : s.menu = .call)
    (hStep : ThreadStep s (.menu wybor input) t) :
    Answered m s (.menu wybor input) t := by
  have hPending := h.pending
  obtain ⟨x, owner, scheduler, systemCalls, menu, left⟩ := s
  obtain rfl : menu = .call := hAt
  cases hPending with
  | call hMenu =>
    cases threadStep_effect hStep with
    | call =>
      refine h.commit hStep rfl .callMenu (h.computed.congr rfl rfl) ?_
      rw [MainState.menuArgument, hMenu]
      exact .choose
    | _ => contradiction

/-- A choice that leads to no shared variable is complete at once. -/
theorem Committed.choose_step (h : Committed s m) (hAt : s.menu = .choose)
    (hStep : ThreadStep s (.menu wybor input) t) :
    Answered m s (.menu wybor input) t := by
  have hPending := h.pending
  obtain ⟨x, owner, scheduler, systemCalls, menu, left⟩ := s
  obtain rfl : menu = .choose := hAt
  cases hPending with
  | choose =>
    cases threadStep_effect hStep with
    | chooseJoin => exact h.silent hStep rfl h.computed (.joinStart _)
    | chooseBrowser _ hChoice =>
      exact h.silent hStep (if_neg (by omega)) h.computed (.joinBrowser hChoice)
    | chooseCreate => exact h.silent hStep rfl h.computed (.allocate input)
    | chooseShow _ hIndex =>
      exact h.commit hStep rfl (.printActive hIndex) (h.computed.congr rfl rfl) .choose
    | chooseTerminate => exact h.silent hStep rfl h.computed .lock
    | chooseOther _ hChoice =>
      exact h.commit hStep (if_pos (by omega)) (.other hChoice) (h.computed.congr rfl rfl)
        (.call rfl)
    | _ => contradiction

/-- Case 1 is complete when the last thread was joined. -/
theorem Committed.joinProcess_step {i : Nat} (h : Committed s m) (hAt : s.menu = .joinProcess i)
    (hStep : ThreadStep s (.menu wybor input) t) :
    Answered m s (.menu wybor input) t := by
  have hPending := h.pending
  obtain ⟨x, owner, scheduler, systemCalls, menu, left⟩ := s
  obtain rfl : menu = .joinProcess i := hAt
  cases threadStep_effect hStep with
  | joinProcess hAt hThread hJoinable hLeft =>
    cases hAt
    have hLt : i < x.threads.length := (List.getElem?_eq_some_iff.mp hThread).1
    exact h.silent hStep (if_pos hLt) h.computed (hPending.joinNext hThread hJoinable)
  | joinedAll hAt hEnd =>
    cases hAt
    obtain ⟨threads, hJoin, rfl⟩ := hPending.joinAll hEnd
    exact h.commit hStep (if_neg (Nat.not_lt.mpr hEnd)) (.joinProcessThreads hJoin)
      (h.computed.congr rfl rfl) (.call rfl)
  | _ => contradiction

/-- Cases 2 and 3 are complete when `browserThread.join()` returns. -/
theorem Committed.joinBrowser_step {chosen : Int} (h : Committed s m)
    (hAt : s.menu = .joinBrowser chosen) (hStep : ThreadStep s (.menu wybor input) t) :
    Answered m s (.menu wybor input) t := by
  have hPending := h.pending
  obtain ⟨x, owner, scheduler, systemCalls, menu, left⟩ := s
  obtain rfl : menu = .joinBrowser chosen := hAt
  cases hPending with
  | joinBrowser hChoice =>
    cases threadStep_effect hStep with
    | joinBrowser hAt hJoin =>
      cases hAt
      exact h.commit hStep rfl (.joinBrowserThread hChoice hJoin) (h.computed.congr rfl rfl)
        (.call rfl)
    | _ => contradiction

/-- A request that is refused completes `createProcess`; one that is granted leaves the
append to be done. -/
theorem Committed.allocate_step {new : NewProcess} (h : Committed s m)
    (hAt : s.menu = .allocate new) (hStep : ThreadStep s (.menu wybor input) t) :
    Answered m s (.menu wybor input) t := by
  have hPending := h.pending
  obtain ⟨x, owner, scheduler, systemCalls, menu, left⟩ := s
  obtain rfl : menu = .allocate new := hAt
  cases hPending with
  | allocate =>
    cases threadStep_effect hStep with
    | allocate hAt hAllocate hOk =>
      cases hAt
      refine h.silent hStep ?_ h.computed (.emplace hAllocate hOk)
      simp [ThreadState.commits, hAllocate, hOk]
    | refuse hAt hAllocate =>
      cases hAt
      refine h.commit hStep ?_ (.createProcess new) (h.computed.congr ?_ ?_) ?_
      · simp [ThreadState.commits, hAllocate]
      · rw [createProcess_refused hAllocate]
      · rw [createProcess_refused hAllocate]
      · rw [createProcess_refused hAllocate]
        exact .call rfl
    | _ => contradiction

/-- The append completes `createProcess`, unless `scheduler` is about to store an index. -/
theorem Committed.emplace_step {new : NewProcess} {allocatedMemory : Int} (h : Committed s m)
    (hStable : s.TableStable (.menu wybor input)) (hAt : s.menu = .emplace new allocatedMemory)
    (hStep : ThreadStep s (.menu wybor input) t) :
    Answered m s (.menu wybor input) t := by
  have hPending := h.pending
  obtain ⟨x, owner, scheduler, systemCalls, menu, left⟩ := s
  obtain rfl : menu = .emplace new allocatedMemory := hAt
  cases hPending with
  | emplace hAllocate hOk =>
    cases threadStep_effect hStep with
    | emplace hAt =>
      cases hAt
      refine h.commit hStep rfl (.createProcess new) (h.computed.of_not_store ?_ ?_) ?_
      · intro i
        exact hStable wybor input new allocatedMemory i rfl rfl
      · rw [createProcess_emplaced hAllocate hOk]
      · rw [createProcess_emplaced hAllocate hOk]
        exact .call rfl
    | _ => contradiction

/-- Taking the mutex changes no shared variable. -/
theorem Committed.lock_step (h : Committed s m) (hAt : s.menu = .lock)
    (hStep : ThreadStep s (.menu wybor input) t) :
    Answered m s (.menu wybor input) t := by
  have hPending := h.pending
  obtain ⟨x, owner, scheduler, systemCalls, menu, left⟩ := s
  obtain rfl : menu = .lock := hAt
  cases hPending with
  | lock =>
    cases threadStep_effect hStep with
    | lockMenu => exact h.silent hStep rfl h.computed .loadActive
    | _ => contradiction

/-- Case 7 reads the committed index. -/
theorem Committed.loadActive_step (h : Committed s m) (hAt : s.menu = .loadActive)
    (hStep : ThreadStep s (.menu wybor input) t) :
    Answered m s (.menu wybor input) t := by
  have hPending := h.pending
  obtain ⟨x, owner, scheduler, systemCalls, menu, left⟩ := s
  obtain rfl : menu = .loadActive := hAt
  cases hPending with
  | loadActive =>
    cases threadStep_effect hStep with
    | loadActive => exact h.silent hStep rfl h.computed .join
    | _ => contradiction

/-- The join of case 7 is kept pending until the reset. -/
theorem Committed.join_step {i : Nat} (h : Committed s m) (hAt : s.menu = .join i)
    (hStep : ThreadStep s (.menu wybor input) t) :
    Answered m s (.menu wybor input) t := by
  have hPending := h.pending
  obtain ⟨x, owner, scheduler, systemCalls, menu, left⟩ := s
  obtain rfl : menu = .join i := hAt
  change Pending m (.join i) x at hPending
  cases hPending with
  | join =>
    cases threadStep_effect hStep with
    | join hAt hThread hJoinable =>
      cases hAt
      exact h.silent hStep rfl h.computed (.erase hThread hJoinable)
    | _ => contradiction

/-- So is the erase. -/
theorem Committed.erase_step (h : Committed s m) (hAt : s.menu = .erase)
    (hStep : ThreadStep s (.menu wybor input) t) :
    Answered m s (.menu wybor input) t := by
  have hPending := h.pending
  obtain ⟨x, owner, scheduler, systemCalls, menu, left⟩ := s
  obtain rfl : menu = .erase := hAt
  cases hPending with
  | erase hThread hJoinable =>
    cases threadStep_effect hStep with
    | erase _ hIndex => exact h.silent hStep rfl h.computed (.reset hThread hJoinable hIndex)
    | _ => contradiction

/-- The reset of the index completes case 7; `scheduler` is outside its locked section. -/
theorem Committed.reset_step (h : Committed s m) (hAt : s.menu = .reset)
    (hStep : ThreadStep s (.menu wybor input) t) :
    Answered m s (.menu wybor input) t := by
  have hPending := h.pending
  obtain ⟨x, owner, scheduler, systemCalls, menu, left⟩ := s
  obtain rfl : menu = .reset := hAt
  have hOut := ThreadState.scheduler_out h.guarded Nat.one_pos
  cases hPending with
  | reset hThread hJoinable hIndex =>
    cases threadStep_effect hStep with
    | reset =>
      exact h.commit hStep rfl (.terminateActive hThread (join_of_joinable hJoinable) hIndex)
        (SchedulerAt.computed_of_out hOut _) (.unlock rfl _)
    | _ => contradiction

/-- Back at the loop `menuIndex` is gone, as the reset already committed. -/
theorem Committed.unlock_step (h : Committed s m) (hAt : s.menu = .unlock)
    (hStep : ThreadStep s (.menu wybor input) t) :
    Answered m s (.menu wybor input) t := by
  have hPending := h.pending
  obtain ⟨x, owner, scheduler, systemCalls, menu, left⟩ := s
  obtain rfl : menu = .unlock := hAt
  cases hPending with
  | unlock hMenu menuIndex =>
    cases threadStep_effect hStep with
    | unlockMenu =>
      have hMain : { m with menuIndex := none } = m := by rw [← hMenu]
      refine h.silent hStep rfl h.computed ?_
      show Pending m .call { m with menuIndex := none }
      rw [hMain]
      exact .call hMenu
    | _ => contradiction

/-- One statement of the menu's thread. -/
theorem Committed.menu_step (h : Committed s m) (hStable : s.TableStable (.menu wybor input))
    (hStep : ThreadStep s (.menu wybor input) t) :
    Answered m s (.menu wybor input) t := by
  cases hAt : s.menu with
  | call => exact h.call_step hAt hStep
  | choose => exact h.choose_step hAt hStep
  | joinProcess i => exact h.joinProcess_step hAt hStep
  | joinBrowser chosen => exact h.joinBrowser_step hAt hStep
  | allocate new => exact h.allocate_step hAt hStep
  | emplace new allocatedMemory => exact h.emplace_step hStable hAt hStep
  | lock => exact h.lock_step hAt hStep
  | loadActive => exact h.loadActive_step hAt hStep
  | join i => exact h.join_step hAt hStep
  | erase => exact h.erase_step hAt hStep
  | reset => exact h.reset_step hAt hStep
  | unlock => exact h.unlock_step hAt hStep

end

/-- The other threads complete nothing and touch no shared variable. -/
theorem Committed.other_step {e : ThreadEvent} (h : Committed s m) (hStep : ThreadStep s e t)
    (hOther : e = .schedulerBySystemCalls ∨ ∃ i, e = .process i) :
    Answered m s e t := by
  cases threadStep_effect hStep with
  | schedulerBySystemCalls hNext hGrant => exact h.silent hStep rfl h.computed h.pending
  | process hLeft => exact h.silent hStep rfl h.computed h.pending
  | _ => simp at hOther

/-- One statement is answered by the atomic steps it completes. -/
theorem Committed.step {e : ThreadEvent} (h : Committed s m) (hStable : s.TableStable e)
    (hStep : ThreadStep s e t) :
    Answered m s e t := by
  cases e with
  | scheduler => exact h.scheduler_step hStep
  | schedulerBySystemCalls => exact h.other_step hStep (Or.inl rfl)
  | menu wybor input => exact h.menu_step hStable hStep
  | process i => exact h.other_step hStep (Or.inr ⟨i, rfl⟩)

end

-- ---------------------------------------------------------------------------
-- Runs
-- ---------------------------------------------------------------------------

/-- At the start nothing is pending. -/
theorem Committed.start (k : KernelState) : Committed (.start k) (.kernelMain k) where
  guarded := ThreadState.start_guarded k
  computed := trivial
  pending := .call rfl

/-- Between two bodies the committed state is the state of the shared
variables. -/
theorem Committed.main_eq {s : ThreadState} {m : MainState} (h : Committed s m)
    (hMenu : s.menu = .call ∨ s.menu = .choose) : s.main = m := by
  have hPending := h.pending
  rcases hMenu with hCall | hChoose
  · rw [hCall] at hPending
    generalize s.main = x at hPending ⊢
    cases hPending
    rfl
  · rw [hChoose] at hPending
    generalize s.main = x at hPending ⊢
    cases hPending
    rfl

/-- A run that is not torn is answered by the atomic steps it completes. -/
theorem Committed.run (k : KernelState) {es : List ThreadEvent} {t : ThreadState}
    (hStable : EachStep ThreadStep (.start k) es fun _ s e => s.TableStable e)
    (hRun : Steps ThreadStep (.start k) es t) :
    ∃ m, Steps (MainStep .checked) (.kernelMain k)
        (shownAlong ThreadState.threadStep ThreadState.commits (.start k) es) m ∧
      Committed t m := by
  refine Steps.simulates Committed ?_ (Committed.start k) hStable hRun
  exact fun s m e t h hStable hStep => h.step hStable hStep

/--
**The threads refine the atomic model.** For every process table and every
interleaving of the statements of `scheduler`, `schedulerBySystemCalls`, the
menu's thread and the process threads in which `createProcess` never appends
between `scheduler`'s computation of an index and its store: the steps
completed, in the order of their last writes, are a run of the atomic model,
and whenever the menu's thread is between two bodies the shared variables are
the state that run reaches.
-/
theorem threads_refine (k : KernelState) {es : List ThreadEvent} {t : ThreadState}
    (hStable : EachStep ThreadStep (.start k) es fun _ s e => s.TableStable e)
    (hRun : Steps ThreadStep (.start k) es t) :
    ∃ m, Steps (MainStep .checked) (.kernelMain k)
        (shownAlong ThreadState.threadStep ThreadState.commits (.start k) es) m ∧
      (t.menu = .call ∨ t.menu = .choose → t.main = m) := by
  obtain ⟨m, hSteps, hCommitted⟩ := Committed.run k hStable hRun
  exact ⟨m, hSteps, hCommitted.main_eq⟩

/-- The menu creates a process before a pass of `scheduler` reads the size. -/
theorem threads_refine_create :
    ∃ t m, Steps ThreadStep (.start .boot)
        [.scheduler, .scheduler, .menu 0 ⟨"p", 1, 1⟩, .menu 5 ⟨"p", 1, 1⟩, .menu 0 ⟨"p", 1, 1⟩,
          .scheduler, .menu 0 ⟨"p", 1, 1⟩, .scheduler, .scheduler] t ∧
      Steps (MainStep .checked) (.kernelMain .boot) [.callMenu, .choice 5 ⟨"p", 1, 1⟩, .tick] m ∧
      t.main = m := by
  have hStable : EachStep ThreadStep (.start .boot)
      [.scheduler, .scheduler, .menu 0 ⟨"p", 1, 1⟩, .menu 5 ⟨"p", 1, 1⟩, .menu 0 ⟨"p", 1, 1⟩,
        .scheduler, .menu 0 ⟨"p", 1, 1⟩, .scheduler, .scheduler]
      fun _ s e => s.TableStable e := by
    refine eachStep_cons rfl (ThreadState.tableStable_scheduler _) ?_
    refine eachStep_cons rfl (ThreadState.tableStable_scheduler _) ?_
    refine eachStep_cons rfl (ThreadState.tableStable_of_not_store (by simp) _) ?_
    refine eachStep_cons rfl (ThreadState.tableStable_of_not_store (by simp) _) ?_
    refine eachStep_cons rfl (ThreadState.tableStable_of_not_store (by simp) _) ?_
    refine eachStep_cons rfl (ThreadState.tableStable_scheduler _) ?_
    refine eachStep_cons rfl (ThreadState.tableStable_of_not_store (by simp) _) ?_
    refine eachStep_cons rfl (ThreadState.tableStable_scheduler _) ?_
    exact eachStep_cons rfl (ThreadState.tableStable_scheduler _) eachStep_nil
  have hRun : Steps ThreadStep (.start .boot)
      [.scheduler, .scheduler, .menu 0 ⟨"p", 1, 1⟩, .menu 5 ⟨"p", 1, 1⟩, .menu 0 ⟨"p", 1, 1⟩,
        .scheduler, .menu 0 ⟨"p", 1, 1⟩, .scheduler, .scheduler] _ :=
    ⟨_, rfl, _, rfl, _, rfl, _, rfl, _, rfl, _, rfl, _, rfl, _, rfl, _, rfl, rfl⟩
  obtain ⟨m, hSteps, hMain⟩ := threads_refine .boot hStable hRun
  exact ⟨_, m, hRun, hSteps, hMain (Or.inl rfl)⟩

end MultiOS
