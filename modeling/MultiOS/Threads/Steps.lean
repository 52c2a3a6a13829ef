import MultiOS.Kernel.Steps
import MultiOS.Model.Threads

/-!
# MultiOS — what one statement of a thread does

`ThreadEffect` lists the successors of a state, statement by statement, with
the guards; proofs about runs use it and do not unfold the step functions.
-/

namespace MultiOS

open Lib

/-- The successors of a state, guards included. -/
inductive ThreadEffect (s : ThreadState) : ThreadEvent → ThreadState → Prop where
  | sleep (hAt : s.scheduler = .sleep) :
      ThreadEffect s .scheduler { s with scheduler := .lock }
  | lock (hAt : s.scheduler = .lock) (hFree : s.owner = none) :
      ThreadEffect s .scheduler { s with owner := some .scheduler, scheduler := .loadIndex }
  | loadIndex (hAt : s.scheduler = .loadIndex) :
      ThreadEffect s .scheduler { s with scheduler := .loadSize s.main.activeProcessIndex }
  | loadSize {i : Nat} (hAt : s.scheduler = .loadSize i) (hSize : 0 < s.main.processes.length) :
      ThreadEffect s .scheduler
        { s with scheduler := .store ((i + 1) % s.main.processes.length) }
  | store {i : Nat} (hAt : s.scheduler = .store i) :
      ThreadEffect s .scheduler
        { s with main := { s.main with activeProcessIndex := i }, scheduler := .announce }
  | announce (hAt : s.scheduler = .announce)
      (hIndex : s.main.activeProcessIndex < s.main.processes.length) :
      ThreadEffect s .scheduler { s with scheduler := .unlock }
  | unlock (hAt : s.scheduler = .unlock) (hOwner : s.owner = some .scheduler) :
      ThreadEffect s .scheduler { s with owner := none, scheduler := .sleep }
  | schedulerBySystemCalls {op : LockOp} {target : SystemCallPoint} {owner : Option KernelThread}
      (hNext : s.schedulerBySystemCalls.next = (op, target))
      (hGrant : grant .schedulerBySystemCalls s.owner op = some owner) :
      ThreadEffect s .schedulerBySystemCalls
        { s with owner, schedulerBySystemCalls := target }
  | call {wybor : Int} {input : NewProcess} (hAt : s.menu = .call) :
      ThreadEffect s (.menu wybor input)
        { s with
          main := { s.main with menuIndex := some s.main.activeProcessIndex }
          menu := .choose }
  | chooseJoin {input : NewProcess} (hAt : s.menu = .choose) :
      ThreadEffect s (.menu 1 input) { s with menu := .joinProcess 0 }
  | chooseBrowser {wybor : Int} {input : NewProcess} (hAt : s.menu = .choose)
      (hChoice : wybor = 2 ∨ wybor = 3) :
      ThreadEffect s (.menu wybor input) { s with menu := .joinBrowser wybor }
  | chooseCreate {input : NewProcess} (hAt : s.menu = .choose) :
      ThreadEffect s (.menu 5 input) { s with menu := .allocate input }
  | chooseShow {input : NewProcess} (hAt : s.menu = .choose)
      (hIndex : s.main.menuArgument < s.main.processes.length) :
      ThreadEffect s (.menu 6 input)
        { s with main := { s.main with menuIndex := some s.main.menuArgument } }
  | chooseTerminate {input : NewProcess} (hAt : s.menu = .choose) :
      ThreadEffect s (.menu 7 input) { s with menu := .lock }
  | chooseOther {wybor : Int} {input : NewProcess} (hAt : s.menu = .choose)
      (hChoice : wybor ≤ 0 ∨ 8 ≤ wybor) :
      ThreadEffect s (.menu wybor input) s.backToLoop
  | joinProcess {wybor : Int} {input : NewProcess} {i : Nat} {thread : StdThread}
      (hAt : s.menu = .joinProcess i) (hThread : s.main.threads[i]? = some thread)
      (hJoinable : thread.joinable = true) (hLeft : s.left i = 0) :
      ThreadEffect s (.menu wybor input)
        { s with
          main := { s.main with threads := s.main.threads.set i { thread with joinable := false } }
          menu := .joinProcess (i + 1) }
  | joinedAll {wybor : Int} {input : NewProcess} {i : Nat} (hAt : s.menu = .joinProcess i)
      (hEnd : s.main.threads.length ≤ i) :
      ThreadEffect s (.menu wybor input) s.backToLoop
  | joinBrowser {wybor chosen : Int} {input : NewProcess} {browserThread : StdThread}
      (hAt : s.menu = .joinBrowser chosen)
      (hJoin : s.main.browserThread.join .checked = .ok browserThread) :
      ThreadEffect s (.menu wybor input)
        { s with main := { s.main with browserThread } }.backToLoop
  | allocate {wybor : Int} {input new : NewProcess} {allocatedMemory : Int} {m : MemoryManager}
      (hAt : s.menu = .allocate new)
      (hAllocate : s.main.memoryManager.allocateMemory new.requiredMemory = (allocatedMemory, m))
      (hOk : allocatedMemory ≠ MemoryManager.allocationFailed) :
      ThreadEffect s (.menu wybor input)
        { s with
          main := { s.main with memoryManager := m }
          menu := .emplace new allocatedMemory }
  | refuse {wybor : Int} {input new : NewProcess} {m : MemoryManager}
      (hAt : s.menu = .allocate new)
      (hAllocate : s.main.memoryManager.allocateMemory new.requiredMemory =
        (MemoryManager.allocationFailed, m)) :
      ThreadEffect s (.menu wybor input)
        { s with main := { s.main with memoryManager := m } }.backToLoop
  | emplace {wybor : Int} {input new : NewProcess} {allocatedMemory : Int}
      (hAt : s.menu = .emplace new allocatedMemory) :
      ThreadEffect s (.menu wybor input)
        { s with
          main :=
            { s.main with
              processes := emplaceBack s.main.processes new allocatedMemory } }.backToLoop
  | lockMenu {wybor : Int} {input : NewProcess} (hAt : s.menu = .lock) (hFree : s.owner = none) :
      ThreadEffect s (.menu wybor input) { s with owner := some .menu, menu := .loadActive }
  | loadActive {wybor : Int} {input : NewProcess} (hAt : s.menu = .loadActive)
      (hIndex : s.main.activeProcessIndex < s.main.threads.length) :
      ThreadEffect s (.menu wybor input) { s with menu := .join s.main.activeProcessIndex }
  | join {wybor : Int} {input : NewProcess} {i : Nat} {thread : StdThread}
      (hAt : s.menu = .join i) (hThread : s.main.threads[i]? = some thread)
      (hJoinable : thread.joinable = true) (hLeft : s.left i = 0) :
      ThreadEffect s (.menu wybor input)
        { s with
          main := { s.main with threads := s.main.threads.set i { thread with joinable := false } }
          menu := .erase }
  | erase {wybor : Int} {input : NewProcess} (hAt : s.menu = .erase)
      (hIndex : s.main.activeProcessIndex < s.main.processes.length) :
      ThreadEffect s (.menu wybor input)
        { s with
          main :=
            { s.main with processes := s.main.processes.eraseIdx s.main.activeProcessIndex }
          menu := .reset }
  | reset {wybor : Int} {input : NewProcess} (hAt : s.menu = .reset) :
      ThreadEffect s (.menu wybor input)
        { s with main := { s.main with activeProcessIndex := 0 }, menu := .unlock }
  | unlockMenu {wybor : Int} {input : NewProcess} (hAt : s.menu = .unlock)
      (hOwner : s.owner = some .menu) :
      ThreadEffect s (.menu wybor input) { s with owner := none }.backToLoop
  | process {i left : Nat} (hLeft : s.left i = left + 1) :
      ThreadEffect s (.process i) { s with left := Function.update s.left i left }

-- ---------------------------------------------------------------------------
-- Every successor is listed
-- ---------------------------------------------------------------------------

section
variable {s t : ThreadState}

/-- Only a free mutex is acquired. -/
theorem acquire_some {thread : KernelThread} (h : s.acquire thread = some t) :
    s.owner = none ∧ t = { s with owner := some thread } := by
  unfold ThreadState.acquire grant at h
  by_cases hFree : s.owner = none
  · rw [if_pos hFree] at h
    exact ⟨hFree, (Option.some.inj h).symm⟩
  · simp [hFree] at h

/-- Only the owner releases it. -/
theorem release_some {thread : KernelThread} (h : s.release thread = some t) :
    s.owner = some thread ∧ t = { s with owner := none } := by
  unfold ThreadState.release grant at h
  by_cases hOwner : s.owner = some thread
  · rw [if_pos hOwner] at h
    exact ⟨hOwner, (Option.some.inj h).symm⟩
  · simp [hOwner] at h

/-- A join returns only for a joinable thread that has executed all its steps. -/
theorem joinThread_some {i : Nat} (h : s.joinThread i = some t) :
    ∃ thread, s.main.threads[i]? = some thread ∧ thread.joinable = true ∧ s.left i = 0 ∧
      t = { s with main :=
        { s.main with threads := s.main.threads.set i { thread with joinable := false } } } := by
  unfold ThreadState.joinThread at h
  split at h
  · simp at h
  · next thread hThread =>
    split at h
    · simp at h
    · next thread' hJoin =>
      split at h
      · next hLeft =>
        -- a join that is no `std::system_error` was of a joinable thread
        have hJoinable : thread.joinable = true := by
          unfold StdThread.join at hJoin
          by_contra hNot
          simp [hNot] at hJoin
        rw [join_ok hJoin] at h
        exact ⟨thread, hThread, hJoinable, hLeft, (Option.some.inj h).symm⟩
      · simp at h

/-- The seven statements of `scheduler`. -/
theorem schedulerStep_effect (h : s.schedulerStep = some t) : ThreadEffect s .scheduler t := by
  unfold ThreadState.schedulerStep at h
  split at h
  · next hAt =>
    obtain rfl := Option.some.inj h
    exact .sleep hAt
  · next hAt =>
    obtain ⟨u, hu, rfl⟩ := Option.map_eq_some_iff.mp h
    obtain ⟨hFree, rfl⟩ := acquire_some hu
    exact .lock hAt hFree
  · next hAt =>
    obtain rfl := Option.some.inj h
    exact .loadIndex hAt
  · next i hAt =>
    split at h
    · simp at h
    · next hSize =>
      obtain rfl := Option.some.inj h
      exact .loadSize hAt (Nat.pos_of_ne_zero hSize)
  · next i hAt =>
    obtain rfl := Option.some.inj h
    exact .store hAt
  · next hAt =>
    split at h
    · simp at h
    · next process hProcess =>
      obtain rfl := Option.some.inj h
      exact .announce hAt (List.getElem?_eq_some_iff.mp hProcess).1
  · next hAt =>
    obtain ⟨u, hu, rfl⟩ := Option.map_eq_some_iff.mp h
    obtain ⟨hOwner, rfl⟩ := release_some hu
    exact .unlock hAt hOwner

/-- The choices of the menu. Choice 4 leaves `kernel_main` and has no successor. -/
theorem choose_effect {wybor : Int} {input : NewProcess} (hAt : s.menu = .choose)
    (h : s.choose wybor (menuAction s.main.menuArgument wybor input) = some t) :
    ThreadEffect s (.menu wybor input) t := by
  unfold ThreadState.choose at h
  -- the switch read once; its cases are those of `Dispatched`
  have hDispatch := menuAction_dispatched s.main.menuArgument wybor input
  generalize menuAction s.main.menuArgument wybor input = action at h hDispatch
  cases hDispatch with
  | joinProcessThreads =>
    obtain rfl := Option.some.inj h
    exact .chooseJoin hAt
  | joinBrowserThread hChoice =>
    obtain rfl := Option.some.inj h
    exact .chooseBrowser hAt hChoice
  | leave => simp at h
  | createProcess =>
    obtain rfl := Option.some.inj h
    exact .chooseCreate hAt
  | printActive =>
    simp only at h
    split at h
    · simp at h
    · next process hProcess =>
      obtain rfl := Option.some.inj h
      exact .chooseShow hAt (List.getElem?_eq_some_iff.mp hProcess).1
  | terminateActive =>
    obtain rfl := Option.some.inj h
    exact .chooseTerminate hAt
  | customSystemCallHandler =>
    obtain rfl := Option.some.inj h
    exact .chooseOther hAt (Or.inr (Int.le_refl 8))
  | invalidChoice hChoice =>
    obtain rfl := Option.some.inj h
    exact .chooseOther hAt (by omega)

/-- The statements of the menu's thread, position by position. -/
theorem menuStep_effect {wybor : Int} {input : NewProcess}
    (h : s.menuStep wybor input = some t) : ThreadEffect s (.menu wybor input) t := by
  unfold ThreadState.menuStep at h
  split at h
  · next hAt =>
    obtain rfl := Option.some.inj h
    exact .call hAt
  · next hAt => exact choose_effect hAt h
  · next i hAt =>
    split at h
    · -- the loop of case 1
      obtain ⟨u, hu, rfl⟩ := Option.map_eq_some_iff.mp h
      obtain ⟨thread, hThread, hJoinable, hLeft, rfl⟩ := joinThread_some hu
      exact .joinProcess hAt hThread hJoinable hLeft
    · next hEnd =>
      obtain rfl := Option.some.inj h
      exact .joinedAll hAt (Nat.le_of_not_lt hEnd)
  · next chosen hAt =>
    split at h
    · simp at h
    · next browserThread hJoin =>
      obtain rfl := Option.some.inj h
      exact .joinBrowser hAt hJoin
  · next new hAt =>
    -- `createProcess` goes on to the append unless the manager answers -1
    generalize hAllocate : s.main.memoryManager.allocateMemory new.requiredMemory = r at h
    obtain ⟨allocatedMemory, m⟩ := r
    by_cases hOk : allocatedMemory = MemoryManager.allocationFailed
    · subst hOk
      simp only [ne_eq, not_true_eq_false, if_false, Option.some.injEq] at h
      subst h
      exact .refuse hAt hAllocate
    · simp only [ne_eq, hOk, not_false_eq_true, if_true, Option.some.injEq] at h
      subst h
      exact .allocate hAt hAllocate hOk
  · next new allocatedMemory hAt =>
    obtain rfl := Option.some.inj h
    exact .emplace hAt
  · next hAt =>
    obtain ⟨u, hu, rfl⟩ := Option.map_eq_some_iff.mp h
    obtain ⟨hFree, rfl⟩ := acquire_some hu
    exact .lockMenu hAt hFree
  · next hAt =>
    split at h
    · next hIndex =>
      obtain rfl := Option.some.inj h
      exact .loadActive hAt hIndex
    · simp at h
  · next i hAt =>
    obtain ⟨u, hu, rfl⟩ := Option.map_eq_some_iff.mp h
    obtain ⟨thread, hThread, hJoinable, hLeft, rfl⟩ := joinThread_some hu
    exact .join hAt hThread hJoinable hLeft
  · next hAt =>
    split at h
    · next hIndex =>
      obtain rfl := Option.some.inj h
      exact .erase hAt hIndex
    · simp at h
  · next hAt =>
    obtain rfl := Option.some.inj h
    exact .reset hAt
  · next hAt =>
    obtain ⟨u, hu, rfl⟩ := Option.map_eq_some_iff.mp h
    obtain ⟨hOwner, rfl⟩ := release_some hu
    exact .unlockMenu hAt hOwner

end

/-- **Inversion.** A step of any thread is one of the listed effects. -/
theorem threadStep_effect {s t : ThreadState} {e : ThreadEvent} (h : ThreadStep s e t) :
    ThreadEffect s e t := by
  cases e with
  | scheduler => exact schedulerStep_effect h
  | schedulerBySystemCalls =>
    obtain ⟨owner, hGrant, rfl⟩ := Option.map_eq_some_iff.mp h
    exact .schedulerBySystemCalls rfl hGrant
  | menu wybor input => exact menuStep_effect h
  | process i =>
    have hProcess : s.processStep i = some t := h
    unfold ThreadState.processStep at hProcess
    split at hProcess
    · simp at hProcess
    · next left hLeft =>
      obtain rfl := Option.some.inj hProcess
      exact .process hLeft

-- ---------------------------------------------------------------------------
-- Every successor listed is one
-- ---------------------------------------------------------------------------

section
variable {s : ThreadState}

/-- A free mutex is granted. -/
theorem acquire_of_free {thread : KernelThread} (h : s.owner = none) :
    s.acquire thread = some { s with owner := some thread } := by
  simp [ThreadState.acquire, grant, h]

/-- The owner may unlock. -/
theorem release_of_owner {thread : KernelThread} (h : s.owner = some thread) :
    s.release thread = some { s with owner := none } := by
  simp [ThreadState.release, grant, h]

/-- The join of a joinable thread that has finished returns. -/
theorem joinThread_of_finished {i : Nat} {thread : StdThread}
    (hThread : s.main.threads[i]? = some thread) (hJoinable : thread.joinable = true)
    (hLeft : s.left i = 0) :
    s.joinThread i = some { s with main :=
      { s.main with threads := s.main.threads.set i { thread with joinable := false } } } := by
  simp [ThreadState.joinThread, hThread, StdThread.join, hJoinable, hLeft]

end

/-- The converse of `threadStep_effect`: where its guards hold, an effect is a
step. -/
theorem threadStep_of_effect {s t : ThreadState} {e : ThreadEvent} (h : ThreadEffect s e t) :
    ThreadStep s e t := by
  show s.threadStep e = some t
  cases h with
  | sleep hAt | loadIndex hAt | store hAt =>
    rw [ThreadState.threadStep, ThreadState.schedulerStep, hAt]
  | lock hAt hFree =>
    rw [ThreadState.threadStep, ThreadState.schedulerStep, hAt]
    simp only [acquire_of_free hFree, Option.map_some]
  | loadSize hAt hSize =>
    rw [ThreadState.threadStep, ThreadState.schedulerStep, hAt]
    exact if_neg (by omega)
  | announce hAt hIndex =>
    rw [ThreadState.threadStep, ThreadState.schedulerStep, hAt]
    simp only [List.getElem?_eq_getElem hIndex]
  | unlock hAt hOwner =>
    rw [ThreadState.threadStep, ThreadState.schedulerStep, hAt]
    simp only [release_of_owner hOwner, Option.map_some]
  | schedulerBySystemCalls hNext hGrant =>
    rw [ThreadState.threadStep, ThreadState.systemCallsStep, hNext]
    simp only [hGrant, Option.map_some]
  | call hAt | emplace hAt | reset hAt =>
    rw [ThreadState.threadStep, ThreadState.menuStep, hAt]
  | chooseJoin hAt | chooseCreate hAt | chooseTerminate hAt =>
    rw [ThreadState.threadStep, ThreadState.menuStep, hAt]
    rfl
  | chooseBrowser hAt hChoice =>
    rw [ThreadState.threadStep, ThreadState.menuStep, hAt]
    -- both cases join the same thread
    rcases hChoice with rfl | rfl <;> rfl
  | chooseShow hAt hIndex =>
    rw [ThreadState.threadStep, ThreadState.menuStep, hAt]
    show s.choose 6 (.printActive s.main.menuArgument) = _
    rw [ThreadState.choose, List.getElem?_eq_getElem hIndex]
    simp [hAt]
  | chooseOther hAt hChoice =>
    rename_i wybor input
    have hDispatched := menuAction_dispatched s.main.menuArgument wybor input
    rw [ThreadState.threadStep, ThreadState.menuStep, hAt]
    simp only
    -- a choice outside 1 to 7 is the handler of case 8 or the default message
    generalize menuAction s.main.menuArgument wybor input = action at hDispatched
    cases hDispatched with
    | customSystemCallHandler => rfl
    | invalidChoice hOther => rfl
    | _ => omega
  | joinProcess hAt hThread hJoinable hLeft =>
    have hLt := (List.getElem?_eq_some_iff.mp hThread).1
    rw [ThreadState.threadStep, ThreadState.menuStep, hAt]
    simp only [if_pos hLt, joinThread_of_finished hThread hJoinable hLeft, Option.map_some]
  | joinedAll hAt hEnd =>
    rw [ThreadState.threadStep, ThreadState.menuStep, hAt]
    exact if_neg (Nat.not_lt.mpr hEnd)
  | joinBrowser hAt hJoin =>
    rw [ThreadState.threadStep, ThreadState.menuStep, hAt]
    simp only [hJoin]
  | allocate hAt hAllocate hOk =>
    rw [ThreadState.threadStep, ThreadState.menuStep, hAt]
    simp only [hAllocate]
    exact if_pos hOk
  | refuse hAt hAllocate =>
    rw [ThreadState.threadStep, ThreadState.menuStep, hAt]
    simp only [hAllocate]
    exact if_neg (by simp)
  | lockMenu hAt hFree =>
    rw [ThreadState.threadStep, ThreadState.menuStep, hAt]
    simp only [acquire_of_free hFree, Option.map_some]
  | loadActive hAt hIndex =>
    rw [ThreadState.threadStep, ThreadState.menuStep, hAt]
    exact if_pos hIndex
  | join hAt hThread hJoinable hLeft =>
    rw [ThreadState.threadStep, ThreadState.menuStep, hAt]
    simp only [joinThread_of_finished hThread hJoinable hLeft, Option.map_some]
  | erase hAt hIndex =>
    rw [ThreadState.threadStep, ThreadState.menuStep, hAt]
    exact if_pos hIndex
  | unlockMenu hAt hOwner =>
    rw [ThreadState.threadStep, ThreadState.menuStep, hAt]
    simp only [release_of_owner hOwner, Option.map_some, hAt]
  | process hLeft =>
    rw [ThreadState.threadStep, ThreadState.processStep, hLeft]

end MultiOS
