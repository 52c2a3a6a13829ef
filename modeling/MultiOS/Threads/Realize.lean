import Mathlib.Logic.Relation
import MultiOS.Threads.Atomic

/-!
# MultiOS — every atomic run is run by the threads

The converse of `Threads/Atomic.lean`: a step of the atomic model is a stretch
of statements of one thread while the other two are asleep, preceded by what
the joined process threads have left to execute. So the states of the shared
variables between two bodies, over all interleavings that are not torn, are
exactly the states the atomic model reaches (`atomic_states_exact`).
-/

namespace MultiOS

open Lib

/-- One statement that tears no pass. -/
def StableStep (s t : ThreadState) : Prop := ∃ e, s.TableStable e ∧ ThreadStep s e t

/-- A run of such statements. -/
abbrev StableRun := Relation.ReflTransGen StableStep

/-- Such a run as a list of statements. -/
theorem StableRun.events {s t : ThreadState} (h : StableRun s t) :
    ∃ es, EachStep ThreadStep s es (fun _ s e => s.TableStable e) ∧ Steps ThreadStep s es t := by
  induction h using Relation.ReflTransGen.head_induction_on with
  | refl => exact ⟨[], eachStep_nil, rfl⟩
  | head hStep hRun ih =>
    obtain ⟨e, hStable, hStep⟩ := hStep
    obtain ⟨es, hEach, hSteps⟩ := ih
    exact ⟨e :: es, eachStep_cons hStep hStable hEach, _, hStep, hSteps⟩

section
variable {s t : ThreadState}

/-- A statement of any thread but the menu's tears nothing. -/
theorem stable_scheduler (h : ThreadEffect s .scheduler t) : StableStep s t :=
  ⟨_, ThreadState.tableStable_scheduler s, threadStep_of_effect h⟩

/-- While `scheduler` sleeps no statement tears anything. -/
theorem stable_asleep {e : ThreadEvent} (hAsleep : s.scheduler = .sleep) (h : ThreadEffect s e t) :
    StableStep s t := by
  refine ⟨e, ThreadState.tableStable_of_not_store ?_ e, threadStep_of_effect h⟩
  intro i
  rw [hAsleep]
  simp

/-- `scheduler` sleeps, nobody has the mutex, and the menu's thread is between
two bodies of the atomic state `m`. -/
structure Quiet (s : ThreadState) (m : MainState) : Prop where
  main : s.main = m
  free : s.owner = none
  asleep : s.scheduler = .sleep
  menu : s.menu = if m.menuIndex = none then .call else .choose

end

/-- The threads start quiet. -/
theorem Quiet.start (k : KernelState) : Quiet (.start k) (.kernelMain k) := ⟨rfl, rfl, rfl, rfl⟩

section
variable {s : ThreadState} {m : MainState}

/-- A pass of `scheduler`. -/
theorem Quiet.tick (h : Quiet s m) (hSize : 0 < m.processes.length) :
    ∃ t, StableRun s t ∧
      Quiet t { m with activeProcessIndex := (m.activeProcessIndex + 1) % m.processes.length } := by
  obtain ⟨x, owner, scheduler, systemCalls, menu, left⟩ := s
  obtain ⟨rfl, rfl, rfl, hMenu⟩ := h
  have hLt : (x.activeProcessIndex + 1) % x.processes.length < x.processes.length :=
    Nat.mod_lt _ hSize
  refine ⟨⟨{ x with activeProcessIndex := (x.activeProcessIndex + 1) % x.processes.length }, none,
    .sleep, systemCalls, menu, left⟩, ?_, rfl, rfl, rfl, hMenu⟩
  exact .head (stable_scheduler (.sleep rfl)) <| .head (stable_scheduler (.lock rfl rfl)) <|
    .head (stable_scheduler (.loadIndex rfl)) <| .head (stable_scheduler (.loadSize rfl hSize)) <|
    .head (stable_scheduler (.store rfl)) <| .head (stable_scheduler (.announce rfl hLt)) <|
    .single (stable_scheduler (.unlock rfl rfl))

/-- The call of `pokazMenu`, if it is still to come. -/
theorem Quiet.call (h : Quiet s m) :
    ∃ t, StableRun s t ∧ Quiet t { m with menuIndex := some m.menuArgument } ∧
      t.menu = .choose := by
  obtain ⟨x, owner, scheduler, systemCalls, menu, left⟩ := s
  obtain ⟨rfl, rfl, rfl, hMenu⟩ := h
  cases hIndex : x.menuIndex with
  | none =>
    simp only [hIndex, if_true] at hMenu
    subst hMenu
    have hArgument : x.menuArgument = x.activeProcessIndex := by
      rw [MainState.menuArgument, hIndex]
      rfl
    refine ⟨⟨{ x with menuIndex := some x.activeProcessIndex }, none, .sleep, systemCalls, .choose,
      left⟩, .single ?_, ⟨by rw [hArgument], rfl, rfl, rfl⟩, rfl⟩
    exact stable_asleep (e := .menu 0 ⟨"", 0, 0⟩) rfl (.call rfl)
  | some i =>
    simp only [hIndex] at hMenu
    have hMain : { x with menuIndex := some x.menuArgument } = x := by
      rw [MainState.menuArgument, hIndex, Option.getD_some, ← hIndex]
    refine ⟨_, .refl, ⟨hMain.symm, rfl, rfl, ?_⟩, by simpa using hMenu⟩
    simpa using hMenu

/-- A process thread executes what it has left. -/
theorem finish_one (hAsleep : s.scheduler = .sleep) (i : Nat) :
    StableRun s { s with left := Function.update s.left i 0 } := by
  generalize hLeft : s.left i = n
  induction n generalizing s with
  | zero =>
    rw [← hLeft, Function.update_eq_self]
  | succ n ih =>
    have hStep : StableStep s { s with left := Function.update s.left i n } :=
      stable_asleep hAsleep (.process hLeft)
    have hRest := ih (s := { s with left := Function.update s.left i n }) hAsleep
      (Function.update_self ..)
    rw [Function.update_idem] at hRest
    exact .head hStep hRest

/-- The process threads below `n` execute what they have left. -/
theorem finish_below (hAsleep : s.scheduler = .sleep) (n : Nat) :
    ∃ left, StableRun s { s with left } ∧ ∀ i < n, left i = 0 := by
  induction n with
  | zero => exact ⟨s.left, .refl, by simp⟩
  | succ n ih =>
    obtain ⟨left, hRun, hZero⟩ := ih
    refine ⟨Function.update left n 0, hRun.trans (finish_one (s := { s with left }) hAsleep n), ?_⟩
    intro i hi
    by_cases hEq : i = n
    · rw [hEq, Function.update_self]
    · rw [Function.update_of_ne hEq]
      exact hZero i (by omega)

end

-- ---------------------------------------------------------------------------
-- The bodies
-- ---------------------------------------------------------------------------

section
variable {x : MainState} {systemCalls : SystemCallPoint} {left : Nat → Nat}

/-- The menu's thread at a position, the others asleep. -/
abbrev menuAt (x : MainState) (systemCalls : SystemCallPoint) (left : Nat → Nat) (menu : MenuAt) :
    ThreadState :=
  ⟨x, none, .sleep, systemCalls, menu, left⟩

/-- A statement of the menu's thread. -/
theorem menu_stable {owner : Option KernelThread} {menu : MenuAt} {t : ThreadState} (wybor : Int)
    (input : NewProcess)
    (h : ThreadEffect ⟨x, owner, .sleep, systemCalls, menu, left⟩ (.menu wybor input) t) :
    StableStep ⟨x, owner, .sleep, systemCalls, menu, left⟩ t :=
  stable_asleep rfl h

/-- One that takes no input. -/
theorem menu_silent {owner : Option KernelThread} {menu : MenuAt} {t : ThreadState}
    (h : ThreadEffect ⟨x, owner, .sleep, systemCalls, menu, left⟩ (.menu 0 ⟨"", 0, 0⟩) t) :
    StableStep ⟨x, owner, .sleep, systemCalls, menu, left⟩ t :=
  menu_stable 0 ⟨"", 0, 0⟩ h

/-- A choice outside 1 to 7. -/
theorem other_body {wybor : Int} (hChoice : wybor ≤ 0 ∨ 8 ≤ wybor) :
    StableRun (menuAt x systemCalls left .choose)
      (menuAt { x with menuIndex := none } systemCalls left .call) :=
  .single (menu_stable wybor ⟨"", 0, 0⟩ (.chooseOther rfl hChoice))

/-- Case 6 stays in `pokazMenu`. -/
theorem show_body (hIndex : x.menuArgument < x.processes.length) :
    StableRun (menuAt x systemCalls left .choose)
      (menuAt { x with menuIndex := some x.menuArgument } systemCalls left .choose) :=
  .single (menu_stable 6 ⟨"", 0, 0⟩ (.chooseShow rfl hIndex))

/-- Cases 2 and 3: the choice and the join. -/
theorem browser_body {wybor : Int} {browserThread : StdThread} (hChoice : wybor = 2 ∨ wybor = 3)
    (hJoin : x.browserThread.join .checked = .ok browserThread) :
    StableRun (menuAt x systemCalls left .choose)
      (menuAt { x with browserThread, menuIndex := none } systemCalls left .call) := by
  have hEnd : ThreadEffect (menuAt x systemCalls left (.joinBrowser wybor))
      (.menu 0 ⟨"", 0, 0⟩) _ := .joinBrowser rfl hJoin
  exact .head (menu_stable wybor ⟨"", 0, 0⟩ (.chooseBrowser rfl hChoice)) <|
    .single (menu_silent hEnd)

/-- Case 5, refused or granted. -/
theorem create_body (new : NewProcess) :
    StableRun (menuAt x systemCalls left .choose)
      (menuAt { x with toKernelState := x.toKernelState.createProcess new, menuIndex := none }
        systemCalls left .call) := by
  have hChoose : StableStep (menuAt x systemCalls left .choose)
      (menuAt x systemCalls left (.allocate new)) :=
    menu_stable 5 new (.chooseCreate rfl)
  generalize hAllocate : x.memoryManager.allocateMemory new.requiredMemory = r
  obtain ⟨allocatedMemory, memoryManager⟩ := r
  by_cases hOk : allocatedMemory = MemoryManager.allocationFailed
  · subst hOk
    rw [createProcess_refused hAllocate]
    exact .head hChoose <| .single <|
      menu_silent (.refuse rfl hAllocate)
  · rw [createProcess_emplaced hAllocate hOk]
    exact .head hChoose <|
      .head (menu_silent (.allocate rfl hAllocate hOk)) <|
      .single (menu_silent (.emplace rfl))

/-- Case 7 from the choice to the unlock, with the joined process thread
finished. -/
theorem terminate_body {thread : StdThread}
    (hThread : x.threads[x.activeProcessIndex]? = some thread)
    (hJoinable : thread.joinable = true) (hIndex : x.activeProcessIndex < x.processes.length)
    (hLeft : left x.activeProcessIndex = 0) :
    StableRun (menuAt x systemCalls left .choose)
      (menuAt
        { x with
          processes := x.processes.eraseIdx x.activeProcessIndex
          activeProcessIndex := 0
          threads := x.threads.set x.activeProcessIndex { thread with joinable := false }
          menuIndex := none } systemCalls left .call) := by
  have hLt : x.activeProcessIndex < x.threads.length := (List.getElem?_eq_some_iff.mp hThread).1
  exact .head (menu_stable 7 ⟨"", 0, 0⟩ (.chooseTerminate rfl)) <|
    .head (menu_silent (.lockMenu rfl rfl)) <|
    .head (menu_silent (.loadActive rfl hLt)) <|
    .head (menu_silent (.join rfl hThread hJoinable hLeft)) <|
    .head (menu_silent (.erase rfl hIndex)) <|
    .head (menu_silent (.reset rfl)) <|
    .single (menu_silent (.unlockMenu rfl rfl))

/-- The loop of case 1 from some thread on. -/
theorem join_loop {done rest : List StdThread} (hJoinable : ∀ thread ∈ rest, thread.joinable = true)
    (hLeft : ∀ i < (done ++ rest).length, left i = 0) :
    StableRun (menuAt { x with threads := done ++ rest } systemCalls left (.joinProcess done.length))
      (menuAt
        { x with threads := done ++ rest.map fun thread => { thread with joinable := false } }
        systemCalls left (.joinProcess (done ++ rest).length)) := by
  induction rest generalizing done with
  | nil => rw [List.map_nil, List.append_nil]
  | cons thread rest ih =>
    have hAt : (done ++ thread :: rest)[done.length]? = some thread := by simp
    have hZero : left done.length = 0 := hLeft _ (by simp)
    have hEffect : ThreadEffect
        (menuAt { x with threads := done ++ thread :: rest } systemCalls left
          (.joinProcess done.length)) (.menu 0 ⟨"", 0, 0⟩) _ :=
      .joinProcess rfl hAt (hJoinable thread (by simp)) hZero
    have hRest : StableRun
        (menuAt { x with threads := (done ++ [{ thread with joinable := false }]) ++ rest }
          systemCalls left (.joinProcess (done ++ [{ thread with joinable := false }]).length)) _ :=
      ih (fun later hLater => hJoinable later (by simp [hLater])) (by simpa using hLeft)
    refine .head (menu_silent hEffect) ?_
    simpa using hRest

/-- Case 1: every process thread has finished and is joined. -/
theorem join_body (hJoinable : ∀ thread ∈ x.threads, thread.joinable = true)
    (hLeft : ∀ i < x.threads.length, left i = 0) :
    StableRun (menuAt x systemCalls left .choose)
      (menuAt
        { x with
          threads := x.threads.map fun thread => { thread with joinable := false }
          menuIndex := none } systemCalls left .call) := by
  have hLoop : StableRun (menuAt { x with threads := [] ++ x.threads } systemCalls left
      (.joinProcess ([] : List StdThread).length)) _ := join_loop hJoinable hLeft
  have hEnd : ThreadEffect
      (menuAt { x with threads := x.threads.map fun thread => { thread with joinable := false } }
        systemCalls left (.joinProcess x.threads.length)) (.menu 0 ⟨"", 0, 0⟩) _ :=
    .joinedAll rfl (by simp)
  have hStart : StableStep (menuAt x systemCalls left .choose)
      (menuAt x systemCalls left (.joinProcess 0)) :=
    menu_stable 1 ⟨"", 0, 0⟩ (.chooseJoin rfl)
  exact .head hStart (hLoop.tail (menu_silent hEnd))

end

-- ---------------------------------------------------------------------------
-- Runs
-- ---------------------------------------------------------------------------

/-- A thread whose checked join returns was joinable. -/
theorem joinable_of_join {thread thread' : StdThread} (h : thread.join .checked = .ok thread') :
    thread.joinable = true := by
  by_contra hNot
  rw [join_of_not_joinable hNot] at h
  simp at h

/-- A step of the atomic model is a stretch of statements. -/
theorem Quiet.step {s : ThreadState} {m m' : MainState} {c : MainEvent} (h : Quiet s m)
    (hStep : MainStep .checked m c m') : ∃ t, StableRun s t ∧ Quiet t m' := by
  -- before a body the index is copied, and the joined threads finish
  obtain ⟨u, hCall, hQuiet, hChoose⟩ := h.call
  obtain ⟨left, hFinish, hLeft⟩ := finish_below hQuiet.asleep m.threads.length
  obtain ⟨x, owner, scheduler, systemCalls, menu, old⟩ := u
  obtain ⟨rfl, rfl, rfl, -⟩ := hQuiet
  obtain rfl : menu = .choose := hChoose
  have hBefore := hCall.trans hFinish
  cases mainStep_effect hStep with
  | tick hSize => exact h.tick hSize
  | callMenu => exact ⟨_, hCall, rfl, rfl, rfl, rfl⟩
  | joinProcessThreads hJoin =>
    have hJoinable := (joinAll_checked_iff m.threads).mp ⟨_, hJoin⟩
    rw [joinAll_ok hJoin]
    exact ⟨_, hBefore.trans (join_body hJoinable hLeft), rfl, rfl, rfl, rfl⟩
  | joinBrowserThread hChoice hJoin =>
    exact ⟨_, hCall.trans (browser_body hChoice hJoin), rfl, rfl, rfl, rfl⟩
  | createProcess input => exact ⟨_, hCall.trans (create_body input), rfl, rfl, rfl, rfl⟩
  | printActive hIndex => exact ⟨_, hCall.trans (show_body hIndex), rfl, rfl, rfl, rfl⟩
  | terminateActive hThread hJoin hIndex =>
    have hLt := (List.getElem?_eq_some_iff.mp hThread).1
    exact ⟨_, hBefore.trans (terminate_body hThread (joinable_of_join hJoin) hIndex (hLeft _ hLt)),
      rfl, rfl, rfl, rfl⟩
  | other hChoice => exact ⟨_, hCall.trans (other_body hChoice), rfl, rfl, rfl, rfl⟩

/-- An atomic run is a run of statements. -/
theorem Quiet.run {s : ThreadState} {m m' : MainState} {cs : List MainEvent} (h : Quiet s m)
    (hRun : Steps (MainStep .checked) m cs m') : ∃ t, StableRun s t ∧ Quiet t m' := by
  induction cs generalizing s m with
  | nil =>
    obtain rfl := steps_nil.mp hRun
    exact ⟨s, .refl, h⟩
  | cons c cs ih =>
    obtain ⟨u, hu, hRest⟩ := hRun
    obtain ⟨v, hv, hQuiet⟩ := h.step hu
    obtain ⟨t, ht, hQuiet'⟩ := ih hQuiet hRest
    exact ⟨t, hv.trans ht, hQuiet'⟩

/-- A quiet state is between two bodies of the menu. -/
theorem Quiet.between {s : ThreadState} {m : MainState} (h : Quiet s m) :
    s.menu = .call ∨ s.menu = .choose := by
  rw [h.menu]
  by_cases hIndex : m.menuIndex = none
  · exact Or.inl (if_pos hIndex)
  · exact Or.inr (if_neg hIndex)

/--
**The atomic model is exact.** For every process table, the states of the
shared variables between two bodies of the menu, over all interleavings of the
statements in which no append falls between `scheduler`'s computation of an
index and its store, are the states that the runs of the atomic model reach:
it neither misses a state nor adds one.
-/
theorem atomic_states_exact (k : KernelState) (m : MainState) :
    (∃ es t, EachStep ThreadStep (.start k) es (fun _ s e => s.TableStable e) ∧
        Steps ThreadStep (.start k) es t ∧ (t.menu = .call ∨ t.menu = .choose) ∧ t.main = m) ↔
      ∃ cs, Steps (MainStep .checked) (.kernelMain k) cs m := by
  refine ⟨?_, ?_⟩
  · rintro ⟨es, t, hStable, hRun, hMenu, rfl⟩
    obtain ⟨m, hSteps, hCommitted⟩ := Committed.run k hStable hRun
    exact ⟨_, (hCommitted.main_eq hMenu).symm ▸ hSteps⟩
  · rintro ⟨cs, hSteps⟩
    obtain ⟨t, hRun, hQuiet⟩ := (Quiet.start k).run hSteps
    obtain ⟨es, hStable, hEvents⟩ := hRun.events
    exact ⟨es, t, hStable, hEvents, hQuiet.between, hQuiet.main⟩

end MultiOS
