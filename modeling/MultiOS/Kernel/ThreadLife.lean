import MultiOS.Kernel.ActiveProcess

/-!
# MultiOS — the life cycle of the threads

A `std::thread` can be joined once, and must have been joined when it is
destroyed. `kernel_main` keeps no record of what it joined:

* choice 1 joins every process thread, and does so again the next time;
* choices 2 and 3 join one and the same browser thread;
* choice 7 joins `threads[activeProcessIndex]`, while the process it erases
  moves the later ones to lower indices and its thread stays in the vector;
* choice 4 returns past the joins at the end of `kernel_main`, with the
  scheduler's thread, among others, still joinable.

Whether a thread is joinable is therefore a fact about the history of choices
(`ThreadLife`), and `thread_life_cycle_iff` states which histories are safe.
-/

namespace MultiOS

open Lib

/-- The threads that `kernel_main` destroys when it returns. -/
def MainState.ownedThreads (s : MainState) : List StdThread :=
  s.threads ++ [s.schedulerThread, s.systemCallThread, s.interruptThread, s.browserThread]

/-- A join the event performs is on a thread that is there and joinable, and
if the event returns from `kernel_main`, every thread has been joined. -/
def LifeCycle (s : MainState) (e : MainEvent) : Prop :=
  ∀ stop, s.mainStep .checked e = .error stop →
    stop ≠ .notJoinable ∧ stop ≠ .noThread ∧
      (stop = .returned → ∀ thread ∈ s.ownedThreads, thread.joinable = false)

-- ---------------------------------------------------------------------------
-- What each choice asks of the threads
-- ---------------------------------------------------------------------------

/-- A joinable thread is joined once. -/
theorem join_of_joinable {thread : StdThread} (h : thread.joinable = true) :
    thread.join .checked = .ok { thread with joinable := false } := by
  simp [StdThread.join, h]

/-- A second join throws. -/
theorem join_of_not_joinable {thread : StdThread} (h : ¬ thread.joinable = true) :
    thread.join .checked = .error .notJoinable := by
  simp [StdThread.join, h]

/-- `joinAll` gets through exactly when all the threads are joinable. -/
theorem joinAll_checked_iff (threads : List StdThread) :
    (∃ threads', joinAll .checked threads = .ok threads') ↔
      ∀ thread ∈ threads, thread.joinable = true := by
  induction threads with
  | nil => simp [joinAll]
  | cons thread threads ih =>
    rw [List.forall_mem_cons, ← ih]
    by_cases hJoin : thread.joinable = true
    · cases hRest : joinAll .checked threads <;>
        simp [joinAll, join_of_joinable hJoin, hRest, hJoin]
    · simp [joinAll, join_of_not_joinable hJoin, hJoin]

/-- Choice 1 joins every process thread. -/
theorem lifeCycle_processThreads {s : MainState} {input : NewProcess} :
    LifeCycle s (.choice 1 input) ↔ ∀ thread ∈ s.threads, thread.joinable = true := by
  have hStep : s.mainStep .checked (.choice 1 input) = s.perform .checked .joinProcessThreads := rfl
  rw [← joinAll_checked_iff, LifeCycle, hStep, MainState.perform]
  cases hJoin : joinAll .checked s.threads with
  | error stop =>
    obtain rfl := joinAll_error hJoin
    simp
  | ok threads => simp

/-- Choices 2 and 3 join the browser thread. -/
theorem lifeCycle_browserThread {s : MainState} {wybor : Int} {input : NewProcess}
    (hChoice : wybor = 2 ∨ wybor = 3) :
    LifeCycle s (.choice wybor input) ↔ s.browserThread.joinable = true := by
  have hStep : s.mainStep .checked (.choice wybor input) =
      s.perform .checked .joinBrowserThread := by
    rcases hChoice with rfl | rfl <;> rfl
  rw [LifeCycle, hStep, MainState.perform]
  by_cases hJoin : s.browserThread.joinable = true
  · simp [join_of_joinable hJoin, hJoin]
  · simp [join_of_not_joinable hJoin, hJoin]

/-- Choice 4 destroys the threads, which must not be joinable then. -/
theorem lifeCycle_leave {s : MainState} {input : NewProcess} :
    LifeCycle s (.choice 4 input) ↔ ∀ thread ∈ s.ownedThreads, thread.joinable = false := by
  have hStep : s.mainStep .checked (.choice 4 input) = .error .returned := rfl
  simp [LifeCycle, hStep]

/-- Choice 7 joins the thread at the active index. -/
theorem lifeCycle_terminate {s : MainState} {input : NewProcess} :
    LifeCycle s (.choice 7 input) ↔
      ∃ thread, s.threads[s.activeProcessIndex]? = some thread ∧ thread.joinable = true := by
  have hStep : s.mainStep .checked (.choice 7 input) = s.perform .checked .terminateActive := rfl
  rw [LifeCycle, hStep, MainState.perform, MainState.joinActive]
  cases hThread : s.threads[s.activeProcessIndex]? with
  | none => simp
  | some thread =>
    by_cases hJoin : thread.joinable = true
    · -- the join returns; what is left can only miss a process
      by_cases hIndex : s.activeProcessIndex < s.processes.length <;>
        simp [join_of_joinable hJoin, hJoin, KernelState.terminateActive,
          KernelState.eraseActive, hIndex]
    · simp [join_of_not_joinable hJoin, hJoin]

/-- A tick fails by the division only. -/
theorem scheduler_error {k : KernelState} {stop : Stop} (h : k.scheduler = .error stop) :
    stop = .divisionByZero := by
  by_cases hSize : k.processes.length = 0
  · rw [KernelState.scheduler, if_pos hSize] at h
    exact (Except.error.inj h).symm
  · rw [scheduler_of_pos (Nat.pos_of_ne_zero hSize)] at h
    simp at h

/-- A tick touches no thread. -/
theorem lifeCycle_tick {s : MainState} : LifeCycle s .tick := by
  intro stop hErr
  rw [MainState.mainStep] at hErr
  split at hErr
  · next stop' hTick =>
    obtain rfl := Except.error.inj hErr
    obtain rfl := scheduler_error hTick
    simp
  · simp at hErr

/-- The other choices join nothing and do not return. -/
theorem lifeCycle_other {s : MainState} {wybor : Int} {input : NewProcess}
    (hChoice : wybor ≤ 0 ∨ wybor = 5 ∨ wybor = 6 ∨ 8 ≤ wybor) :
    LifeCycle s (.choice wybor input) := by
  intro stop hErr
  have hDispatched := menuAction_dispatched s.menuArgument wybor input
  rw [MainState.mainStep] at hErr
  generalize menuAction s.menuArgument wybor input = action at hErr hDispatched
  cases hDispatched with
  | joinProcessThreads => omega
  | joinBrowserThread hBrowser => omega
  | leave => omega
  | terminateActive => omega
  | createProcess => cases hErr
  | customSystemCallHandler => cases hErr
  | invalidChoice hInvalid => cases hErr
  | printActive =>
    rw [MainState.perform] at hErr
    split at hErr
    · obtain rfl := Except.error.inj hErr
      simp
    · simp at hErr

-- ---------------------------------------------------------------------------
-- The history of joins
-- ---------------------------------------------------------------------------

/-- The events so far joined `threads[i]`: a choice 1, or a choice 7 taken
while `i` was the active index. -/
inductive ThreadJoined (pre : List MainEvent) (i : Nat) : Prop where
  | all {input : NewProcess} (hPre : .choice 1 input ∈ pre)
  | active {fs : List MainEvent} {input : NewProcess} {s : MainState}
      (hPre : fs ++ [.choice 7 input] <+: pre)
      (hRun : Steps (MainStep .checked) MainState.boot fs s) (hIndex : s.activeProcessIndex = i)

/-- The events so far joined the browser's thread. -/
def BrowserJoined (pre : List MainEvent) : Prop :=
  ∃ wybor input, (wybor = 2 ∨ wybor = 3) ∧ MainEvent.choice wybor input ∈ pre

/-- At the start no thread was joined. -/
theorem threadJoined_nil (i : Nat) : ¬ ThreadJoined [] i := by
  rintro (⟨hPre⟩ | ⟨hPre, -, -⟩)
  · simp at hPre
  · simp at hPre

/-- A thread was joined before, or is joined by the last event. -/
theorem threadJoined_snoc {pre : List MainEvent} {s : MainState} {e : MainEvent} {i : Nat}
    (hRun : Steps (MainStep .checked) MainState.boot pre s) :
    ThreadJoined (pre ++ [e]) i ↔
      ThreadJoined pre i ∨ (∃ input, e = .choice 1 input) ∨
        ((∃ input, e = .choice 7 input) ∧ s.activeProcessIndex = i) := by
  refine ⟨?_, ?_⟩
  · rintro (⟨hPre⟩ | ⟨hPre, hRun', hIndex⟩)
    · rcases List.mem_append.mp hPre with hOld | hNew
      · exact Or.inl (.all hOld)
      · exact Or.inr (Or.inl ⟨_, (List.mem_singleton.mp hNew).symm⟩)
    · rcases List.prefix_concat_iff.mp hPre with hEq | hOld
      · obtain ⟨rfl, hLast⟩ := List.append_inj' hEq rfl
        have hSame := Steps.unique mainStep_unique hRun hRun'
        exact Or.inr (Or.inr ⟨⟨_, (List.cons.inj hLast).1.symm⟩, hSame ▸ hIndex⟩)
      · exact Or.inl (.active hOld hRun' hIndex)
  · rintro (hOld | ⟨input, rfl⟩ | ⟨⟨input, rfl⟩, hIndex⟩)
    · rcases hOld with ⟨hPre⟩ | ⟨hPre, hRun', hIndex⟩
      · exact .all (List.mem_append_left _ hPre)
      · exact .active (hPre.trans (List.prefix_append _ _)) hRun' hIndex
    · exact .all (List.mem_append_right _ (List.mem_singleton_self _))
    · exact .active (List.prefix_refl _) hRun hIndex

/-- So for the browser thread. -/
theorem browserJoined_snoc {pre : List MainEvent} {e : MainEvent} :
    BrowserJoined (pre ++ [e]) ↔
      BrowserJoined pre ∨ ∃ wybor input, (wybor = 2 ∨ wybor = 3) ∧ e = .choice wybor input := by
  simp only [BrowserJoined, List.mem_append, List.mem_singleton, and_or_left, exists_or, eq_comm]

/-- The joins of the run are recorded in the threads, and nothing else is. -/
structure ThreadLife (pre : List MainEvent) (s : MainState) : Prop where
  length : s.threads.length = 2
  threads : ∀ i thread, s.threads[i]? = some thread →
    (thread.joinable = true ↔ ¬ ThreadJoined pre i)
  browser : s.browserThread.joinable = true ↔ ¬ BrowserJoined pre
  schedulerLoops : s.schedulerThread.joinable = true

/-- At boot every thread is joinable and none was joined. -/
theorem ThreadLife.boot : ThreadLife [] MainState.boot where
  length := rfl
  threads := by
    intro i thread hThread
    have hMem := List.mem_of_getElem? hThread
    have hJoinable : ∀ thread ∈ MainState.boot.threads, thread.joinable = true := by decide
    exact iff_of_true (hJoinable thread hMem) (threadJoined_nil i)
  browser := iff_of_true rfl (by simp [BrowserJoined])
  schedulerLoops := rfl

/-- The threads at the two indices, read in the state or in the history. -/
theorem ThreadLife.joinable_iff {pre : List MainEvent} {s : MainState} (h : ThreadLife pre s)
    (i : Nat) :
    (∃ thread, s.threads[i]? = some thread ∧ thread.joinable = true) ↔
      i < 2 ∧ ¬ ThreadJoined pre i := by
  rw [← h.length]
  refine ⟨?_, ?_⟩
  · rintro ⟨thread, hThread, hJoin⟩
    have hLt := (List.getElem?_eq_some_iff.mp hThread).1
    exact ⟨hLt, (h.threads i thread hThread).mp hJoin⟩
  · rintro ⟨hLt, hNot⟩
    have hThread := List.getElem?_eq_getElem hLt
    exact ⟨_, hThread, (h.threads i _ hThread).mpr hNot⟩

/-- Choice 1 can join all as long as no process thread was joined. -/
theorem ThreadLife.all_joinable_iff {pre : List MainEvent} {s : MainState}
    (h : ThreadLife pre s) :
    (∀ thread ∈ s.threads, thread.joinable = true) ↔ ∀ i < 2, ¬ ThreadJoined pre i := by
  refine ⟨?_, ?_⟩
  · intro hAll i hi
    rw [← h.length] at hi
    have hThread := List.getElem?_eq_getElem hi
    exact (h.threads i _ hThread).mp (hAll _ (List.mem_of_getElem? hThread))
  · intro hNone thread hMem
    obtain ⟨i, hThread⟩ := List.getElem?_of_mem hMem
    have hLt := (List.getElem?_eq_some_iff.mp hThread).1
    rw [h.length] at hLt
    exact (h.threads i thread hThread).mpr (hNone i hLt)

/-- An event that joins nothing leaves the threads and the history as they
are. -/
theorem ThreadLife.unjoined {pre : List MainEvent} {s t : MainState} {e : MainEvent}
    (h : ThreadLife pre s) (hRun : Steps (MainStep .checked) MainState.boot pre s)
    (hJoinsNone : ∀ wybor input, e = .choice wybor input → wybor ≠ 1 ∧ wybor ≠ 2 ∧ wybor ≠ 3 ∧
      wybor ≠ 7)
    (hThreads : t.threads = s.threads) (hBrowser : t.browserThread = s.browserThread)
    (hScheduler : t.schedulerThread = s.schedulerThread) : ThreadLife (pre ++ [e]) t where
  length := hThreads ▸ h.length
  threads := by
    intro i thread hThread
    rw [hThreads] at hThread
    rw [h.threads i thread hThread, threadJoined_snoc hRun, not_iff_not]
    refine ⟨?_, ?_⟩
    · exact Or.inl
    · rintro (hOld | ⟨input, rfl⟩ | ⟨⟨input, rfl⟩, -⟩)
      · exact hOld
      · exact absurd rfl (hJoinsNone 1 input rfl).1
      · exact absurd rfl (hJoinsNone 7 input rfl).2.2.2
  browser := by
    rw [hBrowser, h.browser, browserJoined_snoc, not_iff_not]
    refine ⟨?_, ?_⟩
    · exact Or.inl
    · rintro (hOld | ⟨wybor, input, hChoice, rfl⟩)
      · exact hOld
      · obtain ⟨-, hTwo, hThree, -⟩ := hJoinsNone wybor input rfl
        omega
  schedulerLoops := hScheduler ▸ h.schedulerLoops

/-- A choice that joins nothing keeps the record. -/
theorem ThreadLife.unjoined_choice {pre : List MainEvent} {s t : MainState} {wybor : Int}
    {input : NewProcess} (h : ThreadLife pre s)
    (hRun : Steps (MainStep .checked) MainState.boot pre s)
    (hOther : wybor ≠ 1 ∧ wybor ≠ 2 ∧ wybor ≠ 3 ∧ wybor ≠ 7) (hThreads : t.threads = s.threads)
    (hBrowser : t.browserThread = s.browserThread)
    (hScheduler : t.schedulerThread = s.schedulerThread) :
    ThreadLife (pre ++ [.choice wybor input]) t := by
  refine h.unjoined hRun ?_ hThreads hBrowser hScheduler
  intro wybor' input' hEq
  obtain ⟨rfl, -⟩ := MainEvent.choice.inj hEq
  exact hOther

/-- Every step keeps the record: what is joinable was never joined. -/
theorem ThreadLife.step {pre : List MainEvent} {s t : MainState} {e : MainEvent}
    (h : ThreadLife pre s) (hRun : Steps (MainStep .checked) MainState.boot pre s)
    (hStep : MainStep .checked s e t) : ThreadLife (pre ++ [e]) t := by
  cases mainStep_effect hStep with
  | tick hSize => exact h.unjoined hRun nofun rfl rfl rfl
  | callMenu => exact h.unjoined hRun nofun rfl rfl rfl
  | createProcess input => exact h.unjoined_choice hRun (by decide) rfl rfl rfl
  | printActive hIndex => exact h.unjoined_choice hRun (by decide) rfl rfl rfl
  | other hChoice => exact h.unjoined_choice hRun (by omega) rfl rfl rfl
  | joinProcessThreads hJoin =>
    obtain rfl := joinAll_ok hJoin
    refine ⟨by rw [← h.length]; exact List.length_map _, ?_, ?_, h.schedulerLoops⟩
    · intro i thread hThread
      obtain ⟨old, -, rfl⟩ := List.mem_map.mp (List.mem_of_getElem? hThread)
      rw [threadJoined_snoc hRun]
      exact iff_of_false (by simp) (not_not.mpr (Or.inr (Or.inl ⟨_, rfl⟩)))
    · show s.browserThread.joinable = true ↔ _
      simp [h.browser, browserJoined_snoc]
  | joinBrowserThread hChoice hJoin =>
    obtain rfl := join_ok hJoin
    refine ⟨h.length, ?_, ?_, h.schedulerLoops⟩
    · intro i thread hThread
      rw [h.threads i thread hThread, threadJoined_snoc hRun]
      rcases hChoice with rfl | rfl <;> simp
    · rw [browserJoined_snoc]
      exact iff_of_false (by simp) (not_not.mpr (Or.inr ⟨_, _, hChoice, rfl⟩))
  | terminateActive hThread hJoin hIndex =>
    refine ⟨by rw [← h.length]; exact List.length_set, ?_, ?_, h.schedulerLoops⟩
    · intro i thread hAt
      rw [threadJoined_snoc hRun]
      by_cases hi : s.activeProcessIndex = i
      · -- the thread just joined
        subst hi
        have hLt := (List.getElem?_eq_some_iff.mp hThread).1
        rw [List.getElem?_set_self hLt] at hAt
        rw [← Option.some.inj hAt]
        exact iff_of_false (by simp) (not_not.mpr (Or.inr (Or.inr ⟨⟨_, rfl⟩, rfl⟩)))
      · rw [List.getElem?_set_ne hi] at hAt
        rw [h.threads i thread hAt]
        simp [hi]
    · show s.browserThread.joinable = true ↔ _
      simp [h.browser, browserJoined_snoc]

/-- So it holds along every run. -/
theorem ThreadLife.of_run {pre : List MainEvent} {s : MainState}
    (hRun : Steps (MainStep .checked) MainState.boot pre s) : ThreadLife pre s := by
  apply Steps.history_induction _ _ hRun
  · exact ThreadLife.boot
  · exact fun es s e t hRun h hStep => h.step hRun hStep

-- ---------------------------------------------------------------------------
-- The law
-- ---------------------------------------------------------------------------

/-- The choice joins what the choices before it left joinable, and is not the
one that returns. -/
structure JoinsOnce (pre : List MainEvent) (s : MainState) (e : MainEvent) : Prop where
  processThreads : ∀ input, e = .choice 1 input → ∀ i < 2, ¬ ThreadJoined pre i
  browserThread : ∀ wybor input, wybor = 2 ∨ wybor = 3 → e = .choice wybor input →
    ¬ BrowserJoined pre
  stays : ∀ input, e ≠ .choice 4 input
  activeThread : ∀ input, e = .choice 7 input →
    s.activeProcessIndex < 2 ∧ ¬ ThreadJoined pre s.activeProcessIndex

/-- Read off the record, an event meets the life cycle if it joins no thread
again. -/
theorem ThreadLife.lifeCycle_iff {pre : List MainEvent} {s : MainState} (h : ThreadLife pre s)
    (e : MainEvent) : LifeCycle s e ↔ JoinsOnce pre s e := by
  have hLoops := h.schedulerLoops
  cases e with
  | tick => exact iff_of_true lifeCycle_tick ⟨nofun, nofun, nofun, nofun⟩
  | callMenu => exact iff_of_true nofun ⟨nofun, nofun, nofun, nofun⟩
  | choice wybor input =>
    refine ⟨?_, ?_⟩
    · intro hLaw
      refine ⟨?_, ?_, ?_, ?_⟩
      · rintro input' hEq
        obtain ⟨rfl, -⟩ := MainEvent.choice.inj hEq
        exact h.all_joinable_iff.mp (lifeCycle_processThreads.mp hLaw)
      · rintro wybor' input' hChoice hEq
        obtain ⟨rfl, -⟩ := MainEvent.choice.inj hEq
        exact h.browser.mp ((lifeCycle_browserThread hChoice).mp hLaw)
      · rintro input' hEq
        obtain ⟨rfl, -⟩ := MainEvent.choice.inj hEq
        -- the scheduler's thread is never joined
        have hJoined := lifeCycle_leave.mp hLaw s.schedulerThread (by simp [MainState.ownedThreads])
        rw [hLoops] at hJoined
        simp at hJoined
      · rintro input' hEq
        obtain ⟨rfl, -⟩ := MainEvent.choice.inj hEq
        exact (h.joinable_iff _).mp (lifeCycle_terminate.mp hLaw)
    · intro hOnce
      by_cases hOne : wybor = 1
      · subst hOne
        exact lifeCycle_processThreads.mpr (h.all_joinable_iff.mpr (hOnce.processThreads input rfl))
      by_cases hBrowser : wybor = 2 ∨ wybor = 3
      · exact (lifeCycle_browserThread hBrowser).mpr
          (h.browser.mpr (hOnce.browserThread wybor input hBrowser rfl))
      by_cases hFour : wybor = 4
      · subst hFour
        exact absurd rfl (hOnce.stays input)
      by_cases hSeven : wybor = 7
      · subst hSeven
        exact lifeCycle_terminate.mpr ((h.joinable_iff _).mpr (hOnce.activeThread input rfl))
      · exact lifeCycle_other (by omega)

/--
**Thread life cycle.** For every sequence of ticks and menu choices, each
event tried joins only joinable threads, and returns only with every thread
joined, exactly when each choice 1 is the first join of the process threads,
each choice 2 or 3 the first of the browser's, each choice 7 the first of one
of the two process threads, and there is no choice 4.
-/
theorem thread_life_cycle_iff (es : List MainEvent) :
    Attempts (MainStep .checked) MainState.boot es (fun _ s e => LifeCycle s e) ↔
      Attempts (MainStep .checked) MainState.boot es JoinsOnce :=
  attempts_congr fun _ _ e hRun => (ThreadLife.of_run hRun).lifeCycle_iff e

/-- `kernel_main` returns while the threads are joinable. -/
theorem thread_life_cycle_fails :
    ¬ Attempts (MainStep .checked) MainState.boot [.choice 4 ⟨"", 0, 0⟩]
      (fun _ s e => LifeCycle s e) := by
  intro h
  have hLaw := h [] MainState.boot (.choice 4 ⟨"", 0, 0⟩) (List.prefix_refl _) rfl
  have hAll : ∀ thread ∈ MainState.boot.ownedThreads, thread.joinable = false :=
    (hLaw .returned rfl).2.2 rfl
  exact absurd hAll (by decide)

end MultiOS
