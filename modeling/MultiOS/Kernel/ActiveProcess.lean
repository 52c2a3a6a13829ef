import MultiOS.Kernel.Steps

/-!
# MultiOS — the active process exists

`activeProcessIndex` is moved by the scheduler, reset by a termination, and
used as an index by `scheduler`, `pokazMenu` and the termination code; nothing
checks it against the table. It stays a valid index as long as the table does
not become empty, which happens when the last process is terminated. Then
`0 < processes.size()` fails, the next tick divides by zero and the next
lookup is out of range.

The index `pokazMenu` uses is the copy made when it was called
(`menuIndex`); ticks do not touch it, but the table cannot shrink while
`pokazMenu` waits, so it stays valid as well.
-/

namespace MultiOS

open Lib

/-- The active process exists, and no event divides by zero or looks up a
process that is not there. -/
structure ActiveExists (rule : JoinRule) (s : MainState) : Prop where
  index : s.activeProcessIndex < s.processes.length
  lookups : ∀ e stop, s.mainStep rule e = .error stop →
    stop ≠ .divisionByZero ∧ stop ≠ .noProcess

/-- If the event is a termination, at least two processes are in the table. -/
def LeavesOne (s : MainState) (e : MainEvent) : Prop :=
  ∀ input, e = .choice 7 input → 2 ≤ s.processes.length

/-- Both copies of the active index are valid. -/
structure IndexValid (s : MainState) : Prop where
  active : s.activeProcessIndex < s.processes.length
  menu : ∀ i, s.menuIndex = some i → i < s.processes.length

/-- The index that `pokazMenu` was called with names a process. -/
theorem IndexValid.menuArgument {s : MainState} (h : IndexValid s) :
    s.menuArgument < s.processes.length := by
  unfold MainState.menuArgument
  cases hMenu : s.menuIndex with
  | none => exact h.active
  | some i => exact h.menu i hMenu

-- ---------------------------------------------------------------------------
-- What can stop a step
-- ---------------------------------------------------------------------------

/-- A join fails of a thread that is not joinable. -/
theorem join_error {rule : JoinRule} {thread : StdThread} {stop : Stop}
    (h : thread.join rule = .error stop) : stop = .notJoinable := by
  unfold StdThread.join at h
  split at h
  · simp at h
  · exact (Except.error.inj h).symm

/-- So do the joins of choice 1. -/
theorem joinAll_error {rule : JoinRule} {threads : List StdThread} {stop : Stop}
    (h : joinAll rule threads = .error stop) : stop = .notJoinable := by
  induction threads with
  | nil => cases h
  | cons thread threads ih =>
    rw [joinAll] at h
    split at h
    · next stop' hJoin =>
      obtain rfl := Except.error.inj h
      exact join_error hJoin
    · split at h
      · next stop' hRest =>
        obtain rfl := Except.error.inj h
        exact ih hRest
      · simp at h

/-- Case 7 may also find no thread at the active index. -/
theorem joinActive_error {rule : JoinRule} {s : MainState} {stop : Stop}
    (h : s.joinActive rule = .error stop) : stop = .notJoinable ∨ stop = .noThread := by
  unfold MainState.joinActive at h
  split at h
  · exact Or.inr (Except.error.inj h).symm
  · split at h
    · next stop' hJoin =>
      obtain rfl := Except.error.inj h
      exact Or.inl (join_error hJoin)
    · simp at h

/-- With valid indices an action can only stop at a join, or by leaving. -/
theorem IndexValid.perform_error {rule : JoinRule} {s : MainState} {stop : Stop} (h : IndexValid s)
    {wybor : Int} {input : NewProcess}
    (hErr : s.perform rule (menuAction s.menuArgument wybor input) = .error stop) :
    stop = .notJoinable ∨ stop = .noThread ∨ stop = .returned := by
  have hDispatched := menuAction_dispatched s.menuArgument wybor input
  generalize menuAction s.menuArgument wybor input = action at hErr hDispatched
  cases hDispatched with
  | joinProcessThreads =>
    rw [MainState.perform] at hErr
    split at hErr
    · next stop' hJoin =>
      obtain rfl := Except.error.inj hErr
      exact Or.inl (joinAll_error hJoin)
    · simp at hErr
  | joinBrowserThread hChoice =>
    rw [MainState.perform] at hErr
    split at hErr
    · next stop' hJoin =>
      obtain rfl := Except.error.inj hErr
      exact Or.inl (join_error hJoin)
    · simp at hErr
  | leave => exact Or.inr (Or.inr (Except.error.inj hErr).symm)
  | createProcess => cases hErr
  | printActive =>
    -- the index printed is the argument `pokazMenu` was called with
    rw [MainState.perform, List.getElem?_eq_getElem h.menuArgument] at hErr
    simp at hErr
  | terminateActive =>
    rw [MainState.perform] at hErr
    split at hErr
    · next stop' hJoin =>
      obtain rfl := Except.error.inj hErr
      rcases joinActive_error hJoin with hStop | hStop
      · exact Or.inl hStop
      · exact Or.inr (Or.inl hStop)
    · simp [KernelState.terminateActive, KernelState.eraseActive, h.active] at hErr
  | customSystemCallHandler => cases hErr
  | invalidChoice hChoice => cases hErr

/-- A valid index serves every reader. -/
theorem IndexValid.activeExists {rule : JoinRule} {s : MainState} (h : IndexValid s) :
    ActiveExists rule s where
  index := h.active
  lookups := by
    intro e stop hErr
    cases e with
    | tick =>
      rw [MainState.mainStep, scheduler_of_pos (Nat.zero_lt_of_lt h.active)] at hErr
      simp at hErr
    | callMenu => cases hErr
    | choice wybor input =>
      rw [MainState.mainStep] at hErr
      rcases h.perform_error hErr with rfl | rfl | rfl <;> simp

-- ---------------------------------------------------------------------------
-- Steps
-- ---------------------------------------------------------------------------

/-- A step that leaves a process keeps the index valid. -/
theorem IndexValid.step {rule : JoinRule} {s t : MainState} {e : MainEvent} (h : IndexValid s)
    (hLeaves : LeavesOne s e) (hStep : MainStep rule s e t) : IndexValid t := by
  cases mainStep_effect hStep with
  | tick hSize => exact ⟨Nat.mod_lt _ hSize, h.menu⟩
  | callMenu =>
    refine ⟨h.active, ?_⟩
    rintro i hi
    obtain rfl := Option.some.inj hi
    exact h.menuArgument
  | joinProcessThreads hJoin => exact ⟨h.active, nofun⟩
  | joinBrowserThread hChoice hJoin => exact ⟨h.active, nofun⟩
  | createProcess input =>
    refine ⟨?_, nofun⟩
    obtain ⟨hAppends, hIndex⟩ := createProcess_appends s.toKernelState input
    show (s.toKernelState.createProcess input).activeProcessIndex <
      (s.toKernelState.createProcess input).processes.length
    rw [hIndex]
    exact lt_of_lt_of_le h.active hAppends.length_le
  | printActive hIndex =>
    refine ⟨h.active, ?_⟩
    rintro i hi
    obtain rfl := Option.some.inj hi
    exact hIndex
  | terminateActive hThread hJoin hIndex =>
    refine ⟨?_, nofun⟩
    have hTwo : 2 ≤ s.processes.length := hLeaves _ rfl
    show 0 < (s.processes.eraseIdx s.activeProcessIndex).length
    rw [List.length_eraseIdx_of_lt hIndex]
    omega
  | other hChoice => exact ⟨h.active, nofun⟩

/-- Terminating the last process leaves no active process. -/
theorem IndexValid.breaks {rule : JoinRule} {s t : MainState} {e : MainEvent}
    (hLast : ¬ LeavesOne s e) (hStep : MainStep rule s e t) : ¬ ActiveExists rule t := by
  simp only [LeavesOne, not_forall] at hLast
  obtain ⟨input, rfl, hLen⟩ := hLast
  obtain ⟨hIndex, hProcs, hActive, -, -⟩ := mainStep_terminate hStep
  intro hExists
  have hLt := hExists.index
  rw [hProcs, hActive, List.length_eraseIdx_of_lt hIndex] at hLt
  omega

/-- At boot the index is 0, and there are processes. -/
theorem IndexValid.boot : IndexValid MainState.boot := ⟨by decide, nofun⟩

/--
**The active process exists.** Along a run of `kernel_main` from the boot
table, every state reached has a valid `activeProcessIndex` and no event of it
divides by zero or looks up a process out of range, exactly when every
termination the run takes starts with at least two processes in the table.
-/
theorem active_exists_iff (rule : JoinRule) (es : List MainEvent) :
    Always (MainStep rule) MainState.boot es (ActiveExists rule) ↔
      EachStep (MainStep rule) MainState.boot es fun _ s e => LeavesOne s e := by
  apply always_iff_eachStep IndexValid
  · exact IndexValid.boot
  · exact fun s h => h.activeExists
  · exact fun fs s e t _ h hC hStep => h.step hC hStep
  · exact fun fs s e t _ _ hC hStep => IndexValid.breaks hC hStep

/-- The second boot process, then the first one: both joins are on joinable
threads, and the table is empty with `activeProcessIndex = 0`. -/
theorem active_exists_fails :
    ¬ Always (MainStep .checked) MainState.boot
      [.tick, .choice 7 ⟨"", 0, 0⟩, .choice 7 ⟨"", 0, 0⟩] (ActiveExists .checked) := by
  intro h
  have hRun : ∃ s, Steps (MainStep .checked) MainState.boot
      [.tick, .choice 7 ⟨"", 0, 0⟩, .choice 7 ⟨"", 0, 0⟩] s ∧
      s.processes = [] ∧ s.mainStep .checked .tick = .error .divisionByZero :=
    ⟨_, ⟨_, rfl, _, rfl, _, rfl, rfl⟩, rfl, rfl⟩
  obtain ⟨s, hs, -, hTick⟩ := hRun
  exact ((h.final hs).lookups .tick .divisionByZero hTick).1 rfl

end MultiOS
