import MultiOS.Threads.Atomic

/-!
# MultiOS — what holds in every interleaving

Two laws of the statements, with no condition on how they interleave.

* `index_in_range` — the active process exists whenever a statement reads it:
  the append of `createProcess` can fall anywhere in a pass of `scheduler`,
  but the table only grows outside the mutex.
* `frozen_by_system_calls` — from the moment `schedulerBySystemCalls` has the
  mutex no pass of `scheduler` and no termination completes, and the index
  and the processes there are stay as they are; the table can only grow.
-/

namespace MultiOS

open Lib

-- ---------------------------------------------------------------------------
-- The index
-- ---------------------------------------------------------------------------

/-- The index that `scheduler` has computed or stored names a process. -/
def SchedulerAt.Ranged (x : MainState) : SchedulerAt → Prop
  | .store i => i < x.processes.length
  | .announce => x.activeProcessIndex < x.processes.length
  | _ => True

/-- Between the erase and the reset of case 7 the index may dangle; otherwise
it names a process, or is 0 in an empty table. -/
def MenuAt.Ranged (x : MainState) (menu : MenuAt) : Prop :=
  menu = .reset ∨ x.activeProcessIndex < x.processes.length ∨
    (x.activeProcessIndex = 0 ∧ x.processes = [])

/-- The invariant behind `IndexSafe`, with the mutex. -/
structure IndexRanged (s : ThreadState) : Prop where
  guarded : s.locks.Guarded guards
  scheduler : s.scheduler.Ranged s.main
  menu : s.menu.Ranged s.main

/-- What a reader of the index finds: the message of `scheduler` and the erase
of case 7 are in range, and so is the index outside case 7, unless the table
is empty. -/
structure IndexSafe (s : ThreadState) : Prop where
  announce : s.scheduler = .announce → s.main.activeProcessIndex < s.main.processes.length
  erase : s.menu = .erase → 0 < s.main.processes.length →
    s.main.activeProcessIndex < s.main.processes.length
  menu : s.menu ≠ .reset → 0 < s.main.processes.length →
    s.main.activeProcessIndex < s.main.processes.length

/-- In a table with processes the index dangles at the reset only. -/
theorem MenuAt.Ranged.lt {x : MainState} {menu : MenuAt} (h : menu.Ranged x)
    (hMenu : menu ≠ .reset) (hSize : 0 < x.processes.length) :
    x.activeProcessIndex < x.processes.length := by
  rcases h with hReset | hLt | ⟨-, hEmpty⟩
  · exact absurd hReset hMenu
  · exact hLt
  · simp [hEmpty] at hSize

/-- The invariant gives what the readers of the index need. -/
theorem IndexRanged.safe {s : ThreadState} (h : IndexRanged s) : IndexSafe s where
  announce hAt := by
    have hRanged := h.scheduler
    rw [hAt] at hRanged
    exact hRanged
  erase hAt hSize := h.menu.lt (by simp [hAt]) hSize
  menu hMenu hSize := h.menu.lt hMenu hSize

/-- A position outside the locked section has nothing computed. -/
theorem SchedulerAt.ranged_of_out {scheduler : SchedulerAt} (h : scheduler.point.guards = 0)
    (x : MainState) : scheduler.Ranged x := by
  cases scheduler with
  | store i => simp [SchedulerAt.point, SchedulerPoint.guards] at h
  | announce => simp [SchedulerAt.point, SchedulerPoint.guards] at h
  | _ => trivial

/-- A table that grows keeps what was computed in range. -/
theorem SchedulerAt.Ranged.mono {scheduler : SchedulerAt} {x y : MainState}
    (h : scheduler.Ranged x) (hIndex : y.activeProcessIndex = x.activeProcessIndex)
    (hLength : x.processes.length ≤ y.processes.length) : scheduler.Ranged y := by
  cases scheduler with
  | store i => exact Nat.lt_of_lt_of_le h hLength
  | announce =>
    have hLt : x.activeProcessIndex < x.processes.length := h
    show y.activeProcessIndex < y.processes.length
    omega
  | _ => trivial

/-- So does it keep the index in range, whatever the menu's thread does. -/
theorem MenuAt.Ranged.mono {menu menu' : MenuAt} {x y : MainState} (h : menu.Ranged x)
    (hMenu : menu ≠ .reset) (hIndex : y.activeProcessIndex = x.activeProcessIndex)
    (hGrows : x.processes <+: y.processes) : menu'.Ranged y := by
  have hLength := hGrows.length_le
  rcases h with hReset | hLt | ⟨hZero, hEmpty⟩
  · exact absurd hReset hMenu
  · exact Or.inr (Or.inl (by omega))
  · cases hProcesses : y.processes with
    | nil => exact Or.inr (Or.inr ⟨hIndex.trans hZero, hProcesses⟩)
    | cons process processes =>
      refine Or.inr (Or.inl ?_)
      rw [hProcesses, hIndex, hZero]
      exact Nat.succ_pos _

/-- A statement of the menu's thread that only appends to the table. -/
structure Grows (s t : ThreadState) : Prop where
  scheduler : t.scheduler = s.scheduler
  not_reset : s.menu ≠ .reset
  index : t.main.activeProcessIndex = s.main.activeProcessIndex
  table : s.main.processes <+: t.main.processes

/-- The erase of case 7. -/
structure Erases (s t : ThreadState) : Prop where
  scheduler : t.scheduler = s.scheduler
  at_erase : s.menu = .erase
  at_reset : t.menu = .reset

/-- The reset of case 7. -/
structure Resets (s t : ThreadState) : Prop where
  scheduler : t.scheduler = s.scheduler
  at_reset : s.menu = .reset
  menu : t.menu.Ranged t.main

/-- A statement of the menu's thread appends, or is the erase or the reset of
case 7. -/
theorem menu_table {s t : ThreadState} {wybor : Int} {input : NewProcess}
    (h : ThreadEffect s (.menu wybor input) t) : Grows s t ∨ Erases s t ∨ Resets s t := by
  cases h with
  | erase hAt hIndex => exact Or.inr (Or.inl ⟨rfl, hAt, rfl⟩)
  | reset hAt =>
    refine Or.inr (Or.inr ⟨rfl, hAt, Or.inr ?_⟩)
    cases hProcesses : s.main.processes with
    | nil => exact Or.inr ⟨rfl, rfl⟩
    | cons process processes => exact Or.inl (Nat.succ_pos _)
  | emplace hAt =>
    refine Or.inl ⟨rfl, ?_, rfl, List.prefix_append _ _⟩
    rw [hAt]
    simp
  | call hAt | chooseJoin hAt | chooseBrowser hAt | chooseCreate hAt | chooseShow hAt
  | chooseTerminate hAt | chooseOther hAt | joinProcess hAt | joinedAll hAt | joinBrowser hAt
  | allocate hAt | refuse hAt | lockMenu hAt | loadActive hAt | join hAt | unlockMenu hAt =>
    refine Or.inl ⟨rfl, ?_, rfl, List.prefix_refl _⟩
    rw [hAt]
    simp

/-- `scheduler` computes its index modulo the size of the table, which only
grows until the store. -/
theorem IndexRanged.scheduler_step {s t : ThreadState} (h : IndexRanged s)
    (hStep : ThreadStep s .scheduler t) : IndexRanged t := by
  have hGuarded := ThreadState.Guarded.step h.guarded hStep
  have hScheduler := h.scheduler
  cases threadStep_effect hStep with
  | sleep hAt => exact ⟨hGuarded, trivial, h.menu⟩
  | lock hAt hFree => exact ⟨hGuarded, trivial, h.menu⟩
  | loadIndex hAt => exact ⟨hGuarded, trivial, h.menu⟩
  | loadSize hAt hSize => exact ⟨hGuarded, Nat.mod_lt _ hSize, h.menu⟩
  | store hAt =>
    rw [hAt] at hScheduler
    exact ⟨hGuarded, hScheduler, Or.inr (Or.inl hScheduler)⟩
  | announce hAt hIndex => exact ⟨hGuarded, trivial, h.menu⟩
  | unlock hAt hOwner => exact ⟨hGuarded, trivial, h.menu⟩

/-- The erase and the reset of case 7 hold the mutex, so `scheduler` has nothing
computed then. -/
theorem IndexRanged.menu_step {s t : ThreadState} {wybor : Int} {input : NewProcess}
    (h : IndexRanged s) (hStep : ThreadStep s (.menu wybor input) t) : IndexRanged t := by
  have hGuarded := ThreadState.Guarded.step h.guarded hStep
  rcases menu_table (threadStep_effect hStep) with hGrows | hErase | hReset
  · refine ⟨hGuarded, ?_, h.menu.mono hGrows.not_reset hGrows.index hGrows.table⟩
    rw [hGrows.scheduler]
    exact h.scheduler.mono hGrows.index hGrows.table.length_le
  · have hOut := ThreadState.scheduler_out h.guarded (by simp [hErase.at_erase, MenuAt.point,
      MenuPoint.guards])
    refine ⟨hGuarded, ?_, Or.inl hErase.at_reset⟩
    rw [hErase.scheduler]
    exact SchedulerAt.ranged_of_out hOut _
  · have hOut := ThreadState.scheduler_out h.guarded (by simp [hReset.at_reset, MenuAt.point,
      MenuPoint.guards])
    refine ⟨hGuarded, ?_, hReset.menu⟩
    rw [hReset.scheduler]
    exact SchedulerAt.ranged_of_out hOut _

/-- Every statement keeps the index in range. -/
theorem IndexRanged.step {s t : ThreadState} {e : ThreadEvent} (h : IndexRanged s)
    (hStep : ThreadStep s e t) : IndexRanged t := by
  have hGuarded := ThreadState.Guarded.step h.guarded hStep
  cases e with
  | scheduler => exact h.scheduler_step hStep
  | menu wybor input => exact h.menu_step hStep
  | schedulerBySystemCalls =>
    cases threadStep_effect hStep with
    | schedulerBySystemCalls hNext hGrant => exact ⟨hGuarded, h.scheduler, h.menu⟩
  | process i =>
    cases threadStep_effect hStep with
    | process hLeft => exact ⟨hGuarded, h.scheduler, h.menu⟩

/--
**The index is in range.** In every state that any interleaving of the
statements reaches from a table whose active process exists, torn passes of
`scheduler` included: the message of `scheduler` reads an existing process,
case 7 erases an existing process unless the table is empty, and the active
process exists unless the table is empty or case 7 is about to reset the
index.
-/
theorem index_in_range (k : KernelState) (hStart : k.activeProcessIndex < k.processes.length)
    (es : List ThreadEvent) : Always ThreadStep (.start k) es IndexSafe := by
  have hInv : Always ThreadStep (.start k) es IndexRanged := by
    refine always_of_inv ?_ fun s e t _ h hStep => h.step hStep
    exact ⟨ThreadState.start_guarded k, trivial, Or.inr (Or.inl hStart)⟩
  exact hInv.imp fun s h => h.safe

/-- A pass torn by an append. -/
theorem index_in_range_torn :
    Always ThreadStep (.start .boot)
      [.scheduler, .scheduler, .scheduler, .scheduler, .menu 0 ⟨"p", 1, 1⟩, .menu 5 ⟨"p", 1, 1⟩,
        .menu 0 ⟨"p", 1, 1⟩, .menu 0 ⟨"p", 1, 1⟩, .scheduler, .scheduler] IndexSafe :=
  index_in_range .boot (by decide) _

-- ---------------------------------------------------------------------------
-- After the first system call
-- ---------------------------------------------------------------------------

section
variable {s s' t : ThreadState}

/-- In its locked section `scheduler` holds the mutex. -/
theorem owner_of_scheduler (hGuarded : s.locks.Guarded guards)
    (hInside : 0 < s.scheduler.point.guards) : s.owner = some .scheduler :=
  hGuarded.owner_of_pos (t := .scheduler) hInside

/-- In its locked section the menu's thread holds the mutex. -/
theorem owner_of_menu (hGuarded : s.locks.Guarded guards)
    (hInside : 0 < (s.menu.point s.main.activeProcessIndex).guards) : s.owner = some .menu :=
  hGuarded.owner_of_pos (t := .menu) hInside

/-- Once `schedulerBySystemCalls` has the mutex it has it for good. -/
theorem kept_by_system_calls (hGuarded : s.locks.Guarded guards)
    (hAt : s.schedulerBySystemCalls = .lock) (hStep : ThreadStep s .schedulerBySystemCalls s')
    {after : List ThreadEvent} (hAfter : Steps ThreadStep s' after t) :
    t.owner = some .schedulerBySystemCalls ∧ t.locks.Guarded guards := by
  have hGuarded' := ThreadState.Guarded.step hGuarded hStep
  have hMove := ThreadState.lockMoves_steps hGuarded hStep
  obtain ⟨u, hLockStep, hEq⟩ := hMove
  rw [← steps_nil.mp hEq] at hLockStep
  obtain ⟨hSteps, hGuarded''⟩ := ThreadState.locks_simulate hGuarded' hAfter
  have hIn : ¬ SystemCallsStayOut s.locks
      ⟨.schedulerBySystemCalls, s.schedulerBySystemCalls.next.1,
        s.schedulerBySystemCalls.next.2⟩ := by
    intro hOut
    exact hOut rfl hAt
  exact ⟨(system_calls_block_forever hIn hLockStep hSteps).1, hGuarded''⟩

/-- While `schedulerBySystemCalls` has the mutex, a statement moves no index,
takes no process away and completes no pass. -/
theorem frozen_step {e : ThreadEvent} (hGuarded : s.locks.Guarded guards)
    (hOwner : s.owner = some .schedulerBySystemCalls) (hStep : ThreadStep s e t) :
    t.main.activeProcessIndex = s.main.activeProcessIndex ∧
      s.main.processes <+: t.main.processes ∧ .tick ∉ s.commits e := by
  -- neither of the two that write the index is inside its section
  have hNotScheduler : ¬ 0 < s.scheduler.point.guards := by
    intro hInside
    rw [owner_of_scheduler hGuarded hInside] at hOwner
    simp at hOwner
  have hNotMenu : ¬ 0 < (s.menu.point s.main.activeProcessIndex).guards := by
    intro hInside
    rw [owner_of_menu hGuarded hInside] at hOwner
    simp at hOwner
  cases e with
  | scheduler =>
    -- the store, by which a pass completes, is inside the section
    have hTick : .tick ∉ s.commits .scheduler := by
      rw [ThreadState.commits]
      split
      · next i hAt => simp [hAt, SchedulerAt.point, SchedulerPoint.guards] at hNotScheduler
      · simp
    cases threadStep_effect hStep with
    | store hAt => simp [hAt, SchedulerAt.point, SchedulerPoint.guards] at hNotScheduler
    | sleep hAt | lock hAt | loadIndex hAt | loadSize hAt | announce hAt | unlock hAt =>
      exact ⟨rfl, List.prefix_refl _, hTick⟩
  | schedulerBySystemCalls =>
    cases threadStep_effect hStep with
    | schedulerBySystemCalls hNext hGrant =>
      exact ⟨rfl, List.prefix_refl _, by simp [ThreadState.commits]⟩
  | menu wybor input =>
    have hTick : .tick ∉ s.commits (.menu wybor input) := by
      rw [ThreadState.commits]
      split <;> (try split) <;> simp
    rcases menu_table (threadStep_effect hStep) with hGrows | hErase | hReset
    · exact ⟨hGrows.index, hGrows.table, hTick⟩
    · simp [hErase.at_erase, MenuAt.point, MenuPoint.guards] at hNotMenu
    · simp [hReset.at_reset, MenuAt.point, MenuPoint.guards] at hNotMenu
  | process i =>
    cases threadStep_effect hStep with
    | process hLeft => exact ⟨rfl, List.prefix_refl _, by simp [ThreadState.commits]⟩

end

/--
**Frozen by the first system call.** For every process table and every
interleaving: after the statement by which `schedulerBySystemCalls` takes the
mutex, in every state reached, the active index is the one it was, every
process is where it was, the mutex is still taken, and no pass of `scheduler`
has completed.
-/
theorem frozen_by_system_calls (k : KernelState) {before after : List ThreadEvent}
    {s s' t : ThreadState} (hBefore : Steps ThreadStep (.start k) before s)
    (hAt : s.schedulerBySystemCalls = .lock) (hStep : ThreadStep s .schedulerBySystemCalls s')
    (hAfter : Steps ThreadStep s' after t) :
    t.owner = some .schedulerBySystemCalls ∧
      t.main.activeProcessIndex = s'.main.activeProcessIndex ∧
      s'.main.processes <+: t.main.processes ∧
      .tick ∉ shownAlong ThreadState.threadStep ThreadState.commits s' after := by
  have hGuarded := (ThreadState.locks_simulate (ThreadState.start_guarded k) hBefore).2
  refine ⟨(kept_by_system_calls hGuarded hAt hStep hAfter).1, ?_⟩
  refine Steps.prefix_induction (fun es u =>
    u.main.activeProcessIndex = s'.main.activeProcessIndex ∧
      s'.main.processes <+: u.main.processes ∧
      .tick ∉ shownAlong ThreadState.threadStep ThreadState.commits s' es) ?_ ?_
    (List.prefix_refl after) hAfter
  · exact ⟨rfl, List.prefix_refl _, by simp [shownAlong]⟩
  · rintro es u e v - hu ⟨hIndex, hTable, hTicks⟩ hv
    obtain ⟨hOwner, hGuarded'⟩ := kept_by_system_calls hGuarded hAt hStep hu
    obtain ⟨hIndex', hTable', hTick⟩ := frozen_step hGuarded' hOwner hv
    refine ⟨hIndex'.trans hIndex, hTable.trans hTable', ?_⟩
    rw [shownAlong_append hu, shownAlong_cons hv, shownAlong, List.append_nil, List.mem_append]
    rintro (hOld | hNew)
    · exact hTicks hOld
    · exact hTick hNew

/-- `schedulerBySystemCalls` takes the mutex, then the menu creates a process. -/
theorem frozen_by_system_calls_create :
    ∃ s' t, Steps ThreadStep s' [.menu 0 ⟨"p", 1, 1⟩, .menu 5 ⟨"p", 1, 1⟩, .menu 0 ⟨"p", 1, 1⟩,
        .menu 0 ⟨"p", 1, 1⟩] t ∧ t.main.processes.length = 3 ∧
      t.owner = some .schedulerBySystemCalls ∧
      t.main.activeProcessIndex = s'.main.activeProcessIndex := by
  have hBefore : Steps ThreadStep (.start .boot) [.schedulerBySystemCalls]
      { ThreadState.start .boot with schedulerBySystemCalls := .lock } := ⟨_, rfl, rfl⟩
  have hAfter : Steps ThreadStep
      { ThreadState.start .boot with
        owner := some .schedulerBySystemCalls
        schedulerBySystemCalls := .handler 0 .lock }
      [.menu 0 ⟨"p", 1, 1⟩, .menu 5 ⟨"p", 1, 1⟩, .menu 0 ⟨"p", 1, 1⟩, .menu 0 ⟨"p", 1, 1⟩] _ :=
    ⟨_, rfl, _, rfl, _, rfl, _, rfl, rfl⟩
  obtain ⟨hOwner, hIndex, -⟩ := frozen_by_system_calls .boot hBefore rfl rfl hAfter
  exact ⟨_, _, hAfter, rfl, hOwner, hIndex⟩

end MultiOS
