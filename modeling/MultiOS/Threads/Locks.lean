import MultiOS.Locks.SelfBlock
import MultiOS.Threads.Steps

/-!
# MultiOS — the statements seen through `schedulerMutex`

Forgetting the shared variables leaves the positions of `Model/Locks.lean`:
the statements inside a locked section become its one position there, and all
that the menu's thread does outside a lock becomes `read`. Every run of the
threads is then a run of the locks (`locks_simulate`), so what holds of the
locks holds here: no two threads are inside a locked section
(`locked_sections_exclusive` in `Locks/SelfBlock`).
-/

namespace MultiOS

open Lib

/-- The four statements of `changeActiveProcess` are one position of the locks. -/
def SchedulerAt.point : SchedulerAt → SchedulerPoint
  | .sleep => .sleep
  | .lock => .lock
  | .loadIndex | .loadSize _ | .store _ | .announce => .changeActive
  | .unlock => .unlock

/-- Outside case 7 the menu's thread is at `read`; the erase and the reset of
case 7 are one position. -/
def MenuAt.point (activeProcessIndex : Nat) : MenuAt → MenuPoint
  | .call | .choose | .joinProcess _ | .joinBrowser _ | .allocate _ | .emplace _ _ => .read
  | .lock => .lock
  | .loadActive => .join activeProcessIndex
  | .join i => .join i
  | .erase | .reset => .erase
  | .unlock => .unlock

namespace ThreadState

/-- The positions around the mutex. -/
def locks (s : ThreadState) : LockState KernelThread Point where
  pos
    | .scheduler => s.scheduler.point
    | .schedulerBySystemCalls => s.schedulerBySystemCalls
    | .menu => s.menu.point s.main.activeProcessIndex
    | .process i => s.left i
  owner := s.owner

/-- The move of the locks that a statement is, if it is one. -/
def lockMoves (s : ThreadState) : ThreadEvent → List (LockMove KernelThread Point)
  | .scheduler =>
    match s.scheduler with
    | .loadIndex | .loadSize _ | .store _ => []
    | _ => [⟨.scheduler, s.scheduler.point.next.1, s.scheduler.point.next.2⟩]
  | .schedulerBySystemCalls =>
    [⟨.schedulerBySystemCalls, s.schedulerBySystemCalls.next.1, s.schedulerBySystemCalls.next.2⟩]
  | .menu wybor _ =>
    match s.menu with
    | .choose => if wybor = 7 then [⟨.menu, .body, MenuPoint.lock⟩] else []
    | .lock => [⟨.menu, .acquire, MenuPoint.join s.main.activeProcessIndex⟩]
    | .join _ => [⟨.menu, .body, MenuPoint.erase⟩]
    | .reset => [⟨.menu, .body, MenuPoint.unlock⟩]
    | .unlock => [⟨.menu, .release, MenuPoint.read⟩]
    | _ => []
  | .process i => [⟨.process i, .body, s.left i - 1⟩]

@[simp] theorem locks_owner (s : ThreadState) : s.locks.owner = s.owner := rfl
@[simp] theorem locks_scheduler (s : ThreadState) : s.locks.pos .scheduler = s.scheduler.point :=
  rfl
@[simp] theorem locks_schedulerBySystemCalls (s : ThreadState) :
    s.locks.pos .schedulerBySystemCalls = s.schedulerBySystemCalls := rfl
@[simp] theorem locks_menu (s : ThreadState) :
    s.locks.pos .menu = s.menu.point s.main.activeProcessIndex := rfl
@[simp] theorem locks_process (s : ThreadState) (i : Nat) : s.locks.pos (.process i) = s.left i :=
  rfl

/-- States with the same positions and owner. -/
theorem locks_ext {s : ThreadState} {l : LockState KernelThread Point} (hOwner : s.owner = l.owner)
    (hScheduler : s.scheduler.point = l.pos .scheduler)
    (hSystemCalls : s.schedulerBySystemCalls = l.pos .schedulerBySystemCalls)
    (hMenu : s.menu.point s.main.activeProcessIndex = l.pos .menu)
    (hLeft : ∀ i, s.left i = l.pos (.process i)) : s.locks = l := by
  obtain ⟨pos, owner⟩ := l
  unfold locks
  congr 1
  funext thread
  cases thread with
  | scheduler => exact hScheduler
  | schedulerBySystemCalls => exact hSystemCalls
  | menu => exact hMenu
  | process i => exact hLeft i

/-- Both models start with every thread at its first position. -/
theorem start_locks (k : KernelState) : (start k).locks = bootLocks k.processes :=
  locks_ext rfl rfl rfl rfl fun _ => rfl

-- ---------------------------------------------------------------------------
-- One statement
-- ---------------------------------------------------------------------------

/-- Outside its locked section the menu's position does not tell the index. -/
theorem point_of_guards {menu : MenuAt} {i : Nat} (h : (menu.point i).guards = 0) (j : Nat) :
    menu.point j = menu.point i := by
  cases menu with
  | loadActive =>
    have hInside : (MenuAt.loadActive.point i).guards = 1 := rfl
    omega
  | _ => rfl

/-- What the mutex grants here, the mutex of the locks grants, with the same
owner afterwards. -/
theorem grant_some {s : LockState KernelThread Point} {thread : KernelThread} {op : LockOp}
    {owner : Option KernelThread} (h : grant thread s.owner op = some owner) (target : Point thread) :
    s.Grants thread op ∧ owner = (s.after ⟨thread, op, target⟩).owner := by
  unfold grant at h
  cases op with
  | acquire =>
    by_cases hFree : s.owner = none
    · rw [if_pos hFree] at h
      exact ⟨hFree, (Option.some.inj h).symm⟩
    · simp [hFree] at h
  | body => exact ⟨trivial, (Option.some.inj h).symm⟩
  | release =>
    by_cases hOwner : s.owner = some thread
    · rw [if_pos hOwner] at h
      exact ⟨hOwner, (Option.some.inj h).symm⟩
    · simp [hOwner] at h

section
variable {s t : ThreadState}

/-- While `scheduler` is inside its locked section, the menu's thread is
outside its own. -/
theorem menu_out (hGuarded : s.locks.Guarded guards) (hInside : 0 < s.scheduler.point.guards) :
    (s.menu.point s.main.activeProcessIndex).guards = 0 := by
  have hOwner : s.locks.owner = some .scheduler := hGuarded.owner_of_pos hInside
  have hMenu := hGuarded .menu
  rw [hOwner, if_neg (by simp)] at hMenu
  exact hMenu

/-- While the menu's thread is inside its locked section, `scheduler` is
outside its own. -/
theorem scheduler_out (hGuarded : s.locks.Guarded guards)
    (hInside : 0 < (s.menu.point s.main.activeProcessIndex).guards) :
    s.scheduler.point.guards = 0 := by
  have hOwner : s.locks.owner = some .menu := hGuarded.owner_of_pos hInside
  have hScheduler := hGuarded .scheduler
  rw [hOwner, if_neg (by simp)] at hScheduler
  exact hScheduler

/-- A statement that is no move leaves the positions alone. -/
theorem no_move {e : ThreadEvent} (hMoves : s.lockMoves e = []) (hLocks : t.locks = s.locks) :
    Steps KernelLockStep s.locks (s.lockMoves e) t.locks := by
  rw [hMoves]
  exact hLocks

/-- A statement that is one move takes the step of the locks that is offered and
granted. -/
theorem one_move {e : ThreadEvent} {m : LockMove KernelThread Point} (hMoves : s.lockMoves e = [m])
    (hOffers : Offers s.locks.pos m) (hGrants : s.locks.Grants m.thread m.op)
    (hAfter : t.locks = s.locks.after m) : Steps KernelLockStep s.locks (s.lockMoves e) t.locks := by
  rw [hMoves]
  exact ⟨t.locks, ⟨hOffers, hGrants, hAfter⟩, rfl⟩

/-- A statement of `scheduler` that is a move. -/
theorem scheduler_move (op : LockOp) {target : SchedulerAt} {owner : Option KernelThread}
    (hMoves : s.lockMoves .scheduler = [⟨.scheduler, op, target.point⟩])
    (hNext : s.scheduler.point.next = (op, target.point)) (hGrants : s.locks.Grants .scheduler op)
    (hOwner : owner = (s.locks.after ⟨.scheduler, op, target.point⟩).owner) :
    Steps KernelLockStep s.locks (s.lockMoves .scheduler)
      { s with owner, scheduler := target }.locks := by
  refine one_move hMoves (offers_scheduler_iff.mpr hNext) hGrants ?_
  refine locks_ext hOwner ?_ rfl rfl fun _ => rfl
  exact (LockState.after_pos_self s.locks .scheduler op target.point).symm

/-- A statement of the menu's thread that is a move. -/
theorem menu_move {wybor : Int} {input : NewProcess} (op : LockOp) {main : MainState}
    {target : MenuAt} {owner : Option KernelThread}
    (hMoves : s.lockMoves (.menu wybor input) =
      [⟨.menu, op, target.point main.activeProcessIndex⟩])
    (hNext : (s.menu.point s.main.activeProcessIndex).next (fun i => s.left i == 0) wybor
      s.main.activeProcessIndex = some (op, target.point main.activeProcessIndex))
    (hGrants : s.locks.Grants .menu op)
    (hOwner : owner =
      (s.locks.after ⟨.menu, op, target.point main.activeProcessIndex⟩).owner) :
    Steps KernelLockStep s.locks (s.lockMoves (.menu wybor input))
      { s with main, owner, menu := target }.locks := by
  refine one_move hMoves (.menu wybor s.main.activeProcessIndex hNext) hGrants ?_
  refine locks_ext hOwner rfl rfl ?_ fun _ => rfl
  exact (LockState.after_pos_self s.locks .menu op _).symm

/-- A statement of the menu's thread outside its locked section. -/
theorem menu_outside {wybor : Int} {input : NewProcess} {main : MainState} {target : MenuAt}
    (hMoves : s.lockMoves (.menu wybor input) = [])
    (hPoint : target.point main.activeProcessIndex = s.menu.point s.main.activeProcessIndex) :
    Steps KernelLockStep s.locks (s.lockMoves (.menu wybor input))
      { s with main, menu := target }.locks :=
  no_move hMoves (locks_ext rfl rfl rfl hPoint fun _ => rfl)

/-- The statements of `scheduler`: all are moves but the three that read and
write the index, which stay at the position `changeActive`. -/
theorem scheduler_steps (hGuarded : s.locks.Guarded guards) (h : ThreadStep s .scheduler t) :
    Steps KernelLockStep s.locks (s.lockMoves .scheduler) t.locks := by
  cases threadStep_effect h with
  | sleep hAt =>
    refine scheduler_move .body ?_ ?_ trivial rfl
    · simp [lockMoves, hAt, SchedulerAt.point, SchedulerPoint.next]
    · simp [hAt, SchedulerAt.point, SchedulerPoint.next]
  | lock hAt hFree =>
    refine scheduler_move .acquire ?_ ?_ hFree rfl
    · simp [lockMoves, hAt, SchedulerAt.point, SchedulerPoint.next]
    · simp [hAt, SchedulerAt.point, SchedulerPoint.next]
  | loadIndex hAt =>
    refine no_move (by simp [lockMoves, hAt]) (locks_ext rfl ?_ rfl rfl fun _ => rfl)
    simp [hAt, SchedulerAt.point]
  | loadSize hAt hSize =>
    refine no_move (by simp [lockMoves, hAt]) (locks_ext rfl ?_ rfl rfl fun _ => rfl)
    simp [hAt, SchedulerAt.point]
  | store hAt =>
    refine no_move (by simp [lockMoves, hAt]) (locks_ext rfl ?_ rfl ?_ fun _ => rfl)
    · simp [hAt, SchedulerAt.point]
    · -- `scheduler` holds the mutex, so the menu's thread is outside
      have hInside : 0 < s.scheduler.point.guards := by
        simp [hAt, SchedulerAt.point, SchedulerPoint.guards]
      exact point_of_guards (menu_out hGuarded hInside) _
  | announce hAt hIndex =>
    refine scheduler_move .body ?_ ?_ trivial rfl
    · simp [lockMoves, hAt, SchedulerAt.point, SchedulerPoint.next]
    · simp [hAt, SchedulerAt.point, SchedulerPoint.next]
  | unlock hAt hOwner =>
    refine scheduler_move .release ?_ ?_ hOwner rfl
    · simp [lockMoves, hAt, SchedulerAt.point, SchedulerPoint.next]
    · simp [hAt, SchedulerAt.point, SchedulerPoint.next]

/-- Every statement of `schedulerBySystemCalls` is a move. -/
theorem systemCalls_steps (h : ThreadStep s .schedulerBySystemCalls t) :
    Steps KernelLockStep s.locks (s.lockMoves .schedulerBySystemCalls) t.locks := by
  cases threadStep_effect h with
  | schedulerBySystemCalls hNext hGrant =>
    rename_i op target owner
    obtain ⟨hGrants, hOwner⟩ := grant_some (s := s.locks) hGrant target
    have hMoves : s.lockMoves .schedulerBySystemCalls =
        [⟨.schedulerBySystemCalls, op, target⟩] := by
      rw [lockMoves, hNext]
    refine one_move hMoves (offers_schedulerBySystemCalls_iff.mpr hNext) hGrants ?_
    refine locks_ext hOwner rfl ?_ rfl fun _ => rfl
    exact (LockState.after_pos_self s.locks .schedulerBySystemCalls op target).symm

/-- A process thread's second is a move of that thread alone. -/
theorem process_steps {i : Nat} (h : ThreadStep s (.process i) t) :
    Steps KernelLockStep s.locks (s.lockMoves (.process i)) t.locks := by
  cases threadStep_effect h with
  | process hLeft =>
    rename_i left
    have hMoves : s.lockMoves (.process i) = [⟨.process i, .body, left⟩] := by
      rw [lockMoves, hLeft, Nat.add_sub_cancel]
    refine one_move hMoves (offers_process_iff.mpr ⟨rfl, hLeft⟩) trivial ?_
    refine locks_ext rfl rfl rfl rfl ?_
    intro j
    by_cases hj : j = i
    · subst hj
      rw [LockState.after_pos_self]
      exact Function.update_self ..
    · rw [LockState.after_pos_of_ne s.locks (by simpa using hj)]
      exact Function.update_of_ne hj ..

section
variable {wybor : Int} {input : NewProcess}

/-- Of the choices only 7 is a move, to the lock. -/
theorem choose_steps (hAt : s.menu = .choose) (h : ThreadStep s (.menu wybor input) t) :
    Steps KernelLockStep s.locks (s.lockMoves (.menu wybor input)) t.locks := by
  obtain ⟨main, owner, scheduler, systemCalls, menu, left⟩ := s
  obtain rfl : menu = .choose := hAt
  cases threadStep_effect h with
  | chooseJoin => exact menu_outside rfl rfl
  | chooseBrowser _ hChoice => exact menu_outside (if_neg (by omega)) rfl
  | chooseCreate => exact menu_outside rfl rfl
  | chooseShow _ hIndex => exact menu_outside rfl rfl
  | chooseTerminate => exact menu_move .body rfl rfl trivial rfl
  | chooseOther _ hChoice => exact menu_outside (if_neg (by omega)) rfl
  | _ => contradiction

/-- The call of `pokazMenu` and the statements of cases 1, 2, 3 and 5 are no
moves: they begin and end outside every lock. -/
theorem unlocked_steps (hPoint : s.menu.point s.main.activeProcessIndex = .read)
    (hNot : s.menu ≠ .choose) (h : ThreadStep s (.menu wybor input) t) :
    Steps KernelLockStep s.locks (s.lockMoves (.menu wybor input)) t.locks := by
  cases threadStep_effect h with
  | call hAt => exact menu_outside (by rw [lockMoves, hAt]) hPoint.symm
  | joinProcess hAt hThread hJoinable hLeft =>
    exact menu_outside (by rw [lockMoves, hAt]) hPoint.symm
  | joinedAll hAt hEnd => exact menu_outside (by rw [lockMoves, hAt]) hPoint.symm
  | joinBrowser hAt hJoin => exact menu_outside (by rw [lockMoves, hAt]) hPoint.symm
  | allocate hAt hAllocate hOk => exact menu_outside (by rw [lockMoves, hAt]) hPoint.symm
  | refuse hAt hAllocate => exact menu_outside (by rw [lockMoves, hAt]) hPoint.symm
  | emplace hAt => exact menu_outside (by rw [lockMoves, hAt]) hPoint.symm
  | chooseJoin hAt | chooseBrowser hAt | chooseCreate hAt | chooseShow hAt
  | chooseTerminate hAt | chooseOther hAt => exact absurd hAt hNot
  | lockMenu hAt | loadActive hAt | join hAt | erase hAt | reset hAt | unlockMenu hAt =>
    rw [hAt] at hPoint
    cases hPoint

/-- Case 7 from its lock to its unlock: the two statements that leave the
position where it is are no moves. -/
theorem terminate_steps (hPoint : s.menu.point s.main.activeProcessIndex ≠ .read)
    (h : ThreadStep s (.menu wybor input) t) :
    Steps KernelLockStep s.locks (s.lockMoves (.menu wybor input)) t.locks := by
  cases threadStep_effect h with
  | lockMenu hAt hFree =>
    refine menu_move .acquire ?_ ?_ hFree rfl
    · simp [lockMoves, hAt, MenuAt.point]
    · simp [hAt, MenuAt.point, MenuPoint.next]
  | loadActive hAt hIndex =>
    exact menu_outside (by simp [lockMoves, hAt]) (by simp [hAt, MenuAt.point])
  | join hAt hThread hJoinable hLeft =>
    refine menu_move .body ?_ ?_ trivial rfl
    · simp [lockMoves, hAt, MenuAt.point]
    · simp [hAt, MenuAt.point, MenuPoint.next, hLeft]
  | erase hAt hIndex =>
    exact menu_outside (by simp [lockMoves, hAt]) (by simp [hAt, MenuAt.point])
  | reset hAt =>
    refine menu_move .body ?_ ?_ trivial rfl
    · simp [lockMoves, hAt, MenuAt.point]
    · simp [hAt, MenuAt.point, MenuPoint.next]
  | unlockMenu hAt hOwner =>
    refine menu_move .release ?_ ?_ hOwner rfl
    · simp [lockMoves, hAt, MenuAt.point]
    · simp [hAt, MenuAt.point, MenuPoint.next]
  | call hAt | chooseJoin hAt | chooseBrowser hAt | chooseCreate hAt | chooseShow hAt
  | chooseTerminate hAt | chooseOther hAt | joinProcess hAt | joinedAll hAt | joinBrowser hAt
  | allocate hAt | refuse hAt | emplace hAt =>
    rw [hAt] at hPoint
    exact absurd rfl hPoint

/-- A statement of the menu's thread. -/
theorem menu_steps (h : ThreadStep s (.menu wybor input) t) :
    Steps KernelLockStep s.locks (s.lockMoves (.menu wybor input)) t.locks := by
  by_cases hPoint : s.menu.point s.main.activeProcessIndex = .read
  · by_cases hAt : s.menu = .choose
    · exact choose_steps hAt h
    · exact unlocked_steps hPoint hAt h
  · exact terminate_steps hPoint h

end

/-- With the guards counted, a statement is the moves it shows. -/
theorem lockMoves_steps {e : ThreadEvent} (hGuarded : s.locks.Guarded guards)
    (h : ThreadStep s e t) : Steps KernelLockStep s.locks (s.lockMoves e) t.locks := by
  cases e with
  | scheduler => exact scheduler_steps hGuarded h
  | schedulerBySystemCalls => exact systemCalls_steps h
  | menu wybor input => exact menu_steps h
  | process i => exact process_steps h

/-- A statement keeps the guards counted: every owner is inside its section, and
nobody else. -/
theorem Guarded.step {e : ThreadEvent} (hGuarded : s.locks.Guarded guards)
    (h : ThreadStep s e t) : t.locks.Guarded guards :=
  guards_eq offers_countsGuards hGuarded (lockMoves_steps hGuarded h)

end

-- ---------------------------------------------------------------------------
-- Runs
-- ---------------------------------------------------------------------------

/-- Every run of the threads is a run of the locks. -/
theorem locks_simulate {s t : ThreadState} {es : List ThreadEvent}
    (hGuarded : s.locks.Guarded guards) (hRun : Steps ThreadStep s es t) :
    Steps KernelLockStep s.locks (shownAlong threadStep lockMoves s es) t.locks ∧
      t.locks.Guarded guards := by
  have hSim : ∃ l, Steps KernelLockStep s.locks (shownAlong threadStep lockMoves s es) l ∧
      l = t.locks ∧ l.Guarded guards := by
    refine Steps.simulates_all (fun s l => l = s.locks ∧ l.Guarded guards) ?_ ⟨rfl, hGuarded⟩ hRun
    rintro s l e t ⟨rfl, hGuarded⟩ hStep
    exact ⟨t.locks, lockMoves_steps hGuarded hStep, rfl, Guarded.step hGuarded hStep⟩
  obtain ⟨l, hSteps, rfl, hGuarded'⟩ := hSim
  exact ⟨hSteps, hGuarded'⟩

/-- At the start nobody is inside a locked section. -/
theorem start_guarded (k : KernelState) : (start k).locks.Guarded guards := by
  rw [start_locks]
  exact bootLocks_guarded k.processes

end ThreadState

end MultiOS
