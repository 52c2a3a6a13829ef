import MultiOS.Model.Locks

/-!
# MultiOS — who waits for `schedulerMutex`

`schedulerBySystemCalls` calls `systemCallHandler` inside its locked section,
and the handler locks the same non-recursive mutex: the thread waits for
itself. The scheduler's thread and case 7 do not: a thread that waits for one
of them waits for a thread that reaches its release, with case 7 waiting in
turn for a process thread that takes no lock.

* `locked_sections_exclusive` — at most one thread is inside a locked section.
* `never_self_blocks_iff` — no thread waits for itself, in every state of a
  run, exactly when the run never lets `schedulerBySystemCalls` have the
  mutex.
* `system_calls_block_forever` — once it has, the mutex is never free again.
-/

namespace MultiOS

open Lib

-- ---------------------------------------------------------------------------
-- Guards
-- ---------------------------------------------------------------------------

/-- The lock guards alive in each thread, by position. -/
def SchedulerPoint.guards : SchedulerPoint → Nat
  | .sleep | .lock => 0
  | .changeActive | .unlock => 1

/-- Inside `systemCallHandler` its guard is held. -/
def HandlerPoint.guards : HandlerPoint → Nat
  | .lock => 0
  | .dispatch | .interrupt | .customSystemCallHandler | .unlock => 1

/-- One guard of the loop, one of each handler called so far. -/
def SystemCallPoint.guards : SystemCallPoint → Nat
  | .sleep | .lock => 0
  | .handler depth point => 1 + depth + point.guards
  | .unlock => 1

/-- The guard of case 7 is held from the join to the unlock. -/
def MenuPoint.guards : MenuPoint → Nat
  | .read | .lock => 0
  | .join _ | .erase | .unlock => 1

/-- The guards on `schedulerMutex` that a thread holds at a position. -/
def guards : ∀ t, Point t → Nat
  | .scheduler => SchedulerPoint.guards
  | .schedulerBySystemCalls => SystemCallPoint.guards
  | .menu => MenuPoint.guards
  | .process _ => fun _ => 0

/-- `scheduler` counts its guard. -/
theorem SchedulerPoint.next_guards (point : SchedulerPoint) :
    point.next.1.Counts point.guards point.next.2.guards := by
  cases point <;> rfl

/-- So does `schedulerBySystemCalls`, in its loop and in the handlers below it. -/
theorem SystemCallPoint.next_guards (point : SystemCallPoint) :
    point.next.1.Counts point.guards point.next.2.guards := by
  cases point with
  | sleep => rfl
  | lock => rfl
  | unlock => rfl
  | handler depth point =>
    cases point with
    | lock => rfl
    | dispatch => rfl
    | customSystemCallHandler => rfl
    | interrupt =>
      show 1 + (depth + 1) + 0 = 1 + depth + 1
      omega
    | unlock =>
      cases depth with
      | zero => rfl
      | succ depth =>
        show 1 + (depth + 1) + 1 = 1 + depth + 1 + 1
        omega

/-- So does the menu. -/
theorem MenuPoint.next_guards {finished : Nat → Bool} {wybor : Int} {i : Nat} {op : LockOp}
    {point target : MenuPoint} (h : point.next finished wybor i = some (op, target)) :
    op.Counts point.guards target.guards := by
  unfold next at h
  split at h
  · split at h
    · simp at h
    · obtain ⟨rfl, rfl⟩ := Prod.mk.inj (Option.some.inj h)
      split <;> rfl
  · obtain ⟨rfl, rfl⟩ := Prod.mk.inj (Option.some.inj h)
    rfl
  · split at h
    · obtain ⟨rfl, rfl⟩ := Prod.mk.inj (Option.some.inj h)
      rfl
    · simp at h
  · obtain ⟨rfl, rfl⟩ := Prod.mk.inj (Option.some.inj h)
    rfl
  · obtain ⟨rfl, rfl⟩ := Prod.mk.inj (Option.some.inj h)
    rfl

/-- Every thread counts its guards. -/
theorem offers_countsGuards : CountsGuards Offers guards := by
  intro pos m hOffers
  cases hOffers with
  | scheduler => exact SchedulerPoint.next_guards (pos .scheduler)
  | schedulerBySystemCalls => exact SystemCallPoint.next_guards (pos .schedulerBySystemCalls)
  | menu wybor i hNext => exact MenuPoint.next_guards hNext
  | process hLeft => rfl

/-- At the start nobody holds one. -/
theorem bootLocks_guarded (processes : List Process) : (bootLocks processes).Guarded guards := by
  intro t
  cases t <;> rfl

/-- **Locked sections exclude each other.** In every state reached at most one
thread has a guard alive, which is why the kernel's model takes the locked
sections as atomic. -/
theorem locked_sections_exclusive {processes : List Process} {s : LockState KernelThread Point}
    {moves : List (LockMove KernelThread Point)}
    (hRun : Steps KernelLockStep (bootLocks processes) moves s) {t u : KernelThread}
    (ht : 0 < guards t (s.pos t)) (hu : 0 < guards u (s.pos u)) : t = u := by
  have hGuarded := guards_eq offers_countsGuards (bootLocks_guarded processes) hRun
  exact hGuarded.mutual_exclusion ht hu

-- ---------------------------------------------------------------------------
-- Waiting
-- ---------------------------------------------------------------------------

/-- A process thread takes no lock and waits for nobody. -/
def IsProcess (t : KernelThread) : Prop := ∃ i, t = .process i

/-- No thread is about to acquire the mutex while it owns it, and a thread
that waits for an owner waits for another thread, one that reaches its release
on its own moves and those of process threads. -/
structure NeverSelfBlocks (s : LockState KernelThread Point) : Prop where
  not_itself : ∀ t, s.Waits Offers t → s.owner ≠ some t
  released : ∀ t u, s.Waits Offers t → s.owner = some u →
    u ≠ t ∧ s.CanRelease Offers IsProcess u

/-- The move does not let `schedulerBySystemCalls` have the mutex. -/
def SystemCallsStayOut (s : LockState KernelThread Point) (m : LockMove KernelThread Point) :
    Prop :=
  m.thread = .schedulerBySystemCalls → s.pos .schedulerBySystemCalls ≠ SystemCallPoint.lock

/-- The guards are counted, and `schedulerBySystemCalls` is outside its locked
section. -/
structure StayedOut (s : LockState KernelThread Point) : Prop where
  guarded : s.Guarded guards
  outside : s.pos .schedulerBySystemCalls = SystemCallPoint.sleep ∨
    s.pos .schedulerBySystemCalls = SystemCallPoint.lock

/-- At the start no system call was made. -/
theorem StayedOut.boot (processes : List Process) : StayedOut (bootLocks processes) where
  guarded := bootLocks_guarded processes
  outside := Or.inl rfl

/-- As long as system calls stay out, no thread is in a handler. -/
theorem StayedOut.step {s s' : LockState KernelThread Point} {m : LockMove KernelThread Point}
    (h : StayedOut s) (hOut : SystemCallsStayOut s m) (hStep : KernelLockStep s m s') :
    StayedOut s' := by
  refine ⟨h.guarded.step offers_countsGuards hStep, ?_⟩
  obtain ⟨hOffers, -, rfl⟩ := hStep
  cases hOffers with
  | schedulerBySystemCalls =>
    right
    have hSleep := h.outside.resolve_right (hOut rfl)
    rw [LockState.after_pos_self, hSleep]
    rfl
  | scheduler => exact h.outside
  | menu wybor i hNext => exact h.outside
  | process hLeft => exact h.outside

/-- The positions at which the next thing a thread does is to lock. -/
def AtLock : ∀ t, Point t → Prop
  | .scheduler, point => point = SchedulerPoint.lock
  | .schedulerBySystemCalls, point =>
    point = SystemCallPoint.lock ∨ ∃ depth, point = SystemCallPoint.handler depth .lock
  | .menu, point => point = MenuPoint.lock
  | .process _, _ => False

/-- `scheduler` acquires at its lock only. -/
theorem SchedulerPoint.next_acquire_iff (point : SchedulerPoint) :
    (∃ p, point.next = (.acquire, p)) ↔ point = .lock := by
  cases point <;> simp [next]

/-- `schedulerBySystemCalls` acquires at its own lock and at every handler's. -/
theorem SystemCallPoint.next_acquire_iff (point : SystemCallPoint) :
    (∃ p, point.next = (.acquire, p)) ↔ point = .lock ∨ ∃ depth, point = .handler depth .lock := by
  cases point with
  | sleep => simp [next]
  | lock => simp [next]
  | unlock => simp [next]
  | handler depth point =>
    cases point with
    | unlock => cases depth <;> simp [next]
    | _ => simp [next]

/-- The menu acquires in case 7 only. -/
theorem MenuPoint.next_acquire_iff (finished : Nat → Bool) (point : MenuPoint) :
    (∃ p wybor i, point.next finished wybor i = some (.acquire, p)) ↔ point = .lock := by
  cases point <;> simp [next]

/-- To wait for the mutex is to be at a lock. -/
theorem waits_iff (s : LockState KernelThread Point) (t : KernelThread) :
    s.Waits Offers t ↔ AtLock t (s.pos t) := by
  unfold LockState.Waits
  cases t with
  | scheduler =>
    simp only [offers_scheduler_iff]
    exact SchedulerPoint.next_acquire_iff _
  | schedulerBySystemCalls =>
    simp only [offers_schedulerBySystemCalls_iff]
    exact SystemCallPoint.next_acquire_iff _
  | menu =>
    simp only [offers_menu_iff]
    exact MenuPoint.next_acquire_iff _ _
  | process i =>
    simp only [offers_process_iff]
    simp [AtLock]

/-- A thread that waits there holds no guard, unless a system call was made. -/
theorem StayedOut.waits_guards {s : LockState KernelThread Point} (h : StayedOut s)
    {t : KernelThread} (hWaits : s.Waits Offers t) : guards t (s.pos t) = 0 := by
  have hAt := (waits_iff s t).mp hWaits
  cases t with
  | scheduler =>
    have hPos : s.pos .scheduler = SchedulerPoint.lock := hAt
    rw [hPos]
    rfl
  | schedulerBySystemCalls =>
    rcases h.outside with hPos | hPos <;> (rw [hPos]; rfl)
  | menu =>
    have hPos : s.pos .menu = MenuPoint.lock := hAt
    rw [hPos]
    rfl
  | process i => rfl

-- ---------------------------------------------------------------------------
-- The owner reaches its release
-- ---------------------------------------------------------------------------

section
variable {s : LockState KernelThread Point}

/-- From its unlock `scheduler` releases. -/
theorem scheduler_unlocks (hOwner : s.owner = some .scheduler)
    (hPos : s.pos .scheduler = SchedulerPoint.unlock) :
    s.CanRelease Offers IsProcess .scheduler := by
  have hNext : Offers s.pos ⟨.scheduler, .release, SchedulerPoint.sleep⟩ :=
    offers_scheduler_iff.mpr (by rw [hPos]; rfl)
  exact .cons hNext hOwner (Or.inl rfl) (.now rfl)

/-- From anywhere in its section it gets to the unlock alone. -/
theorem scheduler_releases (hOwner : s.owner = some .scheduler)
    (hInside : 0 < guards .scheduler (s.pos .scheduler)) :
    s.CanRelease Offers IsProcess .scheduler := by
  cases hPos : (s.pos .scheduler : SchedulerPoint) with
  | sleep =>
    rw [hPos] at hInside
    cases hInside
  | lock =>
    rw [hPos] at hInside
    cases hInside
  | changeActive =>
    have hNext : Offers s.pos ⟨.scheduler, .body, SchedulerPoint.unlock⟩ :=
      offers_scheduler_iff.mpr (by rw [hPos]; rfl)
    refine .cons hNext trivial (Or.inl rfl) (scheduler_unlocks ?_ ?_)
    · exact hOwner
    · exact LockState.after_pos_self s _ _ _
  | unlock => exact scheduler_unlocks hOwner hPos

/-- From its unlock the menu releases. -/
theorem menu_unlocks (hOwner : s.owner = some .menu) (hPos : s.pos .menu = MenuPoint.unlock) :
    s.CanRelease Offers IsProcess .menu := by
  have hNext : Offers s.pos ⟨.menu, .release, MenuPoint.read⟩ := .menu 0 0 (by rw [hPos]; rfl)
  exact .cons hNext hOwner (Or.inl rfl) (.now rfl)

/-- From the erase it goes on alone. -/
theorem menu_erases (hOwner : s.owner = some .menu) (hPos : s.pos .menu = MenuPoint.erase) :
    s.CanRelease Offers IsProcess .menu := by
  have hNext : Offers s.pos ⟨.menu, .body, MenuPoint.unlock⟩ := .menu 0 0 (by rw [hPos]; rfl)
  refine .cons hNext trivial (Or.inl rfl) (menu_unlocks ?_ ?_)
  · exact hOwner
  · exact LockState.after_pos_self s _ _ _

/-- The joined thread executes its remaining steps, then the join returns. -/
theorem menu_joins {i left : Nat} (hOwner : s.owner = some .menu)
    (hPos : s.pos .menu = MenuPoint.join i) (hLeft : s.pos (.process i) = left) :
    s.CanRelease Offers IsProcess .menu := by
  induction left generalizing s with
  | zero =>
    have hNext : Offers s.pos ⟨.menu, .body, MenuPoint.erase⟩ :=
      .menu 0 0 (by rw [hPos, MenuPoint.next, hLeft]; rfl)
    refine .cons hNext trivial (Or.inl rfl) (menu_erases ?_ ?_)
    · exact hOwner
    · exact LockState.after_pos_self s _ _ _
  | succ left ih =>
    refine .cons (.process hLeft) trivial (Or.inr ⟨i, rfl⟩) (ih ?_ ?_ ?_)
    · exact hOwner
    · exact hPos
    · exact LockState.after_pos_self s _ _ _

/-- At the join the process thread has to finish first. -/
theorem menu_releases (hOwner : s.owner = some .menu) (hInside : 0 < guards .menu (s.pos .menu)) :
    s.CanRelease Offers IsProcess .menu := by
  cases hPos : (s.pos .menu : MenuPoint) with
  | read =>
    rw [hPos] at hInside
    cases hInside
  | lock =>
    rw [hPos] at hInside
    cases hInside
  | join i => exact menu_joins hOwner hPos rfl
  | erase => exact menu_erases hOwner hPos
  | unlock => exact menu_unlocks hOwner hPos

end

/-- Whoever holds the mutex can release it, with no help but that of process
threads. -/
theorem StayedOut.owner_releases {s : LockState KernelThread Point} (h : StayedOut s)
    {u : KernelThread} (hOwner : s.owner = some u) : s.CanRelease Offers IsProcess u := by
  have hInside := (h.guarded.owner_iff u).mp hOwner
  cases u with
  | scheduler => exact scheduler_releases hOwner hInside
  | menu => exact menu_releases hOwner hInside
  | process i => cases hInside
  | schedulerBySystemCalls =>
    rcases h.outside with hPos | hPos
    · rw [hPos] at hInside
      cases hInside
    · rw [hPos] at hInside
      cases hInside

/-- So no thread blocks itself. -/
theorem StayedOut.neverSelfBlocks {s : LockState KernelThread Point} (h : StayedOut s) :
    NeverSelfBlocks s := by
  have hNot : ∀ t, s.Waits Offers t → s.owner ≠ some t := by
    intro t hWaits hOwner
    have hInside := (h.guarded.owner_iff t).mp hOwner
    have hNone := h.waits_guards hWaits
    omega
  refine ⟨hNot, ?_⟩
  intro t u hWaits hOwner
  refine ⟨?_, h.owner_releases hOwner⟩
  rintro rfl
  exact hNot u hWaits hOwner

-- ---------------------------------------------------------------------------
-- The law
-- ---------------------------------------------------------------------------

/-- Let into its locked section, `schedulerBySystemCalls` owns the mutex and
is about to lock it again. -/
theorem let_in {s s' : LockState KernelThread Point} {m : LockMove KernelThread Point}
    (hIn : ¬ SystemCallsStayOut s m) (hStep : KernelLockStep s m s') :
    s'.owner = some .schedulerBySystemCalls ∧
      s'.pos .schedulerBySystemCalls = SystemCallPoint.handler 0 .lock := by
  rw [SystemCallsStayOut, Classical.not_imp, not_not] at hIn
  obtain ⟨hThread, hPos⟩ := hIn
  obtain ⟨hOffers, -, rfl⟩ := hStep
  cases hOffers with
  | scheduler => simp at hThread
  | menu wybor i hNext => simp at hThread
  | process hLeft => simp at hThread
  | schedulerBySystemCalls =>
    rw [hPos]
    exact ⟨rfl, LockState.after_pos_self s _ _ _⟩

/--
**Who blocks on `schedulerMutex`.** For every process table and every
interleaving of the scheduler's thread, the `schedulerBySystemCalls` thread,
the menu's thread and the process threads: in every state reached, no thread
is about to lock the mutex while it owns it and each waiting thread waits for
another one that can run to its release, exactly when the run never lets
`schedulerBySystemCalls` have the mutex.
-/
theorem never_self_blocks_iff (processes : List Process)
    (moves : List (LockMove KernelThread Point)) :
    Always KernelLockStep (bootLocks processes) moves NeverSelfBlocks ↔
      EachStep KernelLockStep (bootLocks processes) moves fun _ s m => SystemCallsStayOut s m := by
  apply always_iff_eachStep StayedOut
  · exact StayedOut.boot processes
  · exact fun s h => h.neverSelfBlocks
  · exact fun fs s m s' _ h hC hStep => h.step hC hStep
  · intro fs s m s' _ _ hC hStep hNever
    obtain ⟨hOwner, hPos⟩ := let_in hC hStep
    have hWaits := (waits_iff s' .schedulerBySystemCalls).mpr (Or.inr ⟨0, hPos⟩)
    exact hNever.not_itself _ hWaits hOwner

/-- At its lock a handler can only lock. -/
theorem handler_only_acquires (depth : Nat) :
    OnlyAcquires Offers .schedulerBySystemCalls (SystemCallPoint.handler depth .lock) := by
  intro pos op target hPos hOffers
  rw [offers_schedulerBySystemCalls_iff, hPos] at hOffers
  exact (Prod.mk.inj hOffers).1.symm

/-- **Blocked for good.** After the first time `schedulerBySystemCalls` has
the mutex, it owns the mutex and waits for it in every later state. -/
theorem system_calls_block_forever {s s' t : LockState KernelThread Point}
    {m : LockMove KernelThread Point} {moves : List (LockMove KernelThread Point)}
    (hIn : ¬ SystemCallsStayOut s m) (hStep : KernelLockStep s m s')
    (hRun : Steps KernelLockStep s' moves t) :
    t.owner = some .schedulerBySystemCalls ∧ t.Waits Offers .schedulerBySystemCalls := by
  obtain ⟨hOwner, hPos⟩ := let_in hIn hStep
  have hOnly : OnlyAcquires Offers .schedulerBySystemCalls (s'.pos .schedulerBySystemCalls) := by
    rw [hPos]
    exact handler_only_acquires 0
  obtain ⟨hOwner', hPos'⟩ := blocks_itself_forever hOnly hOwner hRun
  exact ⟨hOwner', (waits_iff t _).mpr (Or.inr ⟨0, hPos'.trans hPos⟩)⟩

/-- Two moves of `schedulerBySystemCalls`: it wakes, and it locks. -/
theorem never_self_blocks_fails :
    ¬ Always KernelLockStep (bootLocks KernelState.boot.processes)
      [⟨.schedulerBySystemCalls, .body, SystemCallPoint.lock⟩,
       ⟨.schedulerBySystemCalls, .acquire, SystemCallPoint.handler 0 .lock⟩] NeverSelfBlocks := by
  intro h
  have hRun : ∃ s, Steps KernelLockStep (bootLocks KernelState.boot.processes)
      [⟨.schedulerBySystemCalls, .body, SystemCallPoint.lock⟩,
       ⟨.schedulerBySystemCalls, .acquire, SystemCallPoint.handler 0 .lock⟩] s ∧
      s.owner = some .schedulerBySystemCalls ∧
      s.pos .schedulerBySystemCalls = SystemCallPoint.handler 0 .lock := by
    refine ⟨_, ⟨_, ⟨offers_schedulerBySystemCalls_iff.mpr rfl, trivial, rfl⟩,
      _, ⟨offers_schedulerBySystemCalls_iff.mpr rfl, rfl, rfl⟩, rfl⟩, rfl, rfl⟩
  obtain ⟨s, hs, hOwner, hPos⟩ := hRun
  have hWaits := (waits_iff s .schedulerBySystemCalls).mpr (Or.inr ⟨0, hPos⟩)
  exact (h.final hs).not_itself _ hWaits hOwner

end MultiOS
