import MultiOS.Lib.Mutex
import MultiOS.Model.Kernel

/-!
# MultiOS — the threads around `schedulerMutex`

The three threads that take `schedulerMutex` with a `lock_guard`, and the
process threads that case 7 joins while holding it. A position names what the
thread does next; the `next` functions follow the source statement by
statement.

* `scheduler` and `schedulerBySystemCalls` sleep, then hold a guard for the
  rest of the loop body.
* `schedulerBySystemCalls` calls `systemCallHandler`, which holds a guard of
  its own. `systemCallNumber` is 0, so the handler raises `int $0x20`, whose
  entry calls `systemCallHandler` again: `handler depth point` is the handler
  called inside `depth` others.
* case 7 of the menu takes a guard, joins `threads[activeProcessIndex]`, and
  erases. Choice 4 returns from `kernel_main`; the other choices take no lock.
* a process thread executes its remaining steps and takes no lock.

`hardwareInterruptHandler` locks only through the handler of the interrupt it
raises and is not among the threads here.
-/

namespace MultiOS

open Lib

inductive KernelThread where
  | scheduler
  | schedulerBySystemCalls
  | menu
  | process (i : Nat)
  deriving DecidableEq, Repr

inductive SchedulerPoint where
  | sleep
  | lock
  | changeActive
  | unlock
  deriving DecidableEq, Repr

/-- Inside `systemCallHandler`. -/
inductive HandlerPoint where
  | lock
  | dispatch
  | interrupt
  | customSystemCallHandler
  | unlock
  deriving DecidableEq, Repr

/-- `schedulerBySystemCalls`. -/
inductive SystemCallPoint where
  | sleep
  | lock
  | handler (depth : Nat) (point : HandlerPoint)
  | unlock
  deriving DecidableEq, Repr

inductive MenuPoint where
  | read
  | lock
  | join (i : Nat)
  | erase
  | unlock
  deriving DecidableEq, Repr

/-- The positions of each thread; of a process thread, the number of steps it
has left to execute. -/
abbrev Point : KernelThread → Type
  | .scheduler => SchedulerPoint
  | .schedulerBySystemCalls => SystemCallPoint
  | .menu => MenuPoint
  | .process _ => Nat

-- ---------------------------------------------------------------------------
-- Moves
-- ---------------------------------------------------------------------------

/-- The locked body returns: `% processes.size()` on an empty table is no branch here. -/
def SchedulerPoint.next : SchedulerPoint → LockOp × SchedulerPoint
  | .sleep => (.body, .lock)
  | .lock => (.acquire, .changeActive)
  | .changeActive => (.body, .unlock)
  | .unlock => (.release, .sleep)

/-- `int systemCallNumber = 0`. -/
def systemCallNumber : Nat := 0

def SystemCallPoint.next : SystemCallPoint → LockOp × SystemCallPoint
  | .sleep => (.body, .lock)
  | .lock => (.acquire, .handler 0 .lock)
  | .handler depth .lock => (.acquire, .handler depth .dispatch)
  | .handler depth .dispatch =>
    (.body, .handler depth
      (if systemCallNumber % 2 = 0 then .interrupt else .customSystemCallHandler))
  -- `int $0x20`: `system_call_handler` calls `systemCallHandler`
  | .handler depth .interrupt => (.body, .handler (depth + 1) .lock)
  | .handler depth .customSystemCallHandler => (.body, .handler depth .unlock)
  | .handler 0 .unlock => (.release, .unlock)
  -- `iret` into the handler that raised the interrupt
  | .handler (depth + 1) .unlock => (.release, .handler depth .unlock)
  | .unlock => (.release, .sleep)

/-- The menu's thread, given which process threads have finished, the choice
read from the menu, and the value of `activeProcessIndex`. The locked body returns:
a join that throws, and an index out of range, are no branches here. -/
def MenuPoint.next (finished : Nat → Bool) (wybor : Int) (activeProcessIndex : Nat) :
    MenuPoint → Option (LockOp × MenuPoint)
  | .read => if wybor = 4 then none else some (.body, if wybor = 7 then .lock else .read)
  | .lock => some (.acquire, .join activeProcessIndex)
  | .join i => if finished i then some (.body, .erase) else none
  | .erase => some (.body, .unlock)
  | .unlock => some (.release, .read)

/-- The moves of the kernel's threads. Both the choice and the index case 7
finds are arbitrary. -/
inductive Offers (pos : ∀ t, Point t) : LockMove KernelThread Point → Prop where
  | scheduler :
      Offers pos ⟨.scheduler, (pos .scheduler).next.1, (pos .scheduler).next.2⟩
  | schedulerBySystemCalls :
      Offers pos ⟨.schedulerBySystemCalls, (pos .schedulerBySystemCalls).next.1,
        (pos .schedulerBySystemCalls).next.2⟩
  | menu {op : LockOp} {target : MenuPoint} (wybor : Int) (activeProcessIndex : Nat)
      (hNext : (pos .menu).next (fun i => (pos (.process i) : Nat) == 0) wybor activeProcessIndex =
        some (op, target)) :
      Offers pos ⟨.menu, op, target⟩
  | process {i left : Nat} (hLeft : pos (.process i) = left + 1) :
      Offers pos ⟨.process i, .body, left⟩

/-- The state in which `kernel_main` calls `pokazMenu` for the first time, for
any process table: no thread has moved. -/
def bootLocks (processes : List Process) : LockState KernelThread Point where
  pos
    | .scheduler => SchedulerPoint.sleep
    | .schedulerBySystemCalls => SystemCallPoint.sleep
    | .menu => MenuPoint.read
    | .process i => ((processes[i]?).map fun process => process.executionTime.toNat).getD 0
  owner := none

abbrev KernelLockStep := LockStep Offers

-- ---------------------------------------------------------------------------
-- The moves of one thread
-- ---------------------------------------------------------------------------

section
variable {pos : ∀ t, Point t} {op : LockOp}

/-- What is offered, thread by thread. -/
theorem offers_iff {t : KernelThread} {target : Point t} :
    Offers pos ⟨t, op, target⟩ ↔
      match t, target with
      | .scheduler, target => SchedulerPoint.next (pos .scheduler) = (op, target)
      | .schedulerBySystemCalls, target =>
        SystemCallPoint.next (pos .schedulerBySystemCalls) = (op, target)
      | .menu, target =>
        ∃ wybor i, MenuPoint.next (fun i => (pos (.process i) : Nat) == 0) wybor i (pos .menu) =
          some (op, target)
      | .process i, target => op = .body ∧ pos (.process i) = (target : Nat) + 1 := by
  refine ⟨?_, ?_⟩
  · intro hOffers
    cases hOffers with
    | scheduler => rfl
    | schedulerBySystemCalls => rfl
    | menu wybor i hNext => exact ⟨wybor, i, hNext⟩
    | process hLeft => exact ⟨rfl, hLeft⟩
  · intro hOffered
    cases t with
    | scheduler =>
      have hOffers : Offers pos ⟨.scheduler, _, _⟩ := .scheduler
      rw [hOffered] at hOffers
      exact hOffers
    | schedulerBySystemCalls =>
      have hOffers : Offers pos ⟨.schedulerBySystemCalls, _, _⟩ := .schedulerBySystemCalls
      rw [hOffered] at hOffers
      exact hOffers
    | menu =>
      obtain ⟨wybor, i, hNext⟩ := hOffered
      exact .menu wybor i hNext
    | process i =>
      obtain ⟨rfl, hLeft⟩ := hOffered
      exact .process hLeft

theorem offers_scheduler_iff {target : SchedulerPoint} :
    Offers pos ⟨.scheduler, op, target⟩ ↔
      SchedulerPoint.next (pos .scheduler) = (op, target) :=
  offers_iff

theorem offers_schedulerBySystemCalls_iff {target : SystemCallPoint} :
    Offers pos ⟨.schedulerBySystemCalls, op, target⟩ ↔
      SystemCallPoint.next (pos .schedulerBySystemCalls) = (op, target) :=
  offers_iff

theorem offers_menu_iff {target : MenuPoint} :
    Offers pos ⟨.menu, op, target⟩ ↔
      ∃ wybor i, MenuPoint.next (fun i => (pos (.process i) : Nat) == 0) wybor i (pos .menu) =
        some (op, target) :=
  offers_iff

theorem offers_process_iff {i target : Nat} :
    Offers pos ⟨.process i, op, target⟩ ↔ op = .body ∧ pos (.process i) = target + 1 :=
  offers_iff

end

end MultiOS
