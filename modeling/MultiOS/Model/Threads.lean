import MultiOS.Lib.Simulation
import MultiOS.Model.Locks

/-!
# MultiOS — the threads statement by statement

The model of `Model/Kernel.lean` takes a locked section, and `createProcess`,
as one step. Here every read and write of the shared variables is a step of
its own, taken by the thread that stands there:

* `scheduler` reads the index and the size, stores the new index, and reads
  the table for its message, all inside its locked section;
* the menu's thread copies the index for `pokazMenu`, joins thread by thread
  in case 1, allocates and then appends in case 5, **without the mutex**, and
  joins, erases and resets in case 7 inside a locked section;
* `schedulerBySystemCalls` and the process threads are those of
  `Model/Locks.lean`.

Reads and writes are taken one after the other in some order; what C++ says of
unordered accesses is not modelled. A statement of the scheduler's or the menu's
thread that would leave the C++ semantics, throw, or return from `kernel_main`
has no successor. A process thread is a number of steps: it goes on when the
process it was started on, to which the source gives it a pointer into the
vector, has moved or is gone.
-/

namespace MultiOS

open Lib

/-- Where `scheduler` stands, with what it has read or computed. -/
inductive SchedulerAt where
  | sleep
  | lock
  | loadIndex
  | loadSize (activeProcessIndex : Nat)
  | store (activeProcessIndex : Nat)
  | announce
  | unlock
  deriving DecidableEq, Repr

/-- Where the thread of `kernel_main` stands. -/
inductive MenuAt where
  /-- About to call `pokazMenu(processes, activeProcessIndex)`. -/
  | call
  /-- `std::cin >> wybor`. -/
  | choose
  /-- Case 1, at `threads[i].join()`. -/
  | joinProcess (i : Nat)
  /-- Cases 2 and 3. -/
  | joinBrowser (wybor : Int)
  | allocate (input : NewProcess)
  | emplace (input : NewProcess) (allocatedMemory : Int)
  | lock
  | loadActive
  /-- Case 7, at `threads[i].join()`. -/
  | join (i : Nat)
  | erase
  | reset
  | unlock
  deriving DecidableEq, Repr

structure ThreadState where
  /-- The shared variables. `menuIndex` is the argument of the last call of
  `pokazMenu`, until the loop is back at the call. -/
  main : MainState
  owner : Option KernelThread
  scheduler : SchedulerAt
  schedulerBySystemCalls : SystemCallPoint
  menu : MenuAt
  /-- The steps each process thread has left to execute. -/
  left : Nat → Nat

/-- The next statement of a thread; for the menu's thread with the choice and
the input it would read there. -/
inductive ThreadEvent where
  | scheduler
  | schedulerBySystemCalls
  | menu (wybor : Int) (input : NewProcess)
  | process (i : Nat)
  deriving DecidableEq, Repr

/-- `processes.emplace_back(processes.size() + 1, ...)` in `createProcess`. -/
def emplaceBack (processes : List Process) (input : NewProcess) (allocatedMemory : Int) :
    List Process :=
  processes ++
    [{ id := processes.length + 1
       name := input.name
       executionTime := input.executionTime
       startAddress := some allocatedMemory
       memorySize := some input.requiredMemory }]

/-- The owner of the mutex after an operation that the mutex grants. -/
def grant (thread : KernelThread) (owner : Option KernelThread) :
    LockOp → Option (Option KernelThread)
  | .acquire => if owner = none then some (some thread) else none
  | .body => some owner
  | .release => if owner = some thread then some none else none

namespace ThreadState

/-- `schedulerMutex` is taken by a `lock_guard`. -/
def acquire (s : ThreadState) (thread : KernelThread) : Option ThreadState :=
  (grant thread s.owner .acquire).map fun owner => { s with owner }

/-- The `lock_guard` is destroyed. -/
def release (s : ThreadState) (thread : KernelThread) : Option ThreadState :=
  (grant thread s.owner .release).map fun owner => { s with owner }

def schedulerStep (s : ThreadState) : Option ThreadState :=
  match s.scheduler with
  | .sleep => some { s with scheduler := .lock }
  | .lock => (s.acquire .scheduler).map fun s => { s with scheduler := .loadIndex }
  | .loadIndex => some { s with scheduler := .loadSize s.main.activeProcessIndex }
  | .loadSize activeProcessIndex =>
    if s.main.processes.length = 0 then none
    else
      some { s with scheduler := .store ((activeProcessIndex + 1) % s.main.processes.length) }
  | .store activeProcessIndex =>
    some { s with main := { s.main with activeProcessIndex }, scheduler := .announce }
  | .announce =>
    match s.main.processes[s.main.activeProcessIndex]? with
    | none => none
    | some _ => some { s with scheduler := .unlock }
  | .unlock => (s.release .scheduler).map fun s => { s with scheduler := .sleep }

def systemCallsStep (s : ThreadState) : Option ThreadState :=
  let (op, target) := s.schedulerBySystemCalls.next
  (grant .schedulerBySystemCalls s.owner op).map fun owner =>
    { s with owner, schedulerBySystemCalls := target }

/-- Back at the head of the loop of `kernel_main`. -/
def backToLoop (s : ThreadState) : ThreadState :=
  { s with main := { s.main with menuIndex := none }, menu := .call }

/-- `threads[i].join()` returns: the thread has finished and was joinable. -/
def joinThread (s : ThreadState) (i : Nat) : Option ThreadState :=
  match s.main.threads[i]? with
  | none => none
  | some thread =>
    match thread.join .checked with
    | .error _ => none
    | .ok thread' =>
      if s.left i = 0 then
        some { s with main := { s.main with threads := s.main.threads.set i thread' } }
      else none

/-- What the menu's thread does with a choice. -/
def choose (s : ThreadState) (wybor : Int) : Action → Option ThreadState
  | .joinProcessThreads => some { s with menu := .joinProcess 0 }
  | .joinBrowserThread => some { s with menu := .joinBrowser wybor }
  | .leave => none
  | .createProcess input => some { s with menu := .allocate input }
  | .terminateActive => some { s with menu := .lock }
  | .showProcesses | .customSystemCallHandler | .invalidChoice => some s.backToLoop
  -- `pokazMenu` calls itself with the same argument
  | .printActive activeProcessIndex =>
    match s.main.processes[activeProcessIndex]? with
    | none => none
    | some _ => some { s with main := { s.main with menuIndex := some activeProcessIndex } }

def menuStep (s : ThreadState) (wybor : Int) (input : NewProcess) : Option ThreadState :=
  match s.menu with
  | .call =>
    some { s with
      main := { s.main with menuIndex := some s.main.activeProcessIndex }
      menu := .choose }
  | .choose => s.choose wybor (menuAction s.main.menuArgument wybor input)
  | .joinProcess i =>
    if i < s.main.threads.length then
      (s.joinThread i).map fun s => { s with menu := .joinProcess (i + 1) }
    else some s.backToLoop
  | .joinBrowser _ =>
    match s.main.browserThread.join .checked with
    | .error _ => none
    | .ok browserThread => some { s with main := { s.main with browserThread } }.backToLoop
  | .allocate input =>
    let (allocatedMemory, memoryManager) :=
      s.main.memoryManager.allocateMemory input.requiredMemory
    if allocatedMemory ≠ MemoryManager.allocationFailed then
      some { s with main := { s.main with memoryManager }, menu := .emplace input allocatedMemory }
    else some { s with main := { s.main with memoryManager } }.backToLoop
  | .emplace input allocatedMemory =>
    let processes := emplaceBack s.main.processes input allocatedMemory
    some { s with main := { s.main with processes } }.backToLoop
  | .lock => (s.acquire .menu).map fun s => { s with menu := .loadActive }
  | .loadActive =>
    if s.main.activeProcessIndex < s.main.threads.length then
      some { s with menu := .join s.main.activeProcessIndex }
    else none
  | .join i => (s.joinThread i).map fun s => { s with menu := .erase }
  | .erase =>
    if s.main.activeProcessIndex < s.main.processes.length then
      some { s with
        main := { s.main with processes := s.main.processes.eraseIdx s.main.activeProcessIndex }
        menu := .reset }
    else none
  | .reset => some { s with main := { s.main with activeProcessIndex := 0 }, menu := .unlock }
  | .unlock => (s.release .menu).map backToLoop

/-- One step of the loop in `Process::execute`. -/
def processStep (s : ThreadState) (i : Nat) : Option ThreadState :=
  match s.left i with
  | 0 => none
  | left + 1 => some { s with left := Function.update s.left i left }

def threadStep (s : ThreadState) : ThreadEvent → Option ThreadState
  | .scheduler => s.schedulerStep
  | .schedulerBySystemCalls => s.systemCallsStep
  | .menu wybor input => s.menuStep wybor input
  | .process i => s.processStep i

/-- `kernel_main` has started its threads on a process table; none has moved. -/
def start (k : KernelState) : ThreadState where
  main := .kernelMain k
  owner := none
  scheduler := .sleep
  schedulerBySystemCalls := .sleep
  menu := .call
  left i := ((k.processes[i]?).map fun process => process.executionTime.toNat).getD 0

end ThreadState

abbrev ThreadStep := Moves ThreadState.threadStep

end MultiOS
