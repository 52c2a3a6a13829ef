import MultiOS.Lib.Runs
import MultiOS.Model.Memory

/-!
# MultiOS — processes, threads and `kernel_main`

Two state records, one inside the other.

* `KernelState` — the globals `activeProcessIndex` and `memoryManager` and the
  process table. Its operations are the locked pass of `scheduler`,
  `createProcess` after its input has been read, and the two bodies that
  terminate the active process, after their join.
* `MainState` — the frame of `kernel_main` around it: the vector of process
  threads, the four other `std::thread` objects, and the argument of the
  `pokazMenu` call in progress. Its events are scheduler ticks, the call of
  `pokazMenu` (which copies `activeProcessIndex`), and a choice read from the
  menu together with what `createProcess` reads.

The locked sections are atomic. A step that would leave the C++ semantics (an
index out of range, `% 0`) or throw (a join on a thread that is not joinable)
has no successor; `Stop` says why.

The boot processes are constructed by `emplace_back(id, name, time)`, without
a start address and a size: both are `none` for them.
-/

namespace MultiOS

structure Process where
  id : Nat
  name : String
  executionTime : Int
  startAddress : Option Int
  memorySize : Option Int
  deriving DecidableEq, Repr

/-- The values in `createProcess`'s variables when it calls the allocator. -/
structure NewProcess where
  name : String
  executionTime : Int
  requiredMemory : Int
  deriving DecidableEq, Repr

/-- Why a step has no successor. -/
inductive Stop where
  /-- `join()` on a thread that is not joinable throws. -/
  | notJoinable
  /-- `threads[i]` with `i` out of range. -/
  | noThread
  /-- `processes[i]` or `processes.begin() + i` with `i` out of range. -/
  | noProcess
  /-- `% processes.size()` with an empty table. -/
  | divisionByZero
  /-- `kernel_main` has returned. -/
  | returned
  deriving DecidableEq, Repr

structure KernelState where
  processes : List Process
  activeProcessIndex : Nat
  memoryManager : MemoryManager
  deriving DecidableEq, Repr

namespace KernelState

-- ---------------------------------------------------------------------------
-- Operations on the process table
-- ---------------------------------------------------------------------------

/-- One locked pass of `scheduler`. -/
def scheduler (k : KernelState) : Except Stop KernelState :=
  if k.processes.length = 0 then .error .divisionByZero
  else
    let activeProcessIndex := (k.activeProcessIndex + 1) % k.processes.length
    -- the message reads `processes[activeProcessIndex]`
    match k.processes[activeProcessIndex]? with
    | none => .error .noProcess
    | some _ => .ok { k with activeProcessIndex }

/-- `createProcess` from the call of the allocator on. -/
def createProcess (k : KernelState) (input : NewProcess) : KernelState :=
  let (allocatedMemory, memoryManager) := k.memoryManager.allocateMemory input.requiredMemory
  if allocatedMemory ≠ MemoryManager.allocationFailed then
    { k with
      processes := k.processes ++
        [{ id := k.processes.length + 1
           name := input.name
           executionTime := input.executionTime
           startAddress := some allocatedMemory
           memorySize := some input.requiredMemory }]
      memoryManager }
  else { k with memoryManager }

def deallocateProcessMemory (m : MemoryManager) (process : Process) : MemoryManager :=
  match process.startAddress with
  | some startAddress => m.deallocateMemory startAddress
  | none => m

/-- `processes.erase(processes.begin() + activeProcessIndex)` and
`activeProcessIndex = 0`. -/
def eraseActive (k : KernelState) : Except Stop KernelState :=
  if k.activeProcessIndex < k.processes.length then
    .ok { k with processes := k.processes.eraseIdx k.activeProcessIndex, activeProcessIndex := 0 }
  else .error .noProcess

/-- Case 7 of `kernel_main` after the join: the memory is not given back. -/
def terminateActive (k : KernelState) : Except Stop KernelState := k.eraseActive

/-- `processTermination` after the join. -/
def processTermination (k : KernelState) : Except Stop KernelState :=
  match k.processes[k.activeProcessIndex]? with
  | none => .error .noProcess
  | some process =>
    { k with memoryManager := deallocateProcessMemory k.memoryManager process }.eraseActive

/-- The boot table and `memoryManager(64 * 1024)`. -/
def boot : KernelState where
  processes :=
    [{ id := 1, name := "Proces 1", executionTime := 3, startAddress := none, memorySize := none },
     { id := 2, name := "Proces 2", executionTime := 5, startAddress := none, memorySize := none }]
  activeProcessIndex := 0
  memoryManager := .new (64 * 1024)

end KernelState

/-- What happens to the process table. The two terminations name the process
they are run on, that is the index the active process has then. -/
inductive TableEvent where
  | tick
  | createProcess (input : NewProcess)
  | terminate (target : Nat)
  | processTermination (target : Nat)
  deriving DecidableEq, Repr

def KernelState.tableStep (k : KernelState) : TableEvent → Except Stop KernelState
  | .tick => k.scheduler
  | .createProcess input => .ok (k.createProcess input)
  | .terminate target => { k with activeProcessIndex := target }.terminateActive
  | .processTermination target => { k with activeProcessIndex := target }.processTermination

def TableStep (k : KernelState) (e : TableEvent) (k' : KernelState) : Prop :=
  k.tableStep e = .ok k'

-- ---------------------------------------------------------------------------
-- Threads
-- ---------------------------------------------------------------------------

/-- The functions `kernel_main` starts threads on. The process is the one at the start: the
source passes a pointer into the vector, and a thread whose process has moved reads what is
there by then. -/
inductive Task where
  | execute (process : Process)
  | scheduler
  | schedulerBySystemCalls
  | hardwareInterruptHandler
  | browserThreadFunction
  deriving DecidableEq, Repr

/-- A `std::thread`: the function it was started on and whether it can still
be joined. -/
structure StdThread where
  task : Task
  joinable : Bool := true
  deriving DecidableEq, Repr

/-- Whether `join()` checks the thread, or is taken to return. -/
inductive JoinRule where
  | checked
  | granted
  deriving DecidableEq, Repr

def StdThread.join (rule : JoinRule) (thread : StdThread) : Except Stop StdThread :=
  if rule = .granted ∨ thread.joinable = true then .ok { thread with joinable := false }
  else .error .notJoinable

/-- `for (auto& thread : threads) thread.join()`. -/
def joinAll (rule : JoinRule) : List StdThread → Except Stop (List StdThread)
  | [] => .ok []
  | thread :: threads =>
    match thread.join rule with
    | .error stop => .error stop
    | .ok thread' =>
      match joinAll rule threads with
      | .error stop => .error stop
      | .ok threads' => .ok (thread' :: threads')

structure MainState extends KernelState where
  threads : List StdThread
  schedulerThread : StdThread
  systemCallThread : StdThread
  interruptThread : StdThread
  browserThread : StdThread
  /-- The argument `activeProcessIndex` of the `pokazMenu` call in progress. -/
  menuIndex : Option Nat
  deriving DecidableEq, Repr

-- ---------------------------------------------------------------------------
-- The menu
-- ---------------------------------------------------------------------------

/-- The bodies a choice can lead to. -/
inductive Action where
  | joinProcessThreads
  | joinBrowserThread
  | leave
  | createProcess (input : NewProcess)
  | showProcesses
  | terminateActive
  | customSystemCallHandler
  | invalidChoice
  /-- `pokazMenu`'s own handling of 6. -/
  | printActive (activeProcessIndex : Nat)
  deriving DecidableEq, Repr

/-- The `switch` of `kernel_main`. -/
def kernelSwitch (wyborUzytkownika : Int) (input : NewProcess) : Action :=
  match wyborUzytkownika with
  | 1 => .joinProcessThreads
  | 2 => .joinBrowserThread
  | 3 => .joinBrowserThread
  | 4 => .leave
  | 5 => .createProcess input
  | 6 => .showProcesses
  | 7 => .terminateActive
  | 8 => .customSystemCallHandler
  | _ => .invalidChoice

/-- What a choice read by `pokazMenu` leads to: 6 is handled there, every
other value is returned to the `switch`. -/
def menuAction (activeProcessIndex : Nat) (wybor : Int) (input : NewProcess) : Action :=
  if wybor = 6 then .printActive activeProcessIndex else kernelSwitch wybor input

namespace MainState

/-- `threads[activeProcessIndex].join()`. -/
def joinActive (rule : JoinRule) (s : MainState) : Except Stop (List StdThread) :=
  match s.threads[s.activeProcessIndex]? with
  | none => .error .noThread
  | some thread =>
    match thread.join rule with
    | .error stop => .error stop
    | .ok thread' => .ok (s.threads.set s.activeProcessIndex thread')

/-- The index the waiting `pokazMenu` will use; before the call, the one it is
called with. -/
def menuArgument (s : MainState) : Nat := s.menuIndex.getD s.activeProcessIndex

/-- The effect of an action. After every body of the `switch` the loop calls
`pokazMenu` afresh; `printActive` calls it again with the same argument. -/
def perform (rule : JoinRule) (s : MainState) : Action → Except Stop MainState
  | .joinProcessThreads =>
    match joinAll rule s.threads with
    | .error stop => .error stop
    | .ok threads => .ok { s with threads, menuIndex := none }
  | .joinBrowserThread =>
    match s.browserThread.join rule with
    | .error stop => .error stop
    | .ok browserThread => .ok { s with browserThread, menuIndex := none }
  | .leave => .error .returned
  | .createProcess input =>
    .ok { s with toKernelState := s.toKernelState.createProcess input, menuIndex := none }
  | .terminateActive =>
    match s.joinActive rule with
    | .error stop => .error stop
    | .ok threads =>
      match s.toKernelState.terminateActive with
      | .error stop => .error stop
      | .ok k => .ok { s with toKernelState := k, threads, menuIndex := none }
  | .showProcesses | .customSystemCallHandler | .invalidChoice =>
    .ok { s with menuIndex := none }
  | .printActive activeProcessIndex =>
    match s.processes[activeProcessIndex]? with
    | none => .error .noProcess
    | some _ => .ok { s with menuIndex := some activeProcessIndex }

end MainState

/-- What happens to `kernel_main`. -/
inductive MainEvent where
  | tick
  | callMenu
  | choice (wybor : Int) (input : NewProcess)
  deriving DecidableEq, Repr

namespace MainState

def mainStep (rule : JoinRule) (s : MainState) : MainEvent → Except Stop MainState
  | .tick =>
    match s.toKernelState.scheduler with
    | .error stop => .error stop
    | .ok k => .ok { s with toKernelState := k }
  | .callMenu => .ok { s with menuIndex := some s.menuArgument }
  | .choice wybor input => s.perform rule (menuAction s.menuArgument wybor input)

/-- The threads `kernel_main` starts on a process table. -/
def kernelMain (k : KernelState) : MainState where
  toKernelState := k
  threads := k.processes.map fun process => { task := .execute process }
  schedulerThread := { task := .scheduler }
  systemCallThread := { task := .schedulerBySystemCalls }
  interruptThread := { task := .hardwareInterruptHandler }
  browserThread := { task := .browserThreadFunction }
  menuIndex := none

def boot : MainState := kernelMain .boot

end MainState

def MainStep (rule : JoinRule) (s : MainState) (e : MainEvent) (t : MainState) : Prop :=
  s.mainStep rule e = .ok t

end MultiOS
