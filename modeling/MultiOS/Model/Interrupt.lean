import Mathlib.Logic.Relation
import MultiOS.Model.Locks

/-!
# MultiOS — one system call

`int $0x20` as one thread executes it, with the stack of the calls and
interrupts in progress. The interrupt enters `system_call_handler` of
`system_call_handler.asm`, which calls `systemCallHandler` and returns with
`iret`; `systemCallHandler` raises the interrupt again.

`Model/Locks` follows the same handler among the other threads and has no
returns to model, since there the nested `lock_guard` blocks. What a second
`lock` of a `std::mutex` does in the thread that holds it is undefined;
`Relock` leaves it open.
-/

namespace MultiOS

/-- What `lock()` does when the mutex is held by the calling thread. -/
inductive Relock where
  | blocks
  | passes
  deriving DecidableEq, Repr

/-- A call in progress, by what it executes next. -/
inductive CallFrame where
  /-- `system_call_handler` before `call systemCallHandler`. -/
  | call
  /-- `system_call_handler` before `iret`. -/
  | iret
  | systemCallHandler (point : HandlerPoint)
  deriving DecidableEq, Repr

structure CallState where
  kernel : KernelState
  /-- Whether `schedulerMutex` is held. -/
  locked : Bool
  /-- The calls in progress, the innermost first. -/
  stack : List CallFrame
  deriving DecidableEq, Repr

namespace CallState

/-- One step of the innermost call. No statement of the two handlers writes
`activeProcessIndex` or the process table. -/
def next (rule : Relock) (s : CallState) : Option CallState :=
  match s.stack with
  | [] => none
  | .call :: callers => some { s with stack := .systemCallHandler .lock :: .iret :: callers }
  | .iret :: callers => some { s with stack := callers }
  | .systemCallHandler .lock :: callers =>
    if s.locked = true ∧ rule = .blocks then none
    else some { s with locked := true, stack := .systemCallHandler .dispatch :: callers }
  | .systemCallHandler .dispatch :: callers =>
    some { s with
      stack := .systemCallHandler
        (if systemCallNumber % 2 = 0 then .interrupt else .customSystemCallHandler) :: callers }
  | .systemCallHandler .interrupt :: callers =>
    some { s with stack := .call :: .systemCallHandler .unlock :: callers }
  | .systemCallHandler .customSystemCallHandler :: callers =>
    some { s with stack := .systemCallHandler .unlock :: callers }
  -- the guard's destructor, and the return
  | .systemCallHandler .unlock :: callers => some { s with locked := false, stack := callers }

/-- `int $0x20` with `schedulerMutex` free. -/
def raise (k : KernelState) : CallState where
  kernel := k
  locked := false
  stack := [.call]

end CallState

def CallStep (rule : Relock) (s t : CallState) : Prop := s.next rule = some t

/-- The states one thread passes through. -/
abbrev Reaches (rule : Relock) : CallState → CallState → Prop :=
  Relation.ReflTransGen (CallStep rule)

end MultiOS
