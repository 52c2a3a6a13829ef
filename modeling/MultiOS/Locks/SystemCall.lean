import MultiOS.Model.Interrupt

/-!
# MultiOS — a system call does not return

`int $0x20` is raised "to change the active process". It calls
`systemCallHandler`, whose answer to system call 0 is to raise `int $0x20`.
The invariant of the cycle is `Entering`: the innermost call is always on its
way to the next interrupt, so no call is ever left, and no step writes
`activeProcessIndex`.

* If a second `lock()` blocks, the call stands still at the second entry with
  the mutex held (`system_call_blocks`).
* If it passes, the nesting goes on for ever (`system_call_nests`).

Either way the call does not finish (`system_call_never_switches`).
-/

namespace MultiOS

/-- How a system call that switches the process once ends: it has returned,
the mutex is free, and the one change is that of a locked pass of `scheduler`
(`scheduler_of_pos`). -/
structure SwitchedOnce (k : KernelState) (t : CallState) : Prop where
  returned : t.stack = []
  released : t.locked = false
  processes : t.kernel.processes = k.processes
  index : t.kernel.activeProcessIndex = (k.activeProcessIndex + 1) % k.processes.length

/-- The innermost call has not raised its interrupt yet. -/
inductive Entering : List CallFrame → Prop where
  | call {callers : List CallFrame} : Entering (.call :: callers)
  | lock {callers : List CallFrame} : Entering (.systemCallHandler .lock :: callers)
  | dispatch {callers : List CallFrame} : Entering (.systemCallHandler .dispatch :: callers)
  | interrupt {callers : List CallFrame} : Entering (.systemCallHandler .interrupt :: callers)

theorem Entering.ne_nil {stack : List CallFrame} (h : Entering stack) : stack ≠ [] := by
  intro hNil
  subst hNil
  cases h

-- ---------------------------------------------------------------------------
-- Steps
-- ---------------------------------------------------------------------------

/-- System call 0 is even, so the handler raises the interrupt. -/
theorem Entering.step {rule : Relock} {s t : CallState} (h : Entering s.stack)
    (hStep : CallStep rule s t) : Entering t.stack ∧ t.kernel = s.kernel := by
  obtain ⟨k, locked, stack⟩ := s
  change Entering stack at h
  cases h with
  | call =>
    obtain rfl := Option.some.inj hStep
    exact ⟨.lock, rfl⟩
  | lock =>
    have hLock : (if locked = true ∧ rule = .blocks then none else some _) = some t := hStep
    split at hLock
    · simp at hLock
    · obtain rfl := Option.some.inj hLock
      exact ⟨.dispatch, rfl⟩
  | dispatch =>
    obtain rfl := Option.some.inj hStep
    exact ⟨.interrupt, rfl⟩
  | interrupt =>
    obtain rfl := Option.some.inj hStep
    exact ⟨.call, rfl⟩

/-- Where a second `lock()` passes, the innermost call can always go on. -/
theorem Entering.progress {s : CallState} (h : Entering s.stack) :
    ∃ t, CallStep .passes s t := by
  obtain ⟨k, locked, stack⟩ := s
  change Entering stack at h
  cases h with
  | call => exact ⟨_, rfl⟩
  | lock => exact ⟨_, if_neg fun hBoth => by cases hBoth.2⟩
  | dispatch => exact ⟨_, rfl⟩
  | interrupt => exact ⟨_, rfl⟩

-- ---------------------------------------------------------------------------
-- Runs
-- ---------------------------------------------------------------------------

/-- Every state of a system call is inside it, with the kernel as it was. -/
theorem system_call_stays_inside {rule : Relock} {k : KernelState} {t : CallState}
    (h : Reaches rule (.raise k) t) : Entering t.stack ∧ t.kernel = k := by
  induction h with
  | refl => exact ⟨.call, rfl⟩
  | tail _ hStep ih =>
    obtain ⟨hIn, hKernel⟩ := ih.1.step hStep
    exact ⟨hIn, hKernel.trans ih.2⟩

/-- The second entry of `systemCallHandler`, at its `lock_guard`. -/
def secondEntry (k : KernelState) : CallState where
  kernel := k
  locked := true
  stack := [.systemCallHandler .lock, .iret, .systemCallHandler .unlock, .iret]

/-- With a mutex that blocks, the call waits at its second entry for itself. -/
theorem system_call_blocks (k : KernelState) :
    Reaches .blocks (.raise k) (secondEntry k) ∧ ∀ t, ¬ CallStep .blocks (secondEntry k) t := by
  refine ⟨?_, ?_⟩
  · refine .head (show CallStep .blocks (.raise k) _ from rfl) ?_
    refine .head (show CallStep .blocks _ _ from rfl) ?_
    refine .head (show CallStep .blocks _ _ from rfl) ?_
    refine .head (show CallStep .blocks _ _ from rfl) ?_
    exact .single (show CallStep .blocks _ _ from rfl)
  · intro t hStep
    cases hStep

/-- With a mutex that lets its holder pass, every state has a successor. -/
theorem system_call_nests {k : KernelState} {t : CallState} (h : Reaches .passes (.raise k) t) :
    ∃ u, CallStep .passes t u :=
  (system_call_stays_inside h).1.progress

/--
**No system call switches the process.** Whatever a second `lock()` does, and
from every kernel state, `int $0x20` with the mutex free reaches no state in
which it has returned, released the mutex, and moved `activeProcessIndex` to
the next process.
-/
theorem system_call_never_switches (rule : Relock) (k : KernelState) :
    ¬ ∃ t, Reaches rule (.raise k) t ∧ SwitchedOnce k t := by
  rintro ⟨t, hReach, hOnce⟩
  exact (system_call_stays_inside hReach).1.ne_nil hOnce.returned

/-- From the boot table, with process 1 active and the mutex free. -/
theorem system_call_fails :
    ¬ ∃ t, Reaches .blocks (.raise .boot) t ∧ SwitchedOnce .boot t := by
  rintro ⟨t, hReach, hOnce⟩
  have hKernel := (system_call_stays_inside hReach).2
  have hIndex := hOnce.index
  rw [hKernel] at hIndex
  exact absurd hIndex (by decide)

end MultiOS
