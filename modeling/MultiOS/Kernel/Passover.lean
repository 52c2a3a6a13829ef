import MultiOS.Kernel.Steps

/-!
# MultiOS — whose turn it is after a termination

The scheduler makes the processes active in cyclic order. A termination of the
active process erases its position and sets `activeProcessIndex = 0`, wherever
in the table it was. A process is named by its position *before* an event;
`origin` reads a position after the event back.

* `OrderKept` — the process active after the event, followed by those the
  next ticks make active, are the ones that were due before it. For a
  termination this is the order with the terminated process skipped.
* `TurnsKept` — along a run every event keeps the order, and the process
  active after `d` events is the one that was due `d`-th: nobody is passed
  over.

The order is kept exactly by the terminations of the first and of the last
process of the table (`orderKept_iff`); a run keeps the turns exactly when all
its terminations are such (`turns_kept_iff`).
-/

namespace MultiOS

open Lib

/-- A scheduler tick, or a termination of the active process: by case 7 of
`kernel_main` or by `processTermination`, after their join. -/
inductive TurnEvent where
  | tick
  | terminateActive
  | processTermination
  deriving DecidableEq, Repr

namespace KernelState

def turnStep (k : KernelState) : TurnEvent → Except Stop KernelState
  | .tick => k.scheduler
  | .terminateActive => k.terminateActive
  | .processTermination => k.processTermination

/-- The indices that the next `m` passes of `scheduler` make active. -/
def upcoming (k : KernelState) : Nat → List Nat
  | 0 => []
  | m + 1 =>
    match k.scheduler with
    | .error _ => []
    | .ok k' => k'.activeProcessIndex :: k'.upcoming m

end KernelState

def TurnStep (k : KernelState) (e : TurnEvent) (k' : KernelState) : Prop :=
  k.turnStep e = .ok k'

/-- The position before the event of the process at `j` after it, for an event
with the active process at `active`. -/
def TurnEvent.origin (active : Nat) : TurnEvent → Nat → Nat
  | .tick, j => j
  | .terminateActive, j => if j < active then j else j + 1
  | .processTermination, j => if j < active then j else j + 1

/-- The position at the start of a run of the process at `j` at its end. -/
def KernelState.origins (k : KernelState) : List TurnEvent → Nat → Nat
  | [], j => j
  | e :: es, j =>
    match k.turnStep e with
    | .error _ => j
    | .ok k' => e.origin k.activeProcessIndex (k'.origins es j)

/-- The processes whose turn comes with and after the event are those that the
ticks would have made active without it. -/
def OrderKept (k : KernelState) (e : TurnEvent) : Prop :=
  ∀ k', TurnStep k e k' → 2 ≤ k.processes.length →
    (k'.activeProcessIndex :: k'.upcoming (k.processes.length - 2)).map
        (e.origin k.activeProcessIndex) =
      k.upcoming (k.processes.length - 1)

/-- Every event of the run keeps the order, and in no part of the run is a
process passed over: the one active after `d` events was due `d`-th. -/
structure TurnsKept (k : KernelState) (es : List TurnEvent) : Prop where
  order : EachStep TurnStep k es fun _ s e => OrderKept s e
  nonePassedOver : ∀ fs gs s t, fs ++ gs <+: es → Steps TurnStep k fs s →
    Steps TurnStep s gs t → gs ≠ [] → gs.length < s.processes.length →
      (s.upcoming (s.processes.length - 1))[gs.length - 1]? =
        some (s.origins gs t.activeProcessIndex)

/-- If the event is a termination, the active process is the first or the last
of the table. -/
def AtAnEnd (k : KernelState) (e : TurnEvent) : Prop :=
  e ≠ .tick → k.activeProcessIndex = 0 ∨ k.activeProcessIndex + 1 = k.processes.length

-- ---------------------------------------------------------------------------
-- Steps
-- ---------------------------------------------------------------------------

theorem turnStep_cases {k k' : KernelState} {e : TurnEvent} (h : TurnStep k e k') :
    (e = .tick ∧ 0 < k.processes.length ∧ k'.processes = k.processes ∧
      k'.activeProcessIndex = (k.activeProcessIndex + 1) % k.processes.length) ∨
    (e ≠ .tick ∧ k.activeProcessIndex < k.processes.length ∧
      k'.processes = k.processes.eraseIdx k.activeProcessIndex ∧ k'.activeProcessIndex = 0 ∧
      ∀ j, e.origin k.activeProcessIndex j =
        if j < k.activeProcessIndex then j else j + 1) := by
  cases e with
  | tick =>
    obtain ⟨hSize, rfl⟩ := scheduler_ok h
    exact Or.inl ⟨rfl, hSize, rfl, rfl⟩
  | terminateActive =>
    obtain ⟨hIndex, rfl⟩ := eraseActive_ok h
    exact Or.inr ⟨by simp, hIndex, rfl, rfl, fun _ => rfl⟩
  | processTermination =>
    obtain ⟨process, hAt, rfl⟩ := processTermination_ok h
    exact Or.inr ⟨by simp, (List.getElem?_eq_some_iff.mp hAt).1, rfl, rfl, fun _ => rfl⟩

/-- `origin` names the same process before and after the event. -/
theorem turnStep_origin {k k' : KernelState} {e : TurnEvent} (h : TurnStep k e k') (j : Nat) :
    k'.processes[j]? = k.processes[e.origin k.activeProcessIndex j]? := by
  rcases turnStep_cases h with ⟨rfl, -, hTable, -⟩ | ⟨-, -, hTable, -, hOrigin⟩
  · rw [hTable]
    rfl
  · rw [hTable, hOrigin, List.getElem?_eraseIdx]
    split <;> rfl

theorem origins_cons {k k' : KernelState} {e : TurnEvent} (h : TurnStep k e k')
    (es : List TurnEvent) (j : Nat) :
    k.origins (e :: es) j = e.origin k.activeProcessIndex (k'.origins es j) := by
  rw [KernelState.origins, show k.turnStep e = .ok k' from h]

/-- `origins` names the same process at the start and at the end of a run. -/
theorem origins_processes {k t : KernelState} {es : List TurnEvent} (h : Steps TurnStep k es t)
    (j : Nat) : t.processes[j]? = k.processes[k.origins es j]? := by
  induction es generalizing k with
  | nil =>
    rw [steps_nil.mp h]
    rfl
  | cons e es ih =>
    obtain ⟨k', hStep, hRest⟩ := h
    rw [ih hRest, turnStep_origin hStep, origins_cons hStep]

/-- One event takes away at most the active process. -/
theorem turnStep_size {k k' : KernelState} {e : TurnEvent} (h : TurnStep k e k') :
    k.processes.length ≤ k'.processes.length + 1 := by
  rcases turnStep_cases h with ⟨-, -, hTable, -⟩ | ⟨-, hIndex, hTable, -⟩
  · rw [hTable]
    omega
  · rw [hTable, List.length_eraseIdx_of_lt hIndex]
    omega

-- ---------------------------------------------------------------------------
-- The order of the ticks
-- ---------------------------------------------------------------------------

theorem upcoming_succ {k k' : KernelState} (h : k.scheduler = .ok k') (m : Nat) :
    k.upcoming (m + 1) = k'.activeProcessIndex :: k'.upcoming m := by
  rw [KernelState.upcoming, h]

theorem upcoming_eq {k : KernelState} (hSize : 0 < k.processes.length) (m : Nat) :
    k.upcoming m = (List.range m).map fun j =>
      (k.activeProcessIndex + 1 + j) % k.processes.length := by
  induction m generalizing k with
  | zero => rfl
  | succ m ih =>
    obtain ⟨k', hPass, hTable, hIndex⟩ : ∃ k', k.scheduler = .ok k' ∧
        k'.processes = k.processes ∧
        k'.activeProcessIndex = (k.activeProcessIndex + 1) % k.processes.length :=
      ⟨_, scheduler_of_pos hSize, rfl, rfl⟩
    rw [upcoming_succ hPass, ih (hTable ▸ hSize), List.range_succ_eq_map, List.map_cons,
      List.map_map, hTable, hIndex]
    congr 1
    apply List.map_congr_left
    intro j _
    show ((k.activeProcessIndex + 1) % k.processes.length + 1 + j) % k.processes.length =
      (k.activeProcessIndex + 1 + (j + 1)) % k.processes.length
    rw [Nat.add_assoc, Nat.mod_add_mod]
    congr 1
    omega

/-- The active process and those after it. -/
theorem active_upcoming_eq {k : KernelState} (hActive : k.activeProcessIndex < k.processes.length)
    (m : Nat) :
    k.activeProcessIndex :: k.upcoming m = (List.range (m + 1)).map fun j =>
      (k.activeProcessIndex + j) % k.processes.length := by
  have hHead : (k.activeProcessIndex + 0) % k.processes.length = k.activeProcessIndex :=
    Nat.mod_eq_of_lt hActive
  rw [upcoming_eq (Nat.zero_lt_of_lt hActive), List.range_succ_eq_map, List.map_cons,
    List.map_map, hHead]
  congr 1
  apply List.map_congr_left
  intro j _
  show (k.activeProcessIndex + 1 + j) % _ = (k.activeProcessIndex + (j + 1)) % _
  congr 1
  omega

theorem upcoming_getElem? {k : KernelState} (hSize : 0 < k.processes.length) {m j : Nat}
    (hj : j < m) :
    (k.upcoming m)[j]? = some ((k.activeProcessIndex + 1 + j) % k.processes.length) := by
  rw [upcoming_eq hSize, List.getElem?_map, List.getElem?_range hj]
  rfl

-- ---------------------------------------------------------------------------
-- Which terminations keep the order
-- ---------------------------------------------------------------------------

/-- With the first process terminated everybody moves down by one; with the
last one terminated nobody moves, and the index was due to wrap. In between
the process due next is the one after the gap, not the one at 0. -/
theorem survivors_in_order {n a : Nat} (hActive : a < n) (hSize : 2 ≤ n) :
    (∀ j, j < n - 1 → (if j < a then j else j + 1) = (a + 1 + j) % n) ↔ a = 0 ∨ a + 1 = n := by
  refine ⟨?_, ?_⟩
  · intro hOrder
    have hFirst := hOrder 0 (by omega)
    by_contra hMiddle
    rw [if_pos (by omega), Nat.add_zero, Nat.mod_eq_of_lt (by omega)] at hFirst
    omega
  · rintro (rfl | hLast) j hj
    · rw [if_neg (by omega), Nat.mod_eq_of_lt (by omega)]
      omega
    · rw [if_pos (by omega), hLast, Nat.add_mod_left, Nat.mod_eq_of_lt (by omega)]

/-- The order is kept when each of the processes that come next is the one that
was due there. -/
theorem orderKept_pointwise {k k' : KernelState} {e : TurnEvent} (hStep : TurnStep k e k')
    (hTwo : 2 ≤ k.processes.length) (hActive : k'.activeProcessIndex < k'.processes.length) :
    OrderKept k e ↔ ∀ j, j < k.processes.length - 1 →
      e.origin k.activeProcessIndex ((k'.activeProcessIndex + j) % k'.processes.length) =
        (k.activeProcessIndex + 1 + j) % k.processes.length := by
  have hOnly : ∀ u, TurnStep k e u → u = k' := fun u hu => Except.ok.inj (hu.symm.trans hStep)
  have hLists : OrderKept k e ↔
      (k'.activeProcessIndex :: k'.upcoming (k.processes.length - 2)).map
        (e.origin k.activeProcessIndex) = k.upcoming (k.processes.length - 1) :=
    ⟨fun h => h k' hStep hTwo, fun h u hu _ => hOnly u hu ▸ h⟩
  have hSucc : k.processes.length - 2 + 1 = k.processes.length - 1 := by omega
  rw [hLists, active_upcoming_eq hActive, upcoming_eq (by omega), List.map_map, hSucc,
    List.map_inj_left]
  simp only [List.mem_range, Function.comp_apply]

theorem orderKept_iff {k k' : KernelState} {e : TurnEvent} (hStep : TurnStep k e k') :
    OrderKept k e ↔ AtAnEnd k e := by
  by_cases hTwo : 2 ≤ k.processes.length
  · rcases turnStep_cases hStep with ⟨rfl, hSize, hTable, hIndex⟩ |
      ⟨hTerminates, hActive, hTable, hIndex, hOrigin⟩
    · -- a tick moves to the next process
      have hActive : k'.activeProcessIndex < k'.processes.length := by
        rw [hIndex, hTable]
        exact Nat.mod_lt _ hSize
      refine iff_of_true ((orderKept_pointwise hStep hTwo hActive).mpr ?_)
        fun hNot => absurd rfl hNot
      intro j _
      rw [hTable, hIndex]
      show ((k.activeProcessIndex + 1) % _ + j) % _ = _
      rw [Nat.mod_add_mod]
    · have hLen : k'.processes.length = k.processes.length - 1 := by
        rw [hTable, List.length_eraseIdx_of_lt hActive]
      have hActive' : k'.activeProcessIndex < k'.processes.length := by omega
      rw [orderKept_pointwise hStep hTwo hActive']
      have hOrder : (∀ j, j < k.processes.length - 1 →
            e.origin k.activeProcessIndex ((k'.activeProcessIndex + j) % k'.processes.length) =
              (k.activeProcessIndex + 1 + j) % k.processes.length) ↔
          ∀ j, j < k.processes.length - 1 →
            (if j < k.activeProcessIndex then j else j + 1) =
              (k.activeProcessIndex + 1 + j) % k.processes.length := by
        refine forall_congr' fun j => imp_congr_right fun hj => ?_
        rw [hIndex, hLen, Nat.zero_add, Nat.mod_eq_of_lt hj, hOrigin]
      rw [hOrder, survivors_in_order hActive hTwo]
      exact ⟨fun h _ => h, fun h => h hTerminates⟩
  · -- at most one process: there is no order to keep
    refine iff_of_true (fun u _ h => absurd h hTwo) fun hTerminates => Or.inl ?_
    rcases turnStep_cases hStep with ⟨hTick, -⟩ | ⟨-, hActive, -⟩
    · exact absurd hTick hTerminates
    · omega

-- ---------------------------------------------------------------------------
-- Runs
-- ---------------------------------------------------------------------------

/-- Along events that keep the order, turns come when they are due. -/
theorem due_turn_comes {s t : KernelState} {gs : List TurnEvent}
    (hEach : EachStep TurnStep s gs fun _ u e => OrderKept u e) (hRun : Steps TurnStep s gs t)
    (hSome : gs ≠ []) (hLess : gs.length < s.processes.length) :
    (s.upcoming (s.processes.length - 1))[gs.length - 1]? =
      some (s.origins gs t.activeProcessIndex) := by
  induction gs generalizing s with
  | nil => exact absurd rfl hSome
  | cons e gs ih =>
    obtain ⟨u, hu, hut⟩ := hRun
    have hTwo : 2 ≤ s.processes.length := by
      rw [List.length_cons] at hLess
      omega
    have hOrder := hEach [] s e u (List.prefix_append [e] gs) rfl hu u hu hTwo
    rw [List.length_cons, Nat.add_sub_cancel, origins_cons hu, ← hOrder, List.getElem?_map]
    cases gs with
    | nil =>
      obtain rfl := steps_nil.mp hut
      rfl
    | cons f gs =>
      -- the rest of the run starts one turn later
      have hPart : [e] ++ f :: gs <+: e :: f :: gs := List.prefix_refl _
      have hRest := hEach.part hPart ⟨u, hu, rfl⟩
      have hSize := turnStep_size hu
      rw [List.length_cons, List.length_cons] at hLess
      have hDue := ih hRest hut (by simp) (by rw [List.length_cons]; omega)
      rw [List.length_cons, Nat.add_sub_cancel, upcoming_getElem? (by omega) (by omega)] at hDue
      rw [List.length_cons, List.getElem?_cons_succ, upcoming_getElem? (by omega) (by omega), hDue]
      rfl

/--
**Turns after terminations.** Along a run of scheduler ticks and terminations
of the active process, by either path, every event keeps the cyclic order and
no surviving process is passed over exactly when every termination is of the
first or of the last process of the table as it is then.
-/
theorem turns_kept_iff (k : KernelState) (es : List TurnEvent) :
    TurnsKept k es ↔ EachStep TurnStep k es fun _ s e => AtAnEnd s e := by
  have hIff : (EachStep TurnStep k es fun _ s e => OrderKept s e) ↔
      EachStep TurnStep k es fun _ s e => AtAnEnd s e :=
    eachStep_iff_eachStep (fun _ _ => True) trivial (fun _ _ _ _ _ _ _ _ => trivial)
      fun _ _ _ _ _ _ hStep => orderKept_iff hStep
  rw [← hIff]
  refine ⟨?_, ?_⟩
  · exact TurnsKept.order
  · intro hOrder
    refine ⟨hOrder, ?_⟩
    intro fs gs s t hPart hs ht
    exact due_turn_comes (hOrder.part hPart hs) ht

/-- A third process is created, a tick makes process 2 active, and it is
terminated: process 3 was due, and process 1 is active. -/
theorem turns_kept_fails :
    ¬ TurnsKept (KernelState.boot.createProcess ⟨"Proces 3", 1, 100⟩)
      [.tick, .terminateActive] := by
  intro hKept
  have hOrder := hKept.order [.tick] _ .terminateActive _ (List.prefix_refl _) ⟨_, rfl, rfl⟩ rfl _
    rfl (by decide)
  have hFirst : [0, 2] = [2, 0] := hOrder
  simp at hFirst

end MultiOS
