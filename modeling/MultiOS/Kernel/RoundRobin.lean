import MultiOS.Lib.RoundRobin
import MultiOS.Kernel.Steps

/-!
# MultiOS — round robin under creation

As long as nothing is terminated, processes are only appended to the table,
so a process is its position, and the scheduler's index follows a rotation
over a growing group (`Lib.Rotation`). A turn is recorded with the table at
its beginning: the process active at the start has the first turn, and each
tick begins the next.

Between two consecutive turns of one process every other process that was in
the table all the time has exactly one (`round_robin`).
-/

namespace MultiOS

open Lib

/-- A turn: the index of the process that is active, and the table when it
became so. -/
structure Turn where
  active : Nat
  processes : List Process
  deriving DecidableEq, Repr

namespace KernelState

def turn (k : KernelState) : Turn where
  active := k.activeProcessIndex
  processes := k.processes

/-- The turns that the ticks among `es` begin. -/
def turnsAlong (k : KernelState) : List TableEvent → List Turn
  | [] => []
  | e :: es =>
    match k.tableStep e with
    | .error _ => []
    | .ok k' => if e = .tick then k'.turn :: k'.turnsAlong es else k'.turnsAlong es

/-- All turns of a run: of the process active at the start, and those begun. -/
def turns (k : KernelState) (es : List TableEvent) : List Turn := k.turn :: k.turnsAlong es

end KernelState

/-- A scheduler tick or a call of `createProcess`. -/
def TableEvent.Rotates : TableEvent → Prop
  | .tick => True
  | .createProcess _ => True
  | .terminate _ => False
  | .processTermination _ => False

-- ---------------------------------------------------------------------------
-- Steps
-- ---------------------------------------------------------------------------

/-- What a tick or a creation leads to: a longer table or the same one, with a
valid index. -/
theorem rotates_step {k : KernelState} {e : TableEvent}
    (hActive : k.activeProcessIndex < k.processes.length) (hRotates : e.Rotates) :
    ∃ k', TableStep k e k' ∧ k.processes <+: k'.processes ∧
      k'.activeProcessIndex < k'.processes.length ∧
      ((e = .tick ∧ k'.processes = k.processes ∧
          k'.activeProcessIndex = (k.activeProcessIndex + 1) % k.processes.length) ∨
        (e ≠ .tick ∧ k'.activeProcessIndex = k.activeProcessIndex)) := by
  cases e with
  | tick =>
    have hSize : 0 < k.processes.length := Nat.zero_lt_of_lt hActive
    exact ⟨_, scheduler_of_pos hSize, List.prefix_refl _, Nat.mod_lt _ hSize,
      Or.inl ⟨rfl, rfl, rfl⟩⟩
  | createProcess input =>
    obtain ⟨hAppends, hIndex⟩ := createProcess_appends k input
    refine ⟨k.createProcess input, rfl, hAppends, ?_, Or.inr ⟨by simp, hIndex⟩⟩
    rw [hIndex]
    exact Nat.lt_of_lt_of_le hActive hAppends.length_le
  | terminate target => exact hRotates.elim
  | processTermination target => exact hRotates.elim

theorem turnsAlong_tick {k k' : KernelState} (hStep : TableStep k .tick k')
    (es : List TableEvent) : k.turnsAlong (.tick :: es) = k'.turns es := by
  rw [KernelState.turnsAlong, show k.tableStep .tick = .ok k' from hStep]
  rfl

theorem turnsAlong_other {k k' : KernelState} {e : TableEvent} (hStep : TableStep k e k')
    (hOther : e ≠ .tick) (es : List TableEvent) : k.turnsAlong (e :: es) = k'.turnsAlong es := by
  rw [KernelState.turnsAlong, show k.tableStep e = .ok k' from hStep]
  exact if_neg hOther

-- ---------------------------------------------------------------------------
-- Runs
-- ---------------------------------------------------------------------------

/-- The turns of a run are a rotation over the growing table, and the table at
the start is the beginning of the table at each turn. -/
theorem turnsAlong_rotation {k : KernelState} {es : List TableEvent}
    (hActive : k.activeProcessIndex < k.processes.length) (hEvents : ∀ e ∈ es, e.Rotates) :
    Rotation k.processes.length k.activeProcessIndex ((k.turnsAlong es).map Turn.active) ∧
      ∀ t ∈ k.turnsAlong es, k.processes <+: t.processes := by
  induction es generalizing k with
  | nil => exact ⟨.nil, by simp [KernelState.turnsAlong]⟩
  | cons e es ih =>
    obtain ⟨k', hStep, hAppends, hActive', hCase⟩ :=
      rotates_step hActive (hEvents e List.mem_cons_self)
    obtain ⟨hRotation, hPrefix⟩ :=
      ih hActive' fun e' he' => hEvents e' (List.mem_cons_of_mem _ he')
    rcases hCase with ⟨rfl, hTable, hIndex⟩ | ⟨hOther, hIndex⟩
    · -- a tick begins the turn of the next process
      rw [turnsAlong_tick hStep]
      refine ⟨?_, ?_⟩
      · show Rotation _ _ (k'.activeProcessIndex :: _)
        rw [hTable] at hRotation
        rw [hIndex] at hRotation ⊢
        exact .tick (Nat.le_refl _) hRotation
      · intro t ht
        rcases List.mem_cons.mp ht with rfl | ht
        · exact hAppends
        · exact hAppends.trans (hPrefix t ht)
    · rw [turnsAlong_other hStep hOther]
      rw [hIndex] at hRotation
      exact ⟨hRotation.mono hAppends.length_le, fun t ht => hAppends.trans (hPrefix t ht)⟩

/-- The turns after a given one are those of a run from the state in which it
began. -/
theorem turns_after {k : KernelState} {es : List TableEvent} {before after : List Turn}
    {first : Turn} (hActive : k.activeProcessIndex < k.processes.length)
    (hEvents : ∀ e ∈ es, e.Rotates) (hTurns : k.turns es = before ++ first :: after) :
    ∃ (k' : KernelState) (es' : List TableEvent), k'.turn = first ∧
      k'.activeProcessIndex < k'.processes.length ∧ (∀ e ∈ es', e.Rotates) ∧
      k'.turnsAlong es' = after := by
  induction es generalizing k before with
  | nil =>
    cases before with
    | nil =>
      obtain ⟨hFirst, hAfter⟩ := List.cons.inj hTurns
      exact ⟨k, [], hFirst, hActive, hEvents, hAfter⟩
    | cons t before =>
      have hNone : [] = before ++ first :: after := (List.cons.inj hTurns).2
      simp at hNone
  | cons e es ih =>
    cases before with
    | nil =>
      obtain ⟨hFirst, hAfter⟩ := List.cons.inj hTurns
      exact ⟨k, e :: es, hFirst, hActive, hEvents, hAfter⟩
    | cons t before =>
      have hAlong : k.turnsAlong (e :: es) = before ++ first :: after := (List.cons.inj hTurns).2
      obtain ⟨k', hStep, -, hActive', hCase⟩ :=
        rotates_step hActive (hEvents e List.mem_cons_self)
      have hRest : ∀ e ∈ es, e.Rotates := fun e' he' => hEvents e' (List.mem_cons_of_mem _ he')
      rcases hCase with ⟨rfl, -, -⟩ | ⟨hOther, -⟩
      · rw [turnsAlong_tick hStep] at hAlong
        exact ih hActive' hRest hAlong
      · -- the turn in progress goes on
        rw [turnsAlong_other hStep hOther] at hAlong
        have hTurns' : k'.turns es = (k'.turn :: before) ++ first :: after :=
          congrArg (k'.turn :: ·) hAlong
        exact ih hActive' hRest hTurns'

/--
**Round robin under creation.** In a run of scheduler ticks and calls of
`createProcess` from a table with a valid `activeProcessIndex`, let `first` and
`last` be two turns of one process with no turn of it in between. The table at
`first` is the beginning of the table at every turn up to `last`, so its
positions are the processes present all the time, and each of them but the one
itself has exactly one turn in between.
-/
theorem round_robin {k : KernelState} {es : List TableEvent}
    (hActive : k.activeProcessIndex < k.processes.length) (hEvents : ∀ e ∈ es, e.Rotates)
    {before between after : List Turn} {first last : Turn}
    (hTurns : k.turns es = before ++ first :: (between ++ last :: after))
    (hSame : last.active = first.active)
    (hConsecutive : ∀ t ∈ between, t.active ≠ first.active) :
    (∀ t ∈ between ++ [last], first.processes <+: t.processes) ∧
      ∀ q, q < first.processes.length → q ≠ first.active →
        (between.map Turn.active).count q = 1 := by
  obtain ⟨k', es', rfl, hActive', hEvents', hAlong⟩ := turns_after hActive hEvents hTurns
  obtain ⟨hRotation, hPrefix⟩ := turnsAlong_rotation hActive' hEvents'
  rw [hAlong] at hRotation hPrefix
  rw [List.map_append, List.map_cons, hSame] at hRotation
  refine ⟨?_, ?_⟩
  · intro t ht
    refine hPrefix t ?_
    rcases List.mem_append.mp ht with ht | ht
    · exact List.mem_append_left _ ht
    · rw [List.mem_singleton.mp ht]
      exact List.mem_append_right _ List.mem_cons_self
  · intro q hq hOther
    have hMid : k'.activeProcessIndex ∉ between.map Turn.active := by
      intro hMem
      obtain ⟨t, ht, hEq⟩ := List.mem_map.mp hMem
      exact hConsecutive t ht hEq
    exact hRotation.count_between hActive' hMid hq hOther

/-- The boot table, with a third process created after the first tick: process
2 has one turn before process 1 is active again. -/
theorem round_robin_created :
    (∀ t ∈ [⟨1, KernelState.boot.processes⟩,
        ⟨2, (KernelState.boot.createProcess ⟨"Proces 3", 1, 100⟩).processes⟩] ++
        [⟨0, (KernelState.boot.createProcess ⟨"Proces 3", 1, 100⟩).processes⟩],
      KernelState.boot.processes <+: Turn.processes t) ∧
    ∀ q, q < KernelState.boot.processes.length → q ≠ 0 →
      ([⟨1, KernelState.boot.processes⟩,
        ⟨2, (KernelState.boot.createProcess ⟨"Proces 3", 1, 100⟩).processes⟩].map
        Turn.active).count q = 1 := by
  have hActive : KernelState.boot.activeProcessIndex < KernelState.boot.processes.length := by
    decide
  have hEvents : ∀ e ∈ [.tick, .createProcess ⟨"Proces 3", 1, 100⟩, .tick, .tick],
      TableEvent.Rotates e := by
    simp [TableEvent.Rotates]
  have hTurns : KernelState.boot.turns
      [.tick, .createProcess ⟨"Proces 3", 1, 100⟩, .tick, .tick] =
      [] ++ ⟨0, KernelState.boot.processes⟩ ::
        ([⟨1, KernelState.boot.processes⟩,
          ⟨2, (KernelState.boot.createProcess ⟨"Proces 3", 1, 100⟩).processes⟩] ++
          ⟨0, (KernelState.boot.createProcess ⟨"Proces 3", 1, 100⟩).processes⟩ :: []) := rfl
  exact round_robin hActive hEvents hTurns rfl (by decide)

end MultiOS
