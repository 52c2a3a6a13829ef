import MultiOS.Memory.Accounting

/-!
# MultiOS — when a request is refused

`createProcess` reports a refused request as a lack of free memory. Room is
what the live allocations leave of `[0, n)`: a request for `size` bytes has
room when `size` consecutive addresses lie in none of them.

A refusal for a request that has no room is right, and the counter never
refuses a request that the block would hold, since it only drifts upwards
(`OneBlock`). What goes wrong is the rest of the block: it is handed out whole
to a request for `k` bytes, and the other `n - k` bytes are refused to
everybody (`refusal_iff`).
-/

namespace MultiOS

open Lib

namespace Ledger

/-- Some `size` consecutive addresses in `[0, n)` belong to no live
allocation. -/
def HasRoom (n : Int) (l : Ledger) (size : Int) : Prop :=
  ∃ a, 0 ≤ a ∧ a + size ≤ n ∧
    ∀ x, a ≤ x → x < a + size → ∀ entry ∈ l.live, ¬ (entry.1 ≤ x ∧ x < entry.1 + entry.2)

/-- The law for one request. -/
def RefusesOnlyForLackOfRoom (n : Int) (l : Ledger) (size : Int) : Prop :=
  (l.manager.allocateMemory size).1 = MemoryManager.allocationFailed ↔ ¬ l.HasRoom n size

/-- The states that requests of at least one byte lead to. -/
inductive OneBlock (n : Int) : Ledger → Prop where
  | free (r : Int) (hCounter : n ≤ r) : OneBlock n (blockFree n r)
  | held (r k : Int) (hCounter : 0 ≤ r) (hPos : 1 ≤ k) (hFit : k ≤ n) :
      OneBlock n (blockHeld n r k)

-- ---------------------------------------------------------------------------
-- Steps and runs
-- ---------------------------------------------------------------------------

theorem OneBlock.step {n : Int} {l : Ledger} {c : MemoryCall} (h : OneBlock n l)
    (hSize : ∀ size, c = .allocate size → 1 ≤ size) : OneBlock n (l.call c) := by
  cases h with
  | free r hCounter =>
    rcases call_blockFree hCounter c with ⟨size, hAllocate, hFit, hCall⟩ | ⟨-, hCall⟩
    · rw [hCall]
      exact .held (r - size) size (by omega) (hSize size hAllocate) hFit
    · rw [hCall]
      exact .free r hCounter
  | held r k hCounter hPos hFit =>
    rcases call_blockHeld c with ⟨-, hCall⟩ | ⟨-, hCall⟩
    · rw [hCall]
      exact .free (r + n) (by omega)
    · rw [hCall]
      exact .held r k hCounter hPos hFit

theorem OneBlock.of_run {n : Int} {calls : List MemoryCall} {l : Ledger}
    (hSizes : ∀ size, .allocate size ∈ calls → 1 ≤ size)
    (hRun : Steps Ledger.Step (.start n) calls l) : OneBlock n l := by
  have hAlways : Always Ledger.Step (.start n) calls (OneBlock n) := by
    apply always_of_inv
    · exact .free n (Int.le_refl n)
    · rintro t c u hc h rfl
      exact h.step fun size hEq => hSizes size (hEq ▸ hc)
  exact hAlways.final hRun

-- ---------------------------------------------------------------------------
-- Requests
-- ---------------------------------------------------------------------------

/-- With the block free a request is refused when it exceeds the block. -/
theorem allocate_free_refused_iff {n r size : Int} (hCounter : n ≤ r) :
    ((blockFree n r).manager.allocateMemory size).1 = MemoryManager.allocationFailed ↔
      n < size := by
  by_cases hFit : size ≤ n
  · have hCov : size ≤ r := by omega
    simp [blockFree, MemoryManager.allocateMemory, updateFirst, MemoryBlock.accepts, hCov, hFit,
      MemoryManager.allocationFailed]
  · have hBig : n < size := by omega
    simp [blockFree, MemoryManager.allocateMemory, updateFirst, MemoryBlock.accepts, hFit, hBig]

/-- With the block held every request is refused. -/
theorem allocate_held_refused {n r k size : Int} :
    ((blockHeld n r k).manager.allocateMemory size).1 = MemoryManager.allocationFailed := by
  simp [blockHeld, MemoryManager.allocateMemory, updateFirst, MemoryBlock.accepts]

theorem hasRoom_free_iff {n r size : Int} : (blockFree n r).HasRoom n size ↔ size ≤ n := by
  refine ⟨?_, ?_⟩
  · rintro ⟨a, hLow, hHigh, -⟩
    omega
  · intro hFit
    exact ⟨0, Int.le_refl 0, by omega, by simp [blockFree]⟩

/-- Beside a request for the first `k` bytes there is room in the others. -/
theorem hasRoom_held_iff {n r k size : Int} (hPos : 1 ≤ k) (hSize : 1 ≤ size) :
    (blockHeld n r k).HasRoom n size ↔ size ≤ n - k := by
  refine ⟨?_, ?_⟩
  · rintro ⟨a, hLow, hHigh, hApart⟩
    have hStart := hApart a (Int.le_refl a) (by omega) (0, k) (by simp [blockHeld])
    have hPast : ¬ (0 ≤ a ∧ a < 0 + k) := hStart
    omega
  · intro hFit
    refine ⟨k, by omega, by omega, ?_⟩
    intro x hFrom _ entry hEntry
    rw [List.mem_singleton.mp hEntry]
    show ¬ (0 ≤ x ∧ x < 0 + k)
    omega

end Ledger

/--
**When a refusal is for lack of room.** In every state that a run of
allocations of at least one byte and of deallocations of any address reaches
from `MemoryManager(n)`, and for every request of at least one byte:
`allocateMemory` refuses it exactly when it has no room, if and only if every
live allocation leaves fewer bytes than requested.
-/
theorem refusal_iff {n : Int} {calls : List MemoryCall} {l : Ledger}
    (hSizes : ∀ size, .allocate size ∈ calls → 1 ≤ size)
    (hRun : Steps Ledger.Step (.start n) calls l) {size : Int} (hSize : 1 ≤ size) :
    l.RefusesOnlyForLackOfRoom n size ↔ ∀ entry ∈ l.live, n - entry.2 < size := by
  cases Ledger.OneBlock.of_run hSizes hRun with
  | free r hCounter =>
    refine iff_of_true ?_ (by simp [Ledger.blockFree])
    rw [Ledger.RefusesOnlyForLackOfRoom, Ledger.allocate_free_refused_iff hCounter,
      Ledger.hasRoom_free_iff]
    omega
  | held r k hCounter hPos hFit =>
    have hLive : (∀ entry ∈ (Ledger.blockHeld n r k).live, n - entry.2 < size) ↔
        n - k < size := by
      simp [Ledger.blockHeld]
    rw [hLive, Ledger.RefusesOnlyForLackOfRoom, iff_true_left Ledger.allocate_held_refused,
      Ledger.hasRoom_held_iff hPos hSize]
    omega

/-- All but the last byte is taken: a request for one byte has room, one for
two bytes has not. -/
theorem refusal_iff_two :
    Ledger.RefusesOnlyForLackOfRoom 65536 (.blockHeld 65536 1 65535) 2 ↔
      ∀ entry ∈ (Ledger.blockHeld 65536 1 65535).live, 65536 - entry.2 < 2 := by
  have hRun : Steps Ledger.Step (.start 65536) [.allocate 65535] (.blockHeld 65536 1 65535) :=
    ⟨_, rfl, rfl⟩
  exact refusal_iff (by simp) hRun (by decide)

/-- One byte of 65536 is taken, and a second one is refused. -/
theorem refusal_fails :
    ¬ Ledger.RefusesOnlyForLackOfRoom 65536 ((Ledger.start 65536).call (.allocate 1)) 1 := by
  intro hLaw
  have hCall : (Ledger.start 65536).call (.allocate 1) = .blockHeld 65536 65535 1 :=
    Ledger.call_allocate_free (by decide) (by decide)
  rw [hCall] at hLaw
  refine hLaw.mp Ledger.allocate_held_refused ?_
  rw [Ledger.hasRoom_held_iff (by decide) (by decide)]
  decide

end MultiOS
