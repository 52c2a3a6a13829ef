import Mathlib.Algebra.Ring.Int.Defs
import MultiOS.Lib.Runs
import MultiOS.Model.Memory

/-!
# MultiOS — memory accounting

What `remainingMemory` is for: the memory not handed out, that is the total
less the sizes requested by the allocations still live. The ledger records
those allocations beside the manager, from the values the calls return.

The two operations move the counter by different amounts, the requested size
on the way down and the block's size on the way up, so a block that is given
back after a request for part of it leaves the counter too high. From
`MemoryManager::new n` there is one block, of size `n`, and the reachable
states have two shapes (`Shape`): idle, or busy with one request `k ≤ n`. The
counter balances in every state exactly when each allocation that is given
back was a request for all `n` bytes (`accounting_iff`).
-/

namespace MultiOS

open Lib

/-- A call of one of the two public operations. -/
inductive MemoryCall where
  | allocate (size : Int)
  | deallocate (startAddress : Int)
  deriving DecidableEq, Repr

/-- The manager together with its live allocations: the address each call
returned and the size it asked for. -/
structure Ledger where
  manager : MemoryManager
  live : List (Int × Int)
  deriving DecidableEq, Repr

namespace Ledger

def start (initialMemorySize : Int) : Ledger where
  manager := .new initialMemorySize
  live := []

/-- One call: an allocation that does not fail becomes live, a deallocation
ends the allocation at its address. -/
def call (l : Ledger) : MemoryCall → Ledger
  | .allocate size =>
    let (address, m) := l.manager.allocateMemory size
    { manager := m
      live := if address = MemoryManager.allocationFailed then l.live
              else (address, size) :: l.live }
  | .deallocate address =>
    { manager := l.manager.deallocateMemory address
      live := l.live.filter fun entry => entry.1 ≠ address }

def Step (l : Ledger) (c : MemoryCall) (l' : Ledger) : Prop := l' = l.call c

/-- The sum of the requested sizes of the live allocations. -/
def requested (l : Ledger) : Int := (l.live.map Prod.snd).sum

/-- The accounting law. -/
structure Balanced (l : Ledger) : Prop where
  counter : l.manager.remainingMemory = l.manager.totalMemory - l.requested
  nonneg : 0 ≤ l.manager.remainingMemory
  le_total : l.manager.remainingMemory ≤ l.manager.totalMemory
  idle : l.live = [] → l.manager.remainingMemory = l.manager.totalMemory

/-- A call does not give back a live allocation of less than `n` bytes. -/
def ReturnsWhole (n : Int) (l : Ledger) : MemoryCall → Prop
  | .allocate _ => True
  | .deallocate address => ∀ entry ∈ l.live, entry.1 = address → entry.2 = n

-- ---------------------------------------------------------------------------
-- Calls on the one block
-- ---------------------------------------------------------------------------

/-- The one block of `MemoryManager(n)` free, with the counter at `r`. -/
def blockFree (n r : Int) : Ledger := ⟨⟨n, r, [⟨0, n, true⟩]⟩, []⟩

/-- The one block held by a request for `k` bytes, with the counter at `r`. -/
def blockHeld (n r k : Int) : Ledger := ⟨⟨n, r, [⟨0, n, false⟩]⟩, [(0, k)]⟩

section
variable {n r k size address : Int}

/-- A free block is taken by a request that it and the counter cover. -/
theorem call_allocate_free (hCovered : size ≤ r) (hFit : size ≤ n) :
    (blockFree n r).call (.allocate size) = blockHeld n (r - size) size := by
  simp [blockFree, blockHeld, call, MemoryManager.allocateMemory, updateFirst, MemoryBlock.accepts,
    hCovered, hFit, MemoryManager.allocationFailed, MemoryBlock.take]

theorem call_allocate_refused (hBig : n < size) :
    (blockFree n r).call (.allocate size) = blockFree n r := by
  have hNot : ¬ size ≤ n := by omega
  simp [blockFree, call, MemoryManager.allocateMemory, updateFirst, MemoryBlock.accepts, hNot]

/-- A block that is held refuses every request. -/
theorem call_allocate_held : (blockHeld n r k).call (.allocate size) = blockHeld n r k := by
  simp [blockHeld, call, MemoryManager.allocateMemory, updateFirst, MemoryBlock.accepts]

/-- Giving back the block raises the counter by the block's size. -/
theorem call_deallocate_held : (blockHeld n r k).call (.deallocate 0) = blockFree n (r + n) := by
  simp [blockFree, blockHeld, call, MemoryManager.deallocateMemory, updateFirst,
    MemoryBlock.takenAt, MemoryBlock.release]

/-- Any other deallocation changes nothing. -/
theorem call_deallocate_other (hAddr : address ≠ 0) :
    (blockHeld n r k).call (.deallocate address) = blockHeld n r k := by
  simp [blockHeld, call, MemoryManager.deallocateMemory, updateFirst, MemoryBlock.takenAt,
    hAddr.symm]

theorem call_deallocate_free : (blockFree n r).call (.deallocate address) = blockFree n r := by
  simp [blockFree, call, MemoryManager.deallocateMemory, updateFirst, MemoryBlock.takenAt]

/-- What a call does to the free block: a request that fits takes it, and
nothing else changes it. -/
theorem call_blockFree (hCounter : n ≤ r) (c : MemoryCall) :
    (∃ size, c = .allocate size ∧ size ≤ n ∧
      (blockFree n r).call c = blockHeld n (r - size) size) ∨
    ((∀ size, c = .allocate size → n < size) ∧ (blockFree n r).call c = blockFree n r) := by
  cases c with
  | allocate size =>
    by_cases hFit : size ≤ n
    · exact Or.inl ⟨size, rfl, hFit, call_allocate_free (by omega) hFit⟩
    · have hBig : n < size := by omega
      refine Or.inr ⟨?_, call_allocate_refused hBig⟩
      intro size' hEq
      rw [← MemoryCall.allocate.inj hEq]
      exact hBig
  | deallocate address => exact Or.inr ⟨by simp, call_deallocate_free⟩

/-- What a call does to the held block: a deallocation at 0 frees it, and
nothing else changes it. -/
theorem call_blockHeld (c : MemoryCall) :
    (c = .deallocate 0 ∧ (blockHeld n r k).call c = blockFree n (r + n)) ∨
    (c ≠ .deallocate 0 ∧ (blockHeld n r k).call c = blockHeld n r k) := by
  cases c with
  | allocate size => exact Or.inr ⟨by simp, call_allocate_held⟩
  | deallocate address =>
    by_cases hAddr : address = 0
    · subst hAddr
      exact Or.inl ⟨rfl, call_deallocate_held⟩
    · exact Or.inr ⟨by simp [hAddr], call_deallocate_other hAddr⟩

end

-- ---------------------------------------------------------------------------
-- The reachable states
-- ---------------------------------------------------------------------------

/-- The states a balanced run from `start n` passes through. -/
inductive Shape (n : Int) : Ledger → Prop where
  | idle : Shape n ⟨⟨n, n, [⟨0, n, true⟩]⟩, []⟩
  | busy (k : Int) (hPos : 1 ≤ k) (hLe : k ≤ n) :
      Shape n ⟨⟨n, n - k, [⟨0, n, false⟩]⟩, [(0, k)]⟩

theorem Shape.balanced {n : Int} {l : Ledger} (hn : 0 < n) (h : Shape n l) : l.Balanced := by
  cases h with
  | idle => exact ⟨by simp [requested], Int.le_of_lt hn, Int.le_refl n, fun _ => rfl⟩
  | busy k hPos hLe =>
    refine ⟨by simp [requested], ?_, ?_, by simp⟩
    · show 0 ≤ n - k
      omega
    · show n - k ≤ n
      omega

/-- A call that gives back no part request keeps the shape. -/
theorem Shape.step {n : Int} {l : Ledger} {c : MemoryCall} (h : Shape n l)
    (hSize : ∀ size, c = .allocate size → 1 ≤ size) (hWhole : ReturnsWhole n l c) :
    Shape n (l.call c) := by
  cases h with
  | idle =>
    show Shape n ((blockFree n n).call c)
    rcases call_blockFree (Int.le_refl n) c with ⟨size, hAllocate, hFit, hCall⟩ | ⟨-, hCall⟩
    · rw [hCall]
      exact .busy size (hSize size hAllocate) hFit
    · rw [hCall]
      exact .idle
  | busy k hPos hLe =>
    show Shape n ((blockHeld n (n - k) k).call c)
    rcases call_blockHeld c with ⟨rfl, hCall⟩ | ⟨-, hCall⟩
    · have hk : k = n := hWhole (0, k) (by simp) rfl
      rw [hCall, hk, Int.sub_self, Int.zero_add]
      exact .idle
    · rw [hCall]
      exact .busy k hPos hLe

/-- A call that gives back a part request unbalances the counter at once. -/
theorem Shape.breaks {n : Int} {l : Ledger} {c : MemoryCall} (h : Shape n l)
    (hWhole : ¬ ReturnsWhole n l c) : ¬ (l.call c).Balanced := by
  cases c with
  | allocate size => exact absurd trivial hWhole
  | deallocate address =>
    cases h with
    | idle => simp [ReturnsWhole] at hWhole
    | busy k hPos hLe =>
      simp only [ReturnsWhole, List.mem_singleton, forall_eq, not_forall] at hWhole
      obtain ⟨rfl, hk⟩ := hWhole
      show ¬ ((blockHeld n (n - k) k).call _).Balanced
      rw [call_deallocate_held]
      intro hBal
      have hIdle : n - k + n = n := hBal.idle rfl
      omega

end Ledger

/--
**Memory accounting.** Along a run of allocations of at least one byte and of
deallocations of any address from `MemoryManager(n)`, the counter equals the
total less the live requests, stays within `[0, total]` and returns to the
total when nothing is live, in every state reached, exactly when every
deallocation of a live allocation gives back a request for all `n` bytes.
-/
theorem accounting_iff {n : Int} (hn : 0 < n) {calls : List MemoryCall}
    (hSizes : ∀ size, .allocate size ∈ calls → 1 ≤ size) :
    Always Ledger.Step (.start n) calls Ledger.Balanced ↔
      EachStep Ledger.Step (.start n) calls fun _ l c => l.ReturnsWhole n c := by
  apply always_iff_eachStep (Ledger.Shape n)
  · exact .idle
  · exact fun l h => h.balanced hn
  · rintro fs l c l' hc hInv hWhole rfl
    exact hInv.step (fun size hEq => hSizes size (hEq ▸ hc)) hWhole
  · rintro fs l c l' hc hInv hWhole rfl
    exact hInv.breaks hWhole

/-- A run that asks for the whole memory, gives it back twice and asks again. -/
theorem accounting_iff_whole :
    Always Ledger.Step (.start 65536)
      [.allocate 65536, .deallocate 0, .deallocate 0, .allocate 65536] Ledger.Balanced ↔
    EachStep Ledger.Step (.start 65536)
      [.allocate 65536, .deallocate 0, .deallocate 0, .allocate 65536]
      fun _ l c => l.ReturnsWhole 65536 c :=
  accounting_iff (by decide) (by simp)

/-- One byte taken and given back: the counter stands at 131071 of 65536. -/
theorem accounting_fails :
    ¬ Always Ledger.Step (.start 65536) [.allocate 1, .deallocate 0] Ledger.Balanced := by
  intro h
  have hFinal : Steps Ledger.Step (.start 65536) [.allocate 1, .deallocate 0]
      ⟨⟨65536, 131071, [⟨0, 65536, true⟩]⟩, []⟩ := by
    simp only [steps_cons, steps_nil, Ledger.Step]
    exact ⟨_, rfl, _, rfl, rfl⟩
  have hCounter : (131071 : Int) = 65536 := (h.final hFinal).idle rfl
  omega

end MultiOS
