import MultiOS.Memory.Accounting
import MultiOS.Model.Console

/-!
# MultiOS — the counter as an `int`

`createProcess` passes on whatever number it read, so `allocateMemory` meets
every `int`, negative ones included, and the counter moves by amounts nobody
checks. Two things can go wrong, and both can be read off the calls alone
(`Usage`: the request that holds the block, and the bytes that requests given
back so far left unused).

* A negative request is accepted whenever the block is free and *raises* the
  counter.
* A request for `size` bytes that is given back raises the counter by
  `n - size` in total. The counter of the free block is `n` plus the sum of
  these, and in a long run it leaves the range of `int`.

A run is safe exactly when it has no negative request on the free block and
the unused bytes stay within what `int` has left above `n`
(`arithmetic_safe_iff`). The arithmetic here is exact: a run is judged up to
the first update that leaves the range.
-/

namespace MultiOS

open Lib

/-- What the calls on a block of `n` bytes come to. -/
structure Usage where
  /-- The size of the request that holds the block. -/
  held : Option Int
  /-- The bytes that the requests given back left unused. -/
  unused : Int
  deriving DecidableEq, Repr

namespace Usage

def start : Usage where
  held := none
  unused := 0

def call (n : Int) (u : Usage) : MemoryCall → Usage
  | .allocate size =>
    match u.held with
    | none => if size ≤ n then { u with held := some size } else u
    | some _ => u
  | .deallocate address =>
    match u.held with
    | none => u
    | some size => if address = 0 then { held := none, unused := u.unused + (n - size) } else u

/-- The usage after a run. -/
def after (n : Int) (calls : List MemoryCall) : Usage := calls.foldl (call n) start

theorem after_snoc (n : Int) (calls : List MemoryCall) (c : MemoryCall) :
    after n (calls ++ [c]) = (after n calls).call n c := by
  rw [after, List.foldl_append]
  rfl

/-- A call is harmless if it does not ask for a negative size on the free
block, and does not give back a request that leaves more bytes unused than
`int` has left. -/
def Harmless (n : Int) (u : Usage) : MemoryCall → Prop
  | .allocate size => u.held = none → 0 ≤ size
  | .deallocate address =>
    address = 0 → ∀ size, u.held = some size → u.unused + (n - size) ≤ intMax - n

/-- A call that the free block does not take is harmless and changes nothing. -/
theorem call_free {n unused : Int} {c : MemoryCall} (hn : 0 ≤ n)
    (hBig : ∀ size, c = .allocate size → n < size) :
    call n ⟨none, unused⟩ c = ⟨none, unused⟩ ∧ Harmless n ⟨none, unused⟩ c := by
  cases c with
  | allocate size =>
    have hSize := hBig size rfl
    refine ⟨if_neg (by omega), fun _ => ?_⟩
    omega
  | deallocate address => exact ⟨rfl, by simp [Harmless]⟩

/-- A call that does not give back the held block is harmless and changes
nothing. -/
theorem call_held {n size unused : Int} {c : MemoryCall} (hOther : c ≠ .deallocate 0) :
    call n ⟨some size, unused⟩ c = ⟨some size, unused⟩ ∧ Harmless n ⟨some size, unused⟩ c := by
  cases c with
  | allocate size' => exact ⟨rfl, by simp [Harmless]⟩
  | deallocate address =>
    have hAddr : address ≠ 0 := by simpa using hOther
    exact ⟨if_neg hAddr, fun hZero => absurd hZero hAddr⟩

end Usage

/-- The update of the counter that the call makes, if any, stays in the range
of `int`, and no allocation raises the counter. -/
structure ArithmeticSafe (l : Ledger) (c : MemoryCall) : Prop where
  low : intMin ≤ (l.call c).manager.remainingMemory
  high : (l.call c).manager.remainingMemory ≤ intMax
  notRaised : ∀ size, c = .allocate size →
    (l.call c).manager.remainingMemory ≤ l.manager.remainingMemory

namespace Ledger

/-- The ledger after calls with a usage, as long as they were harmless. -/
inductive Reflects (n : Int) : Usage → Ledger → Prop where
  | free (unused : Int) (hLow : 0 ≤ unused) (hHigh : unused ≤ intMax - n) :
      Reflects n ⟨none, unused⟩ (blockFree n (n + unused))
  | held (size unused : Int) (hPos : 0 ≤ size) (hFit : size ≤ n) (hLow : 0 ≤ unused)
      (hHigh : unused ≤ intMax - n) :
      Reflects n ⟨some size, unused⟩ (blockHeld n (n + unused - size) size)

-- ---------------------------------------------------------------------------
-- Steps
-- ---------------------------------------------------------------------------

theorem Reflects.step {n : Int} {u : Usage} {l : Ledger} {c : MemoryCall} (hn : 0 ≤ n)
    (h : Reflects n u l) (hHarmless : u.Harmless n c) : Reflects n (u.call n c) (l.call c) := by
  cases h with
  | free unused hLow hHigh =>
    rcases call_blockFree (by omega : n ≤ n + unused) c with
      ⟨size, rfl, hFit, hCall⟩ | ⟨hBig, hCall⟩
    · have hUsage : Usage.call n ⟨none, unused⟩ (.allocate size) = ⟨some size, unused⟩ :=
        if_pos hFit
      rw [hUsage, hCall]
      exact .held size unused (hHarmless rfl) hFit hLow hHigh
    · rw [(Usage.call_free hn hBig).1, hCall]
      exact .free unused hLow hHigh
  | held size unused hPos hFit hLow hHigh =>
    rcases call_blockHeld c with ⟨rfl, hCall⟩ | ⟨hOther, hCall⟩
    · have hUsage : Usage.call n ⟨some size, unused⟩ (.deallocate 0) =
          ⟨none, unused + (n - size)⟩ := rfl
      have hRoom : unused + (n - size) ≤ intMax - n := hHarmless rfl size rfl
      have hCounter : n + unused - size + n = n + (unused + (n - size)) := by omega
      rw [hUsage, hCall, hCounter]
      exact .free (unused + (n - size)) (by omega) hRoom
    · rw [(Usage.call_held hOther).1, hCall]
      exact .held size unused hPos hFit hLow hHigh

/-- After harmless calls a call that makes no update is safe. -/
theorem Reflects.safe_of_eq {n : Int} {u : Usage} {l : Ledger} {c : MemoryCall} (hn : 0 ≤ n)
    (h : Reflects n u l) (hSame : l.call c = l) : ArithmeticSafe l c := by
  have hMin : intMin ≤ 0 := by decide
  have hRange : intMin ≤ l.manager.remainingMemory ∧ l.manager.remainingMemory ≤ intMax := by
    cases h with
    | free unused hLow hHigh =>
      show intMin ≤ n + unused ∧ n + unused ≤ intMax
      omega
    | held k unused hPos hFit hLow hHigh =>
      show intMin ≤ n + unused - k ∧ n + unused - k ≤ intMax
      omega
  have hCounter : (l.call c).manager.remainingMemory = l.manager.remainingMemory := by
    rw [hSame]
  rw [← hCounter] at hRange
  exact ⟨hRange.1, hRange.2, fun _ _ => Int.le_of_eq hCounter⟩

/-- After harmless calls the next call is safe exactly when it is harmless. -/
theorem Reflects.safe_iff {n : Int} {u : Usage} {l : Ledger} {c : MemoryCall} (hn : 0 ≤ n)
    (h : Reflects n u l) : ArithmeticSafe l c ↔ u.Harmless n c := by
  have hMin : intMin ≤ 0 := by decide
  have hReflects := h
  cases h with
  | free unused hLow hHigh =>
    rcases call_blockFree (by omega : n ≤ n + unused) c with
      ⟨size, rfl, hFit, hCall⟩ | ⟨hBig, hCall⟩
    · have hCounter : ((blockFree n (n + unused)).call (.allocate size)).manager.remainingMemory =
          n + unused - size := by
        rw [hCall]
        rfl
      refine ⟨?_, ?_⟩
      · intro hSafe _
        have hLe : _ ≤ n + unused := hSafe.notRaised size rfl
        rw [hCounter] at hLe
        omega
      · intro hHarmless
        have hPos : 0 ≤ size := hHarmless rfl
        refine ⟨by omega, by omega, fun _ _ => ?_⟩
        show _ ≤ n + unused
        omega
    · exact iff_of_true (hReflects.safe_of_eq hn hCall) (Usage.call_free hn hBig).2
  | held size unused hPos hFit hLow hHigh =>
    rcases call_blockHeld c with ⟨rfl, hCall⟩ | ⟨hOther, hCall⟩
    · -- the one update that adds: the block's size for the request's
      have hCounter : ((blockHeld n (n + unused - size) size).call
          (.deallocate 0)).manager.remainingMemory = n + unused - size + n := by
        rw [hCall]
        rfl
      refine ⟨?_, ?_⟩
      · intro hSafe _ size' hSize
        obtain rfl := Option.some.inj hSize
        have hHigh' := hSafe.high
        show unused + (n - size) ≤ intMax - n
        omega
      · intro hHarmless
        have hRoom : unused + (n - size) ≤ intMax - n := hHarmless rfl size rfl
        exact ⟨by omega, by omega, by simp⟩
    · exact iff_of_true (hReflects.safe_of_eq hn hCall) (Usage.call_held hOther).2

end Ledger

/--
**The arithmetic of the counter.** Along a run of allocations and
deallocations with any arguments from `MemoryManager(64 * 1024)`, no update of
`remainingMemory` leaves the range of `int` and no allocation raises it,
exactly when every call is harmless: no negative size is requested while the
block is free, and the bytes left unused by the requests given back never
exceed `intMax - 64 * 1024`.
-/
theorem arithmetic_safe_iff (calls : List MemoryCall) :
    EachStep Ledger.Step (.start (64 * 1024)) calls (fun _ l c => ArithmeticSafe l c) ↔
      EachStep Ledger.Step (.start (64 * 1024)) calls
        fun before _ c => (Usage.after (64 * 1024) before).Harmless (64 * 1024) c := by
  apply eachStep_iff_eachStep fun before l =>
    Ledger.Reflects (64 * 1024) (Usage.after (64 * 1024) before) l
  · exact .free 0 (Int.le_refl 0) (by decide)
  · rintro before l c l' - h hHarmless rfl
    rw [Usage.after_snoc]
    exact h.step (by decide) hHarmless
  · intro before l c l' _ h _
    exact h.safe_iff (by decide)

/-- A request for -1 bytes raises the counter to 65537 of 65536. -/
theorem arithmetic_safe_fails :
    ¬ EachStep Ledger.Step (.start (64 * 1024)) [.allocate (-1)]
      fun _ l c => ArithmeticSafe l c := by
  intro hEach
  have hSafe := hEach [] _ (.allocate (-1)) _ (List.prefix_refl _) rfl rfl
  have hLe : (65537 : Int) ≤ 65536 := hSafe.notRaised (-1) rfl
  omega

end MultiOS
