import MultiOS.Kernel.Steps
import MultiOS.Model.Console

/-!
# MultiOS — `createProcess` from the console

`createProcess` reads a name, an execution time and a memory size, and goes on
to the allocator without looking at the stream. A failed extraction leaves a
number in `requiredMemory` all the same: 0, the nearest `int`, or whatever was
there (`Console.requested`). If the allocator takes that number, a process is
created that nobody asked for.

The other way to do half of the work is a block whose address is the value
that signals failure: it is taken and no process is appended. No block of the
kernel's memory starts there; the law is stated for every kernel state and
names the case.

`creation_all_or_nothing_iff` is the exact condition for one call.
-/

namespace MultiOS

/-- The number an extraction that meets the token writes. -/
def Token.nearest (token : Token) : Int :=
  match token.number with
  | none => 0
  | some n => if n < intMin then intMin else if intMax < n then intMax else n

namespace Console

/-- A name and two numbers stand at the head of the input, and the stream has
not failed. -/
def HasFields (c : Console) : Prop :=
  c.fail = false ∧ ∃ name time memory rest, c.tokens = name :: time :: memory :: rest ∧
    time.int.isSome = true ∧ memory.int.isSome = true

/-- What is in `requiredMemory` when `createProcess` calls the allocator: what
the third token makes of it, if the stream gets that far. -/
def requested (u : Unwritten) (c : Console) : Int :=
  if c.fail then u.requiredMemory
  else
    match c.tokens with
    | _ :: time :: memory :: _ => if time.int.isSome then memory.nearest else u.requiredMemory
    | _ => u.requiredMemory

end Console

/-- The call of `createProcess`, on the kernel. -/
def KernelState.createProcessFrom (u : Unwritten) (k : KernelState) (c : Console) : KernelState :=
  k.createProcess (c.readNewProcess u).1

/-- What a creation does: one process with the values read and the address
returned is appended, and one block that was free is taken. -/
structure Created (k : KernelState) (input : NewProcess) (k' : KernelState) : Prop where
  process : k'.processes = k.processes ++
    [k.created input (k.memoryManager.allocateMemory input.requiredMemory).1]
  block : ∃ pre block post, k.memoryManager.memoryBlocks = pre ++ block :: post ∧
    block.free = true ∧ k'.memoryManager.memoryBlocks = pre ++ block.take :: post

/-- Three fields read and memory found, and then a process is created; or the
table and the manager are as before. -/
structure AllOrNothing (u : Unwritten) (k : KernelState) (c : Console) : Prop where
  all : (c.readNewProcess u).2.fail = false →
    (k.memoryManager.allocateMemory (c.readNewProcess u).1.requiredMemory).1 ≠
      MemoryManager.allocationFailed →
    Created k (c.readNewProcess u).1 (k.createProcessFrom u c)
  nothing : (c.readNewProcess u).2.fail = true ∨
    (k.memoryManager.allocateMemory (c.readNewProcess u).1.requiredMemory).1 =
      MemoryManager.allocationFailed →
    (k.createProcessFrom u c).processes = k.processes ∧
      (k.createProcessFrom u c).memoryManager = k.memoryManager

/-- The block that first fit finds. -/
def MemoryManager.firstFit (m : MemoryManager) (size : Int) : Option MemoryBlock :=
  m.memoryBlocks.find? (MemoryBlock.accepts size)

/-- The number in `requiredMemory` is refused; or the fields are there and the
block found for it does not start at -1. -/
def CleanCreation (u : Unwritten) (k : KernelState) (c : Console) : Prop :=
  ¬ k.memoryManager.Admits (c.requested u) ∨
    (c.HasFields ∧ ∀ block, k.memoryManager.firstFit (c.requested u) = some block →
      block.startAddress ≠ MemoryManager.allocationFailed)

-- ---------------------------------------------------------------------------
-- The extractions
-- ---------------------------------------------------------------------------

namespace Console

theorem readInt_cons_eq (x : Int) (token : Token) (rest : List Token) :
    (readInt x ⟨token :: rest, false⟩).1 = token.nearest := by
  cases hNumber : token.number with
  | none => simp [readInt, Token.nearest, hNumber]
  | some n =>
    by_cases hMin : n < intMin
    · simp [readInt, Token.nearest, hNumber, hMin]
    · by_cases hMax : intMax < n
      · simp [readInt, Token.nearest, hNumber, hMin, hMax]
      · simp [readInt, Token.nearest, hNumber, hMin, hMax]

/-- An extraction succeeds on a token that spells an `int`, and takes it. -/
theorem readInt_cons_cases (x : Int) (token : Token) (rest : List Token) :
    (token.int.isSome = true ∧ (readInt x ⟨token :: rest, false⟩).2 = ⟨rest, false⟩) ∨
      (token.int.isSome = false ∧ (readInt x ⟨token :: rest, false⟩).2.fail = true) := by
  cases hInt : token.int with
  | some n => exact Or.inl ⟨rfl, by rw [readInt_of_int x rest hInt]⟩
  | none =>
    have hNone : ∀ t rest', token :: rest = t :: rest' → t.int = none :=
      fun t rest' hEq => (List.cons.inj hEq).1 ▸ hInt
    obtain ⟨n, c, hRead, hFail, -⟩ := readInt_fails x hNone
    exact Or.inr ⟨rfl, by rw [hRead, hFail]⟩

theorem hasFields_cons {name time memory : Token} {rest : List Token} :
    HasFields ⟨name :: time :: memory :: rest, false⟩ ↔
      time.int.isSome = true ∧ memory.int.isSome = true := by
  simp [HasFields]

/-- What the third extraction of `createProcess` finds and leaves. -/
theorem readNewProcess_last (u : Unwritten) (c : Console) :
    (c.readNewProcess u).1.requiredMemory =
        (readInt u.requiredMemory (readInt u.executionTime c.readWord.2).2).1 ∧
      (c.readNewProcess u).2 =
        (readInt u.requiredMemory (readInt u.executionTime c.readWord.2).2).2 :=
  ⟨rfl, rfl⟩

/-- The number that reaches the allocator, and whether the stream is good then,
by what stands at the head of the input. -/
theorem readNewProcess_outcome (u : Unwritten) (c : Console) :
    (c.readNewProcess u).1.requiredMemory = c.requested u ∧
      ((c.readNewProcess u).2.fail = false ↔ c.HasFields) := by
  obtain ⟨tokens, fail⟩ := c
  by_cases hFail : fail = true
  · subst hFail
    rw [readNewProcess_of_fail u rfl]
    exact ⟨rfl, by simp [HasFields]⟩
  rw [Bool.not_eq_true] at hFail
  subst hFail
  obtain ⟨hRequest, hLast⟩ := readNewProcess_last u ⟨tokens, false⟩
  rw [hRequest, hLast]
  match tokens with
  | [] => exact ⟨rfl, by simp [HasFields, readWord, readInt]⟩
  | [name] => exact ⟨rfl, by simp [HasFields, readWord, readInt]⟩
  | [name, time] =>
    show (readInt _ (readInt _ ⟨[time], false⟩).2).1 = u.requiredMemory ∧
      ((readInt _ (readInt _ ⟨[time], false⟩).2).2.fail = false ↔ _)
    rcases readInt_cons_cases u.executionTime time [] with ⟨-, hTook⟩ | ⟨-, hFailed⟩
    · rw [hTook]
      exact ⟨rfl, by simp [HasFields, readInt]⟩
    · rw [readInt_of_fail _ hFailed]
      exact ⟨rfl, by simp [HasFields, hFailed]⟩
  | name :: time :: memory :: rest =>
    show (readInt _ (readInt _ ⟨time :: memory :: rest, false⟩).2).1 =
        (if time.int.isSome then memory.nearest else u.requiredMemory) ∧
      ((readInt _ (readInt _ ⟨time :: memory :: rest, false⟩).2).2.fail = false ↔ _)
    rw [hasFields_cons]
    rcases readInt_cons_cases u.executionTime time (memory :: rest) with
      ⟨hTime, hTook⟩ | ⟨hTime, hFailed⟩
    · rw [hTook, readInt_cons_eq, hTime]
      refine ⟨rfl, ?_⟩
      rcases readInt_cons_cases u.requiredMemory memory rest with
        ⟨hMemory, hTook⟩ | ⟨hMemory, hFailed⟩
      · simp [hTook, hMemory]
      · simp [hFailed, hMemory]
    · rw [readInt_of_fail _ hFailed, hTime]
      exact ⟨rfl, by simp [hFailed]⟩

end Console

-- ---------------------------------------------------------------------------
-- The allocation
-- ---------------------------------------------------------------------------

/-- The block an allocation takes is the one first fit finds. -/
theorem MemoryManager.Allocated.firstFit_eq {m m' : MemoryManager} {size : Int}
    {block : MemoryBlock} (h : m.Allocated size block m') : m.firstFit size = some block :=
  Lib.updateFirst_find? h.blocks

/-- An allocation changes the manager: the flag of its block. -/
theorem MemoryManager.Allocated.ne {m m' : MemoryManager} {size : Int} {block : MemoryBlock}
    (h : m.Allocated size block m') : m' ≠ m := by
  obtain ⟨pre, post, hBefore, -, -, hAfter⟩ := Lib.updateFirst_eq_some.mp h.blocks
  intro hSame
  rw [hSame, hBefore] at hAfter
  have hFlag : block = block.take := (List.cons.inj (List.append_cancel_left hAfter)).1
  have hFree := h.wasFree
  rw [hFlag] at hFree
  exact absurd hFree (by simp)

/-- A creation on a good stream, with a block that does not start at -1. -/
theorem created_of_allocated {k : KernelState} {input : NewProcess} {block : MemoryBlock}
    {m' : MemoryManager}
    (hEq : k.memoryManager.allocateMemory input.requiredMemory = (block.startAddress, m'))
    (hAlloc : k.memoryManager.Allocated input.requiredMemory block m')
    (hStart : block.startAddress ≠ MemoryManager.allocationFailed) :
    Created k input (k.createProcess input) := by
  obtain ⟨pre, post, hBefore, -, -, hAfter⟩ := Lib.updateFirst_eq_some.mp hAlloc.blocks
  rw [createProcess_of_allocated hEq, if_pos hStart]
  refine ⟨?_, pre, block, post, hBefore, hAlloc.wasFree, hAfter⟩
  rw [hEq]

/--
**Creation, all or nothing.** For every kernel state and every console, a call
of `createProcess` either creates one process from three fields read, on one
block newly taken, or changes nothing, exactly when the number in
`requiredMemory` is refused, or the three fields are there and the block found
does not start at -1.
-/
theorem creation_all_or_nothing_iff (u : Unwritten) (k : KernelState) (c : Console) :
    AllOrNothing u k c ↔ CleanCreation u k c := by
  obtain ⟨hRequest, hFields⟩ := c.readNewProcess_outcome u
  rcases k.memoryManager.allocateMemory_cases (c.readNewProcess u).1.requiredMemory with
    ⟨block, m', hEq, hAlloc⟩ | ⟨hNot, hEq⟩
  · have hAdmits : k.memoryManager.Admits (c.requested u) := hRequest ▸ hAlloc.admits
    have hFirst : k.memoryManager.firstFit (c.requested u) = some block :=
      hRequest ▸ hAlloc.firstFit_eq
    have hManager : (k.createProcessFrom u c).memoryManager = m' := by
      rw [KernelState.createProcessFrom, createProcess_of_allocated hEq]
      split <;> rfl
    refine ⟨?_, ?_⟩
    · intro hLaw
      -- the manager has changed, so this is not the case in which nothing may
      have hSome : ¬ ((c.readNewProcess u).2.fail = true ∨
          (k.memoryManager.allocateMemory (c.readNewProcess u).1.requiredMemory).1 =
            MemoryManager.allocationFailed) :=
        fun hNone => hAlloc.ne (hManager ▸ (hLaw.nothing hNone).2)
      rw [not_or, Bool.not_eq_true, hFields, hEq] at hSome
      refine Or.inr ⟨hSome.1, ?_⟩
      intro b hb
      rw [hFirst] at hb
      obtain rfl := Option.some.inj hb
      exact hSome.2
    · rintro (hRefused | ⟨hHas, hStart⟩)
      · exact absurd hAdmits hRefused
      · have hGood : (c.readNewProcess u).2.fail = false := hFields.mpr hHas
        refine ⟨fun _ _ => created_of_allocated hEq hAlloc (hStart block hFirst), ?_⟩
        rintro (hFail | hFailed)
        · rw [hGood] at hFail
          simp at hFail
        · rw [hEq] at hFailed
          exact absurd hFailed (hStart block hFirst)
  · have hSame : k.createProcessFrom u c = k := createProcess_of_refused hEq
    refine iff_of_true ⟨?_, ?_⟩ (Or.inl (hRequest ▸ hNot))
    · intro _ hFound
      rw [hEq] at hFound
      exact absurd rfl hFound
    · intro _
      rw [hSame]
      exact ⟨rfl, rfl⟩

/-- The name `a`, the time 3, and a memory size that is no number: a process
with 0 bytes is created and takes the whole memory. -/
theorem creation_all_or_nothing_fails :
    ¬ AllOrNothing ⟨0, 0, 0⟩ .boot ⟨[⟨"a", none⟩, ⟨"3", some 3⟩, ⟨"x", none⟩], false⟩ := by
  intro hLaw
  have hTable := (hLaw.nothing (Or.inl rfl)).1
  have hLength : (3 : Nat) = 2 := congrArg List.length hTable
  omega

end MultiOS
