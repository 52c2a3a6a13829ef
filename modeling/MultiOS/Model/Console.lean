import MultiOS.Model.Kernel

/-!
# MultiOS — the console

`std::cin` as the menu and `createProcess` use it: the tokens not yet read and
the failure bit, which nothing in the kernel clears.

* Extracting an `int` reads a token that spells a number within range. A
  malformed token is left unread and 0 is written; for a number out of range
  the nearest `int` is written; at the end of the input nothing is written.
  All three set the bit. A token either spells a number or is malformed as one.
* While the bit is set an extraction reads nothing and writes nothing.

The variables read into are local and uninitialised (`name` is empty), so what
one holds when nothing is written to it is a parameter, `Unwritten`.

A pass is one call of `pokazMenu` with what follows it: the call to itself on
6, the `switch` of `kernel_main` on any other value.
-/

namespace MultiOS

/-- A word of the input, and the number it spells if it spells one. -/
structure Token where
  text : String
  number : Option Int
  deriving DecidableEq, Repr

def intMin : Int := -2147483648
def intMax : Int := 2147483647

/-- The `int` the token spells. -/
def Token.int (token : Token) : Option Int :=
  token.number.filter fun n => intMin ≤ n ∧ n ≤ intMax

structure Console where
  tokens : List Token
  fail : Bool := false
  deriving DecidableEq, Repr

/-- The values of the variables an extraction may leave unwritten. -/
structure Unwritten where
  wybor : Int
  executionTime : Int
  requiredMemory : Int
  deriving DecidableEq, Repr

namespace Console

/-- `std::cin >> x` with `int x`. -/
def readInt (x : Int) (c : Console) : Int × Console :=
  if c.fail then (x, c)
  else
    match c.tokens with
    | [] => (x, { c with fail := true })
    | token :: rest =>
      match token.number with
      | none => (0, { c with fail := true })
      | some n =>
        if n < intMin then (intMin, { tokens := rest, fail := true })
        else if intMax < n then (intMax, { tokens := rest, fail := true })
        else (n, { c with tokens := rest })

/-- `std::cin >> name` with `std::string name`. -/
def readWord (c : Console) : String × Console :=
  if c.fail then ("", c)
  else
    match c.tokens with
    | [] => ("", { c with fail := true })
    | token :: rest => (token.text, { c with tokens := rest })

/-- The extractions of `createProcess`. -/
def readNewProcess (u : Unwritten) (c : Console) : NewProcess × Console :=
  let (name, c) := c.readWord
  let (executionTime, c) := c.readInt u.executionTime
  let (requiredMemory, c) := c.readInt u.requiredMemory
  ({ name, executionTime, requiredMemory }, c)

/-- What a pass reads: the choice, and for choice 5 the values `createProcess`
goes on to read. -/
def readPass (u : Unwritten) (c : Console) : (Int × NewProcess) × Console :=
  let (wybor, c) := c.readInt u.wybor
  if wybor = 5 then
    let (input, c) := c.readNewProcess u
    ((wybor, input), c)
  else ((wybor, ⟨"", u.executionTime, u.requiredMemory⟩), c)

end Console

/-- `kernel_main` at the console. -/
structure Session where
  main : MainState
  console : Console
  deriving DecidableEq, Repr

/-- The action a pass comes to. -/
def Session.action (u : Unwritten) (s : Session) : Action :=
  let ((wybor, input), _) := s.console.readPass u
  menuAction s.main.menuArgument wybor input

def Session.pass (rule : JoinRule) (u : Unwritten) (s : Session) : Except Stop Session :=
  match s.main.perform rule (s.action u) with
  | .error stop => .error stop
  | .ok main => .ok { main, console := (s.console.readPass u).2 }

-- ---------------------------------------------------------------------------
-- Extractions
-- ---------------------------------------------------------------------------

theorem Token.int_eq_some {token : Token} {n : Int} :
    token.int = some n ↔ token.number = some n ∧ intMin ≤ n ∧ n ≤ intMax := by
  rw [Token.int, Option.filter_eq_some_iff]
  simp

namespace Console

theorem readInt_of_fail {c : Console} (x : Int) (h : c.fail = true) : c.readInt x = (x, c) := by
  rw [readInt, if_pos h]

theorem readWord_of_fail {c : Console} (h : c.fail = true) : c.readWord = ("", c) := by
  rw [readWord, if_pos h]

/-- An extraction that succeeds takes the token. -/
theorem readInt_of_int {token : Token} {n : Int} (x : Int) (rest : List Token)
    (h : token.int = some n) :
    readInt x ⟨token :: rest, false⟩ = (n, ⟨rest, false⟩) := by
  obtain ⟨hNumber, hMin, hMax⟩ := Token.int_eq_some.mp h
  simp only [readInt, hNumber]
  rw [if_neg nofun, if_neg (by omega), if_neg (by omega)]

/-- An extraction that does not find an `int` sets the failure bit. -/
theorem readInt_fails {tokens : List Token} (x : Int)
    (h : ∀ token rest, tokens = token :: rest → token.int = none) :
    ∃ n c, readInt x ⟨tokens, false⟩ = (n, c) ∧ c.fail = true ∧
      (n = x ∨ n = 0 ∨ n = intMin ∨ n = intMax) := by
  cases tokens with
  | nil => exact ⟨x, ⟨[], true⟩, rfl, rfl, Or.inl rfl⟩
  | cons token rest =>
    have hNone := h token rest rfl
    cases hNumber : token.number with
    | none =>
      refine ⟨0, ⟨token :: rest, true⟩, ?_, rfl, Or.inr (Or.inl rfl)⟩
      simp [readInt, hNumber]
    | some n =>
      by_cases hMin : n < intMin
      · refine ⟨intMin, ⟨rest, true⟩, ?_, rfl, Or.inr (Or.inr (Or.inl rfl))⟩
        simp [readInt, hNumber, hMin]
      by_cases hMax : intMax < n
      · refine ⟨intMax, ⟨rest, true⟩, ?_, rfl, Or.inr (Or.inr (Or.inr rfl))⟩
        simp [readInt, hNumber, hMin, hMax]
      have hSome : token.int = some n := Token.int_eq_some.mpr ⟨hNumber, by omega, by omega⟩
      rw [hSome] at hNone
      simp at hNone

theorem readNewProcess_of_int {name time memory : Token} {executionTime requiredMemory : Int}
    (u : Unwritten) (rest : List Token) (hTime : time.int = some executionTime)
    (hMemory : memory.int = some requiredMemory) :
    readNewProcess u ⟨name :: time :: memory :: rest, false⟩ =
      (⟨name.text, executionTime, requiredMemory⟩, ⟨rest, false⟩) := by
  have hWord : readWord ⟨name :: time :: memory :: rest, false⟩ =
      (name.text, ⟨time :: memory :: rest, false⟩) := rfl
  simp only [readNewProcess, hWord, readInt_of_int _ _ hTime, readInt_of_int _ _ hMemory]

/-- `createProcess` reads a name and two numbers, or the bit is set. -/
theorem readNewProcess_cases (u : Unwritten) (tokens : List Token) :
    (∃ name time memory rest executionTime requiredMemory,
      tokens = name :: time :: memory :: rest ∧ time.int = some executionTime ∧
      memory.int = some requiredMemory ∧
      readNewProcess u ⟨tokens, false⟩ =
        (⟨name.text, executionTime, requiredMemory⟩, ⟨rest, false⟩)) ∨
    (readNewProcess u ⟨tokens, false⟩).2.fail = true := by
  match tokens with
  | [] =>
    right
    have hWord : readWord ⟨[], false⟩ = ("", ⟨[], true⟩) := rfl
    simp only [readNewProcess, hWord, readInt_of_fail]
  | name :: rest =>
    have hWord : readWord ⟨name :: rest, false⟩ = (name.text, ⟨rest, false⟩) := rfl
    simp only [readNewProcess, hWord]
    by_cases hTime : ∀ token rest', rest = token :: rest' → token.int = none
    · right
      obtain ⟨n, c, hRead, hFail, -⟩ := readInt_fails u.executionTime hTime
      simp only [hRead, readInt_of_fail _ hFail, hFail]
    simp only [not_forall] at hTime
    obtain ⟨time, rest', rfl, hTime⟩ := hTime
    obtain ⟨t, hTime⟩ := Option.ne_none_iff_exists'.mp hTime
    simp only [readInt_of_int u.executionTime rest' hTime]
    by_cases hMemory : ∀ token rest, rest' = token :: rest → token.int = none
    · right
      obtain ⟨n, c, hRead, hFail, -⟩ := readInt_fails u.requiredMemory hMemory
      simp only [hRead, hFail]
    simp only [not_forall] at hMemory
    obtain ⟨memory, rest, rfl, hMemory⟩ := hMemory
    obtain ⟨m, hMemory⟩ := Option.ne_none_iff_exists'.mp hMemory
    left
    refine ⟨name, time, memory, rest, t, m, rfl, hTime, hMemory, ?_⟩
    simp only [readInt_of_int u.requiredMemory rest hMemory]

theorem readNewProcess_of_fail {c : Console} (u : Unwritten) (h : c.fail = true) :
    c.readNewProcess u = (⟨"", u.executionTime, u.requiredMemory⟩, c) := by
  simp only [readNewProcess, readWord_of_fail h, readInt_of_fail _ h]

/-- With the bit set a pass finds the value its variable happens to hold. -/
theorem readPass_of_fail {c : Console} (u : Unwritten) (h : c.fail = true) :
    c.readPass u = ((u.wybor, ⟨"", u.executionTime, u.requiredMemory⟩), c) := by
  simp only [readPass, readInt_of_fail _ h, readNewProcess_of_fail u h, ite_self]

/-- A choice other than 5 is all a pass reads. -/
theorem readPass_of_int {token : Token} {n : Int} (u : Unwritten) (rest : List Token)
    (h : token.int = some n) (hNew : n ≠ 5) :
    readPass u ⟨token :: rest, false⟩ =
      ((n, ⟨"", u.executionTime, u.requiredMemory⟩), ⟨rest, false⟩) := by
  simp only [readPass, readInt_of_int u.wybor rest h, if_neg hNew]

theorem readPass_of_five {token : Token} (u : Unwritten) (rest : List Token)
    (h : token.int = some 5) :
    readPass u ⟨token :: rest, false⟩ =
      ((5, (readNewProcess u ⟨rest, false⟩).1), (readNewProcess u ⟨rest, false⟩).2) := by
  simp only [readPass, readInt_of_int u.wybor rest h, if_true]

end Console

end MultiOS
