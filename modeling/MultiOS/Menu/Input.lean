import MultiOS.Kernel.Steps
import MultiOS.Model.Console

/-!
# MultiOS — the menu loop on a finite input

The loop ends at a choice 4 and nowhere else, and the code never clears the
failure bit of `std::cin`. So the first extraction that fails, in the menu or
in `createProcess`, leaves a stream on which every later pass reads nothing
and finds an uninitialised `wybor`: the loop spins unless that happens to
be 4.

The bodies of the `switch` are taken to return here. Of them only
`createProcess` reads, and a pass of the loop is one or more passes in the
sense of `Console.readPass`, one for each call of `pokazMenu`.

* `menu_stops_iff` — the input is consumed and the loop ends exactly when the
  input gets to a 4 by well-formed choices (`Quits`).
* `session_passes_le` — then `kernel_main` makes at most one pass a token.
* `stuck_on_fail` — after a failure no pass consumes anything.
-/

namespace MultiOS

open Lib

/-- The pass reads the choice that leaves `kernel_main`. -/
def Console.Leaves (u : Unwritten) (c : Console) : Prop := (c.readPass u).1.1 = 4

/-- A pass after which the loop, or `pokazMenu`, goes on. -/
def Console.PassStep (c : Console) (u : Unwritten) (c' : Console) : Prop :=
  ¬ c.Leaves u ∧ c' = (c.readPass u).2

/-- Every pass, whatever its unwritten variables hold, consumes a token or
ends the loop, and there is a bound on the number of passes. -/
structure MenuStops (c : Console) : Prop where
  consumes : ∀ us c' u, Steps Console.PassStep c us c' →
    c'.Leaves u ∨ (c'.readPass u).2.tokens.length < c'.tokens.length
  finite : ∃ N, ∀ us c', Steps Console.PassStep c us c' → us.length ≤ N

/-- The tokens are choices that are well formed, with what choice 5 needs
after it, up to a 4. -/
inductive Quits : List Token → Prop where
  | exit {token : Token} {rest : List Token} (hFour : token.int = some 4) : Quits (token :: rest)
  | create {token name time memory : Token} {executionTime requiredMemory : Int}
      {rest : List Token} (hFive : token.int = some 5) (hTime : time.int = some executionTime)
      (hMemory : memory.int = some requiredMemory) (hRest : Quits rest) :
      Quits (token :: name :: time :: memory :: rest)
  | other {token : Token} {wybor : Int} {rest : List Token} (hChoice : token.int = some wybor)
      (hNew : wybor ≠ 5) (hRest : Quits rest) : Quits (token :: rest)

/-- The loop leaves where the `switch` does. -/
theorem leaves_iff_action {u : Unwritten} {s : Session} :
    s.console.Leaves u ↔ s.action u = .leave := by
  show (s.console.readPass u).1.1 = 4 ↔
    menuAction s.main.menuArgument (s.console.readPass u).1.1 (s.console.readPass u).1.2 = .leave
  generalize (s.console.readPass u).1.1 = wybor
  generalize (s.console.readPass u).1.2 = input
  have hDispatched := menuAction_dispatched s.main.menuArgument wybor input
  refine ⟨?_, ?_⟩
  · rintro rfl
    rfl
  · intro hLeave
    rw [hLeave] at hDispatched
    cases hDispatched
    rfl

/-- A pass of a session is a pass of its console. -/
theorem Session.pass_console {rule : JoinRule} {u : Unwritten} {s s' : Session}
    (h : s.pass rule u = .ok s') : s.console.PassStep u s'.console := by
  unfold Session.pass at h
  split at h
  · simp at h
  · next main hPerform =>
    obtain rfl := Except.ok.inj h
    refine ⟨?_, rfl⟩
    intro hLeaves
    rw [leaves_iff_action.mp hLeaves, MainState.perform] at hPerform
    simp at hPerform

def Session.PassStep (rule : JoinRule) (s : Session) (u : Unwritten) (s' : Session) : Prop :=
  s.pass rule u = .ok s'

/-- The console's part of a run of a session is a run of the console. -/
theorem Session.run_console {rule : JoinRule} {s s' : Session} {us : List Unwritten}
    (h : Steps (Session.PassStep rule) s us s') :
    Steps Console.PassStep s.console us s'.console := by
  induction us generalizing s with
  | nil => rw [steps_nil.mp h, steps_nil]
  | cons u us ih =>
    obtain ⟨t, ht, hRest⟩ := h
    exact ⟨t.console, Session.pass_console ht, ih hRest⟩

-- ---------------------------------------------------------------------------
-- Inputs that quit
-- ---------------------------------------------------------------------------

/-- A stream that has not failed, on tokens that get to a 4. -/
structure OnTheWay (c : Console) : Prop where
  good : c.fail = false
  quits : Quits c.tokens

theorem OnTheWay.pass {c : Console} (h : OnTheWay c) (u : Unwritten) :
    c.Leaves u ∨ (OnTheWay (c.readPass u).2 ∧
      (c.readPass u).2.tokens.length < c.tokens.length) := by
  obtain ⟨tokens, fail⟩ := c
  obtain rfl : fail = false := h.good
  have hQuits : Quits tokens := h.quits
  cases hQuits with
  | exit hFour =>
    left
    rw [Console.Leaves, Console.readPass_of_int u _ hFour (by decide)]
  | other hChoice hNew hRest =>
    right
    rw [Console.readPass_of_int u _ hChoice hNew]
    exact ⟨⟨rfl, hRest⟩, by simp⟩
  | @create _ _ _ _ _ _ rest hFive hTime hMemory hRest =>
    right
    rw [Console.readPass_of_five u _ hFive, Console.readNewProcess_of_int u rest hTime hMemory]
    refine ⟨⟨rfl, hRest⟩, ?_⟩
    simp only [List.length_cons]
    omega

theorem OnTheWay.step {c c' : Console} {u : Unwritten} (h : OnTheWay c)
    (hStep : c.PassStep u c') : OnTheWay c' ∧ c'.tokens.length < c.tokens.length := by
  obtain ⟨hStays, rfl⟩ := hStep
  exact (h.pass u).resolve_left hStays

theorem OnTheWay.menuStops {c : Console} (h : OnTheWay c) : MenuStops c where
  consumes := by
    intro us c' u hRun
    have hInv : OnTheWay c' :=
      (always_of_inv h fun _ _ _ _ hc hStep => (hc.step hStep).1).final hRun
    rcases hInv.pass u with hLeaves | ⟨-, hLt⟩
    · exact Or.inl hLeaves
    · exact Or.inr hLt
  finite := by
    refine ⟨c.tokens.length, ?_⟩
    intro us c' hRun
    have hLen := Steps.length_le OnTheWay (fun c => c.tokens.length)
      (fun _ _ _ hc hStep => hc.step hStep) h hRun
    omega

/-- A session whose input gets to a 4 has no more passes than tokens. -/
theorem session_passes_le {rule : JoinRule} {main : MainState} {tokens : List Token} {s : Session}
    {us : List Unwritten} (hQuits : Quits tokens)
    (hRun : Steps (Session.PassStep rule) ⟨main, ⟨tokens, false⟩⟩ us s) :
    us.length ≤ tokens.length := by
  have hConsole := Session.run_console hRun
  have hLen := Steps.length_le OnTheWay (fun c => c.tokens.length)
    (fun _ _ _ hc hStep => hc.step hStep) ⟨rfl, hQuits⟩ hConsole
  have hLe : us.length + s.console.tokens.length ≤ tokens.length := hLen
  omega

-- ---------------------------------------------------------------------------
-- Inputs that do not
-- ---------------------------------------------------------------------------

/-- What an unlucky run finds in its variables. -/
def zeros : Unwritten := ⟨0, 0, 0⟩

theorem MenuStops.next {c c' : Console} {u : Unwritten} (h : MenuStops c)
    (hStep : c.PassStep u c') : MenuStops c' where
  consumes := fun us c'' u' hRun => h.consumes (u :: us) c'' u' ⟨c', hStep, hRun⟩
  finite := by
    obtain ⟨N, hN⟩ := h.finite
    refine ⟨N, ?_⟩
    intro us c'' hRun
    have hLen := hN (u :: us) c'' ⟨c', hStep, hRun⟩
    rw [List.length_cons] at hLen
    omega

/-- **Stuck.** After a failed extraction no pass consumes anything, and with 0
in `wybor` the loop goes on. -/
theorem stuck_on_fail {c : Console} (h : c.fail = true) :
    (∀ u, (c.readPass u).2 = c) ∧ c.PassStep zeros c := by
  have hSame : ∀ u, (c.readPass u).2 = c := by
    intro u
    rw [Console.readPass_of_fail u h]
  refine ⟨hSame, ?_, (hSame zeros).symm⟩
  rw [Console.Leaves, Console.readPass_of_fail zeros h]
  exact (by decide : zeros.wybor ≠ 4)

theorem MenuStops.good {c : Console} (h : MenuStops c) : c.fail = false := by
  by_contra hFail
  rw [Bool.not_eq_false] at hFail
  obtain ⟨hSame, hStays, -⟩ := stuck_on_fail hFail
  rcases h.consumes [] c zeros rfl with hLeaves | hLt
  · exact hStays hLeaves
  · rw [hSame zeros] at hLt
    omega

/-- A pass whose choice is not an `int` goes on with the failure bit set. -/
theorem bad_choice_fails {tokens : List Token}
    (h : ∀ token rest, tokens = token :: rest → token.int = none) :
    ∃ c', Console.PassStep ⟨tokens, false⟩ zeros c' ∧ c'.fail = true := by
  obtain ⟨n, c, hRead, hFail, hValue⟩ := Console.readInt_fails zeros.wybor h
  have hNot : n ≠ 4 ∧ n ≠ 5 := by
    rcases hValue with rfl | rfl | rfl | rfl <;> decide
  have hPass : Console.readPass zeros ⟨tokens, false⟩ = ((n, ⟨"", 0, 0⟩), c) := by
    simp only [Console.readPass, hRead, if_neg hNot.2]
    rfl
  refine ⟨c, ⟨?_, ?_⟩, hFail⟩
  · rw [Console.Leaves, hPass]
    exact hNot.1
  · rw [hPass]

theorem MenuStops.quits {tokens : List Token} (h : MenuStops ⟨tokens, false⟩) : Quits tokens := by
  induction hLen : tokens.length using Nat.strong_induction_on generalizing tokens with
  | _ n ih =>
    by_cases hBad : ∀ token rest, tokens = token :: rest → token.int = none
    · obtain ⟨c', hStep, hFail⟩ := bad_choice_fails hBad
      rw [(h.next hStep).good] at hFail
      simp at hFail
    simp only [not_forall] at hBad
    obtain ⟨token, rest, rfl, hSome⟩ := hBad
    obtain ⟨wybor, hChoice⟩ := Option.ne_none_iff_exists'.mp hSome
    rw [List.length_cons] at hLen
    by_cases hFour : wybor = 4
    · exact .exit (hFour ▸ hChoice)
    by_cases hFive : wybor = 5
    · subst hFive
      have hPass := Console.readPass_of_five zeros rest hChoice
      have hStep : Console.PassStep ⟨token :: rest, false⟩ zeros
          (Console.readNewProcess zeros ⟨rest, false⟩).2 := by
        rw [Console.PassStep, Console.Leaves, hPass]
        exact ⟨hFour, rfl⟩
      have hNext := h.next hStep
      rcases Console.readNewProcess_cases zeros rest with
        ⟨name, time, memory, rest', t, m, rfl, hTime, hMemory, hRead⟩ | hFail
      · rw [hRead] at hNext
        simp only [List.length_cons] at hLen
        exact .create hChoice hTime hMemory (ih rest'.length (by omega) hNext rfl)
      · rw [hNext.good] at hFail
        simp at hFail
    · have hPass := Console.readPass_of_int zeros rest hChoice hFive
      have hStep : Console.PassStep ⟨token :: rest, false⟩ zeros ⟨rest, false⟩ := by
        rw [Console.PassStep, Console.Leaves, hPass]
        exact ⟨hFour, rfl⟩
      exact .other hChoice hFive (ih rest.length (by omega) (h.next hStep) rfl)

/--
**The menu loop on a finite input.** For every sequence of tokens: each pass
consumes a token or ends the loop, for all values of the variables left
unwritten, and the number of passes is bounded, exactly when the tokens are
well-formed choices (5 with its name and its two numbers) up to a 4.
-/
theorem menu_stops_iff (tokens : List Token) : MenuStops ⟨tokens, false⟩ ↔ Quits tokens := by
  refine ⟨?_, ?_⟩
  · exact MenuStops.quits
  · intro hQuits
    exact OnTheWay.menuStops ⟨rfl, hQuits⟩

/-- A word at the menu is left unread, and the loop goes on. -/
theorem menu_stops_fails : ¬ MenuStops ⟨[⟨"x", none⟩], false⟩ := by
  intro h
  have hFirst := h.consumes [] _ zeros rfl
  revert hFirst
  unfold Console.Leaves
  decide

end MultiOS
