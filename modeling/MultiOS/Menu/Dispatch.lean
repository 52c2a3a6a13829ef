import MultiOS.Lib.Machine
import MultiOS.Kernel.Steps
import MultiOS.Model.Console

/-!
# MultiOS — what the menu announces and what is done

The printed menu and the dispatcher are two machines on the choices typed.
`MenuState.act` does what the menu announces: 1 runs the processes, 2 the .NET
example, 3 the browser, 4 leaves, 5 creates a process, 6 lists the processes,
7 displays the active one. `Session.act` is the code, `pokazMenu` reading from
the console and the `switch` on what it returns. A join is taken to return. The
join of a thread that was not joined before counts as the run of its function,
which for `browserThread` is `callDotNetFunction`; `kernel_main` starts every
thread once, so that a second join runs nothing.

* `session_transcript` — typed choices reach the `switch` as typed.
* `dispatch_iff` — the two machines have one transcript exactly when, before the
  first 4, no 3, 6 or 7 is typed, 2 at most once, and 1 at most once unless there
  are no processes: choice 3 joins the thread of choice 2, 6 never reaches
  `showProcesses`, 7 terminates the process that the menu offers to display, and
  threads that were joined do not run again.
-/

namespace MultiOS

open Lib

-- ---------------------------------------------------------------------------
-- Calls
-- ---------------------------------------------------------------------------

/-- The functions that choices lead to, with their arguments. -/
inductive Call where
  | execute (process : Process)
  | callDotNetFunction
  | openDefaultBrowser
  | createProcess (input : NewProcess)
  | showProcesses (processes : List Process)
  | displayActiveProcessInfo (processes : List Process) (activeProcessIndex : Nat)
  /-- `pokazMenu`'s own message on choice 6. -/
  | printActiveProcess (activeProcessIndex : Nat)
  /-- The erasure of case 7. -/
  | stopActiveProcess (activeProcessIndex : Nat)
  | customSystemCallHandler
  deriving DecidableEq, Repr

/-- What a thread's function calls until it returns. The three loops do not
return, and no choice joins them. -/
def Task.calls : Task → List Call
  | .execute process => [.execute process]
  | .browserThreadFunction => [.callDotNetFunction]
  | .scheduler | .schedulerBySystemCalls | .hardwareInterruptHandler => []

/-- What a join that returns has waited for: a thread that was joined before has
nothing left to run. -/
def StdThread.joinCalls (thread : StdThread) : List Call :=
  if thread.joinable then thread.task.calls else []

/-- The calls that an action leads to, joined threads included. -/
def MainState.calls (s : MainState) : Action → List Call
  | .joinProcessThreads => s.threads.flatMap StdThread.joinCalls
  | .joinBrowserThread => s.browserThread.joinCalls
  | .leave => []
  | .createProcess input => [.createProcess input]
  | .showProcesses => [.showProcesses s.processes]
  | .terminateActive =>
    (s.threads[s.activeProcessIndex]?.elim [] StdThread.joinCalls) ++
      [.stopActiveProcess s.activeProcessIndex]
  | .customSystemCallHandler => [.customSystemCallHandler]
  | .invalidChoice => []
  | .printActive activeProcessIndex => [.printActiveProcess activeProcessIndex]

/-- What is seen of a pass: its calls, and the process table and the active
index after it, or why there is nothing after it. -/
structure Entry where
  calls : List Call
  after : Except Stop (List Process × Nat)
  deriving DecidableEq

/-- The process table and the active index. -/
def KernelState.visible (k : KernelState) : List Process × Nat :=
  (k.processes, k.activeProcessIndex)

/-- The answer of `kernel_main` to an action, joins being taken to return. -/
def MainState.answer (s : MainState) (action : Action) : Entry × Option MainState :=
  match s.perform .granted action with
  | .error stop => (⟨s.calls action, .error stop⟩, none)
  | .ok t => (⟨s.calls action, .ok t.visible⟩, some t)

/-- A pass of the dispatcher at the console. -/
def Session.act : Machine Session Unwritten Entry := fun s u =>
  let (entry, next) := s.main.answer (s.action u)
  (entry, next.map fun main => { main, console := (s.console.readPass u).2 })

/-- The machine goes on to the session that the pass leads to. -/
theorem Session.act_next (s : Session) (u : Unwritten) :
    (s.act u).2 = (s.pass .granted u).toOption := by
  unfold Session.act Session.pass MainState.answer
  cases s.main.perform .granted (s.action u) with
  | error stop => rfl
  | ok main => rfl

-- ---------------------------------------------------------------------------
-- Choices
-- ---------------------------------------------------------------------------

/-- What `std::cin >> name` skips before a word and stops at. -/
def isSpace (c : Char) : Bool := c == ' ' || ('\t' ≤ c && c ≤ '\r')

/-- A name that is read whole. -/
def IsWord (name : String) : Prop := name ≠ "" ∧ ∀ c ∈ name.toList, isSpace c = false

/-- A choice of the menu as it is typed, with what choice 5 needs, and the
values the variables of its pass hold before they are read. -/
structure Choice where
  wybor : Int
  input : NewProcess
  unwritten : Unwritten
  inMenu : 1 ≤ wybor ∧ wybor ≤ 7
  nameWord : wybor = 5 → IsWord input.name
  timeInt : intMin ≤ input.executionTime ∧ input.executionTime ≤ intMax
  memoryInt : intMin ≤ input.requiredMemory ∧ input.requiredMemory ≤ intMax

/-- A number, typed. -/
def Token.ofInt (n : Int) : Token where
  text := toString n
  number := some n

/-- A name, typed: a word of the input. -/
def Token.ofName (name : String) : Token where
  text := name
  number := name.toInt?

/-- What is typed for a choice. -/
def Choice.tokens (c : Choice) : List Token :=
  .ofInt c.wybor ::
    if c.wybor = 5 then
      [.ofName c.input.name, .ofInt c.input.executionTime, .ofInt c.input.requiredMemory]
    else []

/-- The `switch` of `kernel_main` and `pokazMenu` on a choice. -/
def MainState.act : Machine MainState Choice Entry := fun s c =>
  s.answer (menuAction s.menuArgument c.wybor c.input)

theorem Token.ofInt_int {n : Int} (h : intMin ≤ n ∧ n ≤ intMax) : (Token.ofInt n).int = some n :=
  Token.int_eq_some.mpr ⟨rfl, h⟩

theorem Choice.wybor_int (c : Choice) : (Token.ofInt c.wybor).int = some c.wybor := by
  have hMenu := c.inMenu
  have hMin : intMin ≤ 1 := by decide
  have hMax : 7 ≤ intMax := by decide
  exact Token.ofInt_int ⟨by omega, by omega⟩

/-- Only choice 5 looks at the new process. -/
theorem menuAction_input {wybor : Int} (h : wybor ≠ 5) (i : Nat) (input input' : NewProcess) :
    menuAction i wybor input = menuAction i wybor input' := by
  unfold menuAction kernelSwitch
  split
  · rfl
  · split <;> first | rfl | exact absurd rfl h

/-- **Typed choices are read.** A pass reads the tokens of its choice and no
more, and comes to the action of the choice. -/
theorem Choice.readPass (c : Choice) (main : MainState) (rest : List Token) :
    Session.action c.unwritten ⟨main, ⟨c.tokens ++ rest, false⟩⟩ =
        menuAction main.menuArgument c.wybor c.input ∧
      (Console.readPass c.unwritten ⟨c.tokens ++ rest, false⟩).2 = ⟨rest, false⟩ := by
  by_cases hFive : c.wybor = 5
  · let typed : List Token := .ofName c.input.name :: .ofInt c.input.executionTime ::
      .ofInt c.input.requiredMemory :: rest
    have hTokens : c.tokens ++ rest = .ofInt c.wybor :: typed := by
      rw [Choice.tokens, if_pos hFive]
      rfl
    have hRead : Console.readNewProcess c.unwritten ⟨typed, false⟩ = (c.input, ⟨rest, false⟩) :=
      Console.readNewProcess_of_int c.unwritten rest (Token.ofInt_int c.timeInt)
        (Token.ofInt_int c.memoryInt)
    have hPass := Console.readPass_of_five c.unwritten typed (hFive ▸ c.wybor_int)
    rw [hRead] at hPass
    simp only [Session.action, hTokens, hPass, hFive, and_self]
  · have hTokens : c.tokens ++ rest = .ofInt c.wybor :: rest := by
      rw [Choice.tokens, if_neg hFive]
      rfl
    have hPass := Console.readPass_of_int c.unwritten rest c.wybor_int hFive
    simp only [Session.action, hTokens, hPass, and_true]
    exact menuAction_input hFive _ _ _

/-- **The console.** Choices typed one after the other are dispatched one after
the other. -/
theorem session_transcript (main : MainState) (choices : List Choice) :
    transcript Session.act ⟨main, ⟨choices.flatMap Choice.tokens, false⟩⟩
        (choices.map Choice.unwritten) =
      transcript MainState.act main choices := by
  refine transcript_map (fun s cs main => s = ⟨main, ⟨cs.flatMap Choice.tokens, false⟩⟩) ?_
    choices rfl
  rintro s main c cs rfl
  obtain ⟨hAction, hRest⟩ := c.readPass main (cs.flatMap Choice.tokens)
  rw [List.flatMap_cons]
  simp only [Session.act, hAction, hRest, MainState.act]
  refine ⟨trivial, ?_⟩
  cases (main.answer (menuAction main.menuArgument c.wybor c.input)).2 with
  | none => exact .none
  | some t => exact .some rfl

-- ---------------------------------------------------------------------------
-- The menu
-- ---------------------------------------------------------------------------

/-- What the printed menu announces, with process threads started on the
processes `started`. -/
def announced (started : List Process) : Machine KernelState Choice Entry := fun k c =>
  let goOn (calls : List Call) (k' : KernelState) : Entry × Option KernelState :=
    (⟨calls, .ok k'.visible⟩, some k')
  match c.wybor with
  | 1 => goOn (started.map .execute) k
  | 2 => goOn [.callDotNetFunction] k
  | 3 => goOn [.openDefaultBrowser] k
  | 5 => goOn [.createProcess c.input] (k.createProcess c.input)
  | 6 => goOn [.showProcesses k.processes] k
  | 7 => goOn [.displayActiveProcessInfo k.processes k.activeProcessIndex] k
  -- 4, the only other choice there is
  | _ => (⟨[], .error .returned⟩, none)

/-- After the choices `earlier`, `kernel_main` has the kernel the menu is about, and the
threads it started at the beginning, which choices 1 and 2 have joined. -/
structure Follows (started : List Process) (earlier : List Choice) (s : MainState)
    (k : KernelState) : Prop where
  kernel : s.toKernelState = k
  threads : s.threads = started.map fun process =>
    ⟨.execute process, decide (∀ c ∈ earlier, c.wybor ≠ 1)⟩
  browser : s.browserThread =
    ⟨.browserThreadFunction, decide (∀ c ∈ earlier, c.wybor ≠ 2)⟩

/-- The code does what the menu announces for the choice when it is typed first. -/
def DoneAsAnnounced (c : Choice) : Prop := c.wybor ≠ 3 ∧ c.wybor ≠ 6 ∧ c.wybor ≠ 7

/-- A choice leaves threads to run for a later one. -/
def LeavesToRun (started : List Process) (c later : Choice) : Prop :=
  ¬ (c.wybor = 2 ∧ later.wybor = 2) ∧ (started = [] ∨ ¬ (c.wybor = 1 ∧ later.wybor = 1))

/-- At the beginning every thread is still to be joined. -/
theorem kernelMain_follows (k : KernelState) :
    Follows k.processes [] (MainState.kernelMain k) k where
  kernel := rfl
  threads := rfl
  browser := rfl

/-- Joins that are taken to return join every thread. -/
theorem joinAll_granted (threads : List StdThread) :
    joinAll .granted threads =
      .ok (threads.map fun thread => { thread with joinable := false }) := by
  induction threads with
  | nil => rfl
  | cons thread threads ih => simp [joinAll, ih, StdThread.join]

/-- The process threads run when choice 1 is typed first. -/
theorem Follows.process_calls {started : List Process} {earlier : List Choice} {s : MainState}
    {k : KernelState} (h : Follows started earlier s k) :
    s.threads.flatMap StdThread.joinCalls =
      if ∀ c ∈ earlier, c.wybor ≠ 1 then started.map .execute else [] := by
  rw [h.threads, List.flatMap_map]
  by_cases hFirst : ∀ c ∈ earlier, c.wybor ≠ 1
  · rw [if_pos hFirst]
    have hCalls : (fun process : Process => StdThread.joinCalls
        ⟨.execute process, decide (∀ c ∈ earlier, c.wybor ≠ 1)⟩) = fun process =>
        [Call.execute process] := by
      funext process
      rw [StdThread.joinCalls, if_pos (decide_eq_true hFirst)]
      rfl
    rw [hCalls]
    exact List.map_eq_flatMap.symm
  · rw [if_neg hFirst, List.flatMap_eq_nil_iff]
    intro process _
    rw [StdThread.joinCalls, if_neg (by simpa using hFirst)]

/-- The browser thread runs when choice 2 is typed first. -/
theorem Follows.browser_calls {started : List Process} {earlier : List Choice} {s : MainState}
    {k : KernelState} (h : Follows started earlier s k) :
    s.browserThread.joinCalls =
      if ∀ c ∈ earlier, c.wybor ≠ 2 then [.callDotNetFunction] else [] := by
  rw [h.browser, StdThread.joinCalls]
  by_cases hFirst : ∀ c ∈ earlier, c.wybor ≠ 2
  · rw [if_pos hFirst, if_pos (decide_eq_true hFirst)]
    rfl
  · rw [if_neg hFirst, if_neg (by simpa using hFirst)]

/-- A choice that joins no thread leaves the threads as they are. -/
theorem Follows.later {started : List Process} {earlier : List Choice} {s : MainState}
    {k : KernelState} (h : Follows started earlier s k) {c : Choice} (hOne : c.wybor ≠ 1)
    (hTwo : c.wybor ≠ 2) : Follows started (c :: earlier) s k where
  kernel := h.kernel
  threads := by
    rw [h.threads]
    simp [hOne]
  browser := by
    rw [h.browser]
    simp [hTwo]

/-- Choice 1 joins the process threads. -/
theorem Follows.joinProcessThreads {started : List Process} {earlier : List Choice}
    {s : MainState} {k : KernelState} (h : Follows started earlier s k) {c : Choice}
    (hOne : c.wybor = 1) :
    Follows started (c :: earlier)
      { s with threads := s.threads.map fun thread => { thread with joinable := false }
               menuIndex := none } k where
  kernel := h.kernel
  threads := by
    show s.threads.map _ = _
    rw [h.threads, List.map_map]
    simp [hOne]
  browser := by
    show s.browserThread = _
    rw [h.browser]
    simp [hOne]

/-- Choice 2 joins the browser thread. -/
theorem Follows.joinBrowserThread {started : List Process} {earlier : List Choice}
    {s : MainState} {k : KernelState} (h : Follows started earlier s k) {c : Choice}
    (hTwo : c.wybor = 2) :
    Follows started (c :: earlier)
      { s with browserThread := { s.browserThread with joinable := false }
               menuIndex := none } k where
  kernel := h.kernel
  threads := by
    show s.threads = _
    rw [h.threads]
    simp [hTwo]
  browser := by
    show StdThread.mk s.browserThread.task false = _
    rw [h.browser]
    simp [hTwo]

/-- Choices 1, 2, 4 and 5. -/
theorem Follows.agree {started : List Process} {earlier : List Choice} {s : MainState}
    {k : KernelState} (h : Follows started earlier s k) {c : Choice} (hDone : DoneAsAnnounced c)
    (hLeft : ∀ d ∈ earlier, LeavesToRun started d c) :
    (s.act c).1 = (announced started k c).1 ∧
      Option.Rel (Follows started (c :: earlier)) (s.act c).2 (announced started k c).2 := by
  obtain ⟨hThree, hSix, hSeven⟩ := hDone
  have hMenu := c.inMenu
  have hChoice : c.wybor = 1 ∨ c.wybor = 2 ∨ c.wybor = 4 ∨ c.wybor = 5 := by omega
  obtain rfl := h.kernel
  unfold MainState.act announced
  rcases hChoice with hOne | hTwo | hFour | hFive
  · have hCalls : s.threads.flatMap StdThread.joinCalls = started.map .execute := by
      rw [h.process_calls]
      split
      · rfl
      · next hAgain =>
        -- choice 1 again: there is no process thread
        obtain ⟨d, hd, hSame⟩ : ∃ d ∈ earlier, d.wybor = 1 := by simpa using hAgain
        have hEmpty := (hLeft d hd).2.resolve_right (not_not_intro ⟨hSame, hOne⟩)
        rw [hEmpty]
        rfl
    have hNext := h.joinProcessThreads hOne
    rw [hOne]
    show (s.answer .joinProcessThreads).1 = _ ∧ Option.Rel _ (s.answer .joinProcessThreads).2 _
    rw [MainState.answer, MainState.perform, joinAll_granted s.threads, MainState.calls, hCalls]
    exact ⟨rfl, .some hNext⟩
  · have hFirst : ∀ d ∈ earlier, d.wybor ≠ 2 := fun d hd hSame => (hLeft d hd).1 ⟨hSame, hTwo⟩
    have hCalls : s.browserThread.joinCalls = [.callDotNetFunction] := by
      rw [h.browser_calls, if_pos hFirst]
    have hNext := h.joinBrowserThread hTwo
    rw [hTwo]
    show (s.answer .joinBrowserThread).1 = _ ∧ Option.Rel _ (s.answer .joinBrowserThread).2 _
    rw [MainState.answer, MainState.perform, MainState.calls, hCalls]
    exact ⟨rfl, .some hNext⟩
  · rw [hFour]
    exact ⟨rfl, .none⟩
  · have hNext := h.later (c := c) (by omega) (by omega)
    rw [hFive]
    exact ⟨rfl, .some ⟨rfl, hNext.threads, hNext.browser⟩⟩

/-- The answer carries the calls of its action, whatever comes of them. -/
theorem answer_calls (s : MainState) (action : Action) :
    (s.answer action).1.calls = s.calls action := by
  unfold MainState.answer
  split <;> rfl

/-- Choices 3, 6 and 7 show in the calls, and so does a thread that does not run again. -/
theorem Follows.differ {started : List Process} {earlier : List Choice} {s : MainState}
    {k : KernelState} (h : Follows started earlier s k) {c : Choice}
    (hNot : ¬ (DoneAsAnnounced c ∧ ∀ d ∈ earlier, LeavesToRun started d c)) :
    (s.act c).1 ≠ (announced started k c).1 := by
  intro hEq
  have hCalls := congrArg Entry.calls hEq
  rw [MainState.act, answer_calls] at hCalls
  by_cases hDone : DoneAsAnnounced c
  · obtain ⟨d, hd, hRun⟩ : ∃ d ∈ earlier, ¬ LeavesToRun started d c := by
      by_contra hAll
      refine hNot ⟨hDone, ?_⟩
      intro d hd
      by_contra hRun
      exact hAll ⟨d, hd, hRun⟩
    rw [LeavesToRun, not_and_or, not_not, not_or, not_not] at hRun
    rcases hRun with ⟨hBefore, hTwo⟩ | ⟨hSome, hBefore, hOne⟩
    · rw [announced, hTwo] at hCalls
      have hBrowser : s.browserThread.joinCalls = [.callDotNetFunction] := hCalls
      rw [h.browser_calls, if_neg fun hFirst => hFirst d hd hBefore] at hBrowser
      cases hBrowser
    · rw [announced, hOne] at hCalls
      have hThreads : s.threads.flatMap StdThread.joinCalls = started.map .execute := hCalls
      rw [h.process_calls, if_neg fun hFirst => hFirst d hd hBefore] at hThreads
      exact hSome (List.map_eq_nil_iff.mp hThreads.symm)
  · have hChoice : c.wybor = 3 ∨ c.wybor = 6 ∨ c.wybor = 7 := by
      by_contra hOther
      rw [not_or, not_or] at hOther
      exact hDone hOther
    rcases hChoice with hThree | hSix | hSeven
    · rw [announced, hThree] at hCalls
      have hBrowser : s.browserThread.joinCalls = [.openDefaultBrowser] := hCalls
      rw [h.browser_calls] at hBrowser
      split at hBrowser <;> cases hBrowser
    · rw [announced, hSix] at hCalls
      cases hCalls
    · rw [announced, hSeven] at hCalls
      -- the last call of case 7 is the erasure
      have hLast := congrArg List.getLast? hCalls
      have hErase : (s.calls .terminateActive).getLast? =
          some (.stopActiveProcess s.activeProcessIndex) := List.getLast?_concat ..
      have hShow : some (Call.stopActiveProcess s.activeProcessIndex) =
          some (.displayActiveProcessInfo k.processes k.activeProcessIndex) :=
        hErase.symm.trans hLast
      cases hShow

-- ---------------------------------------------------------------------------
-- The law
-- ---------------------------------------------------------------------------

/-- The menu announces the end of the loop for choice 4 only. -/
theorem announced_next (started : List Process) (k : KernelState) (c : Choice) :
    (c.wybor = 4 ∧ (announced started k c).2 = none) ∨
      (c.wybor ≠ 4 ∧ ∃ k', (announced started k c).2 = some k') := by
  have hMenu := c.inMenu
  have hChoice : c.wybor = 4 ∨ c.wybor = 1 ∨ c.wybor = 2 ∨ c.wybor = 3 ∨ c.wybor = 5 ∨
      c.wybor = 6 ∨ c.wybor = 7 := by
    omega
  unfold announced
  rcases hChoice with h | h | h | h | h | h | h
  · rw [h]
    exact Or.inl ⟨rfl, rfl⟩
  all_goals
    rw [h]
    exact Or.inr ⟨by simp, _, rfl⟩

/-- The choices acted on are those up to the first 4. -/
theorem acted_forall (started : List Process) (k : KernelState) {p : Choice → Prop}
    (hFour : ∀ c : Choice, c.wybor = 4 → p c) (choices : List Choice) :
    (∀ c ∈ acted (announced started) k choices, p c) ↔
      ∀ c ∈ choices.takeWhile fun c => c.wybor ≠ 4, p c := by
  induction choices generalizing k with
  | nil => simp [acted]
  | cons c choices ih =>
    rcases announced_next started k c with ⟨hEnd, hNone⟩ | ⟨hNot, k', hSome⟩
    · rw [acted_cons_none choices hNone, List.takeWhile_cons_of_neg (by simpa using hEnd)]
      simp [hFour c hEnd]
    · rw [acted_cons_some choices hSome, List.takeWhile_cons_of_pos (by simpa using hNot),
        List.forall_mem_cons, List.forall_mem_cons, ih k']

/-- So for pairs of choices. -/
theorem acted_pairwise (started : List Process) (k : KernelState)
    {p : Choice → Choice → Prop} (hFour : ∀ c d : Choice, d.wybor = 4 → p c d)
    (choices : List Choice) :
    (acted (announced started) k choices).Pairwise p ↔
      (choices.takeWhile fun c => c.wybor ≠ 4).Pairwise p := by
  induction choices generalizing k with
  | nil => simp [acted]
  | cons c choices ih =>
    rcases announced_next started k c with ⟨hEnd, hNone⟩ | ⟨hNot, k', hSome⟩
    · rw [acted_cons_none choices hNone, List.takeWhile_cons_of_neg (by simpa using hEnd)]
      simp
    · rw [acted_cons_some choices hSome, List.takeWhile_cons_of_pos (by simpa using hNot),
        List.pairwise_cons, List.pairwise_cons, ih k', acted_forall started k' (hFour c)]

/-- A choice is typed at most once. -/
theorem pairwise_count {choices : List Choice} {n : Int} :
    (choices.Pairwise fun c d => ¬ (c.wybor = n ∧ d.wybor = n)) ↔
      (choices.countP fun c => c.wybor = n) ≤ 1 := by
  induction choices with
  | nil => simp
  | cons c choices ih =>
    rw [List.pairwise_cons, ih, List.countP_cons]
    by_cases hSame : c.wybor = n
    · rw [if_pos (decide_eq_true hSame)]
      constructor
      · intro h
        have hNone : (choices.countP fun c => c.wybor = n) = 0 := by
          rw [List.countP_eq_zero]
          intro d hd
          simpa using fun hLater => h.1 d hd ⟨hSame, hLater⟩
        omega
      · intro h
        refine ⟨?_, by omega⟩
        intro d hd hBoth
        have hSome : 0 < choices.countP fun c => c.wybor = n :=
          List.countP_pos_iff.mpr ⟨d, hd, decide_eq_true hBoth.2⟩
        omega
    · rw [if_neg (by simpa using hSame)]
      exact and_iff_right fun d _ hBoth => hSame hBoth.1

/-- The choices of which each leaves threads to run for the later ones. -/
theorem pairwise_leavesToRun (started : List Process) (choices : List Choice) :
    choices.Pairwise (LeavesToRun started) ↔
      (choices.countP fun c => c.wybor = 2) ≤ 1 ∧
        (started = [] ∨ (choices.countP fun c => c.wybor = 1) ≤ 1) := by
  rw [← pairwise_count, ← pairwise_count]
  unfold LeavesToRun
  rw [List.pairwise_and_iff]
  by_cases hEmpty : started = []
  · simp only [hEmpty, true_or, and_true, and_iff_left_iff_imp]
    exact fun _ => List.pairwise_of_forall fun _ _ => trivial
  · simp only [hEmpty, false_or]

/--
**The dispatcher and the menu.** For every process table and every sequence of
choices typed at the menu: the calls made, and the process table and active
index after each pass, are those the menu announces, exactly when the choices
before the first 4 hold no 3, 6 or 7, at most one 2, and at most one 1 unless
there are no processes.
-/
theorem dispatch_iff (k : KernelState) (choices : List Choice) :
    transcript Session.act ⟨.kernelMain k, ⟨choices.flatMap Choice.tokens, false⟩⟩
        (choices.map Choice.unwritten) =
      transcript (announced k.processes) k choices ↔
    (∀ c ∈ choices.takeWhile fun c => c.wybor ≠ 4,
      c.wybor ≠ 3 ∧ c.wybor ≠ 6 ∧ c.wybor ≠ 7) ∧
    ((choices.takeWhile fun c => c.wybor ≠ 4).countP fun c => c.wybor = 2) ≤ 1 ∧
    (k.processes = [] ∨
      ((choices.takeWhile fun c => c.wybor ≠ 4).countP fun c => c.wybor = 1) ≤ 1) := by
  rw [session_transcript]
  rw [transcript_eq_iff (Follows k.processes) DoneAsAnnounced (LeavesToRun k.processes)
    (fun _ _ _ _ h => h.agree) (fun _ _ _ _ h => h.differ) (kernelMain_follows k)]
  rw [acted_forall, acted_pairwise, pairwise_leavesToRun]
  · simp [DoneAsAnnounced]
  · intro c d hFour
    simp [LeavesToRun, hFour]
  · intro c hFour
    simp [DoneAsAnnounced, hFour]

/-- Choice 3 calls `callDotNetFunction`, not `openDefaultBrowser`. -/
theorem dispatch_fails :
    transcript Session.act ⟨.boot, ⟨[⟨"3", some 3⟩], false⟩⟩ [⟨0, 0, 0⟩] ≠
      transcript (announced KernelState.boot.processes) .boot
        [⟨3, ⟨"", 0, 0⟩, ⟨0, 0, 0⟩, by decide, fun h => absurd h (by decide), by decide, by decide⟩] := by
  decide

end MultiOS
