import MultiOS.Kernel.Steps

/-!
# MultiOS — which process the menu shows

`pokazMenu` takes the active index by value, waits for a choice, prints
`processes[activeProcessIndex]` on choice 6 and calls itself with the same
argument. The scheduler moves the global index meanwhile. What the menu shows
as "currently active" is current as long as no tick moves the index while the
menu waits, and a tick leaves the index where it is only in a table of one
process (`menu_shows_active_iff`).
-/

namespace MultiOS

open Lib

/-- A waiting `pokazMenu` will use the index of the active process. -/
def ShowsActive (s : MainState) : Prop := ∀ i, s.menuIndex = some i → i = s.activeProcessIndex

/-- If the event is a tick while `pokazMenu` waits, it does not move the index:
there is one process only. -/
def TickStays (s : MainState) (e : MainEvent) : Prop :=
  e = .tick → s.menuIndex ≠ none → s.processes.length = 1

/-- The states of a run in which the law has held so far. The table may be
empty, with the index at 0. -/
structure Current (s : MainState) : Prop where
  shows : ShowsActive s
  index : s.activeProcessIndex = 0 ∨ s.activeProcessIndex < s.processes.length

theorem Current.boot : Current MainState.boot := ⟨nofun, Or.inl rfl⟩

theorem Current.index_lt {s : MainState} (h : Current s) (hSize : 0 < s.processes.length) :
    s.activeProcessIndex < s.processes.length := by
  have hIndex := h.index
  omega

/-- The index of the next call of `pokazMenu`, or of the one in progress, is
the active one. -/
theorem Current.menuArgument {s : MainState} (h : Current s) :
    s.menuArgument = s.activeProcessIndex := by
  unfold MainState.menuArgument
  cases hMenu : s.menuIndex with
  | none => rfl
  | some i => exact h.shows i hMenu

/-- A tick moves a valid index unless it is the only one. -/
theorem tick_stays_iff {a n : Nat} (hActive : a < n) : (a + 1) % n = a ↔ n = 1 := by
  rcases Nat.lt_or_ge (a + 1) n with hBelow | hLast
  · rw [Nat.mod_eq_of_lt hBelow]
    omega
  · have hEq : a + 1 = n := by omega
    rw [hEq, Nat.mod_self]
    omega

theorem Current.step {rule : JoinRule} {s t : MainState} {e : MainEvent} (h : Current s)
    (hStays : TickStays s e) (hStep : MainStep rule s e t) : Current t := by
  cases mainStep_effect hStep with
  | tick hSize =>
    refine ⟨?_, Or.inr (Nat.mod_lt _ hSize)⟩
    intro i hi
    have hWaits : s.menuIndex = some i := hi
    have hOne : s.processes.length = 1 := hStays rfl (by simp [hWaits])
    show i = (s.activeProcessIndex + 1) % s.processes.length
    rw [(tick_stays_iff (h.index_lt hSize)).mpr hOne]
    exact h.shows i hWaits
  | callMenu =>
    refine ⟨?_, h.index⟩
    intro i hi
    rw [← Option.some.inj hi]
    exact h.menuArgument
  | joinProcessThreads hJoin => exact ⟨nofun, h.index⟩
  | joinBrowserThread hChoice hJoin => exact ⟨nofun, h.index⟩
  | createProcess input =>
    refine ⟨nofun, ?_⟩
    obtain ⟨hAppends, hIndex⟩ := createProcess_appends s.toKernelState input
    show (s.toKernelState.createProcess input).activeProcessIndex = 0 ∨
      (s.toKernelState.createProcess input).activeProcessIndex <
        (s.toKernelState.createProcess input).processes.length
    rw [hIndex]
    exact h.index.imp_right fun hLt => Nat.lt_of_lt_of_le hLt hAppends.length_le
  | printActive hIndex =>
    refine ⟨?_, h.index⟩
    intro i hi
    rw [← Option.some.inj hi]
    exact h.menuArgument
  | terminateActive hThread hJoin hIndex => exact ⟨nofun, Or.inl rfl⟩
  | other hChoice => exact ⟨nofun, h.index⟩

/-- A tick that moves the index while the menu waits leaves it behind. -/
theorem Current.breaks {rule : JoinRule} {s t : MainState} {e : MainEvent} (h : Current s)
    (hMoves : ¬ TickStays s e) (hStep : MainStep rule s e t) : ¬ ShowsActive t := by
  simp only [TickStays, not_forall] at hMoves
  obtain ⟨rfl, hWaits, hMany⟩ := hMoves
  obtain ⟨i, hi⟩ := Option.ne_none_iff_exists'.mp hWaits
  obtain ⟨hSize, rfl⟩ := mainStep_tick_ok hStep
  intro hShows
  have hNew : i = (s.activeProcessIndex + 1) % s.processes.length := hShows i hi
  rw [h.shows i hi] at hNew
  exact hMany ((tick_stays_iff (h.index_lt hSize)).mp hNew.symm)

/--
**The menu shows the active process.** Along a run of `kernel_main` from the
boot table, every waiting `pokazMenu` has the index of the active process, in
every state reached, exactly when every tick taken while it waits finds a
single process in the table.
-/
theorem menu_shows_active_iff (rule : JoinRule) (es : List MainEvent) :
    Always (MainStep rule) MainState.boot es ShowsActive ↔
      EachStep (MainStep rule) MainState.boot es fun _ s e => TickStays s e := by
  apply always_iff_eachStep Current
  · exact Current.boot
  · exact fun s h => h.shows
  · exact fun fs s e t _ h hC hStep => h.step hC hStep
  · exact fun fs s e t _ h hC hStep => h.breaks hC hStep

/-- The menu is called with process 1 active, and process 2 becomes active
while it waits. -/
theorem menu_shows_active_fails :
    ¬ Always (MainStep .checked) MainState.boot [.callMenu, .tick] ShowsActive := by
  intro h
  have hFinal : Steps (MainStep .checked) MainState.boot [.callMenu, .tick] _ :=
    ⟨_, rfl, _, rfl, rfl⟩
  have hIndex : (0 : Nat) = 1 := h.final hFinal 0 rfl
  omega

end MultiOS
