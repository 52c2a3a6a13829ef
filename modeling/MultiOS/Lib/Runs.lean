import Mathlib.Data.List.Infix

/-!
# Runs of a labelled step relation

A system is a relation `step s e t`: event `e` takes state `s` to state `t`.
A run is a list of events; an event that cannot be taken in the state reached
cuts the run there, so nothing is said about what would come after it.

Three judgements about a list of events `es` from a start state `s`:

* `Always` — a property holds in every state the run passes through;
* `EachStep` — every step the run takes meets a condition on the events
  before it, the state it is taken in, and the event;
* `Attempts` — the same for every event the run tries, taken or not.

The rules are the usual ones. `Steps.prefix_induction` carries an invariant
that may speak about the events so far along the events of a run; every other
rule rests on it. `always_iff_eachStep` is the form a
conditional safety law takes: when the condition keeps the invariant and every
breach of the condition breaks the property at once, the property holds in
every state reached *exactly when* every step meets the condition.
-/

namespace Lib

variable {σ ε : Type*} {step : σ → ε → σ → Prop}

-- ---------------------------------------------------------------------------
-- Runs
-- ---------------------------------------------------------------------------

/-- The events `es`, taken in order from `s`, lead to `t`. -/
def Steps (step : σ → ε → σ → Prop) : σ → List ε → σ → Prop
  | s, [], t => t = s
  | s, e :: es, t => ∃ u, step s e u ∧ Steps step u es t

@[simp] theorem steps_nil {s t : σ} : Steps step s [] t ↔ t = s := Iff.rfl

@[simp] theorem steps_cons {s t : σ} {e : ε} {es : List ε} :
    Steps step s (e :: es) t ↔ ∃ u, step s e u ∧ Steps step u es t := Iff.rfl

theorem steps_append {s t : σ} {es fs : List ε} :
    Steps step s (es ++ fs) t ↔ ∃ u, Steps step s es u ∧ Steps step u fs t := by
  induction es generalizing s with
  | nil => simp
  | cons e es ih =>
    simp only [List.cons_append, steps_cons, ih]
    refine ⟨?_, ?_⟩
    · rintro ⟨v, hv, u, hu, ht⟩
      exact ⟨u, ⟨v, hv, hu⟩, ht⟩
    · rintro ⟨u, ⟨v, hv, hu⟩, ht⟩
      exact ⟨v, hv, u, hu, ht⟩

theorem steps_snoc {s t : σ} {e : ε} {es : List ε} :
    Steps step s (es ++ [e]) t ↔ ∃ u, Steps step s es u ∧ step u e t := by
  simp [steps_append]

/-- **Prefix induction.** An invariant of the events so far and the state
reached, true at the start and kept by each step that `es` takes, holds of
every prefix of `es`. -/
theorem Steps.prefix_induction {s : σ} {es : List ε} (Inv : List ε → σ → Prop) (hStart : Inv [] s)
    (hStep : ∀ fs t e u, fs ++ [e] <+: es → Steps step s fs t → Inv fs t → step t e u →
      Inv (fs ++ [e]) u) {fs : List ε} {t : σ} (hfs : fs <+: es) (ht : Steps step s fs t) :
    Inv fs t := by
  induction fs using List.reverseRecOn generalizing t with
  | nil => exact steps_nil.mp ht ▸ hStart
  | append_singleton fs e ih =>
    obtain ⟨u, hu, hut⟩ := steps_snoc.mp ht
    exact hStep fs u e t hfs hu (ih ((List.prefix_append fs [e]).trans hfs) hu) hut

/-- **History induction.** The same for every run. -/
theorem Steps.history_induction {s : σ} {Inv : List ε → σ → Prop}
    (hStart : Inv [] s)
    (hStep : ∀ es t e u, Steps step s es t → Inv es t → step t e u → Inv (es ++ [e]) u)
    {es : List ε} {t : σ} (h : Steps step s es t) : Inv es t :=
  Steps.prefix_induction Inv hStart (fun fs t e u _ => hStep fs t e u) (List.prefix_refl es) h

/-- A system in which an event has at most one outcome reaches at most one
state along given events. -/
theorem Steps.unique (hDet : ∀ s e t u, step s e t → step s e u → t = u) {s t u : σ}
    {es : List ε} (ht : Steps step s es t) (hu : Steps step s es u) : t = u := by
  induction es generalizing s with
  | nil => rw [steps_nil.mp ht, steps_nil.mp hu]
  | cons e es ih =>
    obtain ⟨v, hv, ht⟩ := ht
    obtain ⟨w, hw, hu⟩ := hu
    exact ih (hDet s e v w hv hw ▸ ht) hu

/-- A measure that every step lowers bounds the length of every run. -/
theorem Steps.length_le (Inv : σ → Prop) (measure : σ → Nat)
    (hStep : ∀ s e t, Inv s → step s e t → Inv t ∧ measure t < measure s)
    {s t : σ} {es : List ε} (hs : Inv s) (h : Steps step s es t) :
    es.length + measure t ≤ measure s := by
  induction es generalizing s with
  | nil => simp [steps_nil.mp h]
  | cons e es ih =>
    obtain ⟨u, hu, ht⟩ := h
    obtain ⟨hInv, hLt⟩ := hStep s e u hs hu
    have := ih hInv ht
    simp only [List.length_cons]
    omega

-- ---------------------------------------------------------------------------
-- Judgements along a run
-- ---------------------------------------------------------------------------

/-- `P` holds in every state that a prefix of `es` reaches from `s`. -/
def Always (step : σ → ε → σ → Prop) (s : σ) (es : List ε) (P : σ → Prop) : Prop :=
  ∀ fs t, fs <+: es → Steps step s fs t → P t

/-- Every step the run takes meets `C`: the events before it, the state it is
taken in, the event. -/
def EachStep (step : σ → ε → σ → Prop) (s : σ) (es : List ε)
    (C : List ε → σ → ε → Prop) : Prop :=
  ∀ fs t e u, fs ++ [e] <+: es → Steps step s fs t → step t e u → C fs t e

/-- Every event the run tries meets `C`, whether or not it can be taken. -/
def Attempts (step : σ → ε → σ → Prop) (s : σ) (es : List ε)
    (C : List ε → σ → ε → Prop) : Prop :=
  ∀ fs t e, fs ++ [e] <+: es → Steps step s fs t → C fs t e

theorem Always.start {s : σ} {es : List ε} {P : σ → Prop} (h : Always step s es P) : P s :=
  h [] s es.nil_prefix rfl

theorem Always.final {s t : σ} {es : List ε} {P : σ → Prop} (h : Always step s es P)
    (ht : Steps step s es t) : P t :=
  h es t (List.prefix_refl es) ht

theorem Always.imp {s : σ} {es : List ε} {P Q : σ → Prop} (h : Always step s es P)
    (hPQ : ∀ t, P t → Q t) : Always step s es Q :=
  fun fs t hfs ht => hPQ t (h fs t hfs ht)

/-- Two conditions that agree on every event tried make the same judgement. -/
theorem attempts_congr {s : σ} {es : List ε} {C D : List ε → σ → ε → Prop}
    (h : ∀ fs t e, Steps step s fs t → (C fs t e ↔ D fs t e)) :
    Attempts step s es C ↔ Attempts step s es D :=
  forall_congr' fun fs => forall_congr' fun t => forall_congr' fun e =>
    forall_congr' fun _ => forall_congr' fun ht => h fs t e ht

/-- An invariant kept by every step that meets `C` holds along every run whose
steps all meet `C`. -/
theorem EachStep.always {s : σ} {es : List ε} {C : List ε → σ → ε → Prop} {Inv : σ → Prop}
    (hEach : EachStep step s es C) (hStart : Inv s)
    (hKeep : ∀ fs t e u, e ∈ es → Inv t → C fs t e → step t e u → Inv u) :
    Always step s es Inv := by
  intro fs t hfs ht
  refine Steps.prefix_induction (fun _ t => Inv t) hStart ?_ hfs ht
  intro fs t e u hPre ht hInv hu
  exact hKeep fs t e u (hPre.subset (by simp)) hInv (hEach fs t e u hPre ht hu) hu

/-- What every step of a run meets, every step of a part of it meets. -/
theorem EachStep.part {s t : σ} {es fs gs : List ε} {C : List ε → σ → ε → Prop}
    (h : EachStep step s es C) (hPart : fs ++ gs <+: es) (ht : Steps step s fs t) :
    EachStep step t gs fun hs => C (fs ++ hs) := by
  intro hs u e v hPre hu hv
  refine h (fs ++ hs) u e v ?_ (steps_append.mpr ⟨t, ht, hu⟩) hv
  rw [List.append_assoc]
  exact ((List.prefix_append_right_inj fs).mpr hPre).trans hPart

/-- Two conditions that agree under an invariant of the history, kept by the
steps that meet the second, judge every run alike. -/
theorem eachStep_iff_eachStep {s : σ} {es : List ε} {C D : List ε → σ → ε → Prop}
    (Inv : List ε → σ → Prop) (hStart : Inv [] s)
    (hKeep : ∀ fs t e u, e ∈ es → Inv fs t → D fs t e → step t e u → Inv (fs ++ [e]) u)
    (hAgree : ∀ fs t e u, e ∈ es → Inv fs t → step t e u → (C fs t e ↔ D fs t e)) :
    EachStep step s es C ↔ EachStep step s es D := by
  -- along a run whose steps meet one of the two, the invariant holds
  have hInv : EachStep step s es C ∨ EachStep step s es D →
      ∀ fs t, fs <+: es → Steps step s fs t → Inv fs t := by
    intro hEach fs t hfs ht
    refine Steps.prefix_induction Inv hStart ?_ hfs ht
    intro fs t e u hPre ht hInv hu
    have hMem : e ∈ es := hPre.subset (by simp)
    rcases hEach with hC | hD
    · have hMeets := (hAgree fs t e u hMem hInv hu).mp (hC fs t e u hPre ht hu)
      exact hKeep fs t e u hMem hInv hMeets hu
    · exact hKeep fs t e u hMem hInv (hD fs t e u hPre ht hu) hu
  refine ⟨?_, ?_⟩
  · intro hC fs t e u hfs ht hu
    have hPre : fs <+: es := (List.prefix_append fs [e]).trans hfs
    exact (hAgree fs t e u (hfs.subset (by simp)) (hInv (Or.inl hC) fs t hPre ht) hu).mp
      (hC fs t e u hfs ht hu)
  · intro hD fs t e u hfs ht hu
    have hPre : fs <+: es := (List.prefix_append fs [e]).trans hfs
    exact (hAgree fs t e u (hfs.subset (by simp)) (hInv (Or.inr hD) fs t hPre ht) hu).mpr
      (hD fs t e u hfs ht hu)

/-- An invariant kept by every step holds along every run. -/
theorem always_of_inv {s : σ} {es : List ε} {Inv : σ → Prop} (hStart : Inv s)
    (hKeep : ∀ t e u, e ∈ es → Inv t → step t e u → Inv u) : Always step s es Inv := by
  have hEach : EachStep step s es fun _ _ _ => True := fun _ _ _ _ _ _ _ => trivial
  exact hEach.always hStart fun _ t e u he hInv _ => hKeep t e u he hInv

/--
**The exact condition of a safety law.** If the invariant implies the law,
steps that meet `C` keep the invariant, and a step that does not meet `C`
leaves a state in which the law fails, then the law holds in every state
reached exactly when every step taken meets `C`.
-/
theorem always_iff_eachStep {s : σ} {es : List ε} {C : List ε → σ → ε → Prop}
    {P : σ → Prop} (Inv : σ → Prop) (hStart : Inv s)
    (hSound : ∀ t, Inv t → P t)
    (hKeep : ∀ fs t e u, e ∈ es → Inv t → C fs t e → step t e u → Inv u)
    (hBreak : ∀ fs t e u, e ∈ es → Inv t → ¬ C fs t e → step t e u → ¬ P u) :
    Always step s es P ↔ EachStep step s es C := by
  refine ⟨?_, ?_⟩
  · intro hP
    -- along the run the invariant holds, since a breach would show in `P`
    have hInv : ∀ fs t, fs <+: es → Steps step s fs t → Inv t := by
      intro fs t hfs ht
      refine Steps.prefix_induction (fun _ t => Inv t) hStart ?_ hfs ht
      intro fs t e u hPre ht hInv hu
      have hMem : e ∈ es := hPre.subset (by simp)
      by_cases hC : C fs t e
      · exact hKeep fs t e u hMem hInv hC hu
      · exact absurd (hP (fs ++ [e]) u hPre (steps_snoc.mpr ⟨t, ht, hu⟩))
          (hBreak fs t e u hMem hInv hC hu)
    intro fs t e u hfs ht hu
    by_contra hC
    have hPre : fs <+: es := (List.prefix_append fs [e]).trans hfs
    exact hBreak fs t e u (hfs.subset (by simp)) (hInv fs t hPre ht) hC hu
      (hP (fs ++ [e]) u hfs (steps_snoc.mpr ⟨t, ht, hu⟩))
  · intro hEach
    exact (EachStep.always hEach hStart hKeep).imp hSound

end Lib
