import MultiOS.Lib.Runs

/-!
# Simulation of runs

A concrete system `next : σ → ε → Option σ` and an abstract step relation
`astep`. A concrete event shows a list of abstract events, none if the step
is internal (`shown`); what a run shows is `shownAlong`.

`Steps.simulates` is the rule for forward simulation: if every concrete step
that meets `C` is answered by the abstract events it shows, up to `R`, then
every run whose steps meet `C` is answered by what it shows.
-/

namespace Lib

variable {σ ε τ δ : Type*}

/-- The step relation of a system given by a function. -/
def Moves (next : σ → ε → Option σ) (s : σ) (e : ε) (t : σ) : Prop := next s e = some t

/-- The abstract events a run shows, up to the first event it cannot take. -/
def shownAlong (next : σ → ε → Option σ) (shown : σ → ε → List δ) : σ → List ε → List δ
  | _, [] => []
  | s, e :: es =>
    match next s e with
    | none => []
    | some t => shown s e ++ shownAlong next shown t es

variable {next : σ → ε → Option σ} {shown : σ → ε → List δ} {astep : τ → δ → τ → Prop}

theorem shownAlong_cons {s t : σ} {e : ε} {es : List ε} (h : next s e = some t) :
    shownAlong next shown s (e :: es) = shown s e ++ shownAlong next shown t es := by
  rw [shownAlong, h]

/-- A system given by a function reaches one state along given events. -/
theorem Moves.unique {s t u : σ} {es : List ε} (ht : Steps (Moves next) s es t)
    (hu : Steps (Moves next) s es u) : t = u := by
  refine Steps.unique ?_ ht hu
  intro s e t u hT hU
  exact Option.some.inj (hT.symm.trans hU)

/-- A condition on the steps of a run, step by step. -/
theorem eachStep_cons {C : σ → ε → Prop} {s t : σ} {e : ε} {es : List ε} (h : next s e = some t)
    (hHead : C s e) (hRest : EachStep (Moves next) t es fun _ s e => C s e) :
    EachStep (Moves next) s (e :: es) fun _ s e => C s e := by
  rintro fs u f v hPre hu hv
  cases fs with
  | nil =>
    obtain rfl := steps_nil.mp hu
    obtain rfl : f = e := (List.cons_prefix_cons.mp hPre).1
    exact hHead
  | cons g fs =>
    obtain ⟨rfl, hPre'⟩ := List.cons_prefix_cons.mp hPre
    obtain ⟨w, hw, hu'⟩ := hu
    obtain rfl : t = w := Option.some.inj (h.symm.trans hw)
    exact hRest fs u f v hPre' hu' hv

theorem eachStep_nil {C : σ → ε → Prop} {s : σ} :
    EachStep (Moves next) s [] fun _ s e => C s e := by
  rintro fs u f v hPre hu hv
  simp at hPre

theorem shownAlong_append {s t : σ} {es fs : List ε} (h : Steps (Moves next) s es t) :
    shownAlong next shown s (es ++ fs) =
      shownAlong next shown s es ++ shownAlong next shown t fs := by
  induction es generalizing s with
  | nil => rw [steps_nil.mp h, List.nil_append, shownAlong, List.nil_append]
  | cons e es ih =>
    obtain ⟨u, hu, ht⟩ := h
    rw [List.cons_append, shownAlong_cons hu, shownAlong_cons hu, ih ht, List.append_assoc]

/-- **Forward simulation.** -/
theorem Steps.simulates {C : σ → ε → Prop} (R : σ → τ → Prop)
    (hStep : ∀ s a e t, R s a → C s e → next s e = some t →
      ∃ b, Steps astep a (shown s e) b ∧ R t b)
    {s t : σ} {a : τ} {es : List ε} (hStart : R s a)
    (hEach : EachStep (Moves next) s es fun _ s e => C s e)
    (hRun : Steps (Moves next) s es t) :
    ∃ b, Steps astep a (shownAlong next shown s es) b ∧ R t b := by
  have hPrefix : ∀ fs u, fs <+: es → Steps (Moves next) s fs u →
      ∃ b, Steps astep a (shownAlong next shown s fs) b ∧ R u b := by
    intro fs u hfs hu
    refine Steps.prefix_induction
      (fun fs u => ∃ b, Steps astep a (shownAlong next shown s fs) b ∧ R u b) ?_ ?_ hfs hu
    · exact ⟨a, rfl, hStart⟩
    · rintro fs u e v hPre hu ⟨b, hb, hR⟩ hv
      obtain ⟨c, hc, hR'⟩ := hStep u b e v hR (hEach fs u e v hPre hu hv) hv
      have hOne : shownAlong next shown u [e] = shown u e := by
        rw [shownAlong_cons hv, shownAlong, List.append_nil]
      refine ⟨c, ?_, hR'⟩
      rw [shownAlong_append hu, hOne]
      exact steps_append.mpr ⟨b, hb, hc⟩
  exact hPrefix es t (List.prefix_refl es) hRun

/-- Forward simulation without a side condition. -/
theorem Steps.simulates_all (R : σ → τ → Prop)
    (hStep : ∀ s a e t, R s a → next s e = some t → ∃ b, Steps astep a (shown s e) b ∧ R t b)
    {s t : σ} {a : τ} {es : List ε} (hStart : R s a) (hRun : Steps (Moves next) s es t) :
    ∃ b, Steps astep a (shownAlong next shown s es) b ∧ R t b :=
  Steps.simulates (C := fun _ _ => True) R (fun s a e t hR _ => hStep s a e t hR) hStart
    (fun _ _ _ _ _ _ _ => trivial) hRun

end Lib
