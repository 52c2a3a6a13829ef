import Mathlib.Data.List.Basic
import Mathlib.Data.Option.Basic

/-!
# Machines that answer each input

A machine answers an input with an output and a next state, or stops after
it. `transcript` is the list of its answers to a list of inputs, `acted` the
list of the inputs it got to.

`transcript_eq_iff` compares two machines over states that are related in view
of the inputs before. If they agree on an input that is good and goes with each
of these, and give different answers on the others, then the transcripts are
equal exactly when the inputs acted on are good and go with one another.
-/

namespace Lib

variable {σ τ ι κ ο : Type*}

/-- An answer to each input, and the next state unless the machine stops. -/
abbrev Machine (σ ι ο : Type*) := σ → ι → ο × Option σ

/-- The answers of a run. -/
def transcript (m : Machine σ ι ο) : σ → List ι → List ο
  | _, [] => []
  | s, i :: is => (m s i).1 :: match (m s i).2 with
    | none => []
    | some s' => transcript m s' is

/-- The inputs that the run answers: it ends at the input that stops the
machine. -/
def acted (m : Machine σ ι ο) : σ → List ι → List ι
  | _, [] => []
  | s, i :: is => i :: match (m s i).2 with
    | none => []
    | some s' => acted m s' is

/-- The last answer. -/
theorem transcript_cons_none {m : Machine σ ι ο} {s : σ} {i : ι} (is : List ι)
    (h : (m s i).2 = none) : transcript m s (i :: is) = [(m s i).1] := by
  rw [transcript, h]

/-- An answer with more to come. -/
theorem transcript_cons_some {m : Machine σ ι ο} {s s' : σ} {i : ι} (is : List ι)
    (h : (m s i).2 = some s') : transcript m s (i :: is) = (m s i).1 :: transcript m s' is := by
  rw [transcript, h]

theorem acted_cons_none {m : Machine σ ι ο} {s : σ} {i : ι} (is : List ι)
    (h : (m s i).2 = none) : acted m s (i :: is) = [i] := by
  rw [acted, h]

theorem acted_cons_some {m : Machine σ ι ο} {s s' : σ} {i : ι} (is : List ι)
    (h : (m s i).2 = some s') : acted m s (i :: is) = i :: acted m s' is := by
  rw [acted, h]

/-- The first answer is to the first input. -/
theorem transcript_head? (m : Machine σ ι ο) (s : σ) (i : ι) (is : List ι) :
    (transcript m s (i :: is)).head? = some (m s i).1 := rfl

/-- Related next states: both machines stop, or both go on related. -/
theorem next_cases {R : σ → τ → Prop} {a : Option σ} {b : Option τ} (h : Option.Rel R a b) :
    (a = none ∧ b = none) ∨ ∃ s t, a = some s ∧ b = some t ∧ R s t := by
  cases h with
  | none => exact Or.inl ⟨rfl, rfl⟩
  | some hR => exact Or.inr ⟨_, _, rfl, rfl, hR⟩

/-- **Equal transcripts.** Related states give the same answer to an input that is good
and goes with every earlier one, and different answers to the others. -/
theorem transcript_eq_iff {m : Machine σ ι ο} {n : Machine τ ι ο} (R : List ι → σ → τ → Prop)
    (Good : ι → Prop) (Goes : ι → ι → Prop)
    (hAgree : ∀ earlier s t i, R earlier s t → Good i → (∀ j ∈ earlier, Goes j i) →
      (m s i).1 = (n t i).1 ∧ Option.Rel (R (i :: earlier)) (m s i).2 (n t i).2)
    (hDiffer : ∀ earlier s t i, R earlier s t → ¬ (Good i ∧ ∀ j ∈ earlier, Goes j i) →
      (m s i).1 ≠ (n t i).1)
    {earlier : List ι} {s : σ} {t : τ} (hR : R earlier s t) (is : List ι) :
    transcript m s is = transcript n t is ↔
      (∀ i ∈ acted n t is, Good i ∧ ∀ j ∈ earlier, Goes j i) ∧ (acted n t is).Pairwise Goes := by
  induction is generalizing earlier s t with
  | nil => simp [transcript, acted]
  | cons i is ih =>
    by_cases hGood : Good i ∧ ∀ j ∈ earlier, Goes j i
    · obtain ⟨hOut, hRel⟩ := hAgree earlier s t i hR hGood.1 hGood.2
      rcases next_cases hRel with ⟨hm, hn⟩ | ⟨s', t', hm, hn, hR'⟩
      · rw [transcript_cons_none is hm, transcript_cons_none is hn, acted_cons_none is hn, hOut]
        simpa using hGood
      · rw [transcript_cons_some is hm, transcript_cons_some is hn, acted_cons_some is hn, hOut,
          List.cons_inj_right, ih hR', List.pairwise_cons, List.forall_mem_cons]
        refine ⟨?_, ?_⟩
        · -- what goes with the earlier inputs and `i` goes with each of them
          rintro ⟨hAll, hLater⟩
          refine ⟨⟨hGood, ?_⟩, ?_, hLater⟩
          · intro j hj
            exact ⟨(hAll j hj).1, fun k hk => (hAll j hj).2 k (List.mem_cons_of_mem i hk)⟩
          · intro j hj
            exact (hAll j hj).2 i List.mem_cons_self
        · rintro ⟨⟨-, hAll⟩, hFirst, hLater⟩
          exact ⟨fun j hj => ⟨(hAll j hj).1,
            List.forall_mem_cons.mpr ⟨hFirst j hj, (hAll j hj).2⟩⟩, hLater⟩
    · refine ⟨?_, ?_⟩
      · intro hEq
        have hHead := congrArg List.head? hEq
        rw [transcript_head?, transcript_head?] at hHead
        exact absurd (Option.some.inj hHead) (hDiffer earlier s t i hR hGood)
      · rintro ⟨hAll, -⟩
        exact absurd (hAll i (by rw [acted]; exact List.mem_cons_self)) hGood

/-- Machines that answer related inputs alike, over states related in view of
the inputs still to come, have one transcript. -/
theorem transcript_map {m : Machine σ ι ο} {n : Machine τ κ ο} {f : κ → ι}
    (R : σ → List κ → τ → Prop)
    (hStep : ∀ s t k ks, R s (k :: ks) t →
      (m s (f k)).1 = (n t k).1 ∧ Option.Rel (fun s' t' => R s' ks t') (m s (f k)).2 (n t k).2)
    {s : σ} {t : τ} (ks : List κ) (hR : R s ks t) :
    transcript m s (ks.map f) = transcript n t ks := by
  induction ks generalizing s t with
  | nil => rfl
  | cons k ks ih =>
    obtain ⟨hOut, hRel⟩ := hStep s t k ks hR
    rw [List.map_cons]
    rcases next_cases hRel with ⟨hm, hn⟩ | ⟨s', t', hm, hn, hR'⟩
    · rw [transcript_cons_none _ hm, transcript_cons_none _ hn, hOut]
    · rw [transcript_cons_some _ hm, transcript_cons_some _ hn, hOut, ih hR']

end Lib
