import Mathlib.Tactic.TypeStar

/-!
# What a result satisfies

A computation that returns a value or stops with an error: `Outcome P E x` says
`P` of the value or `E` of the error. A sequence is proved step by step
(`Outcome.bind`), where what is known of the first value is assumed for the
rest, and every step may stop with the same errors.
-/

namespace Lib

universe u

variable {ε : Type*} {α β : Type u} {P P' : α → Prop} {Q : β → Prop} {E : ε → Prop}

/-- The value satisfies `P`, or the error `E`. -/
inductive Outcome (P : α → Prop) (E : ε → Prop) : Except ε α → Prop
  | ok {a : α} (h : P a) : Outcome P E (.ok a)
  | error {e : ε} (h : E e) : Outcome P E (.error e)

/-- From the two results. -/
theorem Outcome.of_cases {x : Except ε α} (hOk : ∀ a, x = .ok a → P a)
    (hError : ∀ e, x = .error e → E e) : Outcome P E x := by
  cases x with
  | ok a => exact Outcome.ok (hOk a rfl)
  | error e => exact Outcome.error (hError e rfl)

/-- What a value satisfies. -/
theorem Outcome.value {x : Except ε α} (h : Outcome P E x) {a : α} (hx : x = .ok a) : P a := by
  subst hx
  cases h with
  | ok h => exact h

/-- What an error satisfies. -/
theorem Outcome.failure {x : Except ε α} (h : Outcome P E x) {e : ε} (hx : x = .error e) :
    E e := by
  subst hx
  cases h with
  | error h => exact h

/-- Values may satisfy less. -/
theorem Outcome.mono {x : Except ε α} (h : Outcome P E x) (hP : ∀ a, P a → P' a) :
    Outcome P' E x := by
  cases h with
  | ok h => exact Outcome.ok (hP _ h)
  | error h => exact Outcome.error h

/-- One computation after the other. -/
theorem Outcome.bind {x : Except ε α} {f : α → Except ε β} (h : Outcome P E x)
    (hf : ∀ a, P a → Outcome Q E (f a)) : Outcome Q E (x >>= f) := by
  cases h with
  | ok h => exact hf _ h
  | error h => exact Outcome.error h

/-- A function applied to the value. -/
theorem Outcome.map {x : Except ε α} {f : α → β} (h : Outcome P E x) (hf : ∀ a, P a → Q (f a)) :
    Outcome Q E (x.map f) := by
  cases h with
  | ok h => exact Outcome.ok (hf _ h)
  | error h => exact Outcome.error h

end Lib
