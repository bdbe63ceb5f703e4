import Mathlib.Tactic.Common

/-!
# Loops

A loop does one round after the other on a state, until a round gives a result. A round that is
stuck, and rounds without an end, make it `none`. `repeatUntil_eq` unfolds one round, and
`repeatUntil_induct` is the rule of partial correctness. Whether a round is stuck on the way is told
by `Safe`, also where there is no end.
-/

namespace Loops

variable {σ α : Type} {round : σ → Option (σ ⊕ α)} {s s' : σ} {a : α}

/-- One round after the other, from the state `s`, until one gives an `α`. -/
def repeatUntil (round : σ → Option (σ ⊕ α)) (s : σ) : Option α :=
  match round s with
  | none => none
  -- The recursive call `repeatUntil round s`. `apply` keeps the place of the call out of the term.
  | some (.inl s) => by apply repeatUntil <;> assumption
  | some (.inr a) => some a
partial_fixpoint

/-- A loop is a round, and then the loop again or its result. -/
theorem repeatUntil_eq (round : σ → Option (σ ⊕ α)) (s : σ) :
    repeatUntil round s = (round s).bind (Sum.elim (repeatUntil round) some) := by
  rw [repeatUntil]
  match round s with
  | none | some (.inl _) | some (.inr _) => rfl

/-- A round that gives a result ends a loop. -/
theorem repeatUntil_of_inr (h : round s = some (.inr a)) : repeatUntil round s = some a := by
  rw [repeatUntil_eq, h]
  rfl

/-- A round that does not gives way to the next one. -/
theorem repeatUntil_of_inl (h : round s = some (.inl s')) :
    repeatUntil round s = repeatUntil round s' := by
  rw [repeatUntil_eq, h]
  rfl

/-- What the last round establishes, and every round before it carries back, holds of a loop that
ends. -/
theorem repeatUntil_induct {P : σ → α → Prop}
    (hlast : ∀ s a, round s = some (.inr a) → P s a)
    (hround : ∀ s s', round s = some (.inl s') → ∀ a, P s' a → P s a)
    (h : repeatUntil round s = some a) : P s a := by
  refine repeatUntil.partial_correctness round P (fun loop ih s a h => ?_) s a h
  split at h
  · cases h
  · next s' hr => exact hround s s' hr a (ih s' a h)
  · next a' hr =>
    obtain rfl := Option.some.inj h
    exact hlast s a' hr

/-! ## The states on the way -/

/-- The states that a loop comes to from `s`. -/
inductive Comes (round : σ → Option (σ ⊕ α)) (s : σ) : σ → Prop where
  | start : Comes round s s
  | next {s' s'' : σ} : Comes round s s' → round s' = some (.inl s'') → Comes round s s''

/-- No round is stuck. -/
def Safe (round : σ → Option (σ ⊕ α)) (s : σ) : Prop := ∀ s', Comes round s s' → round s' ≠ none

/-- From a state on the way, a loop goes on to its result. -/
theorem Comes.repeatUntil_eq (h : Comes round s s') :
    repeatUntil round s = repeatUntil round s' := by
  induction h with
  | start => rfl
  | next _ hround ih => rw [ih, repeatUntil_of_inl hround]

/-- A loop that ends is safe. -/
theorem safe_of_repeatUntil (h : repeatUntil round s = some a) : Safe round s := by
  intro s' hs' hround
  rw [hs'.repeatUntil_eq, Loops.repeatUntil_eq, hround] at h
  cases h

end Loops
