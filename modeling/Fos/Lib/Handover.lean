import Mathlib.Tactic.Common

/-!
# A processor that changes hands

Several parties share a processor. What happens to them is a list of events, the latest first: a
party is left in a context, or is resumed in one. A party may be left again before it is back where
it was left first, so that the contexts it is still to be resumed in are a stack (`pending`).
`Exact` says that no party ever goes on with anything but the context that it was left in last.
-/

namespace Handover

/-- What happens to a party. -/
inductive Event (τ γ : Type) where
  /-- The processor is taken from `t`, whose context is `c`. -/
  | left (t : τ) (c : γ)
  /-- The processor is given to `t`, which goes on with the context `c`. -/
  | resumed (t : τ) (c : γ)

variable {τ γ : Type} [DecidableEq τ]

/-- The contexts that a party has been left in and has not been resumed in, the latest first. -/
def pending : List (Event τ γ) → τ → List γ
  | [], _ => []
  | .left t c :: l, u => if u = t then c :: pending l u else pending l u
  | .resumed t _ :: l, u => if u = t then (pending l u).tail else pending l u

/-- Every party has gone on with the context that it was left in last. -/
def Exact : List (Event τ γ) → Prop
  | [] => True
  | .left _ _ :: l => Exact l
  | .resumed t c :: l => (pending l t).head? = some c ∧ Exact l

variable {l : List (Event τ γ)} {t u : τ} {c : γ}

@[simp] theorem pending_left_self : pending (.left t c :: l) t = c :: pending l t := by
  simp [pending]

theorem pending_left_of_ne (h : u ≠ t) : pending (.left t c :: l) u = pending l u := by
  simp [pending, h]

@[simp] theorem pending_resumed_self : pending (.resumed t c :: l) t = (pending l t).tail := by
  simp [pending]

theorem pending_resumed_of_ne (h : u ≠ t) : pending (.resumed t c :: l) u = pending l u := by
  simp [pending, h]

@[simp] theorem exact_left : Exact (.left t c :: l) ↔ Exact l := Iff.rfl

theorem exact_resumed : Exact (.resumed t c :: l) ↔ (pending l t).head? = some c ∧ Exact l :=
  Iff.rfl

end Handover
