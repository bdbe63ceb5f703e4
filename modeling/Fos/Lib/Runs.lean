import Mathlib.Tactic.Common

/-!
# Runs of a guarded transition system

A run of a system lists the states that it has left, each with the action taken there, the latest
first. Which action may be taken may depend on the whole history, so the guard reads the run and not
only the state.
-/

namespace Runs

variable {σ α : Type}

/-- The runs from a state in `init`, along `step`, that take only actions that `guard` allows. -/
inductive Run (init : σ → Prop) (step : σ → α → Option σ) (guard : List (σ × α) → σ → α → Prop) :
    List (σ × α) → σ → Prop where
  /-- The run that has taken no action. -/
  | nil {s : σ} : init s → Run init step guard [] s
  /-- A run and one more action. -/
  | cons {tr : List (σ × α)} {s s' : σ} {a : α} : Run init step guard tr s → guard tr s a →
      step s a = some s' → Run init step guard ((s, a) :: tr) s'

variable {init : σ → Prop} {step : σ → α → Option σ} {guard guard' : List (σ × α) → σ → α → Prop}
  {tr : List (σ × α)} {s s' : σ} {a : α}

/-- What holds in every state of a run, each with the run up to it. -/
def Always (P : List (σ × α) → σ → Prop) : List (σ × α) → σ → Prop
  | [], s => P [] s
  | e :: tr, s => P (e :: tr) s ∧ Always P tr e.1

/-- What always holds holds at the end. -/
theorem Always.last {P : List (σ × α) → σ → Prop} {tr : List (σ × α)} {s : σ} (h : Always P tr s) :
    P tr s := by
  cases tr with
  | nil => exact h
  | cons e tr => exact h.1

/-- What the steps of a run give, in order. -/
def collect {β : Type} (f : σ → α → List β) : List (σ × α) → List β
  | [] => []
  | e :: tr => collect f tr ++ f e.1 e.2

@[simp] theorem collect_nil {β : Type} (f : σ → α → List β) : collect f [] = [] := rfl

@[simp] theorem collect_cons {β : Type} (f : σ → α → List β) (s : σ) (a : α)
    (tr : List (σ × α)) : collect f ((s, a) :: tr) = collect f tr ++ f s a := rfl

/-- A run under one guard is a run under any guard that allows what it takes. -/
theorem Run.mono (h : Run init step guard tr s)
    (hg : ∀ tr s a, Run init step guard' tr s → guard tr s a → guard' tr s a) :
    Run init step guard' tr s := by
  induction h with
  | nil h0 => exact .nil h0
  | cons _ hga hs ih => exact .cons ih (hg _ _ _ ih hga) hs

/-- What holds at the start and is kept by every action holds at the end of every run. -/
theorem Run.invariant {I : List (σ × α) → σ → Prop} (h : Run init step guard tr s)
    (h0 : ∀ s, init s → I [] s)
    (hstep : ∀ tr s a s', Run init step guard tr s → I tr s → guard tr s a → step s a = some s' →
      I ((s, a) :: tr) s') : I tr s := by
  induction h with
  | nil hi => exact h0 _ hi
  | cons hr hg hs ih => exact hstep _ _ _ _ hr ih hg hs

/-- Every state that a run has left ends a run of its own, and the action taken there was
allowed. -/
theorem Run.earlier {tr₁ tr₂ : List (σ × α)} (h : Run init step guard (tr₁ ++ (s', a) :: tr₂) s) :
    Run init step guard tr₂ s' ∧ guard tr₂ s' a := by
  induction tr₁ generalizing s with
  | nil =>
    cases h with
    | cons hr hg _ => exact ⟨hr, hg⟩
  | cons e tr₁ ih =>
    cases h with
    | cons hr _ _ => exact ih hr

end Runs
