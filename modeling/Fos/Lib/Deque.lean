import Mathlib.Data.List.Perm.Basic

/-!
# A deque and its ledger

A sequence that takes new items at either end and gives them out at the front, with the items that
it has accepted and delivered. Every accepted item is still in it or has been delivered, once
(`Ledger.perm`). If all items were put behind, they are delivered in the order in which they were
accepted (`Ledger.InOrder`).
-/

namespace Deques

variable {τ : Type}

/-- A deque, and what it has accepted and delivered. -/
structure Ledger (τ : Type) where
  /-- The items in it, the front first. -/
  contents : List τ
  /-- What it has accepted, in order. -/
  accepted : List τ
  /-- What it has delivered, in order. -/
  delivered : List τ

namespace Ledger

/-- A new deque. -/
def new : Ledger τ := ⟨[], [], []⟩

/-- Put an item behind the others. -/
def back (l : Ledger τ) (x : τ) : Ledger τ :=
  { l with contents := l.contents ++ [x], accepted := l.accepted ++ [x] }

/-- Put an item before the others. -/
def front (l : Ledger τ) (x : τ) : Ledger τ :=
  { l with contents := x :: l.contents, accepted := l.accepted ++ [x] }

/-- Give out the item at the front. -/
def pop (l : Ledger τ) : Ledger τ :=
  { l with contents := l.contents.tail, delivered := l.delivered ++ l.contents.head?.toList }

/-- Every accepted item is in the deque or has been delivered, and nothing else. -/
def Kept (l : Ledger τ) : Prop := l.accepted.Perm (l.delivered ++ l.contents)

/-- The items are delivered in the order in which they were accepted. -/
def InOrder (l : Ledger τ) : Prop := l.accepted = l.delivered ++ l.contents

variable {l : Ledger τ}

theorem Kept.new : (new : Ledger τ).Kept := .refl _

theorem Kept.back (h : l.Kept) (x : τ) : (l.back x).Kept := by
  show (l.accepted ++ [x]).Perm (l.delivered ++ (l.contents ++ [x]))
  rw [← List.append_assoc]
  exact h.append_right [x]

theorem Kept.front (h : l.Kept) (x : τ) : (l.front x).Kept :=
  (h.back x).trans ((List.perm_append_singleton x l.contents).append_left l.delivered)

/-- What is given out was at the front. -/
theorem pop_append (l : Ledger τ) :
    l.pop.delivered ++ l.pop.contents = l.delivered ++ l.contents := by
  unfold pop
  cases l.contents <;> simp

theorem Kept.pop (h : l.Kept) : l.pop.Kept := by
  show l.accepted.Perm _
  rw [pop_append]
  exact h

theorem InOrder.back (h : l.InOrder) (x : τ) : (l.back x).InOrder := by
  show l.accepted ++ [x] = l.delivered ++ (l.contents ++ [x])
  rw [h, List.append_assoc]

theorem InOrder.pop (h : l.InOrder) : l.pop.InOrder := by
  show l.accepted = _
  rw [pop_append]
  exact h

end Ledger

end Deques
