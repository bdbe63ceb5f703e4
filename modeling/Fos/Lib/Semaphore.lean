import Mathlib.Tactic.Common

/-!
# Counting semaphores

A counting semaphore with a list of waiters, and the ledger of what has been asked of it. A `get`
takes a unit or waits; a `put` hands its unit to the first waiter, or keeps it, or loses it when the
count is at its largest value `max`. Units are conserved, and are granted in the order in which they
were asked for (`Ledger.Balanced`).
-/

namespace Counting

variable {τ : Type} {max n : ℕ}

/-- A semaphore, and what has been asked of it. -/
structure Ledger (τ : Type) where
  /-- The units that are free. -/
  count : ℕ
  /-- Who waits for one, the first first. -/
  waiting : List τ
  /-- Who has asked for one, in order. -/
  gets : List τ
  /-- To whom one has been granted, in order. -/
  granted : List τ
  /-- How many have been put. -/
  puts : ℕ
  /-- How many of these have been lost. -/
  lost : ℕ

/-- A new semaphore. -/
def Ledger.new (n : ℕ) : Ledger τ := ⟨n, [], [], [], 0, 0⟩

/-- Take a unit, or wait. -/
def Ledger.get (l : Ledger τ) (t : τ) : Ledger τ :=
  if l.count = 0 then { l with waiting := l.waiting ++ [t], gets := l.gets ++ [t] }
  else { l with count := l.count - 1, gets := l.gets ++ [t], granted := l.granted ++ [t] }

/-- Put a unit: the first waiter gets it, if there is one. -/
def Ledger.put (max : ℕ) (l : Ledger τ) : Ledger τ :=
  match l.waiting with
  | t :: ts => { l with waiting := ts, granted := l.granted ++ [t], puts := l.puts + 1 }
  | [] =>
    if l.count = max then { l with puts := l.puts + 1, lost := l.lost + 1 }
    else { l with count := l.count + 1, puts := l.puts + 1 }

/-- What holds of a semaphore that began with `n` units. -/
structure Ledger.Balanced (max n : ℕ) (l : Ledger τ) : Prop where
  /-- Units are granted in the order in which they were asked for, and who waits is next. -/
  fifo : l.gets = l.granted ++ l.waiting
  /-- Every unit has been granted, is free, or has been lost. -/
  balance : l.granted.length + l.count + l.lost = n + l.puts
  /-- Nobody waits while a unit is free. -/
  free : l.count ≠ 0 → l.waiting = []
  /-- The count stays in its range. -/
  count_le : l.count ≤ max

namespace Ledger.Balanced

variable {l : Ledger τ}

theorem new (h : n ≤ max) : (Ledger.new n : Ledger τ).Balanced max n where
  fifo := rfl
  balance := by simp [Ledger.new]
  free _ := rfl
  count_le := h

/-- `get` keeps the balance. -/
theorem get (h : l.Balanced max n) (t : τ) : (l.get t).Balanced max n := by
  obtain ⟨hfifo, hbalance, hfree, hle⟩ := h
  unfold Ledger.get
  split_ifs with hc
  · exact ⟨by simp [hfifo], hbalance, fun hne => absurd hc hne, hle⟩
  · -- A unit is free, so that nobody else waits.
    have hnone := hfree hc
    refine ⟨by simp [hfifo, hnone], ?_, fun _ => hnone, Nat.le_trans (Nat.sub_le _ _) hle⟩
    simp only [List.length_append, List.length_singleton]
    omega

/-- `put` keeps the balance. -/
theorem put (h : l.Balanced max n) : (l.put max).Balanced max n := by
  obtain ⟨hfifo, hbalance, hfree, hle⟩ := h
  unfold Ledger.put
  cases hw : l.waiting with
  | cons t ts =>
    -- Somebody waits, so that no unit is free.
    have hc : l.count = 0 := by
      by_contra hne
      simp [hfree hne] at hw
    refine ⟨by simp [hfifo, hw], ?_, fun hne => absurd hc hne, hle⟩
    simp only [List.length_append, List.length_singleton]
    omega
  | nil =>
    dsimp only
    split_ifs with hc
    · exact ⟨by rw [hfifo, hw], by dsimp only; omega, fun _ => rfl, hle⟩
    · exact ⟨by rw [hfifo, hw], by dsimp only; omega, fun _ => rfl, by dsimp only; omega⟩

end Ledger.Balanced

end Counting
