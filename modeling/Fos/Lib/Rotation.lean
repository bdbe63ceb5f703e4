import Mathlib.Data.List.Perm.Basic
import Mathlib.Data.List.Rotate

/-!
# Taking turns

The first of a list takes a turn, and goes behind the others. After as many turns as the list is
long it is as it was, and everyone has had one turn (`turns_length`). Between two turns of the same
one, everyone else has one (`perm_of_turns`).
-/

namespace Turns

variable {α : Type}

/-- Who takes the next turns, in order. The list is rotated by one at each. -/
def turns : ℕ → List α → List α
  | 0, _ => []
  | _ + 1, [] => []
  | n + 1, x :: xs => x :: turns n (xs ++ [x])

/-- The first ones take their turns, and go behind the others. -/
theorem turns_append (n : ℕ) (xs ys : List α) :
    turns (xs.length + n) (xs ++ ys) = xs ++ turns n (ys ++ xs) := by
  induction xs generalizing ys with
  | nil => simp
  | cons x xs ih =>
    rw [List.length_cons, Nat.add_right_comm, List.cons_append, turns, List.append_assoc, ih]
    simp

/-- Of the first ones, only so many take a turn. -/
theorem turns_of_le {n : ℕ} {xs : List α} (h : n ≤ xs.length) (ys : List α) :
    turns n (xs ++ ys) = xs.take n := by
  induction n generalizing xs ys with
  | zero => rw [List.take_zero]; cases xs ++ ys <;> rfl
  | succ n ih =>
    cases xs with
    | nil => simp at h
    | cons x xs =>
      rw [List.cons_append, turns, List.append_assoc, ih (Nat.le_of_succ_le_succ h),
        List.take_succ_cons]

/-- As many turns as there are members: everyone has one, in order. -/
theorem turns_length (l : List α) : turns l.length l = l := by
  have h := turns_of_le (le_refl l.length) []
  rwa [List.append_nil, List.take_length] at h

variable [DecidableEq α]

/-- What is before the first occurrence. -/
theorem eq_of_append_cons {xs ys zs ws : List α} {t : α} (hx : t ∉ xs) (hy : t ∉ ys)
    (h : xs ++ t :: zs = ys ++ t :: ws) : xs = ys := by
  have hlen : xs.length = ys.length := by
    have := congrArg (List.idxOf t) h
    simpa [List.idxOf_append_of_notMem hx, List.idxOf_append_of_notMem hy] using this
  exact List.append_inj_left h hlen

/-- Between two turns of `t`, everyone else has one. -/
theorem perm_of_turns {n : ℕ} {l before between behind : List α} {t : α} (hl : l.Nodup)
    (h : turns n l = before ++ t :: (between ++ t :: behind)) (ht : t ∉ between) :
    between.Perm (l.erase t) := by
  induction before generalizing n l with
  | nil =>
    -- The first turn is the one of `t`, which is then behind the others.
    cases n with
    | zero => simp [turns] at h
    | succ n =>
      cases l with
      | nil => simp [turns] at h
      | cons x xs =>
        obtain ⟨rfl, hrest⟩ : x = t ∧ turns n (xs ++ [x]) = between ++ t :: behind := by
          simpa [turns] using h
        have hx : x ∉ xs := (List.nodup_cons.mp hl).1
        rw [List.erase_cons_head]
        rcases Nat.le_total n xs.length with hle | hle
        · rw [turns_of_le hle] at hrest
          refine absurd (List.mem_of_mem_take (i := n) (l := xs) ?_) hx
          rw [hrest]
          exact List.mem_append_right _ List.mem_cons_self
        · obtain ⟨m, rfl⟩ := Nat.exists_eq_add_of_le hle
          rw [turns_append] at hrest
          cases m with
          | zero =>
            refine absurd (?_ : x ∈ xs) hx
            rw [turns, List.append_nil] at hrest
            rw [hrest]
            exact List.mem_append_right _ List.mem_cons_self
          | succ m =>
            rw [List.singleton_append, turns] at hrest
            rw [eq_of_append_cons hx ht hrest]
  | cons x before ih =>
    cases n with
    | zero => simp [turns] at h
    | succ n =>
      cases l with
      | nil => simp [turns] at h
      | cons y ys =>
        obtain ⟨rfl, hrest⟩ : y = x ∧
            turns n (ys ++ [y]) = before ++ t :: (between ++ t :: behind) := by
          simpa [turns] using h
        have hperm : (ys ++ [y]).Perm (y :: ys) := List.perm_append_singleton y ys
        exact (ih (hperm.nodup_iff.mpr hl) hrest).trans (hperm.erase t)

end Turns
