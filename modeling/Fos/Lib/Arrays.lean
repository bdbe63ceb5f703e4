import Fos.Lib.Loops
import Mathlib.Algebra.Order.Group.Int
import Mathlib.Data.List.GetD
import Mathlib.Logic.Function.Basic

/-!
# Arrays with bounds

An array is its size and what its cells hold. A pointer into it is an offset, which may be any
integer; reading or writing at an offset outside of the array is `none`. `Arr.overwrite` is what
writing a list from an offset on leaves (`Arr.writeAll_eq`), and `Arr.flip` is what swapping the
cells of an interval, from its ends to its middle, leaves (`repeatUntil_flip`).
-/

namespace Arrays

open Loops Function

/-- An array. -/
@[ext]
structure Arr (α : Type) where
  /-- The number of cells. -/
  size : ℕ
  /-- What the cells hold; only those at the offsets from `0` to `size - 1` can be reached. -/
  cell : ℤ → α

namespace Arr

variable {α : Type}

/-- An offset that is inside. -/
def Inside (b : Arr α) (i : ℤ) : Prop := 0 ≤ i ∧ i < b.size

instance (b : Arr α) (i : ℤ) : Decidable (b.Inside i) :=
  inferInstanceAs (Decidable (0 ≤ i ∧ i < b.size))

/-- Read a cell. -/
def read (b : Arr α) (i : ℤ) : Option α := if b.Inside i then some (b.cell i) else none

/-- Write a cell. -/
def write (b : Arr α) (i : ℤ) (x : α) : Option (Arr α) :=
  if b.Inside i then some { b with cell := update b.cell i x } else none

/-- Write the cells from `i` on, one after the other. -/
def writeAll (b : Arr α) (i : ℤ) : List α → Option (Arr α)
  | [] => some b
  | x :: xs => (b.write i x).bind fun b => b.writeAll (i + 1) xs

/-- The array with a list in the cells from `i` on. -/
def overwrite (b : Arr α) (i : ℤ) (xs : List α) : Arr α :=
  { b with cell := fun k => if i ≤ k then xs.getD (k - i).toNat (b.cell k) else b.cell k }

/-- The array with the cells from `i` to `j` in the opposite order. -/
def flip (b : Arr α) (i j : ℤ) : Arr α :=
  { b with cell := fun k => if i ≤ k ∧ k ≤ j then b.cell (i + j - k) else b.cell k }

/-- The array with two cells swapped. -/
def swap (b : Arr α) (i j : ℤ) : Arr α :=
  { b with cell := update (update b.cell j (b.cell i)) i (b.cell j) }

variable {b : Arr α} {i j k : ℤ} {x : α} {xs ys : List α}

theorem flip_cell : (b.flip i j).cell k = if i ≤ k ∧ k ≤ j then b.cell (i + j - k) else b.cell k :=
  rfl

theorem read_of_inside (h : b.Inside i) : b.read i = some (b.cell i) := if_pos h

theorem write_of_inside (h : b.Inside i) :
    b.write i x = some { b with cell := update b.cell i x } := if_pos h

theorem write_of_not_inside (h : ¬ b.Inside i) : b.write i x = none := if_neg h

/-- Before and behind what is overwritten, the cells are as before. -/
theorem overwrite_cell_of_outside (h : k < i ∨ i + xs.length ≤ k) :
    (b.overwrite i xs).cell k = b.cell k := by
  unfold overwrite
  dsimp only
  split_ifs with hik
  · apply List.getD_eq_default
    omega
  · rfl

/-- What a list leaves in one of the cells. -/
theorem overwrite_cell_add {n : ℕ} (h : n < xs.length) :
    (b.overwrite i xs).cell (i + n) = xs[n] := by
  have hoffset : (i + n - i).toNat = n := by omega
  unfold overwrite
  dsimp only
  rw [if_pos (by omega), hoffset]
  exact List.getD_eq_getElem _ _ h

@[simp] theorem overwrite_nil : b.overwrite i [] = b := by
  refine Arr.ext rfl (funext fun k => ?_)
  exact overwrite_cell_of_outside (by simp; omega)

/-- One cell, and then the others. -/
theorem overwrite_cons : overwrite { b with cell := update b.cell i x } (i + 1) xs =
    b.overwrite i (x :: xs) := by
  unfold overwrite
  refine congrArg _ (funext fun k => ?_)
  dsimp only
  rcases lt_trichotomy k i with hki | rfl | hki
  · rw [if_neg (by omega), if_neg (by omega), update_of_ne (by omega)]
  · rw [if_neg (by omega), if_pos le_rfl, update_self]
    simp
  · have hoffset : (k - i).toNat = (k - (i + 1)).toNat + 1 := by omega
    rw [if_pos (by omega), if_pos (by omega), update_of_ne (by omega), hoffset, List.getD_cons_succ]

/-- What a write leaves. -/
theorem overwrite_singleton : b.overwrite i [x] = { b with cell := update b.cell i x } := by
  rw [← overwrite_cons, overwrite_nil]

/-- What has just been written is read. -/
theorem read_overwrite_singleton (h : b.Inside i) : (b.overwrite i [x]).read i = some x := by
  rw [overwrite_singleton]
  exact (if_pos h).trans (congrArg some (update_self i x b.cell))

/-- Writing leaves the size. -/
@[simp] theorem overwrite_size : (b.overwrite i xs).size = b.size := rfl

/-- Two lists, one behind the other. -/
theorem overwrite_append : (b.overwrite i xs).overwrite (i + xs.length) ys =
    b.overwrite i (xs ++ ys) := by
  unfold overwrite
  refine congrArg _ (funext fun k => ?_)
  dsimp only
  by_cases hk : i + xs.length ≤ k
  · have hoffset : (k - (i + xs.length)).toNat = (k - i).toNat - xs.length := by omega
    rw [if_pos hk, if_pos (by omega), if_pos (by omega),
      List.getD_eq_default xs _ (by omega), List.getD_append_right _ _ _ _ (by omega), hoffset]
  · rw [if_neg hk]
    split_ifs with hik
    · rw [List.getD_append _ _ _ _ (by omega)]
    · rfl

/-- Writing a list succeeds exactly if all its cells are inside. -/
theorem writeAll_eq (hne : xs ≠ []) : b.writeAll i xs =
    if 0 ≤ i ∧ i + xs.length ≤ b.size then some (b.overwrite i xs) else none := by
  induction xs generalizing b i with
  | nil => exact absurd rfl hne
  | cons x xs ih =>
    rw [writeAll]
    by_cases hi : b.Inside i
    · obtain ⟨h0, hsize⟩ := hi
      rw [write_of_inside ⟨h0, hsize⟩, Option.bind_some]
      cases xs with
      | nil =>
        rw [if_pos ⟨h0, by simp; omega⟩, ← overwrite_cons, overwrite_nil, writeAll]
      | cons y ys =>
        rw [ih (List.cons_ne_nil _ _), overwrite_cons]
        refine if_congr ?_ rfl rfl
        simp only [List.length_cons]
        omega
    · rw [write_of_not_inside hi, Option.bind_none, if_neg]
      intro h
      apply hi
      constructor
      · exact h.1
      · have hsize := h.2
        simp only [List.length_cons] at hsize
        omega

/-- A swap of the ends, and then the cells between them. -/
theorem flip_swap (hij : i + 1 < j - 1) : (b.swap i j).flip (i + 1) (j - 1) = b.flip i j := by
  unfold flip swap
  refine congrArg _ (funext fun k => ?_)
  dsimp only
  by_cases hinner : i + 1 ≤ k ∧ k ≤ j - 1
  · have hmirror : i + 1 + (j - 1) - k = i + j - k := by omega
    rw [if_pos hinner, if_pos (by omega), hmirror, update_of_ne (by omega), update_of_ne (by omega)]
  · rw [if_neg hinner]
    by_cases hki : k = i
    · rw [hki, update_self, if_pos (by omega), add_sub_cancel_left]
    · rw [update_of_ne hki]
      by_cases hkj : k = j
      · rw [hkj, update_self, if_pos (by omega), add_sub_cancel_right]
      · rw [update_of_ne hkj, if_neg (by omega)]

/-- A swap of the ends is all, when there is at most one cell between them. -/
theorem swap_eq_flip (hij : i ≤ j) (hmid : ¬ i + 1 < j - 1) : b.swap i j = b.flip i j := by
  unfold flip swap
  refine congrArg _ (funext fun k => ?_)
  by_cases hki : k = i
  · rw [hki, update_self, if_pos (by omega), add_sub_cancel_left]
  · rw [update_of_ne hki]
    by_cases hkj : k = j
    · rw [hkj, update_self, if_pos (by omega), add_sub_cancel_right]
    · rw [update_of_ne hkj]
      split_ifs with hk
      · -- The one cell in the middle.
        have hmirror : i + j - k = k := by omega
        rw [hmirror]
      · rfl

/-- A list in the cells from `i` on, in the opposite order. -/
theorem flip_overwrite (hj : j = i + xs.length - 1) :
    (b.overwrite i (xs ++ ys)).flip i j = b.overwrite i (xs.reverse ++ ys) := by
  refine Arr.ext rfl (funext fun k => ?_)
  rw [flip_cell]
  split_ifs with hk
  · -- The cell `k` holds what its mirror image held.
    obtain ⟨n, rfl⟩ : ∃ n : ℕ, k = i + n := ⟨(k - i).toNat, by omega⟩
    have hn : n < xs.length := by omega
    have hmirror : i + j - (i + n) = i + (xs.length - 1 - n : ℕ) := by omega
    rw [hmirror, overwrite_cell_add (by simp; omega), overwrite_cell_add (by simp; omega),
      List.getElem_append_left (by omega), List.getElem_append_left (by simpa using hn),
      List.getElem_reverse]
  · unfold overwrite
    dsimp only
    split_ifs with hik
    · have hlen : xs.length ≤ (k - i).toNat := by omega
      rw [List.getD_append_right _ _ _ _ hlen,
        List.getD_append_right _ _ _ _ (by rwa [List.length_reverse]), List.length_reverse]
    · rfl

end Arr

/-- A loop that swaps the cells at its two pointers, and moves them towards each other until they
meet or have passed each other, brings the cells between them into the opposite order. -/
theorem repeatUntil_flip {α : Type} {round : Arr α × ℤ × ℤ → Option ((Arr α × ℤ × ℤ) ⊕ Arr α)}
    (hround : ∀ (b : Arr α) (j i : ℤ), b.Inside i → b.Inside j → round (b, j, i) =
      if i + 1 < j - 1 then some (.inl (b.swap i j, j - 1, i + 1)) else some (.inr (b.swap i j)))
    {b : Arr α} {i j : ℤ} (hi : b.Inside i) (hj : b.Inside j) (hij : i ≤ j) :
    repeatUntil round (b, j, i) = some (b.flip i j) := by
  -- The distance of the pointers gets smaller in every round.
  induction hn : (j - i).toNat using Nat.strongRecOn generalizing b i j with
  | ind n ih =>
    by_cases hmid : i + 1 < j - 1
    · rw [repeatUntil_of_inl ((hround b j i hi hj).trans (if_pos hmid)), ← Arr.flip_swap hmid]
      obtain ⟨hi0, -⟩ := hi
      obtain ⟨-, hjsize⟩ := hj
      apply ih ((j - 1) - (i + 1)).toNat
      · omega
      · exact ⟨by omega, lt_trans (by omega) hjsize⟩
      · exact ⟨by omega, lt_trans (by omega) hjsize⟩
      · omega
      · rfl
    · rw [repeatUntil_of_inr ((hround b j i hi hj).trans (if_neg hmid)), Arr.swap_eq_flip hij hmid]

end Arrays
