import Mathlib.Algebra.BigOperators.Group.List.Basic
import Mathlib.Data.Nat.ModEq
import Mathlib.Tactic.Ring

/-!
# Ones' complement sums

Words of `w` bits are added with the carry brought around to the lowest bit. Modulo `2^w - 1` that
is the sum of their values, and only a sum of nothing but zeros is the word zero (`fold`), so that
it does not matter in which order words are added or how the sum is cut into parts (`add_fold`,
`foldl_add`). A sum to which its own complement is added is all ones (`fold_add_complement`).
-/

namespace OnesComplement

variable {w : ℕ} {n k : ℕ} {a b : BitVec w}

/-- The sum of two words with the end-around carry. -/
def add (a b : BitVec w) : BitVec w := if a + b < b then a + b + 1 else a + b

/-- The word that a sum of the value `n` comes to. -/
def fold (w n : ℕ) : BitVec w := if n = 0 then 0 else BitVec.ofNat w ((n - 1) % (2^w - 1) + 1)

@[simp] theorem fold_zero : fold w 0 = 0 := rfl

private theorem mod_lt (hw : 0 < w) (n : ℕ) : n % (2^w - 1) + 1 < 2^w := by
  have hpos : 2 ≤ 2^w := by
    calc 2 = 2^1 := rfl
      _ ≤ 2^w := Nat.pow_le_pow_right (by omega) hw
  have hmod : n % (2^w - 1) < 2^w - 1 := Nat.mod_lt _ (by omega)
  omega

theorem toNat_fold (hw : 0 < w) :
    (fold w n).toNat = if n = 0 then 0 else (n - 1) % (2^w - 1) + 1 := by
  unfold fold
  split_ifs with hn
  · simp
  · rw [BitVec.toNat_ofNat, Nat.mod_eq_of_lt (mod_lt hw _)]

/-- A sum keeps its value modulo `2^w - 1`. -/
theorem toNat_fold_modEq (hw : 0 < w) : (fold w n).toNat ≡ n [MOD 2^w - 1] := by
  rw [toNat_fold hw]
  split_ifs with hn
  · rw [hn]
  · calc (n - 1) % (2^w - 1) + 1 ≡ n - 1 + 1 [MOD 2^w - 1] := (Nat.mod_modEq _ _).add_right 1
      _ = n := by omega

/-- Only the sum zero comes to zero. -/
theorem fold_eq_zero (hw : 0 < w) : fold w n = 0 ↔ n = 0 := by
  rw [← BitVec.toNat_inj, toNat_fold hw]
  by_cases hn : n = 0
  · simp [hn]
  · simp [hn]

/-- The word of a sum is told by its value modulo `2^w - 1`, and by whether it is zero. -/
theorem fold_congr (h : n ≡ k [MOD 2^w - 1]) (h0 : n = 0 ↔ k = 0) : fold w n = fold w k := by
  unfold fold
  by_cases hn : n = 0
  · rw [if_pos hn, if_pos (h0.mp hn)]
  · have hk : k ≠ 0 := fun hk => hn (h0.mpr hk)
    rw [if_neg hn, if_neg hk]
    have hpred : n - 1 ≡ k - 1 [MOD 2^w - 1] := by
      apply Nat.ModEq.add_right_cancel' 1
      rwa [Nat.sub_add_cancel (by omega), Nat.sub_add_cancel (by omega)]
    rw [hpred]

/-- A word is the sum of itself alone. -/
theorem fold_toNat (a : BitVec w) : fold w a.toNat = a := by
  unfold fold
  split_ifs with ha
  · exact (BitVec.toNat_inj.mp (by simpa using ha)).symm
  · have hlt : a.toNat - 1 < 2^w - 1 := by
      have := a.isLt
      omega
    rw [Nat.mod_eq_of_lt hlt, Nat.sub_add_cancel (by omega), BitVec.ofNat_toNat, BitVec.setWidth_eq]

theorem toNat_add (hw : 0 < w) :
    (add a b).toNat = if a.toNat + b.toNat < 2^w then a.toNat + b.toNat
      else a.toNat + b.toNat + 1 - 2^w := by
  have ha := a.isLt
  have hb := b.isLt
  have hone : 1 % 2^w = 1 := Nat.mod_eq_of_lt (Nat.one_lt_two_pow (by omega))
  unfold add
  by_cases hlt : a.toNat + b.toNat < 2^w
  · have hno : ¬ a + b < b := by
      rw [BitVec.lt_def, BitVec.toNat_add, Nat.mod_eq_of_lt hlt]
      omega
    rw [if_neg hno, if_pos hlt, BitVec.toNat_add, Nat.mod_eq_of_lt hlt]
  · have hsum : (a + b).toNat = a.toNat + b.toNat - 2^w := by
      rw [BitVec.toNat_add, Nat.mod_eq_sub_mod (by omega), Nat.mod_eq_of_lt (by omega)]
    have hcarry : a + b < b := by
      rw [BitVec.lt_def, hsum]
      omega
    rw [if_pos hcarry, if_neg hlt, BitVec.toNat_add, hsum]
    rw [show (1 : BitVec w).toNat = 1 by simpa using hone, Nat.mod_eq_of_lt (by omega)]
    omega

/-- The end-around carry adds the values. -/
theorem add_eq (hw : 0 < w) : add a b = fold w (a.toNat + b.toNat) := by
  have ha := a.isLt
  have hb := b.isLt
  rw [← fold_toNat (add a b)]
  apply fold_congr
  · rw [toNat_add hw]
    split_ifs with hlt
    · rfl
    · calc a.toNat + b.toNat + 1 - 2^w
          ≡ a.toNat + b.toNat + 1 - 2^w + (2^w - 1) [MOD 2^w - 1] := by simp [Nat.ModEq]
        _ = a.toNat + b.toNat := by omega
  · rw [toNat_add hw]
    split_ifs with hlt
    · rfl
    · omega

/-- Sums of parts add up to the sum of the whole. -/
theorem add_fold (hw : 0 < w) : add (fold w n) (fold w k) = fold w (n + k) := by
  rw [add_eq hw]
  apply fold_congr
  · exact (toNat_fold_modEq hw).add (toNat_fold_modEq hw)
  · have hz : ∀ i, (fold w i).toNat = 0 ↔ i = 0 := fun i =>
      ⟨fun h => (fold_eq_zero hw).mp (BitVec.toNat_inj.mp (by simpa using h)), fun h => by simp [h]⟩
    rw [Nat.add_eq_zero_iff, Nat.add_eq_zero_iff, hz, hz]

theorem add_fold_word (hw : 0 < w) : add (fold w n) b = fold w (n + b.toNat) := by
  rw [← add_fold hw, fold_toNat]

/-- The words of a list are added one after the other. -/
theorem foldl_add (hw : 0 < w) (bs : List (BitVec w)) :
    bs.foldl add (fold w n) = fold w (n + (bs.map BitVec.toNat).sum) := by
  induction bs generalizing n with
  | nil => simp
  | cons b bs ih =>
    rw [List.foldl_cons, add_fold_word hw, ih, List.map_cons, List.sum_cons, add_assoc]

/-- With its complement, a sum is all ones. -/
theorem fold_add_complement (hw : 0 < w) :
    fold w (n + (~~~ fold w n).toNat) = BitVec.allOnes w := by
  have hcompl : (~~~ fold w n).toNat = 2^w - 1 - (fold w n).toNat := BitVec.toNat_not
  have hlt := (fold w n).isLt
  have hpos : 0 < 2^w - 1 := by
    have := mod_lt hw 0
    omega
  have hall : fold w (2^w - 1) = BitVec.allOnes w := by
    rw [← BitVec.toNat_allOnes, fold_toNat]
  rw [← hall]
  apply fold_congr
  · calc n + (~~~ fold w n).toNat ≡ (fold w n).toNat + (~~~ fold w n).toNat [MOD 2^w - 1] :=
        (toNat_fold_modEq hw).symm.add_right _
      _ = 2^w - 1 := by omega
  · constructor
    · intro h
      obtain ⟨rfl, h0⟩ := Nat.add_eq_zero_iff.mp h
      have hz : (fold w 0).toNat = 0 := by simp
      omega
    · intro h
      omega

end OnesComplement
