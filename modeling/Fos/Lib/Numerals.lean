import Mathlib.Data.Nat.Digits.Lemmas

/-!
# Numerals

The numeral of a number in a base is the list of its digits, the most significant first, without
leading zeros; zero has one digit. `lowDigits` has the digits in the order in which repeated
division gives them (`lowDigits_eq`).
-/

namespace Numerals

variable {b n k d : ℕ}

/-- The digits of a number, the least significant first. -/
def lowDigits (b n : ℕ) : List ℕ := if n = 0 then [0] else Nat.digits b n

/-- The digits of a number, the most significant first. -/
def digits (b n : ℕ) : List ℕ := (lowDigits b n).reverse

/-- The number that a list of digits stands for, the most significant first. -/
def value (b : ℕ) (ds : List ℕ) : ℕ := ds.foldl (fun v d => v * b + d) 0

/-- The least digit is the remainder, and the others are those of the quotient. -/
theorem lowDigits_eq (hb : 1 < b) (n : ℕ) :
    lowDigits b n = n % b :: if n / b = 0 then [] else lowDigits b (n / b) := by
  unfold lowDigits
  by_cases hn : n = 0
  · simp [hn]
  · rw [if_neg hn, Nat.digits_def' hb (Nat.pos_of_ne_zero hn)]
    by_cases hq : n / b = 0
    · simp [hq]
    · simp [hq]

/-- A number has a digit. -/
theorem lowDigits_ne_nil (b n : ℕ) : lowDigits b n ≠ [] := by
  unfold lowDigits
  split_ifs with hn
  · exact List.cons_ne_nil _ _
  · exact Nat.digits_ne_nil_iff_ne_zero.mpr hn

/-- A digit is less than the base. -/
theorem lt_of_mem_digits (hb : 1 < b) (hd : d ∈ digits b n) : d < b := by
  unfold digits lowDigits at hd
  rw [List.mem_reverse] at hd
  split_ifs at hd
  · rw [List.mem_singleton.mp hd]
    omega
  · exact Nat.digits_lt_base hb hd

/-- Read in the other order, the digits count as in `Nat.ofDigits`. -/
theorem value_reverse (b : ℕ) (ds : List ℕ) : value b ds.reverse = Nat.ofDigits b ds := by
  induction ds with
  | nil => rfl
  | cons d ds ih =>
    unfold value at ih ⊢
    rw [List.reverse_cons, List.foldl_append, ih, List.foldl_cons, List.foldl_nil,
      Nat.ofDigits_cons, Nat.mul_comm, Nat.add_comm]

/-- The value of the numeral of a number is the number. -/
theorem value_digits (b n : ℕ) : value b (digits b n) = n := by
  unfold digits lowDigits
  rw [value_reverse]
  split_ifs with hn
  · rw [hn, Nat.ofDigits_singleton]
  · exact Nat.ofDigits_digits b n

/-- Only the numeral of zero begins with a zero. -/
theorem digits_eq_zero_of_head (h : (digits b n).head? = some 0) : digits b n = [0] := by
  unfold digits lowDigits at h ⊢
  rw [List.head?_reverse] at h
  split_ifs at h ⊢ with hn
  · rfl
  · have hne := Nat.digits_ne_nil_iff_ne_zero (b := b).mpr hn
    rw [List.getLast?_eq_getLast_of_ne_nil hne] at h
    exact absurd (Option.some.inj h) (Nat.getLast_digit_ne_zero b hn)

/-- How many digits a number has. -/
theorem length_digits_le_iff (hb : 1 < b) (hk : 0 < k) : (digits b n).length ≤ k ↔ n < b ^ k := by
  unfold digits lowDigits
  rw [List.length_reverse]
  split_ifs with hn
  · rw [hn]
    exact iff_of_true hk (Nat.pow_pos (by omega))
  · exact Nat.digits_length_le_iff hb n

end Numerals
