import Mathlib.Data.BitVec
import Mathlib.Data.Nat.Factors
import Mathlib.Dynamics.PeriodicPts.Defs
import Mathlib.Tactic.Ring

/-!
# Feedback shift registers

A register of `w` bits is shifted to the right, and where a one falls out, the taps are flipped.
What `n` shifts do is computed with about `2 log n` products (`jump_eq`): the product
`times taps y x` is what the register comes to from `x` in as many shifts as it takes from the
highest bit to `y` (`times_iterate`). When the register comes back to `x` in `2^w - 1` shifts and in
no proper divisor of that, it comes from `x` to every word but zero (`existsUnique_iterate_mem`).
-/

namespace ShiftRegisters

open Function

variable {w : ℕ} {taps x y z : BitVec w} {n : ℕ}

/-- One shift. -/
def register (taps x : BitVec w) : BitVec w := x >>> 1 ^^^ if x.getLsbD 0 then taps else 0#w

/-- Horner's scheme over the low `i` bits of `y`, from the lowest on: `register` stands for the
indeterminate. -/
def horner (taps y x : BitVec w) : ℕ → BitVec w
  | 0 => 0#w
  | i + 1 => register taps (horner taps y x i) ^^^ if y.getLsbD i then x else 0#w

/-- The product. -/
def times (taps y x : BitVec w) : BitVec w := horner taps y x w

/-- `n` shifts of `x`, for `n < 2^bits`, where `y` stands for one: square and multiply. -/
def jump (taps : BitVec w) : ℕ → BitVec w → ℕ → BitVec w → BitVec w
  | 0, _, _, x => x
  | bits + 1, y, n, x =>
    jump taps bits (times taps y y) (n / 2) (if n % 2 = 1 then times taps y x else x)

@[simp] theorem register_zero : register taps 0#w = 0#w := by simp [register]

theorem register_xor : register taps (x ^^^ y) = register taps x ^^^ register taps y := by
  unfold register
  simp only [BitVec.getLsbD_xor, BitVec.ushiftRight_xor_distrib]
  cases x.getLsbD 0 with
  | false => simp [BitVec.xor_assoc]
  | true =>
    cases y.getLsbD 0 with
    | false =>
      simp only [Bool.xor_false, if_true, Bool.false_eq_true, if_false, BitVec.xor_zero]
      ac_rfl
    | true =>
      -- The taps are flipped twice.
      have hswap : x >>> 1 ^^^ taps ^^^ (y >>> 1 ^^^ taps) =
          x >>> 1 ^^^ y >>> 1 ^^^ (taps ^^^ taps) := by ac_rfl
      simp [hswap]

/-- With the highest tap, only zero is shifted to zero. -/
theorem register_ne_zero (htaps : taps.getLsbD (w - 1) = true) (hx : x ≠ 0#w) :
    register taps x ≠ 0#w := by
  intro h
  have hbit : ∀ i, x.getLsbD (1 + i) = (x.getLsbD 0 && taps.getLsbD i) := fun i => by
    have hi := congrArg (fun y => y.getLsbD i) h
    unfold register at hi
    cases h0 : x.getLsbD 0 with
    | false => simpa [h0] using hi
    | true => simpa [h0] using hi
  -- Nothing is shifted into the highest place.
  have h0 : x.getLsbD 0 = false := by
    have hlast := hbit (w - 1)
    rw [htaps, BitVec.getLsbD_of_ge x _ (by omega), Bool.and_true] at hlast
    exact hlast.symm
  refine hx (BitVec.eq_of_getLsbD_eq fun i _ => ?_)
  cases i with
  | zero => simpa using h0
  | succ i => simpa [h0, Nat.add_comm] using hbit i

@[simp] theorem horner_zero (i : ℕ) : horner taps y 0#w i = 0#w := by
  induction i with
  | zero => rfl
  | succ i ih => simp [horner, ih]

theorem horner_xor (i : ℕ) :
    horner taps y (x ^^^ z) i = horner taps y x i ^^^ horner taps y z i := by
  induction i with
  | zero => simp [horner]
  | succ i ih =>
    simp only [horner, ih, register_xor]
    split_ifs
    · ac_rfl
    · simp

theorem horner_register (i : ℕ) :
    horner taps y (register taps x) i = register taps (horner taps y x i) := by
  induction i with
  | zero => simp [horner]
  | succ i ih =>
    simp only [horner, ih, register_xor]
    split_ifs
    · rfl
    · simp

theorem horner_horner (i j : ℕ) :
    horner taps y (horner taps z x i) j = horner taps z (horner taps y x j) i := by
  induction i with
  | zero => simp [horner]
  | succ i ih =>
    simp only [horner, horner_xor, horner_register, ih]
    split_ifs
    · rfl
    · simp

/-- The highest bit stands for one. -/
theorem horner_highest {i : ℕ} (hi : i ≤ w) :
    horner taps y (BitVec.twoPow w (w - 1)) i = y <<< (w - i) := by
  induction i with
  | zero => ext j hj; simp [horner]
  | succ i ih =>
    have hlow : (y <<< (w - i)).getLsbD 0 = false := by
      simp only [BitVec.getLsbD_shiftLeft, decide_eq_true (show 0 < w - i by omega), Bool.not_true,
        Bool.and_false, Bool.false_and]
    rw [horner, ih (by omega), register, hlow, if_neg Bool.false_ne_true, BitVec.xor_zero]
    -- Bit `i` of `y` comes in at the highest place, and the others move down by one.
    refine BitVec.eq_of_getLsbD_eq fun j hj => ?_
    have hone : (if y.getLsbD i then BitVec.twoPow w (w - 1) else 0#w).getLsbD j =
        (y.getLsbD i && decide (w - 1 = j)) := by
      cases y.getLsbD i with
      | false => simp
      | true => simp [BitVec.getLsbD_twoPow]; omega
    simp only [BitVec.getLsbD_xor, BitVec.getLsbD_ushiftRight, BitVec.getLsbD_shiftLeft, hone]
    by_cases hlast : w - 1 = j
    · have hout : ¬ 1 + j < w := by omega
      have hin : ¬ j < w - (i + 1) := by omega
      have hbit : j - (w - (i + 1)) = i := by omega
      simp [hlast, hout, hj, hin, hbit]
    · have hin : 1 + j < w := by omega
      have hbit : 1 + j - (w - i) = j - (w - (i + 1)) := by omega
      have hlt : 1 + j < w - i ↔ j < w - (i + 1) := by omega
      simp [hlast, hin, hj, hbit, hlt]

theorem times_highest : times taps y (BitVec.twoPow w (w - 1)) = y := by
  simp [times, horner_highest le_rfl]

/-- The product does not depend on the order. -/
theorem times_comm : times taps y x = times taps x y := by
  calc times taps y x = times taps y (times taps x (BitVec.twoPow w (w - 1))) := by
        rw [times_highest]
    _ = times taps x (times taps y (BitVec.twoPow w (w - 1))) := horner_horner w w
    _ = times taps x y := by rw [times_highest]

theorem times_register_iterate (n : ℕ) :
    times taps y ((register taps)^[n] x) = (register taps)^[n] (times taps y x) := by
  induction n with
  | zero => rfl
  | succ n ih =>
    rw [iterate_succ_apply', iterate_succ_apply', ← ih]
    exact horner_register w

/-- A factor that the highest bit comes to in `n` shifts stands for `n` shifts. -/
theorem times_iterate (hy : y = (register taps)^[n] (BitVec.twoPow w (w - 1))) :
    times taps y x = (register taps)^[n] x := by
  rw [times_comm, hy, times_register_iterate, times_highest]

/-- Square and multiply computes the iterate. -/
theorem jump_eq {m : ℕ} : ∀ (bits : ℕ) {y : BitVec w} {n : ℕ} (x : BitVec w),
    y = (register taps)^[m] (BitVec.twoPow w (w - 1)) → n < 2^bits →
      jump taps bits y n x = (register taps)^[m * n] x := by
  intro bits
  induction bits generalizing m with
  | zero =>
    intro y n x _ hn
    obtain rfl : n = 0 := by simpa using hn
    rfl
  | succ bits ih =>
    intro y n x hy hn
    have hsq : times taps y y = (register taps)^[m + m] (BitVec.twoPow w (w - 1)) := by
      rw [times_iterate hy, iterate_add_apply, ← hy]
    have hhalf : n / 2 < 2^bits := by rw [pow_succ] at hn; omega
    have hshifts : (m + m) * (n / 2) + m * (n % 2) = m * n := by
      calc (m + m) * (n / 2) + m * (n % 2) = m * (2 * (n / 2) + n % 2) := by ring
        _ = m * n := by rw [Nat.div_add_mod]
    rw [jump, ih _ hsq hhalf, ← hshifts]
    split_ifs with hodd
    · rw [times_iterate hy, ← iterate_add_apply, hodd, mul_one]
    · rw [show n % 2 = 0 by omega, mul_zero, add_zero]

/-! ## Periods -/

section Periods

variable {α : Type} {f : α → α} {a : α}

/-- A period whose quotients by primes are none is the smallest. -/
theorem minimalPeriod_eq (h : f^[n] a = a)
    (hp : ∀ p, p.Prime → p ∣ n → f^[n / p] a ≠ a) : minimalPeriod f a = n := by
  have hdvd : minimalPeriod f a ∣ n := IsPeriodicPt.minimalPeriod_dvd h
  by_contra hne
  obtain ⟨k, hk⟩ := hdvd
  have hk1 : k ≠ 1 := by
    rintro rfl
    exact hne (by omega)
  obtain ⟨p, hprime, q, hq⟩ := Nat.exists_prime_and_dvd hk1
  refine hp p hprime ⟨minimalPeriod f a * q, by rw [hk, hq]; ring⟩ ?_
  have hdiv : n / p = minimalPeriod f a * q := by
    rw [hk, hq, mul_left_comm]
    exact Nat.mul_div_cancel_left _ hprime.pos
  exact (isPeriodicPt_minimalPeriod f a).trans_dvd ⟨q, hdiv⟩

/-- An orbit that is as long as a set is large that it stays in passes each element of it once. -/
theorem existsUnique_iterate_mem {S : Finset α} (hmap : ∀ b ∈ S, f b ∈ S) (ha : a ∈ S)
    (hper : minimalPeriod f a = S.card) {b : α} (hb : b ∈ S) : ∃! i, i < S.card ∧ f^[i] a = b := by
  have hmem : ∀ i, f^[i] a ∈ S := fun i => by
    induction i with
    | zero => exact ha
    | succ i ih =>
      rw [iterate_succ_apply']
      exact hmap _ ih
  have hinj : Set.InjOn (f^[·] a) (Finset.range S.card) := by
    rw [Finset.coe_range, ← hper]
    exact iterate_injOn_Iio_minimalPeriod
  obtain ⟨i, hi, rfl⟩ := Finset.surj_on_of_inj_on_of_card_le (fun i _ => f^[i] a)
    (fun i _ => hmem i) (fun i j hi hj heq => hinj hi hj heq) (Finset.card_range _).ge b hb
  refine ⟨i, ⟨Finset.mem_range.mp hi, rfl⟩, fun j hj => hinj (by simpa using hj.1) hi hj.2⟩

end Periods

end ShiftRegisters
