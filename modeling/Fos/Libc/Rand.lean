import Fos.Lib.ShiftRegisters
import Mathlib.Data.FinEnum
import Mathlib.Tactic.NormNum.Prime

/-!
# `fos_rand`, from `libc/lib.c`

The random numbers are the states of a feedback shift register of 32 bits. Its taps make it pass
every word but zero before one comes again (`fos_rand_period`), from any call on.
-/

namespace Fos

open Function ShiftRegisters

/-- The static variables of `fos_rand`. -/
structure Rand where
  lfsr : BitVec 32
  period : BitVec 32

/-- The static variables when the system starts. -/
def Rand.init : Rand := ⟨0x14b6bc3c, 0⟩

/-- `fos_rand`. The `period` is an `int` that nothing reads; it wraps here, where C leaves open what
happens. -/
def fosRand (s : Rand) : BitVec 32 × Rand :=
  let lfsr := s.lfsr >>> 1 ^^^ (0 - (s.lfsr &&& 1) &&& 0xd0000001)
  (lfsr, ⟨lfsr, s.period + 1⟩)

/-- What the `n`-th call returns, counted from 0. -/
def randAt (n : ℕ) : BitVec 32 := (fosRand ((fun s => (fosRand s).2)^[n] Rand.init)).1

/-- The taps. -/
abbrev randTaps : BitVec 32 := 0xd0000001

/-- A call shifts the register. -/
theorem fosRand_eq (s : Rand) : fosRand s = (register randTaps s.lfsr,
    ⟨register randTaps s.lfsr, s.period + 1⟩) := by
  have hmask : (0 - (s.lfsr &&& 1) &&& randTaps) = if s.lfsr.getLsbD 0 then randTaps else 0#32 := by
    have hand : s.lfsr &&& 1#32 = BitVec.setWidth 32 (BitVec.ofBool (s.lfsr.getLsbD 0)) :=
      BitVec.and_one_eq_setWidth_ofBool_getLsbD
    rw [show (1 : BitVec 32) = 1#32 from rfl, hand]
    cases s.lfsr.getLsbD 0 <;> decide
  simp only [fosRand, register, ← hmask]

theorem randAt_eq (n : ℕ) : randAt n = (register randTaps)^[n + 1] Rand.init.lfsr := by
  have hlfsr : ((fun s => (fosRand s).2)^[n] Rand.init).lfsr =
      (register randTaps)^[n] Rand.init.lfsr := by
    induction n with
    | zero => rfl
    | succ n ih => rw [iterate_succ_apply', iterate_succ_apply', ← ih, fosRand_eq]
  rw [randAt, fosRand_eq, hlfsr, iterate_succ_apply']

theorem register_iterate (n : ℕ) (hn : n < 2^32) (x : BitVec 32) :
    (register randTaps)^[n] x =
      jump randTaps 32 (register randTaps (BitVec.twoPow 32 31)) n x := by
  have hone : register randTaps (BitVec.twoPow 32 31) =
      (register randTaps)^[1] (BitVec.twoPow 32 (32 - 1)) := rfl
  rw [jump_eq 32 x hone hn, one_mul]

theorem minimalPeriod_init : minimalPeriod (register randTaps) Rand.init.lfsr = 2^32 - 1 := by
  refine minimalPeriod_eq ?_ fun p hprime hdvd => ?_
  · rw [register_iterate _ (by norm_num)]
    decide +kernel
  · have hp : p = 3 ∨ p = 5 ∨ p = 17 ∨ p = 257 ∨ p = 65537 := by
      have hfactors : 2^32 - 1 = 3 * (5 * (17 * (257 * 65537))) := by norm_num
      rw [hfactors, hprime.dvd_mul, hprime.dvd_mul, hprime.dvd_mul, hprime.dvd_mul,
        Nat.prime_dvd_prime_iff_eq hprime (by norm_num),
        Nat.prime_dvd_prime_iff_eq hprime (by norm_num),
        Nat.prime_dvd_prime_iff_eq hprime (by norm_num),
        Nat.prime_dvd_prime_iff_eq hprime (by norm_num),
        Nat.prime_dvd_prime_iff_eq hprime (by norm_num)] at hdvd
      exact hdvd
    rw [register_iterate _ (by have := Nat.div_le_self (2^32 - 1) p; omega)]
    rcases hp with rfl | rfl | rfl | rfl | rfl
    · decide +kernel
    · decide +kernel
    · decide +kernel
    · decide +kernel
    · decide +kernel

/-- From any call on, `2^32 - 1` calls return every word but zero, each once, and then the same
words come again. -/
theorem fos_rand_period (n : ℕ) :
    (∀ v ≠ 0, ∃! i, i < 2^32 - 1 ∧ randAt (n + i) = v) ∧ randAt n ≠ 0 ∧
      randAt (n + (2^32 - 1)) = randAt n := by
  have hmap : ∀ x : BitVec 32, x ≠ 0 → register randTaps x ≠ 0 := fun x hx =>
    register_ne_zero (by decide) hx
  have hperiodic : Rand.init.lfsr ∈ periodicPts (register randTaps) :=
    minimalPeriod_pos_iff_mem_periodicPts.mp (by rw [minimalPeriod_init]; norm_num)
  have hfrom : ∀ i, randAt (n + i) = (register randTaps)^[i] (randAt n) := fun i => by
    rw [randAt_eq, randAt_eq, ← iterate_add_apply]
    congr 1
    ring
  have hper : minimalPeriod (register randTaps) (randAt n) = 2^32 - 1 := by
    rw [randAt_eq, minimalPeriod_apply_iterate hperiodic, minimalPeriod_init]
  have hne : randAt n ≠ 0 := by
    rw [randAt_eq]
    induction n + 1 with
    | zero => decide
    | succ i ih =>
      rw [iterate_succ_apply']
      exact hmap _ ih
  refine ⟨fun v hv => ?_, hne, ?_⟩
  · have hcard : (Finset.univ.erase (0 : BitVec 32)).card = 2^32 - 1 := by
      rw [Finset.card_erase_of_mem (Finset.mem_univ _), Finset.card_univ,
        ← FinEnum.card_eq_fintypeCard, FinEnum.card_bitVec]
    simp only [hfrom]
    rw [← hcard]
    exact existsUnique_iterate_mem (fun x hx => by simpa using hmap x (by simpa using hx))
      (by simpa using hne) (hper.trans hcard.symm) (by simpa using hv)
  · rw [hfrom, ← hper, iterate_minimalPeriod]

end Fos
