import Fos.Kernel.PrioSched
import Mathlib.Tactic.IntervalCases

/-!
# The bitmap of the ready queues

Bit `p % 8` of the byte `c[p / 8]` says whether the ready list of priority `p` has a task, and bit
`b` of `y` whether `c[b]` has a bit set (`BitmapOk`). `bitmap_set` and `bitmap_clear` keep this, and
`bitmap_get` finds the smallest priority that has a task, because the table `bitmap` has the place
of the lowest bit set of every byte but zero (`bitmap_lowest`).
-/

namespace Fos

open Function

/-- The bitmap agrees with the priorities that have a ready task. -/
structure BitmapOk (y : BitVec 8) (c : ℕ → BitVec 8) (ready : ℕ → Prop) : Prop where
  /-- A bit for each priority. -/
  bit : ∀ p < SYSTEM_WORD, (c (p / 8)).getLsbD (p % 8) = true ↔ ready p
  /-- A bit for each byte. -/
  byte : ∀ b < 8, y.getLsbD b = true ↔ c b ≠ 0
  /-- The bytes above `SYSTEM_WORD` are unused. -/
  unused : ∀ b < 8, 4 ≤ b → c b = 0

/-- The place of a priority in its byte. -/
theorem and_seven (p : ℕ) : p &&& 0x7 = p % 8 := Nat.and_two_pow_sub_one_eq_mod p 3

/-- The byte of a priority. -/
theorem shiftRight_three (p : ℕ) : p >>> 3 = p / 8 := Nat.shiftRight_eq_div_pow p 3

/-- The single bit that the source shifts into place. -/
theorem getLsbD_one_shiftLeft {w : ℕ} (a i : ℕ) (hi : i < w) :
    (1#w <<< a).getLsbD i = decide (i = a) := by
  have hw : 0 < w := Nat.zero_lt_of_lt hi
  simp only [BitVec.getLsbD_shiftLeft, BitVec.getLsbD_one, hi, hw, decide_true, Bool.true_and]
  rcases lt_trichotomy i a with h | h | h
  · simp [h, h.ne]
  · simp [h]
  · simp [h.ne', Nat.not_lt.mpr h.le, show i - a ≠ 0 by omega]

/-- A byte is not zero when one of its bits is set. -/
theorem ne_zero_iff_getLsbD (x : BitVec 8) : x ≠ 0 ↔ ∃ i < 8, x.getLsbD i = true := by
  constructor
  · intro hx
    by_contra hno
    push Not at hno
    refine hx (BitVec.eq_of_getLsbD_eq fun i hi => ?_)
    simpa using hno i hi
  · rintro ⟨i, -, hi⟩ rfl
    simp at hi

/-- The table has the lowest bit set of every byte but zero. -/
theorem bitmap_lowest : ∀ n < 256, n ≠ 0 → bitmap.getD n 0 < 8 ∧
    n.testBit (bitmap.getD n 0) = true ∧ ∀ j < bitmap.getD n 0, n.testBit j = false := by
  decide +kernel

/-- The table on a byte, in the words of `BitVec`. -/
theorem bitmap_getLsbD {x : BitVec 8} (hx : x ≠ 0) :
    bitmap.getD x.toNat 0 < 8 ∧ x.getLsbD (bitmap.getD x.toNat 0) = true ∧
      ∀ j < bitmap.getD x.toNat 0, x.getLsbD j = false := by
  have hne : x.toNat ≠ 0 := fun e => hx (BitVec.eq_of_toNat_eq (by simpa using e))
  exact bitmap_lowest x.toNat x.isLt hne

/-- The table has no other places than those of a byte. -/
theorem bitmap_lt_eight (x : BitVec 8) : bitmap.getD x.toNat 0 < 8 := by
  by_cases hx : x = 0
  · rw [hx]
    decide
  · exact (bitmap_getLsbD hx).1

variable {k : Kernel} {ready ready' : ℕ → Prop} {p : ℕ}

/-- Only the priorities below `SYSTEM_WORD` matter. -/
theorem BitmapOk.congr {y : BitVec 8} {c : ℕ → BitVec 8} (h : BitmapOk y c ready)
    (hr : ∀ p < SYSTEM_WORD, ready' p ↔ ready p) : BitmapOk y c ready' where
  bit p hp := (h.bit p hp).trans (hr p hp).symm
  byte := h.byte
  unused := h.unused

/-- The bytes are given by the priorities that are marked. -/
theorem BitmapOk.unique {y y' : BitVec 8} {c c' : ℕ → BitVec 8} (h : BitmapOk y c ready)
    (h' : BitmapOk y' c' ready) : y' = y ∧ ∀ b < 8, c' b = c b := by
  have hc : ∀ b < 8, c' b = c b := by
    intro b hb
    rcases Nat.lt_or_ge b 4 with h4 | h4
    · refine BitVec.eq_of_getLsbD_eq fun i hi => Bool.eq_iff_iff.mpr ?_
      have hp : 8 * b + i < SYSTEM_WORD := by
        unfold SYSTEM_WORD
        omega
      have hdiv : (8 * b + i) / 8 = b := by omega
      have hmod : (8 * b + i) % 8 = i := by omega
      have hbit := (h'.bit _ hp).trans (h.bit _ hp).symm
      rwa [hdiv, hmod] at hbit
    · rw [h'.unused b hb h4, h.unused b hb h4]
  refine ⟨BitVec.eq_of_getLsbD_eq fun b hb => Bool.eq_iff_iff.mpr ?_, hc⟩
  rw [h'.byte b hb, h.byte b hb, hc b hb]

/-- `bitmap_set` marks a priority. -/
theorem bitmapSet_spec (h : BitmapOk k.y k.c ready) (hp : p < SYSTEM_WORD) :
    ∃ k', k.bitmapSet p = some k' ∧ k'.toVars = k.toVars ∧ k'.heap = k.heap ∧
      BitmapOk k'.y k'.c fun i => i = p ∨ ready i := by
  have hp' : p < 32 := hp
  have hb : p / 8 < 8 := by omega
  refine ⟨{ k with
    c := update k.c (p / 8) (k.c (p / 8) ||| 1#8 <<< (p % 8))
    y := k.y ||| 1#8 <<< (p / 8) }, ?_, rfl, rfl, ?_⟩
  · simp [Kernel.bitmapSet, and_seven, shiftRight_three, hb]
  -- The byte that gets the bit is not zero any more.
  have hne : k.c (p / 8) ||| 1#8 <<< (p % 8) ≠ 0 := by
    rw [ne_zero_iff_getLsbD]
    refine ⟨p % 8, Nat.mod_lt _ (by norm_num), ?_⟩
    simp [getLsbD_one_shiftLeft _ _ (Nat.mod_lt p (by norm_num : 0 < 8))]
  constructor
  · intro i hi
    simp only [update_apply]
    -- In the byte of `p` the bit of `p` is new; every other bit is as before.
    split_ifs with hib
    · rw [BitVec.getLsbD_or, getLsbD_one_shiftLeft _ _ (Nat.mod_lt i (by norm_num : 0 < 8)),
        ← hib, Bool.or_eq_true, h.bit i hi, decide_eq_true_eq]
      have : i % 8 = p % 8 ↔ i = p := by omega
      rw [this, or_comm]
    · rw [h.bit i hi]
      have : i ≠ p := fun e => hib (by rw [e])
      simp [this]
  · intro b hb8
    simp only [update_apply]
    rw [BitVec.getLsbD_or, getLsbD_one_shiftLeft _ _ hb8, Bool.or_eq_true, h.byte b hb8,
      decide_eq_true_eq]
    split_ifs with hbp
    · exact iff_of_true (Or.inr hbp) hne
    · simp [hbp]
  -- The bits that stand for no byte stay clear, for `p` is below 32.
  · intro b hb8 hb4
    have : b ≠ p / 8 := by omega
    simp only [update_apply, this, if_false]
    exact h.unused b hb8 hb4

/-- `bitmap_clear` unmarks a priority. -/
theorem bitmapClear_spec (h : BitmapOk k.y k.c ready) (hp : p < SYSTEM_WORD) :
    ∃ k', k.bitmapClear p = some k' ∧ k'.toVars = k.toVars ∧ k'.heap = k.heap ∧
      BitmapOk k'.y k'.c fun i => i ≠ p ∧ ready i := by
  have hp' : p < 32 := hp
  have hb : p / 8 < 8 := by omega
  generalize hx : k.c (p / 8) &&& ~~~(1#8 <<< (p % 8)) = x
  generalize hc : update k.c (p / 8) x = c
  have hcx : c (p / 8) = x := by rw [← hc, update_self]
  have hcb : ∀ b, b ≠ p / 8 → c b = k.c b := fun b hb => by rw [← hc, update_of_ne hb]
  -- The bits of the bytes, and the unused bytes, in both branches.
  have hbit : ∀ i < SYSTEM_WORD, (c (i / 8)).getLsbD (i % 8) = true ↔ i ≠ p ∧ ready i := by
    intro i hi
    by_cases hib : i / 8 = p / 8
    · rw [hib, hcx, ← hx, BitVec.getLsbD_and, BitVec.getLsbD_not,
        getLsbD_one_shiftLeft _ _ (Nat.mod_lt i (by norm_num : 0 < 8)), ← hib, Bool.and_eq_true,
        h.bit i hi]
      have : i % 8 = p % 8 ↔ i = p := by omega
      simp [this, Nat.mod_lt i (by norm_num : 0 < 8), and_comm]
    · have hne : i ≠ p := fun e => hib (by rw [e])
      rw [hcb _ hib, h.bit i hi]
      simp [hne]
  have hunused : ∀ b < 8, 4 ≤ b → c b = 0 := fun b hb8 hb4 => by
    rw [hcb b (by omega)]
    exact h.unused b hb8 hb4
  by_cases hz : c (p / 8) = 0
  · refine ⟨{ k with c := c, y := k.y &&& ~~~(1#8 <<< (p / 8)) }, ?_, rfl, rfl, hbit, ?_, hunused⟩
    · rw [Kernel.bitmapClear]
      simp only [and_seven, shiftRight_three, hx, hc, hz, if_true, hb]
    · intro b hb8
      rw [BitVec.getLsbD_and, BitVec.getLsbD_not, getLsbD_one_shiftLeft _ _ hb8, Bool.and_eq_true,
        h.byte b hb8]
      by_cases hbp : b = p / 8
      · simp [hbp, hz]
      · simp [hbp, hb8, hcb b hbp]
  · refine ⟨{ k with c := c }, ?_, rfl, rfl, hbit, ?_, hunused⟩
    · rw [Kernel.bitmapClear]
      simp only [and_seven, shiftRight_three, hx, hc, hz, if_false, if_true, hb]
    · intro b hb8
      by_cases hbp : b = p / 8
      · rw [h.byte b hb8, hbp]
        refine iff_of_true (fun e => hz ?_) hz
        rw [hcx, ← hx, e]
        simp
      · rw [h.byte b hb8, ← hcb b hbp]

/-- `bitmap_get` finds the smallest priority that is marked. -/
theorem bitmapGet_spec (h : BitmapOk k.y k.c ready) (hp : p < SYSTEM_WORD) (hr : ready p) :
    k.bitmapGet < SYSTEM_WORD ∧ ready k.bitmapGet ∧ ∀ i < k.bitmapGet, ¬ ready i := by
  have hp' : p < 32 := hp
  -- The byte of `p` is not zero, so `y` is not.
  have hcp : k.c (p / 8) ≠ 0 :=
    (ne_zero_iff_getLsbD _).mpr ⟨p % 8, Nat.mod_lt _ (by norm_num), (h.bit p hp).mpr hr⟩
  have hy : k.y ≠ 0 :=
    (ne_zero_iff_getLsbD _).mpr ⟨p / 8, by omega, (h.byte (p / 8) (by omega)).mpr hcp⟩
  obtain ⟨hb8, hyb, hylow⟩ := bitmap_getLsbD hy
  unfold Kernel.bitmapGet
  generalize bitmap.getD k.y.toNat 0 = b at hb8 hyb hylow ⊢
  have hcb : k.c b ≠ 0 := (h.byte b hb8).mp hyb
  have hb4 : b < 4 := by
    by_contra hge
    exact hcb (h.unused b hb8 (Nat.le_of_not_lt hge))
  obtain ⟨ha8, hca, hclow⟩ := bitmap_getLsbD hcb
  dsimp only
  generalize bitmap.getD (k.c b).toNat 0 = a at ha8 hca hclow ⊢
  have hlt : b * 8 + a < SYSTEM_WORD := by show b * 8 + a < 32; omega
  have hmod : (b * 8 + a) % 256 = b * 8 + a := Nat.mod_eq_of_lt (by omega)
  have hdiv : (b * 8 + a) / 8 = b := by omega
  have hrem : (b * 8 + a) % 8 = a := by omega
  rw [hmod]
  refine ⟨hlt, ?_, ?_⟩
  · rw [← h.bit _ hlt, hdiv, hrem]
    exact hca
  · intro i hi hri
    have hi32 : i < SYSTEM_WORD := lt_trans hi hlt
    have hbit := (h.bit i hi32).mpr hri
    have hne : k.c (i / 8) ≠ 0 :=
      (ne_zero_iff_getLsbD _).mpr ⟨i % 8, Nat.mod_lt _ (by norm_num), hbit⟩
    have hib : b ≤ i / 8 := by
      by_contra hlt'
      have hset := (h.byte (i / 8) (by omega)).mpr hne
      rw [hylow _ (Nat.lt_of_not_le hlt')] at hset
      exact Bool.false_ne_true hset
    have heq : i / 8 = b := by omega
    rw [heq] at hbit
    rw [hclow (i % 8) (by omega)] at hbit
    exact Bool.false_ne_true hbit

end Fos
