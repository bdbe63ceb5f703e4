import Fos.Lib.OnesComplement
import Fos.Net.Connections
import Mathlib.Algebra.BigOperators.Intervals
import Mathlib.Algebra.BigOperators.Ring.Finset

/-!
# Checksums, from `uip/uip.c`

`chksum` comes to the ones' complement sum of the words that the bytes spell (`chksum_eq`), in which
a byte counts for itself or for 256 of it (`weight`), so that an assignment to the buffer changes
the sum by the bytes that it changes (`total_put8`).
-/

namespace Fos.Net

open Function OnesComplement

/-- `chksum`. The last argument is the number of bytes from `dataptr` on. -/
def chksum (b : Buf) (sum : BitVec 16) (dataptr : ℕ) : ℕ → BitVec 16
  | 0 => sum
  | 1 =>
    let t := word (b dataptr) 0
    let sum := sum + t
    if sum < t then sum + 1 else sum
  | len + 2 =>
    let t := word (b dataptr) (b (dataptr + 1))
    let sum := sum + t
    -- The carry.
    chksum b (if sum < t then sum + 1 else sum) (dataptr + 2) len

/-- `uip_ipchksum`. -/
def uipIpchksum (b : Buf) : BitVec 16 :=
  let sum := chksum b 0 At.ip 20
  if sum = 0 then 0xffff else htons sum

/-- `upper_layer_chksum`. -/
def upperLayerChksum (b : Buf) (proto : BitVec 8) : BitVec 16 :=
  let upperLayerLen := word (b At.len) (b (At.len + 1)) - 20
  let sum := upperLayerLen + proto.setWidth 16
  let sum := chksum b sum At.srcipaddr 8
  let sum := chksum b sum At.upper upperLayerLen.toNat
  if sum = 0 then 0xffff else htons sum

/-- `uip_tcpchksum`. -/
def uipTcpchksum (b : Buf) : BitVec 16 := upperLayerChksum b 6

/-! ## What `chksum` computes -/

/-- What a byte counts for, in a sum that starts `i` bytes before it. -/
def weight (i : ℕ) : ℕ := if i % 2 = 0 then 256 else 1

/-- The sum of the words that `len` bytes spell. -/
def total (b : Buf) (k len : ℕ) : ℕ := ∑ i ∈ Finset.range len, weight i * (b (k + i)).toNat

variable {b b' : Buf} {k j len : ℕ}

theorem total_add_two : total b k (len + 2) =
    256 * (b k).toNat + (b (k + 1)).toNat + total b (k + 2) len := by
  have hshift : ∀ i, weight (i + 1 + 1) * (b (k + (i + 1 + 1))).toNat =
      weight i * (b (k + 2 + i)).toNat := fun i => by
    rw [weight, weight, show (i + 1 + 1) % 2 = i % 2 by omega,
      show k + (i + 1 + 1) = k + 2 + i by ring]
  unfold total
  rw [Finset.sum_range_succ', Finset.sum_range_succ', Finset.sum_congr rfl fun i _ => hshift i]
  simp only [weight, Nat.add_zero]
  norm_num
  ring

theorem total_congr (h : ∀ i < len, b (k + i) = b' (k + i)) : total b k len = total b' k len :=
  Finset.sum_congr rfl fun i hi => by rw [h i (Finset.mem_range.mp hi)]

/-- An assignment within the bytes takes the old value away and adds the new one. -/
theorem total_put8 (v : BitVec 8) {i : ℕ} (hi : i < len) :
    total (put8 b (k + i) v) k len + weight i * (b (k + i)).toNat =
      total b k len + weight i * v.toNat := by
  have hmem : i ∈ Finset.range len := Finset.mem_range.mpr hi
  unfold total
  rw [← Finset.add_sum_erase _ _ hmem, ← Finset.add_sum_erase _ _ hmem, put8_self]
  have hrest : ∀ x ∈ (Finset.range len).erase i,
      weight x * (put8 b (k + i) v (k + x)).toNat = weight x * (b (k + x)).toNat := fun x hx => by
    rw [put8_of_ne _ (by have := Finset.ne_of_mem_erase hx; omega)]
  rw [Finset.sum_congr rfl hrest]
  ring

/-- A word that stands at an even place counts for the number that its bytes spell. -/
theorem total_put16 (v : BitVec 16) {i : ℕ} (hi : i % 2 = 0) (hlen : i + 1 < len) :
    total (put16 b (k + i) v) k len + (htons (get16 b (k + i))).toNat =
      total b k len + (htons v).toNat := by
  have hv := v.isLt
  have h0 := total_put8 (b := b) (k := k) (v.setWidth 8) (show i < len by omega)
  have h1 := total_put8 (b := put8 b (k + i) (v.setWidth 8)) (k := k) ((v >>> 8).setWidth 8) hlen
  rw [← Nat.add_assoc, put8_of_ne _ (by omega)] at h1
  have hw0 : weight i = 256 := by simp [weight, hi]
  have hw1 : weight (i + 1) = 1 := by simp [weight, show (i + 1) % 2 = 1 by omega]
  rw [hw0] at h0
  rw [hw1] at h1
  have hold : (htons (get16 b (k + i))).toNat =
      256 * (b (k + i)).toNat + (b (k + i + 1)).toNat := by
    rw [get16, htons_word, toNat_word]
  have hlo : (v.setWidth 8).toNat = v.toNat % 256 := BitVec.toNat_setWidth ..
  have hhi : ((v >>> 8).setWidth 8).toNat = v.toNat / 256 := by
    rw [BitVec.toNat_setWidth, BitVec.toNat_ushiftRight, Nat.shiftRight_eq_div_pow]
    omega
  rw [put16, hold, toNat_htons]
  omega

/-- `chksum` computes the ones' complement sum. -/
theorem chksum_eq (b : Buf) (sum : BitVec 16) (k len : ℕ) :
    chksum b sum k len = fold 16 (sum.toNat + total b k len) := by
  induction len using Nat.strong_induction_on generalizing sum k with
  | _ len ih =>
    match len with
    | 0 => simp [chksum, total, fold_toNat]
    | 1 =>
      have hadd : chksum b sum k 1 = add sum (word (b k) 0) := rfl
      rw [hadd, add_eq (by decide), toNat_word]
      simp [total, weight]
    | len + 2 =>
      have hadd : chksum b sum k (len + 2) =
          chksum b (add sum (word (b k) (b (k + 1)))) (k + 2) len := rfl
      have hfold : ∀ n i, fold 16 ((fold 16 n).toNat + i) = fold 16 (n + i) := fun n i =>
        fold_congr ((toNat_fold_modEq (by decide)).add_right i) (by
          rw [Nat.add_eq_zero_iff, Nat.add_eq_zero_iff,
            ← fold_eq_zero (w := 16) (by decide) (n := n), ← BitVec.toNat_inj]
          simp)
      rw [hadd, ih len (by omega), add_eq (by decide), hfold, toNat_word, total_add_two,
        Nat.add_assoc]

end Fos.Net
