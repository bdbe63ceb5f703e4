import Mathlib.Data.BitVec
import Mathlib.Logic.Function.Basic

/-!
# The packet buffer

`uip_buf` as the bytes at and behind its address, and the fields of the headers in it, which the
source reads and writes through `BUF` and `ICMPBUF`. The machine is little-endian, as in
`uip-conf.h`: a `u16_t` in the buffer has its low byte first, and `HTONS` swaps the bytes. A
sequence number is a `u8_t[4]` with its highest byte first and stands here as the word of 32 bits
that it spells, and so does an IP address, in the order in which it stands in the memory.
-/

namespace Fos.Net

open Function

/-- The bytes from the start of `uip_buf` on. The buffer has 422 of them, and what is read or
written behind them is some other variable. -/
abbrev Buf := ℕ → BitVec 8

/-- `(hi << 8) + lo`, as a `u16_t`. -/
def word (hi lo : BitVec 8) : BitVec 16 := hi.setWidth 16 <<< 8 + lo.setWidth 16

/-- `HTONS`. -/
def htons (v : BitVec 16) : BitVec 16 := v <<< 8 ||| v >>> 8

/-- A `u16_t` in the buffer. -/
def get16 (b : Buf) (k : ℕ) : BitVec 16 := word (b (k + 1)) (b k)

/-- Four bytes of the buffer, the highest one first. -/
def get32 (b : Buf) (k : ℕ) : BitVec 32 := b k ++ b (k + 1) ++ b (k + 2) ++ b (k + 3)

/-- An assignment to a byte of the buffer. -/
def put8 (b : Buf) (k : ℕ) (v : BitVec 8) : Buf := update b k v

/-- An assignment to a `u16_t` in the buffer. -/
def put16 (b : Buf) (k : ℕ) (v : BitVec 16) : Buf :=
  put8 (put8 b k (v.setWidth 8)) (k + 1) ((v >>> 8).setWidth 8)

/-- Assignments to four bytes of the buffer. -/
def put32 (b : Buf) (k : ℕ) (v : BitVec 32) : Buf :=
  put8 (put8 (put8 (put8 b k (v.extractLsb' 24 8)) (k + 1) (v.extractLsb' 16 8)) (k + 2)
    (v.extractLsb' 8 8)) (k + 3) (v.extractLsb' 0 8)

/-- `memcpy(&uip_buf[k], data, n)`, where `n` is the length of the data. -/
def putBytes (b : Buf) (k : ℕ) (data : List (BitVec 8)) : Buf :=
  fun j => if j < k then b j else data.getD (j - k) (b j)

/-- `n` bytes of the buffer. -/
def getBytes (b : Buf) (k n : ℕ) : List (BitVec 8) := (List.range n).map fun i => b (k + i)

/-! ## The headers -/

namespace At

-- The offsets of the fields of `BUF` and `ICMPBUF`, which start at `UIP_LLH_LEN`. `upper` is where
-- the header behind the IP header starts, and `uip_sappdata` points to `optdata`.
@[simp] abbrev ip : ℕ := 14
@[simp] abbrev vhl : ℕ := 14
@[simp] abbrev tos : ℕ := 15
@[simp] abbrev len : ℕ := 16
@[simp] abbrev ipid : ℕ := 18
@[simp] abbrev ipoffset : ℕ := 20
@[simp] abbrev ttl : ℕ := 22
@[simp] abbrev proto : ℕ := 23
@[simp] abbrev ipchksum : ℕ := 24
@[simp] abbrev srcipaddr : ℕ := 26
@[simp] abbrev destipaddr : ℕ := 30
@[simp] abbrev upper : ℕ := 34
@[simp] abbrev srcport : ℕ := 34
@[simp] abbrev destport : ℕ := 36
@[simp] abbrev seqno : ℕ := 38
@[simp] abbrev ackno : ℕ := 42
@[simp] abbrev tcpoffset : ℕ := 46
@[simp] abbrev flags : ℕ := 47
@[simp] abbrev wnd : ℕ := 48
@[simp] abbrev tcpchksum : ℕ := 50
@[simp] abbrev urgp : ℕ := 52
@[simp] abbrev optdata : ℕ := 54
@[simp] abbrev type : ℕ := 34
@[simp] abbrev icmpchksum : ℕ := 36

end At

/-! ## Reading what has been written -/

theorem toNat_word (hi lo : BitVec 8) : (word hi lo).toNat = 256 * hi.toNat + lo.toNat := by
  have hhi := hi.isLt
  have hlo := lo.isLt
  simp only [word, BitVec.toNat_add, BitVec.toNat_shiftLeft, BitVec.toNat_setWidth,
    Nat.shiftLeft_eq]
  omega

theorem toNat_htons (v : BitVec 16) : (htons v).toNat = v.toNat % 256 * 256 + v.toNat / 256 := by
  have hv := v.isLt
  have hor : v <<< 8 ||| v >>> 8 = v <<< 8 + v >>> 8 := by
    rw [BitVec.add_eq_or_of_and_eq_zero]
    ext i hi
    by_cases h8 : i < 8
    · simp [h8]
    · simp [h8, BitVec.getLsbD_of_ge v (8 + i) (by omega)]
  simp only [htons, hor, BitVec.toNat_add, BitVec.toNat_shiftLeft, BitVec.toNat_ushiftRight,
    Nat.shiftLeft_eq, Nat.shiftRight_eq_div_pow]
  omega

theorem htons_word (hi lo : BitVec 8) : htons (word hi lo) = word lo hi := by
  have hhi := hi.isLt
  have hlo := lo.isLt
  apply BitVec.eq_of_toNat_eq
  rw [toNat_htons, toNat_word, toNat_word]
  omega

@[simp] theorem htons_htons (v : BitVec 16) : htons (htons v) = v := by
  have hv := v.isLt
  apply BitVec.eq_of_toNat_eq
  rw [toNat_htons, toNat_htons]
  omega

variable {b b' : Buf} {k j : ℕ}

@[simp] theorem put8_self (v : BitVec 8) : put8 b k v k = v := by simp [put8]

theorem put8_of_ne (v : BitVec 8) (h : j ≠ k) : put8 b k v j = b j := by simp [put8, h]

theorem put16_of_ne (v : BitVec 16) (h : j < k ∨ k + 1 < j) : put16 b k v j = b j := by
  rw [put16, put8_of_ne _ (by omega), put8_of_ne _ (by omega)]

theorem put32_of_ne (v : BitVec 32) (h : j < k ∨ k + 3 < j) : put32 b k v j = b j := by
  rw [put32, put8_of_ne _ (by omega), put8_of_ne _ (by omega), put8_of_ne _ (by omega),
    put8_of_ne _ (by omega)]

@[simp] theorem get16_put16 (v : BitVec 16) : get16 (put16 b k v) k = v := by
  have hv := v.isLt
  apply BitVec.eq_of_toNat_eq
  rw [get16, toNat_word, put16, put8_self, put8_of_ne _ (by omega), put8_self]
  simp only [BitVec.toNat_setWidth, BitVec.toNat_ushiftRight, Nat.shiftRight_eq_div_pow]
  omega

@[simp] theorem get32_put32 (v : BitVec 32) : get32 (put32 b k v) k = v := by
  have h0 : put32 b k v k = v.extractLsb' 24 8 := by
    rw [put32, put8_of_ne _ (by omega), put8_of_ne _ (by omega), put8_of_ne _ (by omega), put8_self]
  have h1 : put32 b k v (k + 1) = v.extractLsb' 16 8 := by
    rw [put32, put8_of_ne _ (by omega), put8_of_ne _ (by omega), put8_self]
  have h2 : put32 b k v (k + 2) = v.extractLsb' 8 8 := by
    rw [put32, put8_of_ne _ (by omega), put8_self]
  have h3 : put32 b k v (k + 3) = v.extractLsb' 0 8 := by rw [put32, put8_self]
  rw [get32, h0, h1, h2, h3]
  ext i hi
  simp
  grind

theorem get16_congr (h0 : b k = b' k) (h1 : b (k + 1) = b' (k + 1)) : get16 b k = get16 b' k := by
  rw [get16, get16, h0, h1]

theorem get32_congr (h : ∀ j, k ≤ j → j < k + 4 → b j = b' j) : get32 b k = get32 b' k := by
  rw [get32, get32, h k (by omega) (by omega), h (k + 1) (by omega) (by omega),
    h (k + 2) (by omega) (by omega), h (k + 3) (by omega) (by omega)]

theorem get16_put8_of_ne (v : BitVec 8) (h : j < k ∨ k + 1 < j) :
    get16 (put8 b j v) k = get16 b k :=
  get16_congr (put8_of_ne _ (by omega)) (put8_of_ne _ (by omega))

theorem get16_put16_of_ne (v : BitVec 16) (h : j + 1 < k ∨ k + 1 < j) :
    get16 (put16 b j v) k = get16 b k :=
  get16_congr (put16_of_ne _ (by omega)) (put16_of_ne _ (by omega))

theorem get16_put32_of_ne (v : BitVec 32) (h : j + 3 < k ∨ k + 1 < j) :
    get16 (put32 b j v) k = get16 b k :=
  get16_congr (put32_of_ne _ (by omega)) (put32_of_ne _ (by omega))

theorem get32_put8_of_ne (v : BitVec 8) (h : j < k ∨ k + 3 < j) :
    get32 (put8 b j v) k = get32 b k :=
  get32_congr fun _ _ _ => put8_of_ne _ (by omega)

theorem get32_put16_of_ne (v : BitVec 16) (h : j + 1 < k ∨ k + 3 < j) :
    get32 (put16 b j v) k = get32 b k :=
  get32_congr fun _ _ _ => put16_of_ne _ (by omega)

theorem get32_put32_of_ne (v : BitVec 32) (h : j + 3 < k ∨ k + 3 < j) :
    get32 (put32 b j v) k = get32 b k :=
  get32_congr fun _ _ _ => put32_of_ne _ (by omega)

@[simp] theorem length_getBytes (n : ℕ) : (getBytes b k n).length = n := by simp [getBytes]

theorem getBytes_congr {n : ℕ} (h : ∀ j, k ≤ j → j < k + n → b j = b' j) :
    getBytes b k n = getBytes b' k n := by
  apply List.map_congr_left
  intro i hi
  have := List.mem_range.mp hi
  exact h _ (by omega) (by omega)

/-- The bytes that have been copied into the buffer. -/
theorem getBytes_putBytes {n : ℕ} {data : List (BitVec 8)} (hn : n ≤ data.length) :
    getBytes (putBytes b k data) k n = data.take n := by
  apply List.ext_getElem
  · simpa using hn
  · intro i hi _
    have hin : i < n := by simpa using hi
    have hget : i < data.length := by omega
    simp [getBytes, putBytes, hget]

end Fos.Net
