import Fos.Lib.Numerals
import Fos.Libc.Printf

/-!
# `itoa` writes numerals

`itoa` leaves the numeral of its value and a NUL in the array, and touches no other cell
(`itoa_eq`): its first loop writes the digits in the opposite order, as `Numerals.lowDigits_eq`
takes them off the value, and its second one is a loop of swaps (`repeatUntil_flip`). That the
numeral is one is said without `itoa`'s own characters: the string is read back (`IsNumeral`).
-/

namespace Fos

open Loops Arrays Numerals

/-- The numeral of a value. -/
def numeral (radix val : ℕ) : List UInt8 := (digits radix val).map digitChar

/-- The digit that a character is. -/
def digitOf (c : UInt8) : Option ℕ :=
  if chr '0' ≤ c ∧ c ≤ chr '9' then some (c.toNat - (chr '0').toNat)
  else if chr 'a' ≤ c ∧ c ≤ chr 'z' then some (c.toNat - (chr 'a').toNat + 10)
  else none

/-- The number that a string of digits stands for. -/
def readBack (radix : ℕ) (text : List UInt8) : Option ℕ := (text.mapM digitOf).map (value radix)

/-- The string is the numeral of the value. -/
structure IsNumeral (radix val : ℕ) (text : List UInt8) : Prop where
  /-- There is a digit. -/
  ne_nil : text ≠ []
  /-- Each character is a digit that is less than the radix. -/
  digit : ∀ c ∈ text, ∃ d, digitOf c = some d ∧ d < radix
  /-- The first one is not zero, unless it is the only one. -/
  leading : text.head? = some (chr '0') → text = [chr '0'] ∧ val = 0
  /-- The value can be read back. -/
  value : readBack radix text = some val

variable {radix val : ℕ} {buf : Arr UInt8} {p : ℤ}

/-! ## Digits and their characters -/

theorem digitOf_digitChar : ∀ d < 36, digitOf (digitChar d) = some d := by decide

theorem digitChar_ne_zero : ∀ d < 36, digitChar d ≠ 0 := by decide

/-- The digit zero is the only one that is written as `0`. -/
theorem eq_zero_of_digitChar {d : ℕ} (hd : d < 36) (h : digitChar d = chr '0') : d = 0 := by
  have hread := digitOf_digitChar d hd
  rw [h] at hread
  exact (Option.some.inj hread).symm

/-- Digits are read back as they are. -/
theorem mapM_digitOf {ds : List ℕ} (hds : ∀ d ∈ ds, d < 36) :
    (ds.map digitChar).mapM digitOf = some ds := by
  induction ds with
  | nil => rfl
  | cons d ds ih =>
    obtain ⟨hd, hds⟩ := List.forall_mem_cons.mp hds
    rw [List.map_cons, List.mapM_cons, digitOf_digitChar d hd, ih hds]
    rfl

/-- The numeral of a value is one. -/
theorem isNumeral_numeral (hr : 2 ≤ radix) (hr' : radix ≤ 36) (val : ℕ) :
    IsNumeral radix val (numeral radix val) := by
  have hlt : ∀ d ∈ digits radix val, d < radix := fun d hd => lt_of_mem_digits (by omega) hd
  have hread := mapM_digitOf fun d hd => lt_of_lt_of_le (hlt d hd) hr'
  constructor
  · unfold numeral digits
    simpa using lowDigits_ne_nil radix val
  · intro c hc
    obtain ⟨d, hd, rfl⟩ := List.mem_map.mp hc
    exact ⟨d, digitOf_digitChar d (lt_of_lt_of_le (hlt d hd) hr'), hlt d hd⟩
  · intro h
    unfold numeral at h ⊢
    rw [List.head?_map] at h
    obtain ⟨d, hhead, hd⟩ := Option.map_eq_some_iff.mp h
    have hmem : d ∈ digits radix val := List.mem_of_mem_head? hhead
    rw [eq_zero_of_digitChar (lt_of_lt_of_le (hlt d hmem) hr') hd] at hhead
    have hzero := digits_eq_zero_of_head hhead
    refine ⟨by rw [hzero]; rfl, ?_⟩
    rw [← value_digits radix val, hzero]
    unfold Numerals.value
    simp
  · unfold readBack numeral
    rw [hread, Option.map_some, value_digits]

/-! ## The loops -/

/-- A round of the first loop writes a digit. -/
theorem itoaDigits_eq (hr : 2 ≤ radix) (hr' : radix ≤ 36) (val : ℕ) (buf : Arr UInt8) (p : ℤ) :
    itoaDigits radix (val, buf, p) = (buf.write p (digitChar (val % radix))).map fun buf =>
      if 0 < val / radix then .inl (val / radix, buf, p + 1) else .inr (buf, p + 1) := by
  have hmod : val % radix % 2^32 = val % radix := by
    have := Nat.mod_lt val (show 0 < radix by omega)
    omega
  unfold itoaDigits
  dsimp only
  rw [if_neg (by omega), hmod]
  cases buf.write p (digitChar (val % radix)) with
  | none => rfl
  | some buf =>
    dsimp only [Option.bind_eq_bind, Option.bind_some, Option.map_some]
    split_ifs <;> rfl

/-- The first loop writes the digits, and stops behind them. -/
theorem itoaDigits_loop (hr : 2 ≤ radix) (hr' : radix ≤ 36) (val : ℕ) (buf : Arr UInt8) (p : ℤ) :
    repeatUntil (itoaDigits radix) (val, buf, p) =
      (buf.writeAll p ((lowDigits radix val).map digitChar)).map
        (·, p + (lowDigits radix val).length) := by
  -- By induction on the value, which every round divides.
  induction val using Nat.strongRecOn generalizing buf p with
  | ind val ih =>
    rw [repeatUntil_eq, itoaDigits_eq hr hr', lowDigits_eq (by omega), List.map_cons, Arr.writeAll]
    cases buf.write p (digitChar (val % radix)) with
    | none => rfl
    | some buf =>
      rw [Option.map_some, Option.bind_some, Option.bind_some]
      by_cases hq : val / radix = 0
      · simp [hq, Arr.writeAll]
      · have hpos : 0 < val / radix := Nat.pos_of_ne_zero hq
        have hval : 0 < val := by
          by_contra h0
          rw [Nat.eq_zero_of_not_pos h0, Nat.zero_div] at hpos
          exact absurd hpos (lt_irrefl 0)
        have hplace : ∀ n : ℕ, p + 1 + (n : ℤ) = p + (n + 1 : ℕ) := by omega
        rw [if_pos hpos, if_neg hq, Sum.elim_inl, ih _ (Nat.div_lt_self hval (by omega)),
          List.length_cons, hplace]

/-- A round of the second loop is a swap. -/
theorem itoaReverse_eq (b : Arr UInt8) (j i : ℤ) (hi : b.Inside i) (hj : b.Inside j) :
    itoaReverse (b, j, i) =
      if i + 1 < j - 1 then some (.inl (b.swap i j, j - 1, i + 1))
      else some (.inr (b.swap i j)) := by
  unfold itoaReverse
  dsimp only [Option.bind_eq_bind]
  rw [Arr.read_of_inside hj, Option.bind_some, Arr.read_of_inside hi, Option.bind_some,
    Arr.write_of_inside hj, Option.bind_some, Arr.write_of_inside (by exact hi), Option.bind_some]
  rfl

/-- `itoa` succeeds exactly if the numeral and its NUL are inside of the array. -/
theorem itoa_eq (hr : 2 ≤ radix) (hr' : radix ≤ 36) (val : ℕ) (buf : Arr UInt8) (p : ℤ) :
    itoa val buf p radix =
      if 0 ≤ p ∧ p + (numeral radix val).length < buf.size then
        some (buf.overwrite p (numeral radix val ++ [0]))
      else none := by
  have hne : (lowDigits radix val).map digitChar ≠ [] := by
    simpa using lowDigits_ne_nil radix val
  have hlen : (numeral radix val).length = ((lowDigits radix val).map digitChar).length := by
    simp [numeral, digits]
  have hpos : 0 < ((lowDigits radix val).map digitChar).length := List.length_pos_of_ne_nil hne
  -- The loop writes the digits from the lowest one on, which is the numeral backwards.
  have hrev : numeral radix val = ((lowDigits radix val).map digitChar).reverse := by
    unfold numeral digits
    exact List.map_reverse
  rw [hlen, hrev]
  unfold itoa
  dsimp only [Option.bind_eq_bind]
  rw [itoaDigits_loop hr hr', Arr.writeAll_eq hne]
  have hlast : ((lowDigits radix val).length : ℤ) =
      ((lowDigits radix val).map digitChar).length := by rw [List.length_map]
  rw [hlast]
  -- From here on, the digits are any text that is not empty.
  generalize (lowDigits radix val).map digitChar = text at hne hpos ⊢
  by_cases hdigits : 0 ≤ p ∧ p + text.length ≤ buf.size
  · rw [if_pos hdigits, Option.map_some, Option.bind_some]
    dsimp only
    by_cases hnul : p + text.length < buf.size
    · -- The NUL is written, and the digits change their order.
      have hfirst : (buf.overwrite p (text ++ [0])).Inside p :=
        ⟨hdigits.1, lt_trans (by omega) hnul⟩
      have hend : (buf.overwrite p (text ++ [0])).Inside (p + text.length - 1) :=
        ⟨by omega, lt_trans (by omega) hnul⟩
      rw [if_pos ⟨hdigits.1, hnul⟩,
        Arr.write_of_inside (b := buf.overwrite p text) ⟨by omega, hnul⟩, Option.bind_some,
        ← Arr.overwrite_singleton, Arr.overwrite_append,
        repeatUntil_flip itoaReverse_eq hfirst hend (by omega), Arr.flip_overwrite rfl]
    · rw [if_neg fun h => hnul h.2,
        Arr.write_of_not_inside (b := buf.overwrite p text) fun h => hnul h.2, Option.bind_none]
  · rw [if_neg hdigits, Option.map_none, Option.bind_none, if_neg]
    intro h
    apply hdigits
    exact ⟨h.1, le_of_lt h.2⟩

/-- The cells that a numeral and its NUL take are inside of the array. -/
def HasRoom (buf : Arr UInt8) (p : ℤ) (text : List UInt8) : Prop :=
  0 ≤ p ∧ p + text.length < buf.size

/-- `itoa` leaves a numeral and its NUL at the pointer: it needs the cells of these, and it writes
no others. -/
theorem itoa_numeral (hr : 2 ≤ radix) (hr' : radix ≤ 36) (val : ℕ) (buf : Arr UInt8) (p : ℤ) :
    ∃ text, IsNumeral radix val text ∧ (HasRoom buf p text ↔ (itoa val buf p radix).isSome) ∧
      ∀ buf', itoa val buf p radix = some buf' → buf'.size = buf.size ∧
        (∀ k (hk : k < text.length), buf'.cell (p + k) = text[k]) ∧
          buf'.cell (p + text.length) = 0 ∧
            ∀ k, k < p ∨ p + text.length < k → buf'.cell k = buf.cell k := by
  refine ⟨numeral radix val, isNumeral_numeral hr hr' val, ?_, fun buf' hbuf' => ?_⟩
  · rw [itoa_eq hr hr']
    unfold HasRoom
    split_ifs with hroom
    · exact iff_of_true hroom rfl
    · exact iff_of_false hroom (by simp)
  · rw [itoa_eq hr hr'] at hbuf'
    split_ifs at hbuf'
    obtain rfl := Option.some.inj hbuf'
    refine ⟨rfl, fun k hk => ?_, ?_, fun k hk => ?_⟩
    · rw [Arr.overwrite_cell_add (by simp; omega), List.getElem_append_left hk]
    · rw [Arr.overwrite_cell_add (by simp), List.getElem_concat_length rfl]
    · apply Arr.overwrite_cell_of_outside
      simp only [List.length_append, List.length_singleton]
      omega

/-- The hexadecimal numeral of 255. -/
theorem itoa_numeral_ff : ∃ text, IsNumeral 16 255 text ∧
    (HasRoom ⟨3, fun _ => 7⟩ 0 text ↔ (itoa 255 ⟨3, fun _ => 7⟩ 0 16).isSome) ∧
      ∀ buf', itoa 255 ⟨3, fun _ => 7⟩ 0 16 = some buf' → buf'.size = 3 ∧
        (∀ k (hk : k < text.length), buf'.cell (0 + k) = text[k]) ∧
          buf'.cell (0 + text.length) = 0 ∧
            ∀ k : ℤ, k < 0 ∨ 0 + text.length < k → buf'.cell k = 7 :=
  @itoa_numeral 16 (by decide) (by decide) 255 ⟨3, fun _ => 7⟩ 0

end Fos
