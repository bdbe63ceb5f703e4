import Fos.Libc.Itoa
import Fos.Libc.String

/-!
# The conversions of integers in `print`

`print` hands an `int` to `itoa` as an `unsigned long`, for an array of 20 bytes. What comes out is
`numeral radix (m.ofInt i)`, if that and its NUL fit (`printInt_eq`). A negative `int` becomes a
number close to `2^bits`: its sign is lost, in 64 bits its decimal and octal numerals do not fit,
and its hexadecimal numeral has too many digits (`print_int_iff`).
-/

namespace Fos

open Loops Arrays Numerals

/-- The conversions of integers. -/
inductive IntConversion where
  | d | i | o | x
  deriving DecidableEq

/-- The character behind the `%`. -/
def IntConversion.letter : IntConversion → UInt8
  | .d => chr 'd'
  | .i => chr 'i'
  | .o => chr 'o'
  | .x => chr 'x'

/-- The radix that `itoa` is called with. -/
def IntConversion.radix : IntConversion → ℕ
  | .d | .i => 10
  | .o => 8
  | .x => 16

/-- What a conversion should write: `%d` and `%i` the signed numeral, `%o` and `%x` the one of the
`int` converted to `unsigned`. -/
def IntConversion.Renders (f : IntConversion) (i : BitVec 32) (text : List UInt8) : Prop :=
  match f with
  | .d | .i =>
    if i.toInt < 0 then ∃ digits, text = chr '-' :: digits ∧ IsNumeral 10 i.toInt.natAbs digits
    else IsNumeral 10 i.toInt.natAbs text
  | .o => IsNumeral 8 i.toNat text
  | .x => IsNumeral 16 i.toNat text

/-- A conversion writes what it should, and stays inside of its array. -/
structure RendersInt (m : LongModel) (f : IntConversion) (i : BitVec 32) : Prop where
  /-- The numeral and its NUL take no more than 20 bytes. -/
  room : ∀ store, (itoa (m.ofInt i) ⟨20, store⟩ 0 f.radix).isSome
  /-- Wherever `print` comes to the conversion, it writes what it should and goes on behind it. -/
  round : ∀ mem store (s : PrintState) arg, mem s.format = chr '%' →
    mem (s.format + 1) = f.letter → s.arg = .int i :: arg →
      ∃ s' text, printRound m mem store s = some (.inl s') ∧ f.Renders i text ∧
        s'.out = s.out ++ text ∧ s'.arg = arg ∧ s'.format = s.format + 2
  /-- So does a call of `print` with the conversion as its format. -/
  alone : ∀ mem store format, IsString mem format [chr '%', f.letter] →
    ∃ s text, print m mem store format [.int i] = some s ∧ f.Renders i text ∧ s.out = text

variable {m : LongModel} {f : IntConversion} {i : BitVec 32} {radix val : ℕ} {text : List UInt8}
  {mem : ℕ → UInt8} {store : ℤ → UInt8} {s : PrintState}

/-! ## Writing a string -/

/-- What is read from a place on is the string `text`, and its NUL. -/
def ReadsString (read : ℕ → Option UInt8) (p : ℕ) : List UInt8 → Prop
  | [] => read p = some 0
  | c :: text => read p = some c ∧ c ≠ 0 ∧ ReadsString read (p + 1) text

/-- A string in memory. -/
theorem IsString.reads {p : ℕ} (h : IsString mem p text) :
    ReadsString (fun p => some (mem p)) p text := by
  induction text generalizing p with
  | nil => exact congrArg some h
  | cons c text ih => exact ⟨congrArg some h.1, h.2.1, ih h.2.2⟩

/-- A string in an array. -/
theorem readsString_arr {buf : Arr UInt8} {p : ℕ} (htext : ∀ c ∈ text, c ≠ 0)
    (hroom : p + text.length < buf.size)
    (hcell : ∀ k (hk : k < text.length), buf.cell (p + k) = text[k])
    (hnul : buf.cell (p + text.length) = 0) : ReadsString (fun str => buf.read str) p text := by
  induction text generalizing p with
  | nil =>
    simp only [List.length_nil, Nat.cast_zero, add_zero] at hroom hnul
    have hread : buf.read p = some (buf.cell p) := Arr.read_of_inside ⟨by omega, by omega⟩
    exact hread.trans (congrArg some hnul)
  | cons c text ih =>
    obtain ⟨hc, htext⟩ := List.forall_mem_cons.mp htext
    rw [List.length_cons] at hroom hnul
    have hread : buf.read p = some (buf.cell p) := Arr.read_of_inside ⟨by omega, by omega⟩
    have hfirst : buf.cell p = c := by
      have h0 := hcell 0 (by simp)
      rwa [Nat.cast_zero, add_zero] at h0
    refine ⟨hread.trans (congrArg some hfirst), hc, ih htext (by omega) (fun k hk => ?_) ?_⟩
    · have hk := hcell (k + 1) (by simpa using hk)
      rw [List.getElem_cons_succ] at hk
      rw [← hk]
      congr 1
      omega
    · rw [← hnul]
      congr 1
      omega

/-- The loop writes the string. -/
theorem putString_eq {read : ℕ → Option UInt8} {p : ℕ} (h : ReadsString read p text) :
    putString read p = some text := by
  have hloop : ∀ acc, repeatUntil (putStringRound read) (p, acc) = some (acc ++ text) := by
    induction text generalizing p with
    | nil =>
      intro acc
      have hnul : read p = some 0 := h
      apply repeatUntil_of_inr
      unfold putStringRound
      simp [hnul]
    | cons c text ih =>
      intro acc
      obtain ⟨hc, hne, h⟩ := h
      have hround : putStringRound read (p, acc) = some (.inl (p + 1, acc ++ [c])) := by
        unfold putStringRound
        simp [hc, hne]
      rw [repeatUntil_of_inl hround, ih h, List.append_assoc]
      rfl
  exact hloop []

/-! ## The conversion -/

theorem ne_zero_of_mem_numeral (hr : 2 ≤ radix) (hr' : radix ≤ 36) {c : UInt8}
    (hc : c ∈ numeral radix val) : c ≠ 0 := by
  obtain ⟨d, hd, rfl⟩ := List.mem_map.mp hc
  exact digitChar_ne_zero d (lt_of_lt_of_le (lt_of_mem_digits (by omega) hd) hr')

/-- The array of 20 bytes holds the numerals of less than 20 digits. -/
theorem itoa_store_eq (hr : 2 ≤ radix) (hr' : radix ≤ 36) (val : ℕ) (store : ℤ → UInt8) :
    itoa val ⟨20, store⟩ 0 radix = if val < radix ^ 19 then
      some (Arr.overwrite ⟨20, store⟩ 0 (numeral radix val ++ [0])) else none := by
  rw [itoa_eq hr hr']
  refine if_congr ?_ rfl rfl
  rw [← length_digits_le_iff (show 1 < radix by omega) (show 0 < 19 by omega)]
  unfold numeral
  rw [List.length_map]
  dsimp only
  omega

/-- A conversion of an integer writes the numeral of the `unsigned long`, if it has less than 20
digits. -/
theorem printInt_eq (hr : 2 ≤ radix) (hr' : radix ≤ 36) (m : LongModel) (store : ℤ → UInt8)
    (f : UInt8) (s : PrintState) : printInt m store radix f s =
      (s.vaInt f).bind fun r => if m.ofInt r.1 < radix ^ 19 then
        some (r.2.putc (numeral radix (m.ofInt r.1))) else none := by
  unfold printInt
  cases s.vaInt f with
  | none => rfl
  | some r =>
    obtain ⟨i, s⟩ := r
    dsimp only [Option.bind_eq_bind, Option.bind_some]
    rw [itoa_store_eq hr hr']
    split_ifs with hfits
    · have hlen : (numeral radix (m.ofInt i)).length < 20 := by
        rw [← length_digits_le_iff (show 1 < radix by omega) (show 0 < 19 by omega)] at hfits
        unfold numeral
        rw [List.length_map]
        omega
      have hreads : ReadsString
          (fun str => (Arr.overwrite ⟨20, store⟩ 0 (numeral radix (m.ofInt i) ++ [0])).read str) 0
            (numeral radix (m.ofInt i)) := by
        apply readsString_arr
        · exact fun c hc => ne_zero_of_mem_numeral hr hr' hc
        · rw [Nat.zero_add]
          exact hlen
        · intro k hk
          rw [Nat.cast_zero, Arr.overwrite_cell_add (by simp; omega), List.getElem_append_left hk]
        · rw [Nat.cast_zero, Arr.overwrite_cell_add (by simp), List.getElem_concat_length rfl]
      rw [Option.bind_some, putString_eq hreads, Option.bind_some]
    · rfl

theorem IntConversion.le_radix (f : IntConversion) : 2 ≤ f.radix ∧ f.radix ≤ 36 := by
  cases f <;> decide

/-- The conversions of integers are the ones that `printInt` is for. -/
theorem printConversion_letter (f : IntConversion) (m : LongModel) (mem : ℕ → UInt8)
    (store : ℤ → UInt8) (s : PrintState) :
    printConversion m mem store f.letter s = printInt m store f.radix f.letter s := by
  cases f <;> rfl

/-- A string of digits does not begin with a minus sign. -/
theorem IsNumeral.ne_minus {digits : List UInt8} (h : IsNumeral radix val (chr '-' :: digits)) :
    False := by
  obtain ⟨d, hd, -⟩ := h.digit (chr '-') List.mem_cons_self
  have hnone : digitOf (chr '-') = none := by decide
  rw [hnone] at hd
  cases hd

/-- A string is the numeral of one value. -/
theorem IsNumeral.unique {val' : ℕ} (h : IsNumeral radix val text)
    (h' : IsNumeral radix val' text) : val = val' := Option.some.inj (h.value.symm.trans h'.value)

/-- The `unsigned long` that an `int` becomes. -/
theorem LongModel.ofInt_eq (m : LongModel) (i : BitVec 32) :
    (m.ofInt i : ℤ) = if 0 ≤ i.toInt then i.toInt else i.toInt + 2^m.bits := by
  have hlo := i.le_toInt
  have hhi := i.toInt_lt
  unfold LongModel.ofInt
  cases m with
  | ilp32 =>
    simp only [bits]
    split_ifs <;> omega
  | lp64 =>
    simp only [bits]
    split_ifs <;> omega

/-- The radix of a conversion is at least 8, so that it writes every number below `2^57`. -/
theorem IntConversion.lt_radix_pow (f : IntConversion) (h : val < 2^57) : val < f.radix ^ 19 := by
  have hradix : 8 ≤ f.radix := by cases f <;> decide
  calc val < 8 ^ 19 := by omega
    _ ≤ f.radix ^ 19 := Nat.pow_le_pow_left hradix 19

/-- The numeral that a conversion writes is that of the `unsigned long`. -/
theorem IntConversion.isNumeral (f : IntConversion) (val : ℕ) :
    IsNumeral f.radix val (numeral f.radix val) :=
  isNumeral_numeral f.le_radix.1 f.le_radix.2 val

/-- An `int` that is not negative is written as it should be. -/
theorem renders_numeral_of_nonneg (m : LongModel) (f : IntConversion) (h : 0 ≤ i.toInt) :
    m.ofInt i < f.radix ^ 19 ∧ f.Renders i (numeral f.radix (m.ofInt i)) := by
  have hval := m.ofInt_eq i
  rw [if_pos h] at hval
  have hhi := i.toInt_lt
  have habs : m.ofInt i = i.toInt.natAbs := by omega
  have hnat : m.ofInt i = i.toNat := by
    have hcond := i.toInt_eq_toNat_cond
    split_ifs at hcond <;> omega
  have hnum := f.isNumeral (m.ofInt i)
  refine ⟨f.lt_radix_pow (by omega), ?_⟩
  unfold IntConversion.Renders
  cases f with
  | d | i =>
    rw [if_neg (by omega), ← habs]
    exact hnum
  | o | x =>
    rw [← hnat]
    exact hnum

/-- A negative `int` is written as it should be only by `%o` and `%x`, with 32 bits: the sign is
lost, and with 64 bits the number is another one. -/
theorem renders_numeral_of_neg (m : LongModel) (f : IntConversion) (h : i.toInt < 0) :
    (m.ofInt i < f.radix ^ 19 ∧ f.Renders i (numeral f.radix (m.ofInt i))) ↔
      m = .ilp32 ∧ (f = .o ∨ f = .x) := by
  have hval := m.ofInt_eq i
  rw [if_neg (by omega)] at hval
  have hlo := i.le_toInt
  have hnat : (i.toNat : ℤ) = i.toInt + 2^32 := by
    have hcond := i.toInt_eq_toNat_cond
    split_ifs at hcond <;> omega
  have hnum := f.isNumeral (m.ofInt i)
  unfold IntConversion.Renders
  cases f with
  -- What should come out begins with a minus sign, which no numeral does.
  | d | i =>
    refine iff_of_false ?_ (by simp)
    rintro ⟨-, hrenders⟩
    rw [if_pos h] at hrenders
    obtain ⟨digits, htext, -⟩ := hrenders
    rw [htext] at hnum
    exact hnum.ne_minus
  | o | x =>
    cases m with
    | ilp32 =>
      -- With 32 bits the number is the `unsigned` one.
      have heq : LongModel.ilp32.ofInt i = i.toNat := by
        simp only [LongModel.bits] at hval
        omega
      refine iff_of_true ⟨IntConversion.lt_radix_pow _ (by omega), ?_⟩ (by simp)
      rw [← heq]
      exact hnum
    | lp64 =>
      refine iff_of_false ?_ (by simp)
      rintro ⟨-, hrenders⟩
      -- With 64 bits it is larger by a multiple of `2^32`.
      have heq := hnum.unique hrenders
      simp only [LongModel.bits] at hval
      omega

/-- The condition under which the numeral fits and is the one that should come out. -/
theorem renders_numeral_iff (m : LongModel) (f : IntConversion) (i : BitVec 32) :
    (m.ofInt i < f.radix ^ 19 ∧ f.Renders i (numeral f.radix (m.ofInt i))) ↔
      0 ≤ i.toInt ∨ m = .ilp32 ∧ (f = .o ∨ f = .x) := by
  by_cases h : 0 ≤ i.toInt
  · exact iff_of_true (renders_numeral_of_nonneg m f h) (Or.inl h)
  · rw [renders_numeral_of_neg m f (by omega), or_iff_right h]

/-- The round of `print` that comes to a conversion of an integer. -/
theorem printRound_int {arg : List Arg} (hformat : mem s.format = chr '%')
    (hletter : mem (s.format + 1) = f.letter) (harg : s.arg = .int i :: arg) :
    printRound m mem store s = if m.ofInt i < f.radix ^ 19 then
      some (.inl {
        format := s.format + 2
        arg := arg
        out := s.out ++ numeral f.radix (m.ofInt i)
        reads := (s.format + 1) :: s.format :: s.reads
        taken := s.taken ++ [(f.letter, .int i)] })
      else none := by
  have hne : mem s.format ≠ 0 := by rw [hformat]; decide
  unfold printRound
  simp only [if_neg hne, if_pos hformat, hletter, printConversion_letter,
    printInt_eq f.le_radix.1 f.le_radix.2]
  unfold PrintState.vaInt
  simp only [harg, Option.bind_eq_bind, Option.bind_some]
  split_ifs <;> rfl

/-- A call of `print` with a conversion of an integer as its format. -/
theorem print_conversion {format : ℕ} (hs : IsString mem format [chr '%', f.letter]) :
    print m mem store format [.int i] = if m.ofInt i < f.radix ^ 19 then
      some {
        format := format + 2
        arg := []
        out := numeral f.radix (m.ofInt i)
        reads := [format + 2, format + 1, format]
        taken := [(f.letter, .int i)] }
      else none := by
  obtain ⟨hformat, -, hletter, -, hnul⟩ := hs
  unfold print
  rw [repeatUntil_eq, printRound_int (s := ⟨format, [.int i], [], [], []⟩) hformat hletter rfl]
  split_ifs
  · -- The loop ends at the NUL behind the conversion.
    apply repeatUntil_of_inr
    unfold printRound
    exact if_pos hnul
  · rfl

/-- A conversion writes what it should exactly if the numeral fits and is the one that should come
out. -/
theorem rendersInt_iff_numeral (m : LongModel) (f : IntConversion) (i : BitVec 32) :
    RendersInt m f i ↔
      m.ofInt i < f.radix ^ 19 ∧ f.Renders i (numeral f.radix (m.ofInt i)) := by
  constructor
  · intro h
    -- The conversion at the address 0.
    obtain ⟨s', text, hround, hrenders, hout, -, -⟩ :=
      h.round (fun p => if p = 0 then chr '%' else f.letter) (fun _ => 0)
        ⟨0, [.int i], [], [], []⟩ [] rfl rfl rfl
    rw [printRound_int rfl rfl rfl] at hround
    split_ifs at hround with hfits
    obtain rfl := Sum.inl.inj (Option.some.inj hround)
    exact ⟨hfits, by rwa [List.append_cancel_left hout]⟩
  · rintro ⟨hfits, hrenders⟩
    constructor
    · intro store
      rw [itoa_store_eq f.le_radix.1 f.le_radix.2, if_pos hfits]
      rfl
    · intro mem store s arg hformat hletter harg
      exact ⟨_, _, (printRound_int hformat hletter harg).trans (if_pos hfits), hrenders,
        rfl, rfl, rfl⟩
    · intro mem store format hs
      exact ⟨_, _, (print_conversion hs).trans (if_pos hfits), hrenders, rfl⟩

/-- `print` writes an `int` as it should exactly if it is not negative, or is written by `%o` or
`%x` with an `unsigned long` of 32 bits. -/
theorem print_int_iff (m : LongModel) (f : IntConversion) (i : BitVec 32) :
    RendersInt m f i ↔ 0 ≤ i.toInt ∨ m = .ilp32 ∧ (f = .o ∨ f = .x) :=
  (rendersInt_iff_numeral m f i).trans (renders_numeral_iff m f i)

/-- `%d` of -1: with an `unsigned long` of 32 bits it comes out as 4294967295, and with one of 64
bits the numeral and its NUL take 21 bytes. -/
theorem not_rendersInt_minusOne :
    (¬ RendersInt .ilp32 .d (-1) ∧
      ∀ store, (print .ilp32 (fun p => [chr '%', chr 'd'].getD p 0) store 0 [.int (-1)]).map
        (·.out) = some (numeral 10 4294967295)) ∧
    ¬ RendersInt .lp64 .d (-1) ∧
      ∀ store, itoa (LongModel.lp64.ofInt (-1)) ⟨20, store⟩ 0 10 = none ∧
        (itoa (LongModel.lp64.ofInt (-1)) ⟨21, store⟩ 0 10).isSome := by
  have hwrong : ∀ m, ¬ RendersInt m .d (-1) := by
    intro m h
    have hneg : (-1 : BitVec 32).toInt < 0 := by decide
    have hcond := (renders_numeral_of_neg m .d hneg).mp ((rendersInt_iff_numeral m .d _).mp h)
    rcases hcond.2 with hd | hd
    · cases hd
    · cases hd
  refine ⟨⟨hwrong _, fun store => ?_⟩, hwrong _, fun store => ⟨?_, ?_⟩⟩
  · rw [print_conversion (f := .d) (by decide), if_pos (by decide)]
    rfl
  · rw [itoa_store_eq (by decide) (by decide), if_neg (by decide)]
  · have hlen : (digits 10 (LongModel.lp64.ofInt (-1))).length ≤ 20 :=
      (length_digits_le_iff (by decide) (by decide)).mpr (by decide)
    rw [itoa_eq (by decide) (by decide), if_pos]
    · rfl
    · unfold numeral
      rw [List.length_map]
      dsimp only
      omega

end Fos
