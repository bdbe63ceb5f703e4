import Fos.Middleware.Shell
import Mathlib.Data.Nat.Find

/-!
# Reading the lines

The loop of `shell_thread` puts one byte after the other into the 128 bytes of `buff_cmd`, until one
is a newline. It looks for nothing else: a line of more than 127 bytes is written behind the array,
and the end of the input is a byte like any other. Where the lines are short enough and end with a
newline, `parser` gets each as it is, whatever the lines before have left (`shell_lines_iff`).
-/

namespace Fos

open Loops Arrays Function

/-- At a place of the input is a line, which ends with a newline or with the input. -/
structure LineAt (input : ℕ → Option UInt8) (pos : ℕ) (text : List UInt8) : Prop where
  bytes : ∀ k (hk : k < text.length), input (pos + k) = some text[k]
  newline : chr '\n' ∉ text
  ends : input (pos + text.length) = some (chr '\n') ∨ input (pos + text.length) = none

/-- What `parser` gets for a line: its bytes and a NUL, and nothing for a line without bytes. -/
def Passes (text : List UInt8) : Option (Arr UInt8) → Prop
  | none => text = []
  | some cmd => text ≠ [] ∧ cmd.size = 128 ∧
      (∀ k (hk : k < text.length), cmd.cell k = text[k]) ∧ cmd.cell text.length = 0

/-- `shell_thread` reads a line as it should. -/
structure ReadsLine (input : ℕ → Option UInt8) (buffCmd : Arr UInt8) (pos : ℕ) : Prop where
  /-- The loop writes inside of `buff_cmd` only. -/
  safe : Safe (readRound input) (buffCmd, 0, pos)
  /-- It ends with the line, and `parser` gets a line of at most 127 bytes. -/
  line : ∀ text, LineAt input pos text → ∃ r, shellRound input buffCmd pos = some r ∧
    r.2.1 = pos + text.length + 1 ∧ (text.length ≤ 127 → Passes text r.2.2)

/-- `shell_thread` reads `n` lines as it should, one after the other. -/
def ReadsLines (input : ℕ → Option UInt8) : ℕ → Arr UInt8 → ℕ → Prop
  | 0, _, _ => True
  | n + 1, buffCmd, pos => ReadsLine input buffCmd pos ∧
      ∀ r, shellRound input buffCmd pos = some r → ReadsLines input n r.1 r.2.1

/-- The line at a place of the input has at most 127 bytes, and ends with a newline. -/
def FitsLine (input : ℕ → Option UInt8) (pos : ℕ) (text : List UInt8) : Prop :=
  LineAt input pos text ∧ text.length ≤ 127 ∧ input (pos + text.length) = some (chr '\n')

/-- So do `n` lines, one after the other. -/
def FitsLines (input : ℕ → Option UInt8) : ℕ → ℕ → Prop
  | 0, _ => True
  | n + 1, pos => ∃ text, FitsLine input pos text ∧ FitsLines input n (pos + text.length + 1)

/-- The first `n` bytes that `getchar` gives from a place on. -/
def bytesAt (input : ℕ → Option UInt8) (pos n : ℕ) : List UInt8 :=
  (List.range n).map fun k => getchar input (pos + k)

variable {input : ℕ → Option UInt8} {buffCmd : Arr UInt8} {pos n k : ℕ} {text text' : List UInt8}

/-! ## The input -/

/-- `getchar` gives a newline only where there is one: the end of the input is another byte. -/
theorem getchar_eq_newline : getchar input pos = chr '\n' ↔ input pos = some (chr '\n') := by
  unfold getchar
  cases input pos with
  | none => exact iff_of_false (by decide) (by simp)
  | some c => simp

@[simp] theorem length_bytesAt : (bytesAt input pos n).length = n := by simp [bytesAt]

theorem getElem_bytesAt (hk : k < (bytesAt input pos n).length) :
    (bytesAt input pos n)[k] = getchar input (pos + k) := by
  simp [bytesAt]

theorem bytesAt_succ : bytesAt input pos (n + 1) =
    bytesAt input pos n ++ [getchar input (pos + n)] := by
  simp [bytesAt, List.range_succ]

/-- The bytes up to the first newline or end of the input are a line. -/
theorem lineAt_bytesAt (hbytes : ∀ k < n, input (pos + k) ≠ none)
    (hnewline : ∀ k < n, input (pos + k) ≠ some (chr '\n'))
    (hends : input (pos + n) = some (chr '\n') ∨ input (pos + n) = none) :
    LineAt input pos (bytesAt input pos n) := by
  constructor
  · intro k hk
    rw [getElem_bytesAt hk]
    rw [length_bytesAt] at hk
    obtain ⟨c, hc⟩ := Option.ne_none_iff_exists'.mp (hbytes k hk)
    rw [getchar, hc]
    rfl
  · intro hmem
    obtain ⟨k, hk, heq⟩ := List.mem_map.mp hmem
    exact hnewline k (List.mem_range.mp hk) (getchar_eq_newline.mp heq)
  · rwa [length_bytesAt]

/-- A line is not longer than another one at its place. -/
theorem LineAt.length_le (h : LineAt input pos text) (h' : LineAt input pos text') :
    text.length ≤ text'.length := by
  by_contra hlt
  have hbyte := h.bytes text'.length (not_le.mp hlt)
  rcases h'.ends with hend | hend
  · rw [hend] at hbyte
    exact h.newline (Option.some.inj hbyte ▸ List.getElem_mem _)
  · rw [hend] at hbyte
    cases hbyte

/-- There is one line at a place. -/
theorem LineAt.unique (h : LineAt input pos text) (h' : LineAt input pos text') : text = text' := by
  apply List.ext_getElem (le_antisymm (h.length_le h') (h'.length_le h))
  intro k hk hk'
  exact Option.some.inj ((h.bytes k hk).symm.trans (h'.bytes k hk'))

/-! ## The loop -/

/-- A round, while there is room. -/
theorem readRound_eq {i : UInt8} (hi : i.toNat < buffCmd.size) :
    readRound input (buffCmd, i, pos) =
      if getchar input pos = chr '\n' then
        some (.inr (buffCmd.overwrite i.toNat [getchar input pos], i, pos + 1))
      else some (.inl (buffCmd.overwrite i.toNat [getchar input pos], i + 1, pos + 1)) := by
  have hinside : buffCmd.Inside i.toNat := ⟨by omega, by omega⟩
  unfold readRound
  simp only [Arr.write_of_inside hinside, ← Arr.overwrite_singleton, Option.bind_eq_bind,
    Option.bind_some, Arr.read_overwrite_singleton hinside]

/-- A round without room is stuck. -/
theorem readRound_full {i : UInt8} (hi : buffCmd.size ≤ i.toNat) :
    readRound input (buffCmd, i, pos) = none := by
  have hinside : ¬ buffCmd.Inside i.toNat := fun h => by have := h.2; omega
  unfold readRound
  simp only [Arr.write_of_not_inside hinside, Option.bind_eq_bind, Option.bind_none]

/-- As long as no newline comes, the bytes are put into the array. -/
theorem comes_bytesAt (hsize : buffCmd.size = 128) (hn : n ≤ 128)
    (hnewline : ∀ k < n, input (pos + k) ≠ some (chr '\n')) :
    Comes (readRound input) (buffCmd, 0, pos)
      (buffCmd.overwrite 0 (bytesAt input pos n), UInt8.ofNat n, pos + n) := by
  induction n with
  | zero =>
    have hnone : bytesAt input pos 0 = [] := rfl
    rw [hnone, Arr.overwrite_nil]
    exact .start
  | succ n ih =>
    have hi : (UInt8.ofNat n).toNat = n := by
      rw [UInt8.toNat_ofNat']
      omega
    have hroom : (UInt8.ofNat n).toNat < (buffCmd.overwrite 0 (bytesAt input pos n)).size := by
      rw [Arr.overwrite_size]
      omega
    refine .next (ih (by omega) fun k hk => hnewline k (by omega)) ?_
    have hother : getchar input (pos + n) ≠ chr '\n' :=
      getchar_eq_newline.not.mpr (hnewline n (Nat.lt_succ_self n))
    rw [readRound_eq hroom, if_neg hother, hi, bytesAt_succ, ← Arr.overwrite_append,
      length_bytesAt, zero_add, UInt8.ofNat_add]
    rfl

/-- The newline ends the loop. -/
theorem repeatUntil_readRound (hsize : buffCmd.size = 128) (hn : n ≤ 127)
    (hnewline : ∀ k < n, input (pos + k) ≠ some (chr '\n'))
    (hend : input (pos + n) = some (chr '\n')) :
    repeatUntil (readRound input) (buffCmd, 0, pos) =
      some (buffCmd.overwrite 0 (bytesAt input pos n ++ [chr '\n']), UInt8.ofNat n,
        pos + n + 1) := by
  have hi : (UInt8.ofNat n).toNat = n := by
    rw [UInt8.toNat_ofNat']
    omega
  have hroom : (UInt8.ofNat n).toNat < (buffCmd.overwrite 0 (bytesAt input pos n)).size := by
    rw [Arr.overwrite_size]
    omega
  rw [(comes_bytesAt hsize (by omega) hnewline).repeatUntil_eq]
  apply repeatUntil_of_inr
  have hlast := getchar_eq_newline.mpr hend
  rw [readRound_eq hroom, if_pos hlast, hlast, hi, ← Arr.overwrite_append, length_bytesAt, zero_add]

/-- Without a newline among the first 128 bytes, the loop writes behind the array. -/
theorem not_safe_readRound (hsize : buffCmd.size = 128)
    (hnewline : ∀ k < 128, input (pos + k) ≠ some (chr '\n')) :
    ¬ Safe (readRound input) (buffCmd, 0, pos) := by
  intro hsafe
  refine hsafe _ (comes_bytesAt hsize le_rfl hnewline) (readRound_full ?_)
  rw [Arr.overwrite_size, hsize]
  decide

/-- The first byte after the loop: the newline, if nothing comes before it. -/
theorem read_line (hsize : buffCmd.size = 128) :
    (buffCmd.overwrite 0 (bytesAt input pos n ++ [chr '\n'])).read 0 =
      some (if n = 0 then chr '\n' else getchar input pos) := by
  have hfirst : 0 < (bytesAt input pos n ++ [chr '\n']).length := by simp
  have hcell := Arr.overwrite_cell_add (b := buffCmd) (i := 0) hfirst
  have hread := Arr.read_of_inside (b := buffCmd.overwrite 0 (bytesAt input pos n ++ [chr '\n']))
    (i := 0) ⟨le_rfl, by rw [Arr.overwrite_size]; omega⟩
  rw [hread]
  refine congrArg some (hcell.trans ?_)
  cases n with
  | zero => rfl
  | succ n =>
    rw [if_neg (Nat.succ_ne_zero n), List.getElem_append_left (by simp), getElem_bytesAt]
    rfl

/-- When the NUL has been written over the newline, the array holds the line. -/
theorem passes_bytesAt (hsize : buffCmd.size = 128) (h0 : n ≠ 0) :
    Passes (bytesAt input pos n)
      (some ((buffCmd.overwrite 0 (bytesAt input pos n ++ [chr '\n'])).overwrite n [0])) := by
  refine ⟨?_, hsize, fun k hk => ?_, ?_⟩
  · apply List.ne_nil_of_length_pos
    rw [length_bytesAt]
    exact Nat.pos_of_ne_zero h0
  · have hlen : k < (bytesAt input pos n ++ [chr '\n']).length := by
      rw [List.length_append]
      omega
    have hcell := Arr.overwrite_cell_add (b := buffCmd) (i := 0) hlen
    rw [zero_add, List.getElem_append_left hk] at hcell
    rw [length_bytesAt] at hk
    rw [Arr.overwrite_cell_of_outside (Or.inl (by omega)), hcell]
  · rw [length_bytesAt, Arr.overwrite_singleton]
    exact update_self _ _ _

/-- What `shell_thread` does with a line that fits: `parser` gets it, unless it has no bytes. -/
theorem shellRound_fits (hsize : buffCmd.size = 128) (hn : n ≤ 127)
    (hnewline : ∀ k < n, input (pos + k) ≠ some (chr '\n'))
    (hend : input (pos + n) = some (chr '\n')) :
    ∃ r, shellRound input buffCmd pos = some r ∧ r.1.size = 128 ∧ r.2.1 = pos + n + 1 ∧
      Passes (bytesAt input pos n) r.2.2 := by
  have hi : (UInt8.ofNat n).toNat = n := by
    rw [UInt8.toNat_ofNat']
    omega
  unfold shellRound
  rw [repeatUntil_readRound hsize hn hnewline hend]
  simp only [Option.bind_eq_bind, Option.bind_some, read_line hsize, hi]
  by_cases h0 : n = 0
  · rw [if_pos h0, if_pos rfl]
    exact ⟨_, rfl, hsize, rfl, h0 ▸ rfl⟩
  · have hfirst : getchar input pos ≠ chr '\n' :=
      getchar_eq_newline.not.mpr (hnewline 0 (by omega))
    have hinside : (buffCmd.overwrite 0 (bytesAt input pos n ++ [chr '\n'])).Inside n := by
      unfold Arr.Inside
      rw [Arr.overwrite_size]
      omega
    have hzeros : List.replicate 128 (0 : UInt8) ≠ [] := by decide
    rw [if_neg h0, if_neg hfirst, Arr.write_of_inside hinside, ← Arr.overwrite_singleton,
      Option.bind_some, Arr.writeAll_eq hzeros, if_pos]
    · exact ⟨_, rfl, hsize, rfl, passes_bytesAt hsize h0⟩
    · rw [Arr.overwrite_size, Arr.overwrite_size, hsize, List.length_replicate]
      decide

/-! ## Lines -/

/-- A line that fits is the bytes that `getchar` gives up to its newline. -/
theorem FitsLine.bytesAt_eq (h : FitsLine input pos text) :
    bytesAt input pos text.length = text := by
  apply List.ext_getElem length_bytesAt
  intro k hk hk'
  rw [getElem_bytesAt hk, getchar, h.1.bytes k hk']
  rfl

/-- None of them is a newline. -/
theorem LineAt.ne_newline (h : LineAt input pos text) (hk : k < text.length) :
    input (pos + k) ≠ some (chr '\n') := by
  rw [h.bytes k hk]
  intro heq
  exact h.newline (Option.some.inj heq ▸ List.getElem_mem hk)

/-- What `shell_thread` does with a line that fits. -/
theorem FitsLine.shellRound (h : FitsLine input pos text) (hsize : buffCmd.size = 128) :
    ∃ r, shellRound input buffCmd pos = some r ∧ r.1.size = 128 ∧
      r.2.1 = pos + text.length + 1 ∧ Passes text r.2.2 := by
  obtain ⟨r, hr, hsize', hpos, hpasses⟩ :=
    shellRound_fits hsize h.2.1 (fun k hk => h.1.ne_newline hk) h.2.2
  exact ⟨r, hr, hsize', hpos, h.bytesAt_eq ▸ hpasses⟩

/-- `shell_thread` reads a line as it should exactly if it fits. -/
theorem readsLine_iff (hsize : buffCmd.size = 128) :
    ReadsLine input buffCmd pos ↔ ∃ text, FitsLine input pos text := by
  constructor
  · rintro ⟨hsafe, hline⟩
    by_cases hex : ∃ n, n < 128 ∧ input (pos + n) = some (chr '\n')
    · -- The loop goes on to the first newline, so that there is no end of the input before it.
      obtain ⟨n, ⟨hn, hend⟩, hfirst⟩ := Nat.findX hex
      have hnewline : ∀ k < n, input (pos + k) ≠ some (chr '\n') :=
        fun k hk heq => hfirst k hk ⟨by omega, heq⟩
      obtain ⟨r, hr, -, hpos, -⟩ := shellRound_fits hsize (by omega) hnewline hend
      by_cases hin : ∃ m, m < n ∧ input (pos + m) = none
      · obtain ⟨m, ⟨hm, hend'⟩, hfirst'⟩ := Nat.findX hin
        obtain ⟨r', hr', hpos', -⟩ := hline (bytesAt input pos m) (lineAt_bytesAt
          (fun k hk heq => hfirst' k hk ⟨by omega, heq⟩) (fun k hk => hnewline k (by omega))
          (Or.inr hend'))
        obtain rfl := Option.some.inj (hr.symm.trans hr')
        rw [length_bytesAt] at hpos'
        omega
      · push Not at hin
        refine ⟨bytesAt input pos n, lineAt_bytesAt hin hnewline (Or.inl hend), ?_, ?_⟩
        · rw [length_bytesAt]
          omega
        · rwa [length_bytesAt]
    · push Not at hex
      exact absurd hsafe (not_safe_readRound hsize hex)
  · rintro ⟨text, hfits⟩
    obtain ⟨r, hr, -, hpos, hpasses⟩ := hfits.shellRound hsize
    constructor
    · exact safe_of_repeatUntil (repeatUntil_readRound hsize hfits.2.1
        (fun k hk => hfits.1.ne_newline hk) hfits.2.2)
    · intro text' hline'
      obtain rfl := hline'.unique hfits.1
      exact ⟨r, hr, hpos, fun _ => hpasses⟩

/-- From any place on, and whatever is in the array, `shell_thread` reads the lines as it should
exactly if they fit. -/
theorem readsLines_iff (hsize : buffCmd.size = 128) :
    ReadsLines input n buffCmd pos ↔ FitsLines input n pos := by
  induction n generalizing buffCmd pos with
  | zero => exact Iff.rfl
  | succ n ih =>
    rw [ReadsLines, FitsLines, readsLine_iff hsize]
    constructor
    · rintro ⟨⟨text, hfits⟩, hrest⟩
      obtain ⟨r, hr, hsize', hpos, -⟩ := hfits.shellRound hsize
      refine ⟨text, hfits, ?_⟩
      rw [← hpos, ← ih hsize']
      exact hrest r hr
    · rintro ⟨text, hfits, hrest⟩
      obtain ⟨r, hr, hsize', hpos, -⟩ := hfits.shellRound hsize
      refine ⟨⟨text, hfits⟩, fun r' hr' => ?_⟩
      obtain rfl := Option.some.inj (hr.symm.trans hr')
      rw [ih hsize', hpos]
      exact hrest

/-- From the start on, `shell_thread` reads the lines of its input as it should exactly if each has
at most 127 bytes and ends with a newline. -/
theorem shell_lines_iff (input : ℕ → Option UInt8) (n : ℕ) :
    ReadsLines input n ⟨128, fun _ => 0⟩ 0 ↔ FitsLines input n 0 :=
  readsLines_iff rfl

/-- A line of 128 bytes `a`: the loop writes behind the array. -/
theorem not_readsLines_long :
    LineAt (fun p => some (if p < 128 then chr 'a' else chr '\n')) 0
        (List.replicate 128 (chr 'a')) ∧
      ¬ ReadsLines (fun p => some (if p < 128 then chr 'a' else chr '\n')) 1
        ⟨128, fun _ => 0⟩ 0 := by
  constructor
  · constructor
    · intro k hk
      rw [List.getElem_replicate]
      rw [List.length_replicate] at hk
      exact congrArg some (if_pos (by omega))
    · intro hmem
      exact absurd (List.eq_of_mem_replicate hmem) (by decide)
    · rw [List.length_replicate]
      exact Or.inl rfl
  · rintro ⟨⟨hsafe, -⟩, -⟩
    refine not_safe_readRound rfl (fun k hk heq => ?_) hsafe
    have ha : (if 0 + k < 128 then chr 'a' else chr '\n') = chr 'a' := if_pos (by omega)
    rw [ha] at heq
    exact absurd heq (by decide)

/-- An input that has ended: the loop takes what `getchar` gives for bytes, and does so, too. -/
theorem not_readsLines_end : LineAt (fun _ => none) 0 [] ∧
    ¬ ReadsLines (fun _ => none) 1 ⟨128, fun _ => 0⟩ 0 := by
  constructor
  · exact ⟨fun k hk => absurd hk (Nat.not_lt_zero k), List.not_mem_nil, Or.inr rfl⟩
  · rintro ⟨⟨hsafe, -⟩, -⟩
    refine not_safe_readRound rfl (fun k _ heq => ?_) hsafe
    cases heq

end Fos
