import Fos.Libc.Conversions
import Mathlib.Algebra.Group.Nat.Even

/-!
# How `print` goes through its format

The loop of `print` takes a `%` and whatever comes next for one conversion, so that a format whose
last `%` stands alone leads it over the NUL. The text is paired when that does not happen
(`Paired`), which is when an even number of `%` ends it (`paired_iff`). `print` then stops at the
NUL, and has taken one argument for each conversion (`print_consumes_iff`).
-/

namespace Fos

open Loops Arrays

/-- The conversions that `print` knows. -/
def isConversion (f : UInt8) : Bool :=
  f ∈ [chr 'c', chr 'd', chr 'i', chr 'o', chr 'x', chr 's']

/-- The conversions in a format, in order. -/
def conversions : List UInt8 → List UInt8
  | [] => []
  | [_] => []
  | c :: f :: text =>
    if c = chr '%' then
      if isConversion f then f :: conversions text else conversions text
    else conversions (f :: text)

/-- No `%` is left alone at the end. -/
def Paired : List UInt8 → Prop
  | [] => True
  | [c] => c ≠ chr '%'
  | c :: f :: text => if c = chr '%' then Paired text else Paired (f :: text)

/-- The argument has the type that the conversion asks for. -/
def Arg.Suits (mem : ℕ → UInt8) (f : UInt8) : Arg → Prop
  | .int _ => f ≠ chr 's'
  | .str p => f = chr 's' ∧ ∃ text, IsString mem p text

/-- The numeral of the argument does not fit into the array of the conversion: `unsigned long` has
64 bits, and the argument is negative and written in base 10 or 8. -/
def Overflows (m : LongModel) (e : UInt8 × Arg) : Prop :=
  m = .lp64 ∧ (e.1 = chr 'd' ∨ e.1 = chr 'i' ∨ e.1 = chr 'o') ∧ ∃ i, e.2 = .int i ∧ i.toInt < 0

/-- `print` goes through the format `text` and no further, and takes the arguments `args`, one for
each conversion, in order. -/
def ConsumesFormat (m : LongModel) (mem : ℕ → UInt8) (store : ℤ → UInt8) (format : ℕ)
    (text : List UInt8) (args arg : List Arg) : Prop :=
  ∃ s, print m mem store format (args ++ arg) = some s ∧
    (∀ p ∈ s.reads, p ≤ format + text.length) ∧ s.taken = (conversions text).zip args ∧ s.arg = arg

variable {m : LongModel} {mem : ℕ → UInt8} {store : ℤ → UInt8} {s s' : PrintState} {f c : UInt8}
  {text : List UInt8} {a : Arg} {arg args : List Arg}

/-! ## The end of a format -/

/-- How many `%` end the text. -/
def trailing (text : List UInt8) : ℕ := (text.reverse.takeWhile (· = chr '%')).length

theorem trailing_le (text : List UInt8) : trailing text ≤ text.length := by
  unfold trailing
  calc (text.reverse.takeWhile (· = chr '%')).length ≤ text.reverse.length :=
        (List.takeWhile_sublist _).length_le
    _ = text.length := List.length_reverse

/-- One more character in front counts only if there is nothing but `%` behind it. -/
theorem trailing_cons (c : UInt8) (text : List UInt8) : trailing (c :: text) =
    if trailing text = text.length then text.length + if c = chr '%' then 1 else 0
    else trailing text := by
  unfold trailing
  rw [List.reverse_cons, List.takeWhile_append, List.length_reverse]
  split_ifs with hall hc
  · simp [hc]
  · simp [hc]
  · rfl

/-- A `%` and the character behind it leave the parity as it is. -/
theorem even_trailing_cons_cons (f : UInt8) (text : List UInt8) :
    Even (trailing (chr '%' :: f :: text)) ↔ Even (trailing text) := by
  have hle := trailing_le text
  rw [trailing_cons, trailing_cons, List.length_cons]
  by_cases hall : trailing text = text.length
  · by_cases hf : f = chr '%'
    · rw [if_pos hall, if_pos hf, if_pos rfl, if_pos rfl, hall, add_assoc, Nat.even_add]
      exact iff_true_right even_two
    · rw [if_pos hall, if_neg hf, if_neg (by omega), hall, add_zero]
  · rw [if_neg hall, if_neg (by omega)]

/-- A character other than `%` in front counts for nothing. -/
theorem trailing_cons_of_ne (hc : c ≠ chr '%') (text : List UInt8) :
    trailing (c :: text) = trailing text := by
  rw [trailing_cons, if_neg hc, add_zero]
  split_ifs with hall
  · exact hall.symm
  · rfl

/-- No `%` is left alone exactly if an even number of them ends the text. -/
theorem paired_iff (text : List UInt8) : Paired text ↔ Even (trailing text) := by
  induction text using conversions.induct with
  | case1 => simp [Paired, trailing]
  | case2 c =>
    by_cases hc : c = chr '%'
    · simp [Paired, trailing, hc]
    · simp [Paired, trailing, hc]
  | case3 f text _ ih | case4 f text _ ih =>
    rw [even_trailing_cons_cons, Paired, if_pos rfl, ih]
  | case5 c f text hc ih => rw [trailing_cons_of_ne hc, Paired, if_neg hc, ih]

/-! ## A conversion -/

theorem isConversion_iff (f : UInt8) :
    isConversion f = true ↔ f = chr 'c' ∨ f = chr 's' ∨ ∃ g : IntConversion, f = g.letter := by
  unfold isConversion
  simp only [List.mem_cons, List.not_mem_nil, or_false, decide_eq_true_eq]
  constructor
  · rintro (h | h | h | h | h | h)
    · exact Or.inl h
    · exact Or.inr (Or.inr ⟨.d, h⟩)
    · exact Or.inr (Or.inr ⟨.i, h⟩)
    · exact Or.inr (Or.inr ⟨.o, h⟩)
    · exact Or.inr (Or.inr ⟨.x, h⟩)
    · exact Or.inr (Or.inl h)
  · rintro (h | h | ⟨g, h⟩)
    · exact Or.inl h
    · simp [h]
    · cases g <;> simp [h, IntConversion.letter]

/-- What comes next is skipped if it is no conversion. -/
theorem printConversion_of_not (hf : ¬ isConversion f) :
    printConversion m mem store f s = some s := by
  unfold isConversion at hf
  simp only [List.mem_cons, List.not_mem_nil, or_false, decide_eq_true_eq, not_or] at hf
  obtain ⟨hc, hd, hi, ho, hx, hs⟩ := hf
  unfold printConversion
  rw [if_neg hc, if_neg (not_or.mpr ⟨hd, hi⟩), if_neg ho, if_neg hx, if_neg hs]

/-- The numeral of an `int` fits, but for the conversions that overflow. -/
theorem overflows_letter (m : LongModel) (g : IntConversion) (i : BitVec 32) :
    Overflows m (g.letter, .int i) ↔ ¬ m.ofInt i < g.radix ^ 19 := by
  have hval := m.ofInt_eq i
  have hlo := i.le_toInt
  have hhi := i.toInt_lt
  have hint : (∃ j, Arg.int i = .int j ∧ j.toInt < 0) ↔ i.toInt < 0 := by simp
  unfold Overflows
  rw [hint]
  cases m with
  | ilp32 =>
    have hfits : LongModel.ilp32.ofInt i < g.radix ^ 19 := by
      apply g.lt_radix_pow
      simp only [LongModel.bits] at hval
      split_ifs at hval <;> omega
    simp [hfits]
  | lp64 =>
    simp only [LongModel.bits] at hval
    cases g with
    | d | i | o =>
      simp only [IntConversion.letter, IntConversion.radix, true_and, true_or, or_true]
      split_ifs at hval <;> omega
    | x =>
      have hletter : ¬ (chr 'x' = chr 'd' ∨ chr 'x' = chr 'i' ∨ chr 'x' = chr 'o') := by decide
      refine iff_of_false (fun h => hletter h.2.1) (not_not.mpr ?_)
      simp only [IntConversion.radix]
      split_ifs at hval <;> omega

/-- A conversion of an integer takes an `int`, unless it overflows. -/
theorem printConversion_int {i : BitVec 32} (g : IntConversion) (harg : s.arg = .int i :: arg) :
    printConversion m mem store g.letter s = if m.ofInt i < g.radix ^ 19 then
      some { s with
        arg := arg
        out := s.out ++ numeral g.radix (m.ofInt i)
        taken := s.taken ++ [(g.letter, .int i)] }
      else none := by
  rw [printConversion_letter, printInt_eq g.le_radix.1 g.le_radix.2]
  unfold PrintState.vaInt
  rw [harg]
  rfl

/-- A conversion that overflows is stuck. -/
theorem printConversion_overflows (h : Overflows m (f, a)) (harg : s.arg = a :: arg) :
    printConversion m mem store f s = none := by
  have hletter : ∃ g : IntConversion, f = g.letter := by
    obtain ⟨-, hf | hf | hf, -⟩ := h
    · exact ⟨.d, hf⟩
    · exact ⟨.i, hf⟩
    · exact ⟨.o, hf⟩
  obtain ⟨g, rfl⟩ := hletter
  obtain ⟨i, ha, -⟩ := h.2.2
  obtain rfl : a = .int i := ha
  rw [printConversion_int g harg, if_neg ((overflows_letter m g i).mp h)]

/-- A conversion takes an argument that suits it, unless it overflows. -/
theorem printConversion_suits (m : LongModel) (store : ℤ → UInt8) (hf : isConversion f)
    (ha : a.Suits mem f) (hfits : ¬ Overflows m (f, a)) (harg : s.arg = a :: arg) :
    ∃ out, printConversion m mem store f s =
      some { s with arg := arg, out := out, taken := s.taken ++ [(f, a)] } := by
  rcases (isConversion_iff f).mp hf with rfl | rfl | ⟨g, rfl⟩
  · cases a with
    | str p => exact absurd ha.1 (by decide)
    | int i =>
      refine ⟨s.out ++ [UInt8.ofNat i.toNat], ?_⟩
      unfold printConversion PrintState.vaInt
      rw [if_pos rfl, harg]
      rfl
  · cases a with
    | int i => exact absurd rfl ha
    | str p =>
      obtain ⟨-, text, htext⟩ := ha
      refine ⟨s.out ++ text, ?_⟩
      unfold printConversion PrintState.vaStr
      rw [if_neg (by decide), if_neg (by decide), if_neg (by decide), if_neg (by decide),
        if_pos rfl, harg]
      simp only [Option.bind_eq_bind, Option.bind_some, putString_eq htext.reads]
      rfl
  · cases a with
    | str p => exact absurd ha.1 (by cases g <;> decide)
    | int i =>
      rw [overflows_letter, not_not] at hfits
      exact ⟨_, (printConversion_int g harg).trans (if_pos hfits)⟩

theorem PrintState.vaInt_keeps {r : BitVec 32 × PrintState} (h : s.vaInt f = some r) :
    r.2.format = s.format ∧ r.2.reads = s.reads := by
  unfold PrintState.vaInt at h
  split at h
  · cases h
    exact ⟨rfl, rfl⟩
  · cases h

theorem PrintState.vaStr_keeps {r : ℕ × PrintState} (h : s.vaStr f = some r) :
    r.2.format = s.format ∧ r.2.reads = s.reads := by
  unfold PrintState.vaStr at h
  split at h
  · cases h
    exact ⟨rfl, rfl⟩
  · cases h

/-- Whatever a conversion takes and writes, it leaves the format alone. -/
theorem printConversion_keeps (h : printConversion m mem store f s = some s') :
    s'.format = s.format ∧ s'.reads = s.reads := by
  by_cases hf : isConversion f
  · rcases (isConversion_iff f).mp hf with rfl | rfl | ⟨g, rfl⟩
    · unfold printConversion at h
      rw [if_pos rfl] at h
      obtain ⟨r, hr, h⟩ := Option.bind_eq_some_iff.mp h
      cases h
      exact PrintState.vaInt_keeps hr
    · unfold printConversion at h
      rw [if_neg (by decide), if_neg (by decide), if_neg (by decide), if_neg (by decide),
        if_pos rfl] at h
      obtain ⟨r, hr, h⟩ := Option.bind_eq_some_iff.mp h
      obtain ⟨text, -, h⟩ := Option.bind_eq_some_iff.mp h
      cases h
      exact PrintState.vaStr_keeps hr
    · rw [printConversion_letter, printInt_eq g.le_radix.1 g.le_radix.2] at h
      obtain ⟨r, hr, h⟩ := Option.bind_eq_some_iff.mp h
      split_ifs at h
      cases h
      exact PrintState.vaInt_keeps hr
  · rw [printConversion_of_not hf] at h
    cases h
    exact ⟨rfl, rfl⟩

/-! ## The loop -/

/-- The NUL ends the loop. -/
theorem printRound_nul (h : mem s.format = 0) :
    printRound m mem store s = some (.inr { s with reads := s.format :: s.reads }) := by
  unfold printRound
  exact if_pos h

/-- A character is written as it is. -/
theorem printRound_char (h : mem s.format = c) (hne : c ≠ 0) (hc : c ≠ chr '%') :
    printRound m mem store s = some (.inl { s with
      format := s.format + 1
      out := s.out ++ [c]
      reads := s.format :: s.reads }) := by
  unfold printRound
  simp only [h]
  rw [if_neg hne, if_neg hc]
  rfl

/-- A `%` takes the next character for a conversion. -/
theorem printRound_percent (h : mem s.format = chr '%') (hf : mem (s.format + 1) = f) :
    printRound m mem store s =
      (printConversion m mem store f
        { s with reads := (s.format + 1) :: s.format :: s.reads }).map fun s =>
          .inl { s with format := s.format + 2 } := by
  unfold printRound
  simp only [h, hf]
  rw [if_neg (by decide), if_pos trivial]
  cases printConversion m mem store f
    { s with reads := (s.format + 1) :: s.format :: s.reads } <;> rfl

/-- A round reads where it is, and forgets nothing that has been read. -/
theorem reads_of_printRound {r : PrintState ⊕ PrintState}
    (h : printRound m mem store s = some r) :
    s.format ∈ (r.elim id id).reads ∧ s.reads ⊆ (r.elim id id).reads := by
  by_cases hnul : mem s.format = 0
  · rw [printRound_nul hnul] at h
    cases h
    exact ⟨List.mem_cons_self, List.subset_cons_self _ _⟩
  · by_cases hpercent : mem s.format = chr '%'
    · rw [printRound_percent hpercent rfl] at h
      obtain ⟨s₁, hs₁, rfl⟩ := Option.map_eq_some_iff.mp h
      have hreads := (printConversion_keeps hs₁).2
      dsimp only [Sum.elim_inl, id_eq] at hreads ⊢
      rw [hreads]
      exact ⟨by simp, fun p hp => by simp [hp]⟩
    · rw [printRound_char rfl hnul hpercent] at h
      cases h
      exact ⟨List.mem_cons_self, List.subset_cons_self _ _⟩

/-- So does the loop. -/
theorem reads_of_repeatUntil (h : repeatUntil (printRound m mem store) s = some s') :
    s.format ∈ s'.reads ∧ s.reads ⊆ s'.reads := by
  apply repeatUntil_induct ?_ ?_ h
  · intro s s' hround
    exact reads_of_printRound hround
  · intro s s₁ hround s' hs'
    obtain ⟨hformat, hreads⟩ := reads_of_printRound hround
    exact ⟨hs'.2 hformat, fun p hp => hs'.2 (hreads hp)⟩

/-- A `%` left alone at the end leads the loop over the NUL. -/
theorem repeatUntil_of_not_paired (hs : IsString mem s.format text) (hodd : ¬ Paired text)
    (h : repeatUntil (printRound m mem store) s = some s') :
    ∃ p ∈ s'.reads, s.format + text.length < p := by
  induction text using conversions.induct generalizing s with
  | case1 => exact absurd trivial hodd
  | case2 c =>
    obtain ⟨hc, -, hnul⟩ := hs
    -- The `%` takes the NUL for a conversion, and the loop goes on behind it.
    have hpercent : c = chr '%' := not_not.mp hodd
    rw [hpercent] at hc
    have hf : ¬ isConversion 0 := by decide
    rw [repeatUntil_eq, printRound_percent hc hnul, printConversion_of_not hf] at h
    exact ⟨_, (reads_of_repeatUntil h).1, Nat.lt_succ_self _⟩
  | case3 f text _ ih | case4 f text _ ih =>
    obtain ⟨hpercent, -, hf, -, hs⟩ := hs
    rw [Paired, if_pos rfl] at hodd
    rw [repeatUntil_eq, printRound_percent hpercent hf] at h
    -- Whatever the conversion takes, the loop goes on two characters further.
    obtain ⟨r, hr, h⟩ := Option.bind_eq_some_iff.mp h
    obtain ⟨s₁, hs₁, rfl⟩ := Option.map_eq_some_iff.mp hr
    have hformat : s₁.format = s.format := (printConversion_keeps hs₁).1
    obtain ⟨p, hp, hlt⟩ := ih (s := { s₁ with format := s₁.format + 2 })
      (by rw [hformat]; exact hs) hodd h
    refine ⟨p, hp, ?_⟩
    simp only [hformat, List.length_cons] at hlt ⊢
    omega
  | case5 c f text hc ih =>
    obtain ⟨hformat, hne, hs⟩ := hs
    rw [Paired, if_neg hc] at hodd
    rw [repeatUntil_eq, printRound_char hformat hne hc] at h
    obtain ⟨p, hp, hlt⟩ := ih (s := { s with
      format := s.format + 1
      out := s.out ++ [c]
      reads := s.format :: s.reads }) hs hodd h
    refine ⟨p, hp, ?_⟩
    simp only [List.length_cons] at hlt ⊢
    omega

/-- The round at a conversion that does not overflow takes its argument. -/
theorem printRound_suits (m : LongModel) (store : ℤ → UInt8)
    (hpercent : mem s.format = chr '%') (hletter : mem (s.format + 1) = f)
    (hf : isConversion f) (ha : a.Suits mem f) (hfits : ¬ Overflows m (f, a))
    (harg : s.arg = a :: arg) : ∃ out, printRound m mem store s = some (.inl {
      format := s.format + 2
      arg := arg
      out := out
      reads := (s.format + 1) :: s.format :: s.reads
      taken := s.taken ++ [(f, a)] }) := by
  obtain ⟨out, hout⟩ := printConversion_suits m store
    (s := { s with reads := (s.format + 1) :: s.format :: s.reads }) hf ha hfits harg
  refine ⟨out, ?_⟩
  rw [printRound_percent hpercent hletter, hout]
  rfl

/-- The round at a conversion that overflows is stuck. -/
theorem printRound_overflows (hpercent : mem s.format = chr '%')
    (hletter : mem (s.format + 1) = f) (h : Overflows m (f, a)) (harg : s.arg = a :: arg) :
    printRound m mem store s = none := by
  rw [printRound_percent hpercent hletter, printConversion_overflows (s :=
    { s with reads := (s.format + 1) :: s.format :: s.reads }) h harg]
  rfl

/-- The round at a `%` that no conversion follows takes nothing. -/
theorem printRound_skip (hpercent : mem s.format = chr '%') (hletter : mem (s.format + 1) = f)
    (hf : ¬ isConversion f) : printRound m mem store s = some (.inl { s with
      format := s.format + 2
      reads := (s.format + 1) :: s.format :: s.reads }) := by
  rw [printRound_percent hpercent hletter, printConversion_of_not hf]
  rfl

/-- A conversion that overflows leaves the loop without a result. -/
theorem repeatUntil_of_overflows (store : ℤ → UInt8) (hs : IsString mem s.format text)
    (hargs : List.Forall₂ (fun f a => a.Suits mem f) (conversions text) args)
    (harg : s.arg = args ++ arg) (h : ∃ e ∈ (conversions text).zip args, Overflows m e) :
    repeatUntil (printRound m mem store) s = none := by
  induction text using conversions.induct generalizing s args with
  | case1 => simp [conversions] at h
  | case2 c => simp [conversions] at h
  | case3 f text hf ih =>
    obtain ⟨hpercent, -, hletter, -, hs⟩ := hs
    rw [conversions, if_pos rfl, if_pos hf] at hargs h
    cases hargs with
    | @cons _ a _ args ha hargs =>
      -- This conversion overflows, or one behind it does.
      by_cases hfits : Overflows m (f, a)
      · rw [repeatUntil_eq, printRound_overflows hpercent hletter hfits harg]
        rfl
      · obtain ⟨out, hround⟩ := printRound_suits m store hpercent hletter hf ha
          hfits harg
        rw [repeatUntil_of_inl hround]
        obtain ⟨e, he, hover⟩ := h
        rw [List.zip_cons_cons, List.mem_cons] at he
        have he : e ∈ (conversions text).zip args := by
          apply he.resolve_left
          rintro rfl
          exact hfits hover
        exact ih hs hargs rfl ⟨e, he, hover⟩
  | case4 f text hf ih =>
    obtain ⟨hpercent, -, hletter, -, hs⟩ := hs
    rw [conversions, if_pos rfl, if_neg hf] at hargs h
    rw [repeatUntil_of_inl (printRound_skip hpercent hletter hf)]
    exact ih hs hargs harg h
  | case5 c f text hc ih =>
    obtain ⟨hformat, hne, hs⟩ := hs
    rw [conversions, if_neg hc] at hargs h
    rw [repeatUntil_of_inl (printRound_char hformat hne hc)]
    exact ih hs hargs harg h

/-- Without either, the loop ends at the NUL and has taken the arguments. -/
theorem repeatUntil_of_paired (store : ℤ → UInt8) (hs : IsString mem s.format text)
    (hpaired : Paired text)
    (hargs : List.Forall₂ (fun f a => a.Suits mem f) (conversions text) args)
    (harg : s.arg = args ++ arg) (hfits : ∀ e ∈ (conversions text).zip args, ¬ Overflows m e) :
    ∃ s', repeatUntil (printRound m mem store) s = some s' ∧
      (∀ p ∈ s'.reads, p ∈ s.reads ∨ p ≤ s.format + text.length) ∧
      s'.taken = s.taken ++ (conversions text).zip args ∧ s'.arg = arg := by
  induction text using conversions.induct generalizing s args with
  | case1 =>
    cases hargs
    -- The format is at its NUL.
    refine ⟨_, repeatUntil_of_inr (printRound_nul hs), ?_, by simp [conversions], harg⟩
    intro p hp
    simp only [List.mem_cons] at hp
    grind
  | case2 c =>
    cases hargs
    obtain ⟨hformat, hne, hnul⟩ := hs
    rw [repeatUntil_of_inl (printRound_char hformat hne hpaired)]
    refine ⟨_, repeatUntil_of_inr (printRound_nul hnul), ?_, by simp [conversions], harg⟩
    intro p hp
    simp only [List.mem_cons, List.length_singleton] at hp ⊢
    grind
  | case3 f text hf ih =>
    obtain ⟨hpercent, -, hletter, -, hs⟩ := hs
    rw [conversions, if_pos rfl, if_pos hf] at hargs hfits ⊢
    rw [Paired, if_pos rfl] at hpaired
    cases hargs with
    | @cons _ a _ args ha hargs =>
      rw [List.zip_cons_cons, List.forall_mem_cons] at hfits
      -- The conversion takes the first argument, and the others are for the rest of the format.
      obtain ⟨out, hround⟩ := printRound_suits m store hpercent hletter hf ha
        hfits.1 harg
      obtain ⟨s', hloop, hreads, htaken, harg'⟩ := ih (s := ⟨_, _, out, _, _⟩) hs hpaired hargs rfl
        hfits.2
      refine ⟨s', (repeatUntil_of_inl hround).trans hloop, ?_, ?_, harg'⟩
      · intro p hp
        have hread := hreads p hp
        simp only [List.mem_cons, List.length_cons] at hread ⊢
        grind
      · rw [htaken, List.append_assoc]
        rfl
  | case4 f text hf ih =>
    obtain ⟨hpercent, -, hletter, -, hs⟩ := hs
    rw [conversions, if_pos rfl, if_neg hf] at hargs hfits ⊢
    rw [Paired, if_pos rfl] at hpaired
    obtain ⟨s', hloop, hreads, htaken⟩ := ih (s := { s with
      format := s.format + 2
      reads := (s.format + 1) :: s.format :: s.reads }) hs hpaired hargs harg hfits
    refine ⟨s', ?_, ?_, htaken⟩
    -- A `%` that no conversion follows takes nothing.
    · rw [repeatUntil_of_inl (printRound_skip hpercent hletter hf), hloop]
    · intro p hp
      have hread := hreads p hp
      simp only [List.mem_cons, List.length_cons] at hread ⊢
      grind
  | case5 c f text hc ih =>
    obtain ⟨hformat, hne, hs⟩ := hs
    rw [conversions, if_neg hc] at hargs hfits ⊢
    rw [Paired, if_neg hc] at hpaired
    obtain ⟨s', hloop, hreads, htaken⟩ := ih (s := { s with
      format := s.format + 1
      out := s.out ++ [c]
      reads := s.format :: s.reads }) hs hpaired hargs harg hfits
    refine ⟨s', ?_, ?_, htaken⟩
    · rw [repeatUntil_of_inl (printRound_char hformat hne hc), hloop]
    · intro p hp
      have hread := hreads p hp
      simp only [List.mem_cons, List.length_cons] at hread ⊢
      grind

/-- `print` goes through its format and no further, and takes an argument for each conversion,
exactly if an even number of `%` ends the format and no conversion overflows. -/
theorem print_consumes_iff {format : ℕ} (hs : IsString mem format text)
    (hargs : List.Forall₂ (fun f a => a.Suits mem f) (conversions text) args) :
    ConsumesFormat m mem store format text args arg ↔
      Even (trailing text) ∧ ∀ e ∈ (conversions text).zip args, ¬ Overflows m e := by
  rw [← paired_iff]
  unfold ConsumesFormat print
  constructor
  · rintro ⟨s, hloop, hreads, -, -⟩
    constructor
    · by_contra hodd
      obtain ⟨p, hp, hlt⟩ := repeatUntil_of_not_paired hs hodd hloop
      exact absurd (hreads p hp) (not_le.mpr hlt)
    · intro e he hover
      rw [repeatUntil_of_overflows store hs hargs rfl ⟨e, he, hover⟩] at hloop
      cases hloop
  · rintro ⟨hpaired, hfits⟩
    obtain ⟨s, hloop, hreads, htaken, harg⟩ := repeatUntil_of_paired store
      (s := ⟨format, args ++ arg, [], [], []⟩) hs hpaired hargs rfl hfits
    exact ⟨s, hloop, fun p hp => (hreads p hp).resolve_left (by simp), htaken, harg⟩

/-- The format `a%%%d%x`, for 7 and -1. -/
theorem print_consumes_sevenMinusOne : ConsumesFormat .lp64
    (fun p => [chr 'a', chr '%', chr '%', chr '%', chr 'd', chr '%', chr 'x'].getD p 0)
    (fun _ => 0) 0
    [chr 'a', chr '%', chr '%', chr '%', chr 'd', chr '%', chr 'x'] [.int 7, .int (-1)] [] := by
  have hconv : conversions [chr 'a', chr '%', chr '%', chr '%', chr 'd', chr '%', chr 'x'] =
      [chr 'd', chr 'x'] := by decide
  have hd : chr 'd' ≠ chr 's' := by decide
  have hx : chr 'x' ≠ chr 's' := by decide
  refine (print_consumes_iff (by decide) ?_).mpr ⟨by decide, ?_⟩
  · rw [hconv]
    exact .cons hd (.cons hx .nil)
  · rw [hconv]
    simp only [List.zip_cons_cons, List.zip_nil_right, List.forall_mem_cons, List.not_mem_nil,
      false_implies, implies_true, and_true]
    refine ⟨?_, (overflows_letter .lp64 .x (-1)).not.mpr (by decide)⟩
    exact (overflows_letter .lp64 .d 7).not.mpr (by decide)

/-- The format `%`, with no argument: `print` goes on behind the NUL, to the address 2. -/
theorem not_consumes_percent :
    IsString (fun p => [chr '%'].getD p 0) 0 [chr '%'] ∧ conversions [chr '%'] = [] ∧
      ∀ (m : LongModel) (store : ℤ → UInt8),
        (print m (fun p => [chr '%'].getD p 0) store 0 []).map (·.reads) = some [2, 1, 0] ∧
          ¬ ConsumesFormat m (fun p => [chr '%'].getD p 0) store 0 [chr '%'] [] [] := by
  have hs : IsString (fun p => [chr '%'].getD p 0) 0 [chr '%'] := by decide
  have hf : ¬ isConversion 0 := by decide
  refine ⟨hs, rfl, fun m store => ⟨?_, ?_⟩⟩
  · unfold print
    rw [repeatUntil_of_inl (printRound_skip rfl rfl hf), repeatUntil_of_inr (printRound_nul rfl)]
    rfl
  · have hodd : ¬ Paired [chr '%'] := fun h => h rfl
    rintro ⟨s, hloop, hreads, -, -⟩
    obtain ⟨p, hp, hlt⟩ := repeatUntil_of_not_paired hs hodd hloop
    exact absurd (hreads p hp) (not_le.mpr hlt)

end Fos
