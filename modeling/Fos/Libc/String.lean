import Fos.Lib.Loops
import Mathlib.Data.Int.Notation
import Mathlib.Data.Nat.Notation

/-!
# Strings

A string is the bytes from an address on, up to a NUL. `strcmp` of two strings gives zero exactly if
they are the same (`strcmp_eq`).
-/

namespace Fos

open Loops

/-- A character of the source text. -/
abbrev chr (c : Char) : UInt8 := c.toUInt8

/-- `strcmp`: the difference of the first bytes that differ. -/
def strcmp (mem : ℕ → UInt8) (p q : ℕ) : Option ℤ :=
  repeatUntil (fun (p, q) =>
    if mem p = mem q then if mem p = 0 then some (.inr 0) else some (.inl (p + 1, q + 1))
    else some (.inr ((mem p).toNat - (mem q).toNat))) (p, q)

/-- One round of `strcmp`. -/
theorem strcmp_unfold (mem : ℕ → UInt8) (p q : ℕ) : strcmp mem p q =
    if mem p = mem q then if mem p = 0 then some 0 else strcmp mem (p + 1) (q + 1)
    else some ((mem p).toNat - (mem q).toNat) := by
  unfold strcmp
  rw [repeatUntil_eq]
  dsimp only
  split_ifs <;> rfl

/-- At the address is the string `text`, and its NUL. -/
def IsString (mem : ℕ → UInt8) (p : ℕ) : List UInt8 → Prop
  | [] => mem p = 0
  | b :: text => mem p = b ∧ b ≠ 0 ∧ IsString mem (p + 1) text

instance (mem : ℕ → UInt8) (p : ℕ) (text : List UInt8) : Decidable (IsString mem p text) :=
  match text with
  | [] => inferInstanceAs (Decidable (mem p = 0))
  | b :: text =>
    have := instDecidableIsString mem (p + 1) text
    inferInstanceAs (Decidable (mem p = b ∧ b ≠ 0 ∧ IsString mem (p + 1) text))

variable {mem : ℕ → UInt8} {p q : ℕ} {text text' : List UInt8}

/-- There is one string at an address. -/
theorem IsString.unique (h : IsString mem p text) (h' : IsString mem p text') : text = text' := by
  induction text generalizing p text' with
  | nil =>
    cases text' with
    | nil => rfl
    | cons b text' => exact absurd ((h'.1 : mem p = b).symm.trans h) h'.2.1
  | cons a text ih =>
    cases text' with
    | nil => exact absurd ((h.1 : mem p = a).symm.trans h') h.2.1
    | cons b text' => rw [h.1.symm.trans h'.1, ih h.2.2 h'.2.2]

/-- `strcmp` does not give zero where the first bytes differ. -/
theorem strcmp_of_ne (h : mem p ≠ mem q) : ∃ c, strcmp mem p q = some c ∧ c ≠ 0 := by
  rw [strcmp_unfold, if_neg h]
  refine ⟨_, rfl, fun hc => h (UInt8.toNat_inj.mp ?_)⟩
  omega

/-- `strcmp` of two strings gives zero exactly if they are the same. -/
theorem strcmp_eq (hp : IsString mem p text) (hq : IsString mem q text') :
    ∃ c, strcmp mem p q = some c ∧ (c = 0 ↔ text = text') := by
  induction text generalizing p q text' with
  | nil =>
    have hp : mem p = 0 := hp
    cases text' with
    | nil =>
      have hq : mem q = 0 := hq
      rw [strcmp_unfold, if_pos (hp.trans hq.symm), if_pos hp]
      exact ⟨0, rfl, by simp⟩
    | cons b text' =>
      obtain ⟨hb, hne, -⟩ := hq
      obtain ⟨c, hc, hne⟩ := strcmp_of_ne (show mem p ≠ mem q by rw [hp, hb]; exact hne.symm)
      exact ⟨c, hc, iff_of_false hne (by simp)⟩
  | cons a text ih =>
    obtain ⟨ha, hane, hp⟩ := hp
    cases text' with
    | nil =>
      have hq : mem q = 0 := hq
      obtain ⟨c, hc, hne⟩ := strcmp_of_ne (show mem p ≠ mem q by rw [ha, hq]; exact hane)
      exact ⟨c, hc, iff_of_false hne (by simp)⟩
    | cons b text' =>
      obtain ⟨hb, -, hq⟩ := hq
      by_cases hab : a = b
      · obtain ⟨c, hc, hiff⟩ := ih hp hq
        refine ⟨c, ?_, by simp [hiff, hab]⟩
        rw [strcmp_unfold, if_pos (by rw [ha, hb, hab]), if_neg (by rwa [ha]), hc]
      · obtain ⟨c, hc, hne⟩ := strcmp_of_ne (show mem p ≠ mem q by rwa [ha, hb])
        exact ⟨c, hc, iff_of_false hne (by simp [hab])⟩

end Fos
