import Fos.Kernel.Timer
import Fos.Refinement.Bitmap

/-!
# A tick with a bit too many

`task_create` sets the bits of a priority before it links the task in, so that for a while the
bitmap marks a ready list that may be empty. A tick that comes then does what it would do without
these bits as long as that priority or a higher one has a task, since `bitmap_get` finds the highest
(`Marked.hardwareTimer`).
-/

namespace Fos

open Loops Function

/-- The bits of the priority `q` are set. -/
structure BitSet (q : ℕ) (y : BitVec 8) (c : ℕ → BitVec 8) : Prop where
  bit : (c (q >>> 3)).getLsbD (q &&& 0x7) = true
  byte : y.getLsbD (q >>> 3) = true

/-- The bitmap `y'`, `c'` is that of the kernel but for the bits of the priority `p`, which it may
have set besides. -/
structure Extra (p : ℕ) (k : Kernel) (y' : BitVec 8) (c' : ℕ → BitVec 8) : Prop where
  bit_le : ∀ b i, (k.c b).getLsbD i = true → (c' b).getLsbD i = true
  bit : ∀ b i, (c' b).getLsbD i = true → (k.c b).getLsbD i = true ∨ b = p >>> 3 ∧ i = p &&& 0x7
  byte_le : ∀ i, k.y.getLsbD i = true → y'.getLsbD i = true
  byte : ∀ i, y'.getLsbD i = true → k.y.getLsbD i = true ∨ i = p >>> 3

/-- And the kernel's has set those of `q`. -/
structure Marked (p q : ℕ) (k : Kernel) (y' : BitVec 8) (c' : ℕ → BitVec 8) : Prop
    extends Extra p k y' c' where
  set : BitSet q k.y k.c

variable {p q r : ℕ} {k k₁ : Kernel} {y' : BitVec 8} {c' : ℕ → BitVec 8} {t : TcbPtr}

/-- The kernel with another bitmap. -/
abbrev Kernel.withBitmap (k : Kernel) (y' : BitVec 8) (c' : ℕ → BitVec 8) : Kernel :=
  { k with y := y', c := c' }

/-- The lowest bit that is set is the same when a higher one is set besides. -/
theorem lowest_eq {x x' : BitVec 8} {i j : ℕ} (hle : ∀ n, x.getLsbD n = true → x'.getLsbD n = true)
    (hx : ∀ n, x'.getLsbD n = true → x.getLsbD n = true ∨ n = i) (hj : x.getLsbD j = true)
    (hji : j ≤ i) : bitmap.getD x'.toNat 0 = bitmap.getD x.toNat 0 ∧
      bitmap.getD x.toNat 0 ≤ j := by
  have hne : x ≠ 0 := fun e => by simp [e] at hj
  have hne' : x' ≠ 0 := fun e => by simpa [e] using hle j hj
  obtain ⟨-, hset, hlow⟩ := bitmap_getLsbD hne
  obtain ⟨-, hset', hlow'⟩ := bitmap_getLsbD hne'
  have hlej : bitmap.getD x.toNat 0 ≤ j := by
    by_contra hlt
    rw [hlow j (Nat.lt_of_not_le hlt)] at hj
    exact Bool.false_ne_true hj
  refine ⟨?_, hlej⟩
  rcases lt_trichotomy (bitmap.getD x'.toNat 0) (bitmap.getD x.toNat 0) with hlt | heq | hgt
  · -- The lower one would be the bit besides, which is not lower.
    rcases hx _ hset' with hset' | heq
    · rw [hlow _ hlt] at hset'
      exact absurd hset' Bool.false_ne_true
    · omega
  · exact heq
  · have hset := hle _ hset
    rw [hlow' _ hgt] at hset
    exact absurd hset Bool.false_ne_true

/-- The bit of a priority, in its byte, is one bit more. -/
theorem Extra.of_byte (p : ℕ) (k : Kernel) : Extra p k k.y
    (update k.c (p >>> 3) (k.c (p >>> 3) ||| 1#8 <<< (p &&& 0x7))) where
  bit_le b i hi := by
    rcases eq_or_ne b (p >>> 3) with rfl | hb
    · simp [hi]
    · simpa [hb] using hi
  bit b i hi := by
    rcases eq_or_ne b (p >>> 3) with rfl | hb
    · rw [update_self, BitVec.getLsbD_or, Bool.or_eq_true] at hi
      refine hi.imp_right fun hi => ⟨rfl, ?_⟩
      rw [getLsbD_one_shiftLeft _ _ (BitVec.lt_of_getLsbD hi)] at hi
      exact of_decide_eq_true hi
    · rw [update_of_ne hb] at hi
      exact .inl hi
  byte_le _ := id
  byte _ := .inl

/-- The bits of a priority. -/
theorem Extra.of_bitmapSet (hk : k.bitmapSet p = some k₁) : Extra p k k₁.y k₁.c := by
  unfold Kernel.bitmapSet at hk
  dsimp only at hk
  split_ifs at hk with hp
  obtain rfl := Option.some.inj hk
  have h := Extra.of_byte p k
  refine ⟨h.bit_le, h.bit, fun i hi => by simp [hi], fun i hi => ?_⟩
  rw [BitVec.getLsbD_or, Bool.or_eq_true] at hi
  refine hi.imp_right fun hi => ?_
  rw [getLsbD_one_shiftLeft _ _ (BitVec.lt_of_getLsbD hi)] at hi
  exact of_decide_eq_true hi

namespace Marked

/-- `bitmap_get` finds the same priority, since one is marked that is not lower than `p`. -/
theorem bitmapGet (h : Marked p q k y' c') (hqp : q ≤ p) :
    (k.withBitmap y' c').bitmapGet = k.bitmapGet := by
  obtain ⟨hbit, hbyte⟩ := h.set
  rw [shiftRight_three, and_seven] at hbit
  rw [shiftRight_three] at hbyte
  have hy := h.byte
  have hc := h.bit
  rw [shiftRight_three] at hy
  rw [shiftRight_three, and_seven] at hc
  obtain ⟨heq, hle⟩ := lowest_eq h.byte_le hy hbyte (Nat.div_le_div_right hqp)
  unfold Kernel.bitmapGet
  dsimp only
  rw [heq]
  generalize bitmap.getD k.y.toNat 0 = b at hle ⊢
  suffices hbyte : bitmap.getD (c' b).toNat 0 = bitmap.getD (k.c b).toNat 0 by rw [hbyte]
  by_cases hbp : b = p / 8
  · -- The byte is that of both priorities.
    have hbq : q / 8 = b := by omega
    rw [hbq] at hbit
    exact (lowest_eq (h.bit_le b) (fun n hn => (hc b n hn).imp_right And.right) hbit
      (by omega)).1
  · have hsame : c' b = k.c b := BitVec.eq_of_getLsbD_eq fun i _ => Bool.eq_iff_iff.mpr
      ⟨fun hi => (hc b i hi).resolve_right fun ⟨hb, _⟩ => hbp hb, h.bit_le b i⟩
    rw [hsame]

/-- A function that leaves the bitmap as it is. -/
theorem withSame (h : Marked p q k y' c') (hy : k₁.y = k.y) (hc : k₁.c = k.c) :
    Marked p q k₁ y' c' where
  bit_le := hc ▸ h.bit_le
  bit := hc ▸ h.bit
  byte_le := hy ▸ h.byte_le
  byte := hy ▸ h.byte
  set := hy ▸ hc ▸ h.set

end Marked

/-! ## What the tick does to the bitmap -/

/-- `bitmap_set`. -/
theorem Extra.bitmapSet (h : Extra p k y' c') (hk : k.bitmapSet r = some k₁) :
    ∃ y₁ c₁, (k.withBitmap y' c').bitmapSet r = some (k₁.withBitmap y₁ c₁) ∧
      Extra p k₁ y₁ c₁ := by
  unfold Kernel.bitmapSet at hk ⊢
  dsimp only at hk ⊢
  split_ifs at hk ⊢ with hr
  obtain rfl := Option.some.inj hk
  refine ⟨_, _, rfl, fun b i => ?_, fun b i => ?_, fun i => ?_, fun i => ?_⟩
  · rcases eq_or_ne b (r >>> 3) with rfl | hb
    · simpa using fun hi => hi.imp_left (h.bit_le _ i)
    · simpa [hb] using h.bit_le b i
  · rcases eq_or_ne b (r >>> 3) with rfl | hb
    · simp only [update_self, BitVec.getLsbD_or, Bool.or_eq_true]
      rintro (hi | hi)
      · exact (h.bit _ i hi).imp_left Or.inl
      · exact .inl (.inr hi)
    · simpa [hb] using h.bit b i
  · simpa using fun hi => hi.imp_left (h.byte_le i)
  · simp only [BitVec.getLsbD_or, Bool.or_eq_true]
    rintro (hi | hi)
    · exact (h.byte i hi).imp_left Or.inl
    · exact .inl (.inr hi)

/-- `bitmap_clear`. -/
theorem Extra.bitmapClear (h : Extra p k y' c') (hk : k.bitmapClear r = some k₁) :
    ∃ y₁ c₁, (k.withBitmap y' c').bitmapClear r = some (k₁.withBitmap y₁ c₁) ∧
      Extra p k₁ y₁ c₁ := by
  unfold Kernel.bitmapClear at hk ⊢
  dsimp only at hk ⊢
  have hbit_le : ∀ b i,
      (update k.c (r >>> 3) (k.c (r >>> 3) &&& ~~~(1#8 <<< (r &&& 0x7))) b).getLsbD i = true →
        (update c' (r >>> 3) (c' (r >>> 3) &&& ~~~(1#8 <<< (r &&& 0x7))) b).getLsbD i = true := by
    intro b i
    rcases eq_or_ne b (r >>> 3) with rfl | hb
    · simp only [update_self, BitVec.getLsbD_and, Bool.and_eq_true]
      exact fun hi => hi.imp_left (h.bit_le _ i)
    · simpa [hb] using h.bit_le b i
  have hbit : ∀ b i,
      (update c' (r >>> 3) (c' (r >>> 3) &&& ~~~(1#8 <<< (r &&& 0x7))) b).getLsbD i = true →
        (update k.c (r >>> 3) (k.c (r >>> 3) &&& ~~~(1#8 <<< (r &&& 0x7))) b).getLsbD i = true ∨
          b = p >>> 3 ∧ i = p &&& 0x7 := by
    intro b i
    rcases eq_or_ne b (r >>> 3) with rfl | hb
    · simp only [update_self, BitVec.getLsbD_and, Bool.and_eq_true]
      rintro ⟨hi, hr⟩
      exact (h.bit _ i hi).imp_left fun hi => ⟨hi, hr⟩
    · simpa [hb] using h.bit b i
  generalize update k.c (r >>> 3) (k.c (r >>> 3) &&& ~~~(1#8 <<< (r &&& 0x7))) = c₁ at *
  generalize update c' (r >>> 3) (c' (r >>> 3) &&& ~~~(1#8 <<< (r &&& 0x7))) = c₁' at *
  split_ifs at hk ⊢ with hr hz' hz hz
  · obtain rfl := Option.some.inj hk
    refine ⟨_, _, rfl, hbit_le, hbit, fun i => ?_, fun i => ?_⟩
    · simp only [BitVec.getLsbD_and, Bool.and_eq_true]
      exact fun hi => hi.imp_left (h.byte_le i)
    · simp only [BitVec.getLsbD_and, Bool.and_eq_true]
      rintro ⟨hi, hn⟩
      exact (h.byte i hi).imp_left fun hi => ⟨hi, hn⟩
  · obtain ⟨j, -, hj⟩ := (ne_zero_iff_getLsbD _).mp hz
    have hj' := hbit_le _ j hj
    simp [hz'] at hj'
  · obtain rfl := Option.some.inj hk
    refine ⟨_, _, rfl, hbit_le, hbit, fun i => ?_, fun i hi => ?_⟩
    · simp only [BitVec.getLsbD_and, Bool.and_eq_true]
      exact fun hi => h.byte_le i hi.1
    · -- Only the bit of `p` can have kept the byte from being zero.
      obtain ⟨j, -, hj⟩ := (ne_zero_iff_getLsbD _).mp hz'
      have hp : r >>> 3 = p >>> 3 := ((hbit _ j hj).resolve_left (by simp [hz])).1
      rcases eq_or_ne i (p >>> 3) with he | hne
      · exact .inr he
      · have hi8 : i < 8 := BitVec.lt_of_getLsbD hi
        refine (h.byte i hi).imp_left fun hi => ?_
        rw [BitVec.getLsbD_and, BitVec.getLsbD_not, getLsbD_one_shiftLeft _ _ hi8, hp]
        simp [hi, hi8, hne]
  · obtain rfl := Option.some.inj hk
    exact ⟨_, _, rfl, hbit_le, hbit, h.byte_le, h.byte⟩

/-- `bitmap_set` sets the bits of the priority and clears none. -/
theorem BitSet.of_bitmapSet (hk : k.bitmapSet r = some k₁)
    (h : q = r ∨ BitSet q k.y k.c) : BitSet q k₁.y k₁.c := by
  unfold Kernel.bitmapSet at hk
  dsimp only at hk
  split_ifs at hk with hr
  obtain rfl := Option.some.inj hk
  rcases h with rfl | h
  · have hq8 : q &&& 0x7 < 8 := by rw [and_seven]; omega
    refine ⟨?_, ?_⟩
    · dsimp only
      rw [update_self, BitVec.getLsbD_or, getLsbD_one_shiftLeft _ _ hq8]
      simp
    · dsimp only
      rw [BitVec.getLsbD_or, getLsbD_one_shiftLeft _ _ hr]
      simp
  · refine ⟨?_, by simp [h.byte]⟩
    rcases eq_or_ne (q >>> 3) (r >>> 3) with hb | hb
    · simp [← hb, h.bit]
    · simpa [hb] using h.bit

/-- `bitmap_clear` clears the bits of no other priority. -/
theorem BitSet.bitmapClear (h : BitSet q k.y k.c) (hne : q ≠ r)
    (hk : k.bitmapClear r = some k₁) : BitSet q k₁.y k₁.c := by
  have hbit : (update k.c (r >>> 3) (k.c (r >>> 3) &&& ~~~(1#8 <<< (r &&& 0x7)))
      (q >>> 3)).getLsbD (q &&& 0x7) = true := by
    rcases eq_or_ne (q >>> 3) (r >>> 3) with hb | hb
    · have hq8 : q &&& 0x7 < 8 := by rw [and_seven]; omega
      have hplace : ¬ (q &&& 0x7) = r &&& 0x7 := by
        rw [shiftRight_three, shiftRight_three] at hb
        rw [and_seven, and_seven]
        omega
      have hset := h.bit
      rw [hb] at hset ⊢
      rw [update_self, BitVec.getLsbD_and, BitVec.getLsbD_not, getLsbD_one_shiftLeft _ _ hq8]
      simp [hset, hplace, hq8]
    · simpa [hb] using h.bit
  unfold Kernel.bitmapClear at hk
  dsimp only at hk
  split_ifs at hk with hr hz
  · obtain rfl := Option.some.inj hk
    refine ⟨hbit, ?_⟩
    have hb : q >>> 3 ≠ r >>> 3 := fun hb => by
      rw [hb, hz] at hbit
      simp at hbit
    have hq8 := BitVec.lt_of_getLsbD h.byte
    rw [BitVec.getLsbD_and, BitVec.getLsbD_not, getLsbD_one_shiftLeft _ _ hq8]
    simp [h.byte, hb, hq8]
  · obtain rfl := Option.some.inj hk
    exact ⟨hbit, h.byte⟩

/-! ## What the tick does -/

namespace Extra

variable {x : Option TcbPtr}

theorem prioReadyQueueInsertTail (h : Extra p k y' c')
    (hk : k.prioReadyQueueInsertTail x = some k₁) :
    ∃ y₁ c₁, (k.withBitmap y' c').prioReadyQueueInsertTail x = some (k₁.withBitmap y₁ c₁) ∧
      Extra p k₁ y₁ c₁ := by
  obtain ⟨t, rfl, hk⟩ := Option.bind_eq_some_iff.mp hk
  obtain ⟨k₂, hset, hk⟩ := Option.bind_eq_some_iff.mp hk
  obtain ⟨head, hhead, hk⟩ := Option.bind_eq_some_iff.mp hk
  obtain ⟨heap, hheap, hk⟩ := Option.bind_eq_some_iff.mp hk
  obtain rfl := Option.some.inj hk
  obtain ⟨y₁, c₁, hset', h₁⟩ := h.bitmapSet hset
  refine ⟨y₁, c₁, ?_, h₁.bit_le, h₁.bit, h₁.byte_le, h₁.byte⟩
  simp [Kernel.prioReadyQueueInsertTail, hset', hhead, hheap]

theorem prioReadyQueueInsertHead (h : Extra p k y' c')
    (hk : k.prioReadyQueueInsertHead x = some k₁) :
    ∃ y₁ c₁, (k.withBitmap y' c').prioReadyQueueInsertHead x = some (k₁.withBitmap y₁ c₁) ∧
      Extra p k₁ y₁ c₁ := by
  obtain ⟨t, rfl, hk⟩ := Option.bind_eq_some_iff.mp hk
  obtain ⟨k₂, hset, hk⟩ := Option.bind_eq_some_iff.mp hk
  obtain ⟨head, hhead, hk⟩ := Option.bind_eq_some_iff.mp hk
  obtain rfl := Option.some.inj hk
  obtain ⟨y₁, c₁, hset', h₁⟩ := h.bitmapSet hset
  refine ⟨y₁, c₁, ?_, h₁.bit_le, h₁.bit, h₁.byte_le, h₁.byte⟩
  simp [Kernel.prioReadyQueueInsertHead, hset', hhead]

theorem prioReadyQueueDelete (h : Extra p k y' c') (hk : k.prioReadyQueueDelete x = some k₁) :
    ∃ y₁ c₁, (k.withBitmap y' c').prioReadyQueueDelete x = some (k₁.withBitmap y₁ c₁) ∧
      Extra p k₁ y₁ c₁ := by
  obtain ⟨t, rfl, hk⟩ := Option.bind_eq_some_iff.mp hk
  obtain ⟨head, hhead, hk⟩ := Option.bind_eq_some_iff.mp hk
  have h₀ : Extra p { k with heap := listDelete k.heap (.tcb t) } y' c' :=
    ⟨h.bit_le, h.bit, h.byte_le, h.byte⟩
  split_ifs at hk with hlast
  · obtain ⟨y₁, c₁, hclear, h₁⟩ := h₀.bitmapClear hk
    refine ⟨y₁, c₁, ?_, h₁⟩
    simpa [Kernel.prioReadyQueueDelete, hhead, hlast] using hclear
  · obtain rfl := Option.some.inj hk
    exact ⟨y', c', by simp [Kernel.prioReadyQueueDelete, hhead, hlast], h₀⟩

end Extra

namespace Marked

variable {x : Option TcbPtr}

/-- A task more is ready. -/
theorem prioReadyQueueInsertTail (h : Marked p q k y' c')
    (hk : k.prioReadyQueueInsertTail x = some k₁) :
    ∃ y₁ c₁, (k.withBitmap y' c').prioReadyQueueInsertTail x = some (k₁.withBitmap y₁ c₁) ∧
      Marked p q k₁ y₁ c₁ := by
  obtain ⟨y₁, c₁, e, h₁⟩ := h.toExtra.prioReadyQueueInsertTail hk
  refine ⟨y₁, c₁, e, h₁, ?_⟩
  obtain ⟨t, rfl, hk⟩ := Option.bind_eq_some_iff.mp hk
  obtain ⟨k₂, hset, hk⟩ := Option.bind_eq_some_iff.mp hk
  obtain ⟨head, hhead, hk⟩ := Option.bind_eq_some_iff.mp hk
  obtain ⟨heap, hheap, hk⟩ := Option.bind_eq_some_iff.mp hk
  obtain rfl := Option.some.inj hk
  have hbits := BitSet.of_bitmapSet hset (.inr h.set)
  exact hbits

/-- A task more is ready. -/
theorem prioReadyQueueInsertHead (h : Marked p q k y' c')
    (hk : k.prioReadyQueueInsertHead x = some k₁) :
    ∃ y₁ c₁, (k.withBitmap y' c').prioReadyQueueInsertHead x = some (k₁.withBitmap y₁ c₁) ∧
      Marked p q k₁ y₁ c₁ := by
  obtain ⟨y₁, c₁, e, h₁⟩ := h.toExtra.prioReadyQueueInsertHead hk
  refine ⟨y₁, c₁, e, h₁, ?_⟩
  obtain ⟨t, rfl, hk⟩ := Option.bind_eq_some_iff.mp hk
  obtain ⟨k₂, hset, hk⟩ := Option.bind_eq_some_iff.mp hk
  obtain ⟨head, hhead, hk⟩ := Option.bind_eq_some_iff.mp hk
  obtain rfl := Option.some.inj hk
  have hbits := BitSet.of_bitmapSet hset (.inr h.set)
  exact hbits

/-- A task goes behind its equals: the bits of its priority are cleared at most for a while. -/
theorem rotate (h : Marked p q k y' c') (hk : k.rotate t = some k₁) :
    ∃ y₁ c₁, (k.withBitmap y' c').rotate t = some (k₁.withBitmap y₁ c₁) ∧ Marked p q k₁ y₁ c₁ := by
  unfold Kernel.rotate at hk ⊢
  dsimp only at hk ⊢
  split_ifs at hk ⊢
  · obtain rfl := Option.some.inj hk
    exact ⟨y', c', rfl, h⟩
  obtain ⟨k₂, hdelete, hinsert⟩ := Option.bind_eq_some_iff.mp hk
  obtain ⟨y₂, c₂, e₂, h₂⟩ := h.toExtra.prioReadyQueueDelete hdelete
  obtain ⟨y₁, c₁, e₁, h₁⟩ := h₂.prioReadyQueueInsertTail hinsert
  refine ⟨y₁, c₁, by rw [e₂]; exact e₁, h₁, ?_⟩
  have hprio : k₂.prio t = k.prio t := by rw [Kernel.prioReadyQueueDelete_vars hdelete]
  obtain ⟨k₃, hset, hinsert⟩ := Option.bind_eq_some_iff.mp hinsert
  obtain ⟨head, hhead, hinsert⟩ := Option.bind_eq_some_iff.mp hinsert
  obtain ⟨heap, hheap, hinsert⟩ := Option.bind_eq_some_iff.mp hinsert
  obtain rfl := Option.some.inj hinsert
  rw [hprio] at hset
  suffices hbits : BitSet q k₃.y k₃.c from hbits
  refine BitSet.of_bitmapSet hset (or_iff_not_imp_left.mpr fun hne => ?_)
  obtain ⟨head', hhead', hdelete⟩ := Option.bind_eq_some_iff.mp hdelete
  split_ifs at hdelete
  · exact BitSet.bitmapClear (by exact h.set) hne hdelete
  · obtain rfl := Option.some.inj hdelete
    exact h.set

/-- `prio_ready_queue_fetch` selects the same task. -/
theorem prioReadyQueueFetch (h : Marked p q k y' c') (hqp : q ≤ p) {ret : Ret}
    (hk : k.prioReadyQueueFetch = some (k₁, ret)) :
    ∃ y₁ c₁, (k.withBitmap y' c').prioReadyQueueFetch = some (k₁.withBitmap y₁ c₁, ret) ∧
      Marked p q k₁ y₁ c₁ := by
  rw [Kernel.prioReadyQueueFetch_eq] at hk ⊢
  obtain ⟨tmp, hsearch, hk⟩ := Option.bind_eq_some_iff.mp hk
  obtain ⟨k₂, hrotate, hk⟩ := Option.bind_eq_some_iff.mp hk
  obtain ⟨y₁, c₁, e₁, h₁⟩ := h.rotate hrotate
  have hsearch' : (k.withBitmap y' c').bitFirstOneSearch = some tmp := by
    unfold Kernel.bitFirstOneSearch at hsearch ⊢
    rwa [h.bitmapGet hqp]
  rw [hsearch', Option.bind_some, e₁, Option.bind_some]
  dsimp only
  split_ifs at hk ⊢
  · obtain ⟨rfl, rfl⟩ := Prod.mk.inj (Option.some.inj hk)
    exact ⟨y₁, c₁, rfl, h₁⟩
  · obtain ⟨rfl, rfl⟩ := Prod.mk.inj (Option.some.inj hk)
    exact ⟨y₁, c₁, rfl, h₁.withSame rfl rfl⟩

/-- So does `schedule`. -/
theorem schedule (h : Marked p q k y' c') (hqp : q ≤ p) (hk : k.schedule = some k₁) :
    ∃ y₁ c₁, (k.withBitmap y' c').schedule = some (k₁.withBitmap y₁ c₁) ∧ Marked p q k₁ y₁ c₁ := by
  unfold Kernel.schedule at hk ⊢
  dsimp only
  split_ifs at hk ⊢
  · obtain rfl := Option.some.inj hk
    exact ⟨y', c', rfl, h⟩
  · obtain ⟨⟨k₂, ret⟩, hfetch, rfl⟩ := Option.map_eq_some_iff.mp hk
    obtain ⟨y₁, c₁, e₁, h₁⟩ := h.prioReadyQueueFetch hqp hfetch
    exact ⟨y₁, c₁, by rw [e₁]; rfl, h₁⟩

/-- `sem_put`. -/
theorem semPut {s : ℕ} (h : Marked p q k y' c') (hqp : q ≤ p) {ret : Ret}
    (hk : k.semPut (some s) = some (k₁, ret)) :
    ∃ y₁ c₁, (k.withBitmap y' c').semPut (some s) = some (k₁.withBitmap y₁ c₁, ret) ∧
      Marked p q k₁ y₁ c₁ := by
  rw [Kernel.semPut_eq] at hk ⊢
  obtain ⟨k₂, hrelease, hk⟩ := Option.bind_eq_some_iff.mp hk
  obtain ⟨k₃, hsched, hk⟩ := Option.bind_eq_some_iff.mp hk
  obtain ⟨rfl, rfl⟩ := Prod.mk.inj (Option.some.inj hk)
  have hrelease' : ∃ y₂ c₂, (k.withBitmap y' c').semRelease s = some (k₂.withBitmap y₂ c₂) ∧
      Marked p q k₂ y₂ c₂ := by
    unfold Kernel.semRelease at hrelease ⊢
    dsimp only
    split_ifs at hrelease ⊢
    · obtain rfl := Option.some.inj hrelease
      exact ⟨y', c', rfl, h.withSame rfl rfl⟩
    · obtain rfl := Option.some.inj hrelease
      exact ⟨y', c', rfl, h⟩
    · obtain ⟨tcb, htcb, hinsert⟩ := Option.bind_eq_some_iff.mp hrelease
      have h₀ : Marked p q (k.semBlockQueueDelete tcb) y' c' := h.withSame rfl rfl
      obtain ⟨y₂, c₂, e₂, h₂⟩ := h₀.prioReadyQueueInsertHead hinsert
      exact ⟨y₂, c₂, by rw [htcb]; exact e₂, h₂⟩
  obtain ⟨y₂, c₂, e₂, h₂⟩ := hrelease'
  obtain ⟨y₁, c₁, e₁, h₁⟩ := h₂.schedule hqp hsched
  exact ⟨y₁, c₁, by rw [e₂, Option.bind_some, e₁]; rfl, h₁⟩

/-- A callback. -/
theorem runCallback {puts : List ℕ} {rest : Option (List ℕ)} (h : Marked p q k y' c') (hqp : q ≤ p)
    (hk : k.runCallback puts = some (k₁, rest)) :
    ∃ y₁ c₁, (k.withBitmap y' c').runCallback puts = some (k₁.withBitmap y₁ c₁, rest) ∧
      Marked p q k₁ y₁ c₁ := by
  induction puts generalizing k y' c' with
  | nil =>
    obtain ⟨rfl, rfl⟩ := Prod.mk.inj (Option.some.inj hk)
    exact ⟨y', c', rfl, h⟩
  | cons s puts ih =>
    obtain ⟨⟨k₂, ret⟩, hput, hk⟩ := Option.bind_eq_some_iff.mp hk
    obtain ⟨y₂, c₂, e₂, h₂⟩ := h.semPut hqp hput
    simp only [Kernel.runCallback, e₂, Option.bind_eq_bind, Option.bind_some]
    dsimp only at hk
    split_ifs at hk ⊢
    · exact ih h₂ hk
    · obtain ⟨rfl, rfl⟩ := Prod.mk.inj (Option.some.inj hk)
      exact ⟨y₂, c₂, rfl, h₂⟩

/-- The body of the loop of `hardware_timer`. -/
theorem tickBody {o : Oracle} {call : ℕ} {tick : TickPtr} {rest : Option (List ℕ)}
    (h : Marked p q k y' c') (hqp : q ≤ p) (hk : k.tickBody o call tick = some (k₁, rest)) :
    ∃ y₁ c₁, (k.withBitmap y' c').tickBody o call tick = some (k₁.withBitmap y₁ c₁, rest) ∧
      Marked p q k₁ y₁ c₁ := by
  unfold Kernel.tickBody at hk ⊢
  dsimp only at hk ⊢
  split at hk
  · next hzero =>
    rw [if_pos (by exact hzero)]
    split at hk
    · next hstyle =>
      -- A timer, whose callback is called.
      obtain ⟨func, hfunc, hk⟩ := Option.bind_eq_some_iff.mp hk
      obtain ⟨⟨k₂, puts⟩, hcallback, hk⟩ := Option.bind_eq_some_iff.mp hk
      have h₀ : Marked p q ((k.note (.visit call tick (k.tick tick).timeout)).note
          (.callback call tick func (k.tick tick).funcArg)) y' c' := h.withSame rfl rfl
      obtain ⟨y₂, c₂, e₂, h₂⟩ := h₀.runCallback hqp hcallback
      dsimp only [Kernel.note] at hstyle hfunc e₂ ⊢
      simp only [hstyle, hfunc, Option.bind_eq_bind, Option.bind_some]
      rw [e₂, Option.bind_some]
      cases puts with
      | some puts =>
        obtain ⟨rfl, rfl⟩ := Prod.mk.inj (Option.some.inj hk)
        exact ⟨y₂, c₂, rfl, h₂⟩
      | none =>
        obtain ⟨rfl, rfl⟩ := Prod.mk.inj (Option.some.inj hk)
        refine ⟨y₂, c₂, ?_, h₂.withSame ?_ ?_⟩
        all_goals
          unfold Kernel.afterCallback
          dsimp only
          split_ifs <;> rfl
    · next hstyle =>
      -- A task whose time has come.
      obtain ⟨k₂, hinsert, hk⟩ := Option.bind_eq_some_iff.mp hk
      obtain ⟨rfl, rfl⟩ := Prod.mk.inj (Option.some.inj hk)
      have h₀ : Marked p q ((k.note (.visit call tick (k.tick tick).timeout)).tickQueueDelete tick)
          y' c' := h.withSame rfl rfl
      obtain ⟨y₁, c₁, e₁, h₁⟩ := h₀.prioReadyQueueInsertTail hinsert
      dsimp only [Kernel.note] at hstyle e₁ ⊢
      simp only [hstyle, Option.bind_eq_bind]
      refine ⟨y₁, c₁, ?_, h₁⟩
      have e₁' := congrArg (Option.bind · fun k => some (k, (none : Option (List ℕ)))) e₁
      exact e₁'
    · next hstyle =>
      obtain ⟨rfl, rfl⟩ := Prod.mk.inj (Option.some.inj hk)
      dsimp only [Kernel.note] at hstyle ⊢
      simp only [hstyle]
      exact ⟨y', c', rfl, h.withSame rfl rfl⟩
  · next hzero =>
    rw [if_neg (by exact hzero)]
    obtain ⟨rfl, rfl⟩ := Prod.mk.inj (Option.some.inj hk)
    exact ⟨y', c', rfl, h.withSame rfl rfl⟩

/-- The loop of `hardware_timer`: its links are the same, and so are the entries that it comes
to. -/
theorem tickLoop {o : Oracle} {call : ℕ} {tmp : Node} {f : Option TimerFrame}
    (h : Marked p q k y' c') (hqp : q ≤ p) (hk : k.tickLoop o call tmp = some (k₁, f)) :
    ∃ y₁ c₁, (k.withBitmap y' c').tickLoop o call tmp = some (k₁.withBitmap y₁ c₁, f) ∧
      Marked p q k₁ y₁ c₁ := by
  refine repeatUntil_induct (P := fun s r => ∀ y' c', Marked p q s.2 y' c' → ∃ y₁ c₁,
    (s.2.withBitmap y' c').tickLoop o call s.1 = some (r.1.withBitmap y₁ c₁, r.2) ∧
      Marked p q r.1 y₁ c₁) ?_ ?_ hk y' c' h
  · rintro ⟨tmp, k⟩ ⟨k₁, f⟩ hround y' c' h
    dsimp only at hround h ⊢
    rw [Kernel.tickLoop_eq]
    split_ifs at hround ⊢ with hlast
    · obtain ⟨rfl, rfl⟩ := Prod.mk.inj (Sum.inr.inj (Option.some.inj hround))
      exact ⟨y', c', rfl, h⟩
    · obtain ⟨tick, htick, hround⟩ := Option.bind_eq_some_iff.mp hround
      obtain ⟨⟨k₂, rest⟩, hbody, hround⟩ := Option.bind_eq_some_iff.mp hround
      obtain ⟨y₂, c₂, e₂, h₂⟩ := h.tickBody hqp hbody
      rw [htick, Option.bind_some, e₂, Option.bind_some]
      cases rest with
      | none => cases hround
      | some puts =>
        obtain ⟨rfl, rfl⟩ := Prod.mk.inj (Sum.inr.inj (Option.some.inj hround))
        exact ⟨y₂, c₂, rfl, h₂⟩
  · rintro ⟨tmp, k⟩ s' hround ⟨k₁, f⟩ ih y' c' h
    dsimp only at hround h ⊢
    rw [Kernel.tickLoop_eq]
    split_ifs at hround ⊢ with hlast
    · cases hround
    · obtain ⟨tick, htick, hround⟩ := Option.bind_eq_some_iff.mp hround
      obtain ⟨⟨k₂, rest⟩, hbody, hround⟩ := Option.bind_eq_some_iff.mp hround
      obtain ⟨y₂, c₂, e₂, h₂⟩ := h.tickBody hqp hbody
      rw [htick, Option.bind_some, e₂, Option.bind_some]
      cases rest with
      | some puts => cases hround
      | none =>
        obtain rfl := Sum.inl.inj (Option.some.inj hround)
        exact ih y₂ c₂ h₂

/-- `hardware_timer`. -/
theorem hardwareTimer {o : Oracle} {f : Option TimerFrame} (h : Marked p q k y' c') (hqp : q ≤ p)
    (hk : k.hardwareTimer o = some (k₁, f)) :
    ∃ y₁ c₁, (k.withBitmap y' c').hardwareTimer o = some (k₁.withBitmap y₁ c₁, f) ∧
      Marked p q k₁ y₁ c₁ := by
  obtain ⟨⟨k₂, g⟩, hloop, hend⟩ := Option.bind_eq_some_iff.mp hk
  have h₀ : Marked p q (Kernel.note { k with fosTick := k.fosTick + 1 } (.start (k.fosTick + 1)))
      y' c' := h.withSame rfl rfl
  obtain ⟨y₂, c₂, e₂, h₂⟩ := h₀.tickLoop hqp hloop
  have hstart : (k.withBitmap y' c').hardwareTimer o =
      Kernel.tickEnd (k₂.withBitmap y₂ c₂, g) := by
    have e₂' := congrArg (Option.bind · Kernel.tickEnd) e₂
    exact e₂'
  rw [hstart]
  cases g with
  | some g =>
    obtain ⟨rfl, rfl⟩ := Prod.mk.inj (Option.some.inj hend)
    exact ⟨y₂, c₂, rfl, h₂⟩
  | none =>
    obtain ⟨k₃, hsched, heq⟩ := Option.map_eq_some_iff.mp hend
    obtain ⟨rfl, rfl⟩ := Prod.mk.inj heq
    obtain ⟨y₁, c₁, e₁, h₁⟩ := h₂.schedule hqp hsched
    refine ⟨y₁, c₁, ?_, h₁⟩
    show ((k₂.withBitmap y₂ c₂).schedule.map (·, none)) = _
    rw [e₁]
    rfl

end Marked

end Fos
