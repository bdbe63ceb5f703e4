import Fos.Runs.Exclusion
import Mathlib.Order.Bounds.Defs

/-!
# Where every task is, and what the bitmap says

In every state of every run with passive callbacks each task that has been created is linked in
exactly one list: the ready list of its priority, the tasks that wait on one object, or the tick
queue (`placement`). No step of such a run gets stuck. The bitmap agrees with the ready lists
(`readyBitmap`).
-/

namespace Fos

open Links Function Runs

/-- The task is linked behind the head `n`: through its `list`, or through its `delay` in the tick
queue. -/
def PlacedAt (s : Sys Kernel) (t : TcbPtr) (n : Node) : Prop :=
  IsHead s.live n ∧ (Queued s.k.heap n (.tcb t) ∨
    n = tickHead ∧ Queued s.k.heap n (.tick (.delay t)))

/-- Every task is in exactly one place. -/
structure Placement (s : Sys Kernel) : Prop where
  /-- Every list is well formed, and has no node twice. -/
  lists : ∀ n, IsHead s.live n → ∃ xs, Represents s.k.heap n xs
  /-- No node is in two lists. -/
  apart : ∀ n n' x, IsHead s.live n → IsHead s.live n' → Queued s.k.heap n x →
    Queued s.k.heap n' x → n = n'
  /-- A task that has been created is behind exactly one head. -/
  place : ∀ t, s.live (.tcb t) = true → ∃! n, PlacedAt s t n
  /-- The head is that of the ready list of its priority, of the tasks that wait on an object, or of
  the tick queue. -/
  kind : ∀ t n, PlacedAt s t n → n = readyHead (s.k.prio t) ∨
    (∃ i, n = .sem i ∨ n = .mutex i ∨ n = .queue i) ∨ n = tickHead
  /-- In the tick queue a task is linked through its `delay` only, and elsewhere through its `list`
  only. -/
  through : ∀ t n, IsHead s.live n → (Queued s.k.heap n (.tcb t) → n ≠ tickHead) ∧
    (Queued s.k.heap n (.tick (.delay t)) → n = tickHead)
  /-- Only tasks that have been created are linked. -/
  created : ∀ t n, PlacedAt s t n → s.live (.tcb t) = true
  /-- The running task is ready. -/
  running : ∀ t, s.running = some t → PlacedAt s t (readyHead (s.k.prio t))

variable {live : Node → Bool} {k : Kernel} {tr : Trace Kernel} {s : Sys Kernel} {a : Abs}
  {hst : Hist} {t : TcbPtr} {n : Node}

/-- The place of a task, in the lists of the abstract kernel. -/
theorem Core.placedAt_iff (h : Core hst s a) : PlacedAt s t n ↔
    (∃ q : TaskQueue, n = q.head ∧ t ∈ a.tasks q) ∨ n = tickHead ∧ .delay t ∈ a.ticks := by
  have href := h.sim.refines
  constructor
  · rintro ⟨hn, hq | ⟨rfl, hq⟩⟩
    · exact Or.inl (mem_seq_tcb.mp ((href.queued_iff hn _).mp hq))
    · exact Or.inr ⟨rfl, (mem_seq_tick.mp ((href.queued_iff hn _).mp hq)).2⟩
  · rintro (⟨q, rfl, ht⟩ | ⟨rfl, ht⟩)
    · have hq : IsHead s.live q.head := isHead_head.mpr (h.sim.wf.tasks.open_of_mem q t ht)
      exact ⟨hq, Or.inl ((href.queued_iff hq _).mpr (mem_seq_tcb.mpr ⟨q, rfl, ht⟩))⟩
    · have hq : IsHead s.live tickHead := trivial
      exact ⟨hq, Or.inr ⟨rfl, (href.queued_iff hq _).mpr (mem_seq_tick.mpr ⟨rfl, ht⟩)⟩⟩

/-- Every task is in exactly one place, since it is so in the abstract kernel. -/
theorem Core.in_place (h : Core hst s a) : Placement s where
  lists n hn := ⟨_, h.sim.refines.lists.rep n hn⟩
  apart n n' x hn hn' hx hx' :=
    h.sim.refines.lists.apart n n' x hn hn' ((h.sim.refines.queued_iff hn x).mp hx)
      ((h.sim.refines.queued_iff hn' x).mp hx')
  place t ht := by
    have htasks := h.sim.wf.tasks
    -- A task that is in a list of tasks does not sleep, and a task that sleeps is in none.
    rcases htasks.placed t ht with ⟨q, hq⟩ | hd
    · refine ⟨q.head, h.placedAt_iff.mpr (Or.inl ⟨q, rfl, hq⟩), fun n hn => ?_⟩
      rcases h.placedAt_iff.mp hn with ⟨q', rfl, hq'⟩ | ⟨-, hd⟩
      · rw [htasks.apart q q' t hq hq']
      · exact absurd hd (htasks.awake q t hq)
    · refine ⟨tickHead, h.placedAt_iff.mpr (Or.inr ⟨rfl, hd⟩), fun n hn => ?_⟩
      rcases h.placedAt_iff.mp hn with ⟨q', rfl, hq'⟩ | ⟨rfl, -⟩
      · exact absurd hd (htasks.awake q' t hq')
      · rfl
  kind t n hn := by
    rcases h.placedAt_iff.mp hn with ⟨q, rfl, hq⟩ | ⟨rfl, -⟩
    -- A ready task is in the list of its priority; the other lists are those of what is waited
    -- for.
    · cases q with
      | ready p =>
        rw [h.sim.refines.prio_eq, h.sim.wf.tasks.ready_prio p t hq]
        exact Or.inl rfl
      | sem i => exact Or.inr (Or.inl ⟨i, Or.inl rfl⟩)
      | mutex i => exact Or.inr (Or.inl ⟨i, Or.inr (Or.inl rfl)⟩)
      | queue i => exact Or.inr (Or.inl ⟨i, Or.inr (Or.inr rfl)⟩)
    · exact Or.inr (Or.inr rfl)
  through t n hn := by
    constructor
    · rintro hq rfl
      obtain ⟨q, hq, -⟩ := mem_seq_tcb.mp ((h.sim.refines.queued_iff hn _).mp hq)
      cases q <;> cases hq
    · intro hq
      exact (mem_seq_tick.mp ((h.sim.refines.queued_iff hn _).mp hq)).1
  created t n hn := by
    rcases h.placedAt_iff.mp hn with ⟨q, -, hq⟩ | ⟨-, hd⟩
    · exact h.sim.wf.tasks.live_of_mem q t hq
    · exact (h.sim.wf.ticks.delay t hd).1
  running t ht := by
    have hready := h.sim.ready t (h.running_eq.symm.trans ht)
    rw [h.sim.refines.prio_eq]
    exact h.placedAt_iff.mpr (Or.inl ⟨.ready (a.prio t), rfl, hready⟩)

/-- In every state of every run each task is in exactly one place, and whoever can take the next
step takes it. -/
theorem placement (h : SysRun PassiveUsage tr s) :
    Placement s ∧ ∀ act, PassiveUsage tr s act → s.Enabled act → s.step act ≠ none := by
  obtain ⟨hrun, hno⟩ := h.orderly fun _ _ _ hg => hg
  obtain ⟨a, hcore⟩ := hrun.core fun _ _ _ hg => hg.2
  refine ⟨hcore.in_place, fun act hu he => ?_⟩
  obtain ⟨s', a', hl, -⟩ := hcore.step (.of_passive hu.1 hu.2 hno) he
  simp [hl.step]

/-- Every task is in exactly one place after `handOver`. -/
theorem placement_handOver : ∃ tr s, SysRun PassiveUsage tr s ∧
    tr.map Prod.snd = (handOver.map Move.act).reverse ∧ Placement s := by
  obtain ⟨tr, s, hrun, hacts⟩ := PassiveUsage.of_replay handOver (by decide)
  exact ⟨tr, s, hrun, hacts, (placement hrun).1⟩

/-! ## The bitmap -/

/-- Some task is ready with this priority. -/
def SomeReady (k : Kernel) (p : ℕ) : Prop := ∃ x, Queued k.heap (readyHead p) x

/-- The bitmap says which ready lists have a task. -/
structure ReadyBitmap (k : Kernel) : Prop where
  /-- Bit `p & 7` of `c[p >> 3]`. -/
  bit : ∀ p < SYSTEM_WORD, (k.c (p >>> 3)).getLsbD (p &&& 0x7) = true ↔ SomeReady k p
  /-- Bit `b` of `y`. -/
  byte : ∀ b < 8, k.y.getLsbD b = true ↔ k.c b ≠ 0
  /-- The bits of `y` above 3. -/
  high : ∀ b, 3 < b → k.y.getLsbD b = false
  /-- What `bitmap_get` returns. -/
  get : (∃ p < SYSTEM_WORD, SomeReady k p) →
    IsLeast {p | p < SYSTEM_WORD ∧ SomeReady k p} k.bitmapGet

/-- A ready list has a task in the kernel when it has one in the abstract kernel. -/
theorem Refines.someReady_iff (h : Refines live k a) {p : ℕ} (hp : p < SYSTEM_WORD) :
    SomeReady k p ↔ a.tasks (.ready p) ≠ [] := by
  have hq : IsHead live (readyHead p) := hp
  constructor
  · rintro ⟨x, hx⟩ hnil
    have hx := (h.queued_iff hq x).mp hx
    have hseq : a.seq (readyHead p) = [] := by
      show (a.tasks (.ready p)).map Node.tcb = []
      rw [hnil, List.map_nil]
    simp [hseq] at hx
  · intro hne
    obtain ⟨t, ht⟩ := List.exists_mem_of_ne_nil _ hne
    exact ⟨.tcb t, (h.queued_iff hq _).mpr (mem_seq_tcb.mpr ⟨.ready p, rfl, ht⟩)⟩

/-- The bitmap of a kernel that represents an abstract one. -/
theorem Refines.bitmap_agrees (h : Refines live k a) : ReadyBitmap k where
  bit p hp := by
    rw [and_seven, shiftRight_three, h.someReady_iff hp]
    exact h.bits.bit p hp
  byte := h.bits.byte
  high b hb := by
    by_cases hb8 : b < 8
    · rw [Bool.eq_false_iff]
      intro hy
      exact (h.bits.byte b hb8).mp hy (h.bits.unused b hb8 hb)
    · exact BitVec.getLsbD_of_ge _ _ (Nat.le_of_not_lt hb8)
  get := by
    rintro ⟨p, hp, hready⟩
    obtain ⟨hlt, hne, hlow⟩ := bitmapGet_spec h.bits hp ((h.someReady_iff hp).mp hready)
    refine ⟨⟨hlt, (h.someReady_iff hlt).mpr hne⟩, fun i ⟨hi, hreadyi⟩ => ?_⟩
    by_contra hlti
    exact hlow i (Nat.lt_of_not_le hlti) ((h.someReady_iff hi).mp hreadyi)

/-- The bitmap agrees with the ready lists in every state of every run. -/
theorem readyBitmap (h : SysRun PassiveUsage tr s) : ReadyBitmap s.k := by
  obtain ⟨hrun, -⟩ := h.orderly fun _ _ _ hg => hg
  obtain ⟨a, hcore⟩ := hrun.core fun _ _ _ hg => hg.2
  exact hcore.sim.refines.bitmap_agrees

/-- The bitmap agrees with the ready lists after `handOver`. -/
theorem readyBitmap_handOver : ∃ tr s, SysRun PassiveUsage tr s ∧
    tr.map Prod.snd = (handOver.map Move.act).reverse ∧ ReadyBitmap s.k := by
  obtain ⟨tr, s, hrun, hacts⟩ := PassiveUsage.of_replay handOver (by decide)
  exact ⟨tr, s, hrun, hacts, readyBitmap hrun⟩

end Fos
