import Mathlib.Data.UInt
import Fos.Runs.Accounting

/-!
# Freed blocks

`mem_free` looks for the record of an allocation in the list of the pool and marks it. Nothing else
reads the mark: the record stays in the list, and `valid` and `valid_ptr` stay where they are. So
`mem_free` answers as it should, as long as the records are let alone; but when all allocations have
been freed, a size that a new pool grants is refused by the used one, if it takes just what `valid`
still counts (`freed_usable`).
-/

namespace Fos

open Links Function Runs

/-- The allocations of a run that have not been freed, the latest first. -/
def outstanding : List (MemSys × MemAction) → List UInt32
  | [] => []
  | (s, .alloca mb size) :: tr =>
    match s.mem.memAlloca mb size with
    | some (_, address) => if address = 0 then outstanding tr else address :: outstanding tr
    | none => outstanding tr
  | (_, .free address) :: tr => (outstanding tr).erase address
  | (_, .overwrite ..) :: tr => outstanding tr

/-- The addresses that `mem_free` has been called on. -/
def freed (tr : List (MemSys × MemAction)) : List UInt32 :=
  tr.filterMap fun e => match e.2 with | .free address => some address | _ => none

/-- What all calls of `mem_alloca` have taken off `valid`. -/
def deducted (blockSize : UInt32) (tr : List (MemSys × MemAction)) : UInt32 :=
  (tr.map fun e => match e.2 with | .alloca _ size => size / blockSize + 1 | _ => 0).sum

/-- The record at `mb` is in the list of the pool. -/
def Recorded (m : MemState) (mb : ℕ) : Prop :=
  ∃ xs, Represents m.heap .head xs ∧ .block mb ∈ xs

/-- An address is freed once, or again after it has been returned again. -/
def FreedOnce (tr : List (MemSys × MemAction)) (address : UInt32) : Prop :=
  address ∈ outstanding tr ∨ address ∉ freed tr

/-- The records are let alone: a `mem_alloca` that grants what is asked for has a record of its own
and an address to return, and nothing overwrites a record. -/
def LetAlone (tr : List (MemSys × MemAction)) (s : MemSys) : MemAction → Prop
  | .alloca mb size => s.mem.pool.valid - size / s.mem.pool.size - 1 ≠ 0 →
      s.mem.pool.validPtr ≠ 0 ∧ ¬ Recorded s.mem mb
  | .free address => FreedOnce tr address
  | .overwrite mb _ _ => ¬ Recorded s.mem mb

/-- A size that a new pool grants is granted by this one. -/
def Reusable (start sum blockSize : UInt32) (m : MemState) : Prop :=
  ∀ mb size (fresh m₀ m₁ : MemState) address₁, m₀.memCreate start sum blockSize = some fresh →
    fresh.memAlloca mb size = some (m₁, address₁) → address₁ ≠ 0 →
      ∃ m' address, m.memAlloca mb size = some (m', address) ∧ address ≠ 0

variable {start sum blockSize : UInt32} {tr : List (MemSys × MemAction)} {s s' : MemSys}
  {act : MemAction} {m m' : MemState} {mb : ℕ} {mbs : List ℕ} {address size : UInt32}

/-! ## The search of `mem_free` -/

/-- From a node on, the loop stops at the first record of the address. -/
theorem memSearch_chain {x : MemNode} (hn : (x :: mbs.map .block).Nodup)
    (hc : Chain m.heap x (mbs.map .block)) :
    m.memSearch address x = some (mbs.find? fun mb => (m.block mb).ptr = address) := by
  induction mbs generalizing x with
  | nil =>
    have hlast : isListLast m.heap x = true := decide_eq_true hc
    rw [MemState.memSearch_unfold, if_pos hlast]
    rfl
  | cons mb mbs ih =>
    obtain ⟨hnext, -, hrest⟩ := hc
    have hne : MemNode.block mb ≠ x := fun heq => (List.nodup_cons.mp hn).1 (by simp [heq])
    have hlast : ¬ isListLast m.heap x = true := by
      simpa [isListLast, hnext] using hne
    rw [MemState.memSearch_unfold, if_neg hlast, hnext]
    dsimp only
    rw [ih (List.nodup_cons.mp hn).2 hrest, List.find?_cons]
    by_cases hp : (m.block mb).ptr = address <;> simp [hp]

/-- `mem_free` answers whether an address has a record, and changes nothing but its mark. -/
theorem memFree_eq (hrep : Represents m.heap .head (mbs.map .block)) (address : UInt32) :
    ∃ m', m.memFree address =
        some (m', if ∃ mb ∈ mbs, (m.block mb).ptr = address then .TRUE else .FALSE) ∧
      m'.heap = m.heap ∧ ∀ mb, (m'.block mb).ptr = (m.block mb).ptr := by
  have hsearch : m.memSearch address .head = _ := memSearch_chain hrep.nodup hrep.chain
  cases hfind : mbs.find? fun mb => (m.block mb).ptr = address with
  | none =>
    rw [hfind] at hsearch
    have hno : ¬ ∃ mb ∈ mbs, (m.block mb).ptr = address := by
      simpa using List.find?_eq_none.mp hfind
    refine ⟨m, ?_, rfl, fun _ => rfl⟩
    rw [if_neg hno, MemState.memFree, hsearch]
    rfl
  | some mb =>
    rw [hfind] at hsearch
    have hyes : ∃ mb ∈ mbs, (m.block mb).ptr = address :=
      ⟨mb, List.mem_of_find?_eq_some hfind, by simpa using List.find?_some hfind⟩
    refine ⟨{ m with block := update m.block mb { m.block mb with ifValid := 1 } }, ?_, rfl, ?_⟩
    · rw [if_pos hyes, MemState.memFree, hsearch]
      rfl
    · intro mb'
      rcases eq_or_ne mb' mb with rfl | hne
      · simp
      · simp [hne]

/-! ## Runs -/

/-- The invariant of the runs that let the records alone. -/
structure Records (blockSize total : UInt32) (tr : List (MemSys × MemAction)) (s : MemSys)
    (mbs : List ℕ) : Prop where
  /-- The list of the pool. -/
  list : Represents s.mem.heap .head (mbs.map .block)
  /-- The allocations that have not been freed have records. -/
  held : ∀ address ∈ outstanding tr, ∃ mb ∈ mbs, (s.mem.block mb).ptr = address
  /-- Every record is one of an allocation, which may have been freed. -/
  known : ∀ mb ∈ mbs, (s.mem.block mb).ptr ∈ outstanding tr ∨ (s.mem.block mb).ptr ∈ freed tr
  size : s.mem.pool.size = blockSize
  valid : s.mem.pool.valid = total - deducted blockSize tr

/-- Of the addresses that may be freed, those that are outstanding have a record. -/
theorem Records.recorded_iff {total : UInt32} (h : Records blockSize total tr s mbs)
    (hfree : FreedOnce tr address) :
    (∃ mb ∈ mbs, (s.mem.block mb).ptr = address) ↔ address ∈ outstanding tr := by
  constructor
  · rintro ⟨mb, hmb, rfl⟩
    exact (h.known mb hmb).elim id fun hfreed => hfree.resolve_right fun hnot => hnot hfreed
  · exact h.held address

theorem Records.recorded {total : UInt32} (h : Records blockSize total tr s mbs) :
    Recorded s.mem mb ↔ mb ∈ mbs := by
  constructor
  · rintro ⟨xs, hxs, hmb⟩
    rw [hxs.unique h.list] at hmb
    simpa using hmb
  · intro hmb
    exact ⟨_, h.list, List.mem_map_of_mem hmb⟩

/-- A pool at its start. -/
theorem MemInit.records (h : MemInit start sum blockSize s) :
    Records blockSize (sum / blockSize) [] s [] := by
  obtain ⟨⟨m, hm⟩, -⟩ := h
  unfold MemState.memCreate at hm
  split_ifs at hm
  have hs := Option.some.inj hm
  refine ⟨?_, by simp [outstanding], by simp, by rw [← hs], ?_⟩
  · rw [← hs]
    exact ⟨List.nodup_singleton _, by simp [Chain, listInit]⟩
  · rw [← hs]
    simp [deducted]

/-- A `mem_alloca`. -/
theorem Records.alloca {total : UInt32} (h : Records blockSize total tr s mbs)
    (hpos : blockSize ≠ 0) (hg : LetAlone tr s (.alloca mb size))
    (hs : s.step (.alloca mb size) = some s') :
    ∃ mbs', Records blockSize total ((s, .alloca mb size) :: tr) s' mbs' := by
  obtain ⟨⟨m, address⟩, hm, hs⟩ := Option.bind_eq_some_iff.mp hs
  obtain rfl := Option.some.inj hs
  have hfreed : freed ((s, .alloca mb size) :: tr) = freed tr := rfl
  obtain ⟨hsize', hvalid', -, -⟩ := MemState.memAlloca_pool hm
  have hvalid : m.pool.valid = total - deducted blockSize ((s, .alloca mb size) :: tr) := by
    have hdeducted : deducted blockSize ((s, .alloca mb size) :: tr) =
        size / blockSize + 1 + deducted blockSize tr := by
      simp [deducted]
    rw [hvalid', h.valid, h.size, hdeducted]
    grind
  have hsize : s.mem.pool.size ≠ 0 := by rwa [h.size]
  by_cases hleft : s.mem.pool.valid - size / s.mem.pool.size - 1 = 0
  -- The call refuses.
  · have hrefuse := hm.symm.trans (MemState.memAlloca_refuses mb hsize hleft)
    obtain ⟨rfl, rfl⟩ := Prod.mk.inj (Option.some.inj hrefuse)
    have hout : outstanding ((s, .alloca mb size) :: tr) = outstanding tr := by
      simp [outstanding, hm]
    refine ⟨mbs, h.list, ?_, ?_, hsize'.trans h.size, hvalid⟩
    · rw [hout]
      exact h.held
    · rw [hout]
      exact h.known
  -- The call has a record of its own.
  · obtain ⟨hptr, hmb⟩ := hg hleft
    rw [h.recorded] at hmb
    obtain ⟨rfl, -, hheap, hblock⟩ := (MemState.memAlloca_grants hsize hleft).mp hm
    have hout : outstanding ((s, .alloca mb size) :: tr) =
        s.mem.pool.validPtr :: outstanding tr := by
      simp [outstanding, hm, hptr]
    have hnew : (m.block mb).ptr = s.mem.pool.validPtr := by
      rw [hblock, update_self]
    have hold : ∀ mb' ∈ mbs, m.block mb' = s.mem.block mb' := fun mb' hmb' => by
      have hne : mb' ≠ mb := fun heq => hmb (heq ▸ hmb')
      rw [hblock, update_of_ne hne]
    have happend := h.list.append (x := .block mb) (by simpa using hmb)
    rw [listInsertBehind_eq h.list] at hheap
    rw [Option.some.inj hheap] at happend
    refine ⟨mbs ++ [mb], by simpa using happend, ?_, ?_, hsize'.trans h.size, hvalid⟩
    · rw [hout, List.forall_mem_cons]
      refine ⟨⟨mb, by simp, hnew⟩, fun address' ha => ?_⟩
      obtain ⟨mb', hmb', heq⟩ := h.held address' ha
      exact ⟨mb', List.mem_append_left _ hmb', (congrArg MemBlock.ptr (hold mb' hmb')).trans heq⟩
    · intro mb' hmb'
      rw [hout]
      rcases List.mem_append.mp hmb' with hmb' | hmb'
      · show (m.block mb').ptr ∈ _ ∨ (m.block mb').ptr ∈ _
        rw [hold mb' hmb']
        exact (h.known mb' hmb').imp (List.mem_cons_of_mem _) id
      · obtain rfl := List.mem_singleton.mp hmb'
        exact Or.inl (by rw [← hnew]; exact List.mem_cons_self)

/-- Any other step. -/
theorem Records.step {total : UInt32} (h : Records blockSize total tr s mbs)
    (hpos : blockSize ≠ 0) (hg : LetAlone tr s act) (hs : s.step act = some s') :
    ∃ mbs', Records blockSize total ((s, act) :: tr) s' mbs' := by
  cases act with
  | alloca mb size => exact h.alloca hpos hg hs
  | free address =>
    obtain ⟨⟨m, r⟩, hm, hs⟩ := Option.bind_eq_some_iff.mp hs
    obtain rfl := Option.some.inj hs
    obtain ⟨m', he, hheap, hptr⟩ := memFree_eq h.list address
    obtain ⟨rfl, -⟩ := Prod.mk.inj (Option.some.inj (hm.symm.trans he))
    have hpool := MemState.memFree_pool hm
    -- `mem_free` writes to `if_valid` only: the records stay, and the one that it has found
    -- counts as freed.
    refine ⟨mbs, by rw [hheap]; exact h.list, fun a ha => ?_, fun mb hmb => ?_,
      by rw [hpool, h.size], by rw [hpool, h.valid]; simp [deducted]⟩
    · obtain ⟨mb, hmb, heq⟩ := h.held a (List.mem_of_mem_erase ha)
      exact ⟨mb, hmb, (hptr mb).trans heq⟩
    · rw [hptr]
      by_cases heq : (s.mem.block mb).ptr = address
      · exact Or.inr (by simp [freed, heq])
      · refine (h.known mb hmb).imp (fun hout => ?_) fun hfreed => ?_
        · exact (List.mem_erase_of_ne heq).mpr hout
        · exact List.mem_cons_of_mem address hfreed
  | overwrite mb link block =>
    obtain rfl := Option.some.inj hs
    -- What is overwritten is no record of the list, by the guard.
    have hmb : mb ∉ mbs := fun hmb => hg (h.recorded.mpr hmb)
    have hblock : ∀ mb' ∈ mbs, update s.mem.block mb block mb' = s.mem.block mb' :=
      fun mb' hmb' => by
        have hne : mb' ≠ mb := fun heq => hmb (heq ▸ hmb')
        exact update_of_ne hne _ _
    have hheap : ∀ x ∈ MemNode.head :: mbs.map .block,
        update s.mem.heap (.block mb) link x = s.mem.heap x := by
      intro x hx
      refine update_of_ne (fun heq => hmb ?_) _ _
      subst heq
      simpa using hx
    refine ⟨mbs, ?_, fun a ha => ?_, fun mb' hmb' => ?_, h.size, ?_⟩
    · exact h.list.congr (fun x hx => congrArg Link.next (hheap x hx))
        fun x hx => congrArg Link.prev (hheap x (List.mem_cons_of_mem _ hx))
    · obtain ⟨mb', hmb', heq⟩ := h.held a ha
      exact ⟨mb', hmb', (congrArg MemBlock.ptr (hblock mb' hmb')).trans heq⟩
    · have hknown := h.known mb' hmb'
      rw [← hblock mb' hmb'] at hknown
      exact hknown
    · rw [h.valid]
      simp [deducted]

/-! ## What can be allocated again -/

/-- When `mem_alloca` returns an address. -/
theorem memAlloca_ne_null (hrep : Represents m.heap .head (mbs.map .block)) (mb : ℕ)
    (hsize : m.pool.size ≠ 0) : (∃ m' address, m.memAlloca mb size = some (m', address) ∧
      address ≠ 0) ↔ m.pool.valid - size / m.pool.size - 1 ≠ 0 ∧ m.pool.validPtr ≠ 0 := by
  constructor
  · rintro ⟨m', address, he, hne⟩
    have hleft : m.pool.valid - size / m.pool.size - 1 ≠ 0 := fun hleft => by
      have hrefuse := he.symm.trans (MemState.memAlloca_refuses mb hsize hleft)
      exact hne (Prod.mk.inj (Option.some.inj hrefuse)).2
    obtain ⟨rfl, -⟩ := (MemState.memAlloca_grants hsize hleft).mp he
    exact ⟨hleft, hne⟩
  · rintro ⟨hleft, hptr⟩
    exact ⟨⟨_, _, _⟩, _, (MemState.memAlloca_grants hsize hleft).mpr
      ⟨rfl, rfl, listInsertBehind_eq hrep, rfl⟩, hptr⟩

/-- No size takes just what `valid` counts. -/
def Missed (blockSize valid : UInt32) : Prop := 2^32 ≤ (valid - 1).toNat * blockSize.toNat

theorem missed_iff {valid : UInt32} (hpos : blockSize ≠ 0) :
    Missed blockSize valid ↔ ∀ size, valid - size / blockSize - 1 ≠ 0 := by
  have hpos' : 0 < blockSize.toNat := toNat_pos hpos
  constructor
  · intro hmiss size hzero
    have hblocks : size / blockSize = valid - 1 := by grind
    have hdiv : (valid - 1).toNat = size.toNat / blockSize.toNat := by
      rw [← hblocks, UInt32.toNat_div]
    have hmul := Nat.div_mul_le_self size.toNat blockSize.toNat
    rw [← hdiv] at hmul
    exact absurd (Nat.le_trans hmiss hmul) (Nat.not_le_of_lt size.toNat_lt)
  · intro hall
    by_contra hlt
    have hlt : (valid - 1).toNat * blockSize.toNat < 2^32 := Nat.lt_of_not_le hlt
    refine hall ((valid - 1) * blockSize) ?_
    have hblocks : (valid - 1) * blockSize / blockSize = valid - 1 := by
      rw [← UInt32.toNat_inj, UInt32.toNat_div, UInt32.toNat_mul, Nat.mod_eq_of_lt hlt,
        Nat.mul_div_cancel _ hpos']
    rw [hblocks]
    grind

/-- When the `mem_alloca` of a new pool returns an address. -/
theorem memCreate_ne_null (hpos : blockSize ≠ 0) (mb : ℕ) :
    (∃ fresh m₀ m₁ : MemState, ∃ address, m₀.memCreate start sum blockSize = some fresh ∧
      fresh.memAlloca mb size = some (m₁, address) ∧ address ≠ 0) ↔
        sum / blockSize - size / blockSize - 1 ≠ 0 ∧ start ≠ 0 := by
  have hnew : ∀ fresh m₀ : MemState, m₀.memCreate start sum blockSize = some fresh →
      Represents fresh.heap .head (([] : List ℕ).map .block) ∧
        fresh.pool = ⟨blockSize, sum / blockSize, start⟩ := by
    intro fresh m₀ hm
    unfold MemState.memCreate at hm
    rw [if_neg hpos] at hm
    obtain rfl := Option.some.inj hm
    exact ⟨⟨List.nodup_singleton _, by simp [Chain, listInit]⟩, rfl⟩
  constructor
  · rintro ⟨fresh, m₀, m₁, address, hm, he, hne⟩
    obtain ⟨hrep, hpool⟩ := hnew fresh m₀ hm
    have hiff := (memAlloca_ne_null hrep mb (by rwa [hpool])).mp ⟨m₁, address, he, hne⟩
    rwa [hpool] at hiff
  · intro hleft
    obtain ⟨fresh, ⟨⟨m₀, hm⟩, -⟩, -⟩ := MemInit.exists start sum blockSize hpos
    obtain ⟨hrep, hpool⟩ := hnew fresh.mem m₀ hm
    obtain ⟨m₁, address, he, hne⟩ :=
      (memAlloca_ne_null hrep mb (by rwa [hpool])).mpr (by rwa [hpool])
    exact ⟨fresh.mem, m₀, m₁, address, hm, he, hne⟩

/-- Some size is granted by a new pool, unless the pool is at `NULL`. -/
theorem exists_granted (total : UInt32) (hpos : blockSize ≠ 0) :
    ∃ size, total - size / blockSize - 1 ≠ 0 := by
  by_cases h : total - 0 / blockSize - 1 = 0
  · refine ⟨blockSize, ?_⟩
    have hpos' : 0 < blockSize.toNat := toNat_pos hpos
    have hone : blockSize / blockSize = 1 := by
      rw [← UInt32.toNat_inj, UInt32.toNat_div, Nat.div_self hpos', UInt32.toNat_one]
    have hzero : 0 / blockSize = 0 := by
      rw [← UInt32.toNat_inj, UInt32.toNat_div, UInt32.toNat_zero, Nat.zero_div]
    rw [hone]
    rw [hzero, UInt32.sub_zero] at h
    rw [h]
    decide
  · exact ⟨0, h⟩

/-- A pool can be used as a new one exactly if it has an address to return, and either counts what a
new one counts, or no size takes just that. -/
theorem Records.reusable_iff (h : Records blockSize (sum / blockSize) tr s mbs)
    (hpos : blockSize ≠ 0) : Reusable start sum blockSize s.mem ↔ start = 0 ∨
      s.mem.pool.validPtr ≠ 0 ∧
        (s.mem.pool.valid = sum / blockSize ∨ Missed blockSize s.mem.pool.valid) := by
  have hreuse : Reusable start sum blockSize s.mem ↔ ∀ size : UInt32,
      sum / blockSize - size / blockSize - 1 ≠ 0 → start ≠ 0 →
        s.mem.pool.valid - size / blockSize - 1 ≠ 0 ∧ s.mem.pool.validPtr ≠ 0 := by
    have hused : ∀ mb size, _ ↔ s.mem.pool.valid - size / s.mem.pool.size - 1 ≠ 0 ∧ _ :=
      fun mb size => memAlloca_ne_null h.list mb (by rwa [h.size])
    rw [h.size] at hused
    constructor
    · intro hr size hleft hstart
      obtain ⟨fresh, m₀, m₁, address, hm, he, hne⟩ :=
        (memCreate_ne_null hpos 0).mpr ⟨hleft, hstart⟩
      exact (hused 0 size).mp (hr 0 size fresh m₀ m₁ address hm he hne)
    · intro hr mb size fresh m₀ m₁ address hm he hne
      obtain ⟨hleft, hstart⟩ := (memCreate_ne_null hpos mb).mp ⟨fresh, m₀, m₁, address, hm, he, hne⟩
      exact (hused mb size).mpr (hr size hleft hstart)
  rw [hreuse]
  by_cases hstart : start = 0
  · exact iff_of_true (fun _ _ hne => absurd hstart hne) (Or.inl hstart)
  simp only [hstart, false_or, ne_eq, not_false_eq_true, true_implies]
  constructor
  · intro hr
    obtain ⟨size, hsize⟩ := exists_granted (sum / blockSize) hpos
    refine ⟨(hr size hsize).2, ?_⟩
    by_contra hno
    push Not at hno
    obtain ⟨hused, hmiss⟩ := hno
    rw [missed_iff hpos] at hmiss
    push Not at hmiss
    obtain ⟨size, hzero⟩ := hmiss
    -- The size takes what the used pool counts, and another number from the new one.
    refine (hr size fun hfresh => hused ?_).1 hzero
    grind
  · rintro ⟨hptr, hvalid | hmiss⟩ size hleft
    · rw [hvalid]
      exact ⟨hleft, hptr⟩
    · exact ⟨(missed_iff hpos).mp hmiss size, hptr⟩

/-- In every run that lets the records alone, `mem_free` answers whether an address is outstanding.
When all allocations have been freed, the pool can be used as a new one exactly if it still has an
address to return, and either nothing has been deducted from `valid`, or no size takes just what it
counts. -/
theorem freed_usable (hpos : blockSize ≠ 0)
    (hrun : Run (MemInit start sum blockSize) MemSys.step LetAlone tr s) :
    (∀ address, FreedOnce tr address → ∃ m', s.mem.memFree address =
      some (m', if address ∈ outstanding tr then .TRUE else .FALSE)) ∧
    s.mem.pool.valid = sum / blockSize - deducted blockSize tr ∧
    (outstanding tr = [] → (Reusable start sum blockSize s.mem ↔ start = 0 ∨
      s.mem.pool.validPtr ≠ 0 ∧
        (deducted blockSize tr = 0 ∨ Missed blockSize s.mem.pool.valid))) := by
  obtain ⟨mbs, h⟩ : ∃ mbs, Records blockSize (sum / blockSize) tr s mbs :=
    hrun.invariant (I := fun tr s => ∃ mbs, Records blockSize (sum / blockSize) tr s mbs)
      (fun _ hinit => ⟨[], hinit.records⟩) fun _ _ _ _ _ ⟨_, h⟩ hg hs => h.step hpos hg hs
  refine ⟨fun address hfree => ?_, h.valid, fun _ => ?_⟩
  · obtain ⟨m', he, -, -⟩ := memFree_eq h.list address
    refine ⟨m', ?_⟩
    rw [he]
    exact congrArg _ (congrArg _ (if_congr (h.recorded_iff hfree) rfl rfl))
  · have hsame : s.mem.pool.valid = sum / blockSize ↔ deducted blockSize tr = 0 := by
      rw [h.valid]
      constructor <;> intro heq <;> grind
    rw [h.reusable_iff hpos, hsame]

/-- One block of ten is taken. -/
theorem tenBlocks_taken : ∃ s m, MemInit 1000 100 10 s ∧ s.mem.memAlloca 0 9 = some (m, 1000) ∧
    Represents m.heap .head [.block 0] ∧ m.pool = ⟨10, 9, 1090⟩ ∧
      Run (MemInit 1000 100 10) MemSys.step LetAlone [(s, .alloca 0 9)] ⟨m, (1000, 9) :: s.held⟩ ∧
        outstanding [(s, .alloca 0 9)] = [1000] := by
  obtain ⟨s, hinit, hrep, -, hpool⟩ := MemInit.exists 1000 100 10 (by decide)
  obtain ⟨m, h, hrep', hpool'⟩ := MemState.memAlloca_returns 0 9 hrep (by simp)
    (by rw [hpool]; decide) (by rw [hpool]; decide)
  rw [hpool] at h hpool'
  have hrecord : ¬ Recorded s.mem 0 := fun ⟨xs, hxs, hmem⟩ => by
    rw [hxs.unique hrep] at hmem
    exact absurd hmem List.not_mem_nil
  have hg : LetAlone [] s (.alloca 0 9) := fun _ => ⟨by rw [hpool]; decide, hrecord⟩
  refine ⟨s, m, hinit, h, hrep', by rw [hpool']; rfl, ?_, ?_⟩
  · exact .cons (.nil hinit) hg (MemSys.step_alloca (by decide) h)
  · simp only [outstanding, h]
    decide

/-- One block of ten is taken, and eighty bytes are refused, for which `valid` becomes zero. The
block can be freed, and no other address. When it has been freed, the pool can be used as a new one:
no size takes just what a `valid` of zero counts. -/
theorem freed_usable_tenBlocks : ∃ tr s s' m, Run (MemInit 1000 100 10) MemSys.step LetAlone tr s ∧
    tr.map Prod.snd = [.alloca 1 80, .alloca 0 9] ∧ s.mem.memFree 1000 = some (m, .TRUE) ∧
      (∃ m', s.mem.memFree 1010 = some (m', .FALSE)) ∧
        Run (MemInit 1000 100 10) MemSys.step LetAlone ((s, .free 1000) :: tr) s' ∧
          outstanding ((s, .free 1000) :: tr) = [] ∧ Reusable 1000 100 10 s'.mem := by
  obtain ⟨s, m, -, -, hrep, hpool, hrun, hout⟩ := tenBlocks_taken
  -- `valid` is 9, and so many blocks would be taken.
  have hzero : m.pool.valid - 80 / m.pool.size - 1 = 0 := by
    rw [hpool]
    decide
  have hrefuse := MemState.memAlloca_refuses 1 (by rw [hpool]; decide) hzero
  set m₁ : MemState := { m with pool := { m.pool with valid := 0 } } with hm₁
  have hs₁ : MemSys.step ⟨m, (1000, 9) :: s.held⟩ (.alloca 1 80) =
      some ⟨m₁, (1000, 9) :: s.held⟩ := by
    rw [MemSys.step, hrefuse]
    rfl
  have hg₁ : LetAlone [(s, .alloca 0 9)] ⟨m, (1000, 9) :: s.held⟩ (.alloca 1 80) :=
    fun h => absurd hzero h
  have hrun₁ := Run.cons hrun hg₁ hs₁
  have hout₁ : outstanding [(⟨m, (1000, 9) :: s.held⟩, .alloca 1 80), (s, .alloca 0 9)] =
      [1000] := by
    rw [outstanding, hrefuse]
    exact hout
  obtain ⟨hfree, -⟩ := freed_usable (by decide) hrun₁
  obtain ⟨m₂, h₂⟩ := hfree 1000 (Or.inr List.not_mem_nil)
  obtain ⟨m₃, h₃⟩ := hfree 1010 (Or.inr List.not_mem_nil)
  rw [hout₁] at h₂ h₃
  have hs₂ : MemSys.step ⟨m₁, (1000, 9) :: s.held⟩ (.free 1000) =
      some ⟨m₂, ((1000, 9) :: s.held).filter fun e => e.1 ≠ 1000⟩ := by
    rw [MemSys.step, h₂]
    rfl
  have hg₂ : LetAlone [(⟨m, (1000, 9) :: s.held⟩, .alloca 1 80), (s, .alloca 0 9)]
      ⟨m₁, (1000, 9) :: s.held⟩ (.free 1000) := Or.inr List.not_mem_nil
  have hrun₂ := Run.cons hrun₁ hg₂ hs₂
  have hout₂ : (outstanding [(⟨m, (1000, 9) :: s.held⟩, .alloca 1 80), (s, .alloca 0 9)]).erase
      1000 = [] := by
    rw [hout₁]
    decide
  have hpool₂ : m₂.pool = ⟨10, 0, 1090⟩ := by
    rw [MemState.memFree_pool h₂, hm₁, hpool]
  have hmissed : Missed 10 m₂.pool.valid := by
    rw [hpool₂, Missed]
    decide
  obtain ⟨-, -, hreuse⟩ := freed_usable (by decide) hrun₂
  exact ⟨_, _, _, m₂, hrun₁, rfl, h₂, ⟨m₃, h₃⟩, hrun₂, hout₂,
    (hreuse hout₂).mpr (Or.inr ⟨by rw [hpool₂]; decide, Or.inr hmissed⟩)⟩

/-- A new pool of ten blocks grants eighty bytes. When the only allocation of nine bytes has been
freed, it refuses them. -/
theorem not_freed_usable_tenBlocks : ∃ tr s m',
    Run (MemInit 1000 100 10) MemSys.step LetAlone tr s ∧
    tr.map Prod.snd = [.free 1000, .alloca 0 9] ∧ outstanding tr = [] ∧
      s.mem.memAlloca 1 80 = some (m', 0) ∧ ¬ Reusable 1000 100 10 s.mem := by
  obtain ⟨s, m, hinit, -, hrep, htaken, hrun, hout⟩ := tenBlocks_taken
  have hrep : Represents m.heap .head ([0].map .block) := hrep
  obtain ⟨m', he, -, -⟩ := memFree_eq hrep 1000
  have hpool := MemState.memFree_pool he
  obtain ⟨held, hheld⟩ : ∃ held, ((1000, 9) :: s.held).filter (fun e => e.1 ≠ 1000) = held :=
    ⟨_, rfl⟩
  have hstep : MemSys.step ⟨m, (1000, 9) :: s.held⟩ (.free 1000) = some ⟨m', held⟩ := by
    rw [← hheld, MemSys.step, he]
    rfl
  have hg : LetAlone [(s, .alloca 0 9)] ⟨m, (1000, 9) :: s.held⟩ (.free 1000) :=
    Or.inr List.not_mem_nil
  have hrefuse : m'.memAlloca 1 80 = _ := MemState.memAlloca_refuses 1
    (by rw [hpool, htaken]; decide) (by rw [hpool, htaken]; decide)
  refine ⟨_, _, _, .cons hrun hg hstep, rfl, ?_, hrefuse, fun hr => ?_⟩
  · show (outstanding _).erase 1000 = []
    rw [hout]
    decide
  · have hnew : (100 : UInt32) / 10 - 80 / 10 - 1 ≠ 0 ∧ (1000 : UInt32) ≠ 0 := by decide
    obtain ⟨fresh, m₀, m₁, address, hm, hfresh, hne⟩ :=
      (memCreate_ne_null (by decide) 1).mpr hnew
    obtain ⟨m₂, address', he', hne'⟩ := hr 1 80 fresh m₀ m₁ address hm hfresh hne
    exact hne' (Prod.mk.inj (Option.some.inj (he'.symm.trans hrefuse))).2

end Fos