import Fos.Kernel.MemBlock
import Fos.Lib.Runs
import Fos.Lib.Spans
import Mathlib.Algebra.Group.Nat.Defs

/-!
# Memory pools

`mem_alloca` hands out the block that `valid_ptr` points to, and sets `valid_ptr` forward by the
blocks that are left, where it has taken `n + 1`. As long as every call finds `valid_ptr` behind the
blocks that are taken, and takes no more than are left, the allocations are carved off the region
one behind the other (`allocated_of_inStep`). The pointer stays there after an allocation only if
that leaves as many blocks as it takes (`inStep_memAlloca_iff`).
-/

namespace Fos

open Links Function Runs Spans

/-- A pool, and the allocations of it that have not been freed, the latest first. -/
structure MemSys where
  mem : MemState
  held : List (UInt32 × UInt32)

/-- What happens to a pool. -/
inductive MemAction where
  /-- `mem_alloca`, whose `mb` has the address given. -/
  | alloca (mb : ℕ) (size : UInt32)
  /-- `mem_free`. -/
  | free (address : UInt32)
  /-- The stack where the `mb` of an earlier call was is used for something else. -/
  | overwrite (mb : ℕ) (link : Link MemNode) (block : MemBlock)

/-- One step. -/
def MemSys.step (s : MemSys) : MemAction → Option MemSys
  | .alloca mb size => do
    let (m, address) ← s.mem.memAlloca mb size
    some ⟨m, if address = 0 then s.held else (address, size) :: s.held⟩
  | .free address => do
    let (m, _) ← s.mem.memFree address
    some ⟨m, s.held.filter fun e => e.1 ≠ address⟩
  | .overwrite mb link block =>
    some ⟨{ s.mem with heap := update s.mem.heap (.block mb) link
                       block := update s.mem.block mb block }, s.held⟩

/-- `mem_create` over a region of `sum` bytes from `start`. -/
def MemInit (start sum blockSize : UInt32) (s : MemSys) : Prop :=
  (∃ m : MemState, m.memCreate start sum blockSize = some s.mem) ∧ s.held = []

/-- The runs of a pool under a guard. -/
abbrev MemRun (start sum blockSize : UInt32) (guard : MemSys → MemAction → Prop) :=
  Run (MemInit start sum blockSize) MemSys.step fun _ s act => guard s act

/-- The addresses of an allocation. -/
def span (e : UInt32 × UInt32) : Span := ⟨e.1.toNat, e.2.toNat⟩

/-- The allocations are inside the region, and apart. -/
def Allocated (start sum : UInt32) (s : MemSys) : Prop :=
  Carved start.toNat (start.toNat + sum.toNat) (s.held.map span)

/-- The blocks of the region that are taken: `valid` counts the others. -/
def MemPool.taken (sum : UInt32) (pool : MemPool) : ℕ :=
  sum.toNat / pool.size.toNat - pool.valid.toNat

/-- `valid_ptr` points behind the blocks that are taken. -/
def MemPool.InStep (start sum : UInt32) (pool : MemPool) : Prop :=
  pool.validPtr.toNat = start.toNat + pool.taken sum * pool.size.toNat

/-- A `mem_alloca` takes no more blocks than are left, from a `valid_ptr` that points behind those
that are taken. -/
def TakesInStep (start sum : UInt32) (s : MemSys) : MemAction → Prop
  | .alloca _ size => size.toNat / s.mem.pool.size.toNat < s.mem.pool.valid.toNat ∧
      s.mem.pool.InStep start sum
  | _ => True

/-! ## One call -/

namespace MemState

variable {m m' : MemState} {mb : ℕ} {size address : UInt32}

/-- The blocks that are left, where no more are taken than there are. -/
theorem valid_toNat {valid n : UInt32} (h : n.toNat < valid.toNat) :
    (valid - n - 1).toNat = valid.toNat - (n.toNat + 1) := by
  have hle : n ≤ valid := UInt32.le_iff_toNat_le.mpr (Nat.le_of_lt h)
  have hsub : (valid - n).toNat = valid.toNat - n.toNat := UInt32.toNat_sub_of_le _ _ hle
  have hone : (1 : UInt32) ≤ valid - n := by
    rw [UInt32.le_iff_toNat_le, hsub]
    show 1 ≤ _
    omega
  rw [UInt32.toNat_sub_of_le _ _ hone, hsub]
  show _ - 1 = _
  omega

/-- What `mem_alloca` does to the pool, and what it returns. -/
theorem memAlloca_pool (h : m.memAlloca mb size = some (m', address)) :
    m'.pool.size = m.pool.size ∧ m'.pool.valid = m.pool.valid - size / m.pool.size - 1 ∧
      (address = 0 ∨ address = m.pool.validPtr) ∧ (0 < m'.pool.valid →
        m'.pool.validPtr = m.pool.validPtr + m'.pool.valid * m.pool.size) := by
  unfold memAlloca at h
  dsimp only at h
  split_ifs at h with hsize hvalid
  · obtain ⟨heap, -, h⟩ := Option.bind_eq_some_iff.mp h
    obtain ⟨rfl, rfl⟩ := Prod.mk.inj (Option.some.inj h)
    exact ⟨rfl, rfl, Or.inr rfl, fun _ => rfl⟩
  · obtain ⟨rfl, rfl⟩ := Prod.mk.inj (Option.some.inj h)
    exact ⟨rfl, rfl, Or.inl rfl, fun hv => absurd hv hvalid⟩

/-- `mem_free` does nothing to the pool. -/
theorem memFree_pool {r : Ret} (h : m.memFree address = some (m', r)) : m'.pool = m.pool := by
  obtain ⟨found, -, h⟩ := Option.bind_eq_some_iff.mp h
  cases found with
  | none => rw [← (Prod.mk.inj (Option.some.inj h)).1]
  | some mb => rw [← (Prod.mk.inj (Option.some.inj h)).1]

end MemState

/-- The requested bytes are in the blocks that are taken for them. -/
theorem lt_blocks (size : ℕ) {blockSize : ℕ} (hpos : 0 < blockSize) :
    size < (size / blockSize + 1) * blockSize := by
  rw [Nat.mul_comm]
  exact Nat.lt_mul_div_succ size hpos

/-- From a `valid_ptr` in step with `valid`, a successful `mem_alloca` leaves them in step exactly
if it leaves as many blocks as it takes. -/
theorem inStep_memAlloca_iff {start sum : UInt32} {m m' : MemState} {mb : ℕ}
    {size address : UInt32} (hfit : start.toNat + sum.toNat ≤ 2^32) (hpos : 0 < m.pool.size)
    (hle : m.pool.valid.toNat ≤ sum.toNat / m.pool.size.toNat)
    (hroom : size.toNat / m.pool.size.toNat < m.pool.valid.toNat) (hstep : m.pool.InStep start sum)
    (h : m.memAlloca mb size = some (m', address)) (hv : 0 < m'.pool.valid) :
    m'.pool.InStep start sum ↔ m'.pool.valid.toNat = size.toNat / m.pool.size.toNat + 1 := by
  obtain ⟨hsize, hvalid, -, hptr⟩ := MemState.memAlloca_pool h
  have hpos' : 0 < m.pool.size.toNat := UInt32.lt_iff_toNat_lt.mp hpos
  have hsum : sum.toNat / m.pool.size.toNat * m.pool.size.toNat ≤ sum.toNat :=
    Nat.div_mul_le_self _ _
  have hleft : m'.pool.valid.toNat =
      m.pool.valid.toNat - (size.toNat / m.pool.size.toNat + 1) := by
    rw [hvalid, MemState.valid_toNat (by rwa [UInt32.toNat_div]), UInt32.toNat_div]
  unfold MemPool.InStep MemPool.taken at *
  rw [hptr hv, hsize, UInt32.toNat_add, UInt32.toNat_mul, hstep]
  generalize size.toNat / m.pool.size.toNat = n at *
  generalize sum.toNat / m.pool.size.toNat = total at *
  -- The blocks that are counted do not leave the region, so that nothing wraps around.
  obtain ⟨taken, htaken⟩ : ∃ taken, total - m.pool.valid.toNat = taken := ⟨_, rfl⟩
  have htaken' : total - m'.pool.valid.toNat = taken + (n + 1) := by omega
  have hfew : taken + m'.pool.valid.toNat < total := by omega
  have hregion :
      taken * m.pool.size.toNat + m'.pool.valid.toNat * m.pool.size.toNat < sum.toNat := by
    rw [← Nat.add_mul]
    exact Nat.lt_of_lt_of_le (Nat.mul_lt_mul_of_pos_right hfew hpos') hsum
  rw [htaken, htaken', Nat.mod_eq_of_lt (a := m'.pool.valid.toNat * _) (by omega),
    Nat.mod_eq_of_lt (by omega), Nat.add_mul taken, ← Nat.add_assoc]
  constructor
  · intro heq
    exact Nat.eq_of_mul_eq_mul_right hpos' (Nat.add_left_cancel heq)
  · intro heq
    rw [heq]

/-! ## Runs -/

variable {start sum blockSize : UInt32} {tr : List (MemSys × MemAction)} {s s' : MemSys}
  {act : MemAction}

/-- The invariant of the runs whose calls are in step. -/
structure MemOk (start sum blockSize : UInt32) (s : MemSys) : Prop where
  /-- The block size stays. -/
  size : s.mem.pool.size = blockSize
  /-- No more blocks are left than there were. -/
  valid_le : s.mem.pool.valid.toNat ≤ sum.toNat / blockSize.toNat
  /-- The allocations are carved off, up to the blocks that are taken. -/
  carved : Carved start.toNat (start.toNat + s.mem.pool.taken sum * blockSize.toNat)
    (s.held.map span)

/-- A pool at its start. -/
theorem MemInit.ok (h : MemInit start sum blockSize s) : MemOk start sum blockSize s := by
  obtain ⟨⟨m, hm⟩, hheld⟩ := h
  unfold MemState.memCreate at hm
  split_ifs at hm
  have hs := Option.some.inj hm
  refine ⟨by rw [← hs], ?_, ?_⟩
  · rw [← hs]
    exact Nat.le_of_eq (UInt32.toNat_div sum blockSize)
  · rw [hheld]
    exact .nil

/-- A step in step keeps the invariant. -/
theorem MemOk.step (h : MemOk start sum blockSize s) (hpos : 0 < blockSize)
    (hin : TakesInStep start sum s act) (hs : s.step act = some s') :
    MemOk start sum blockSize s' := by
  obtain ⟨hsize, hle, hcarved⟩ := h
  have hpos' : 0 < blockSize.toNat := UInt32.lt_iff_toNat_lt.mp hpos
  cases act with
  | alloca mb size =>
    obtain ⟨⟨m, address⟩, hm, hs⟩ := Option.bind_eq_some_iff.mp hs
    obtain rfl := Option.some.inj hs
    obtain ⟨hsize', hvalid, haddress, -⟩ := MemState.memAlloca_pool hm
    obtain ⟨hroom, hstep⟩ := hin
    unfold MemPool.InStep at hstep
    rw [hsize] at hsize' hvalid hroom hstep
    have hbytes := lt_blocks size.toNat hpos'
    -- The blocks are counted as taken.
    have hleft : m.pool.valid.toNat =
        s.mem.pool.valid.toNat - (size.toNat / blockSize.toNat + 1) := by
      rw [hvalid, MemState.valid_toNat (by rwa [UInt32.toNat_div]), UInt32.toNat_div]
    generalize size.toNat / blockSize.toNat = n at hroom hbytes hleft
    have htaken : m.pool.taken sum =
        s.mem.pool.taken sum + (n + 1) := by
      unfold MemPool.taken
      rw [hsize', hsize, hleft]
      omega
    have hmark : start.toNat + m.pool.taken sum * blockSize.toNat =
        start.toNat + s.mem.pool.taken sum * blockSize.toNat + (n + 1) * blockSize.toNat := by
      rw [htaken, Nat.add_mul, Nat.add_assoc]
    refine ⟨hsize', ?_, ?_⟩
    · rw [hleft]
      exact Nat.le_trans (Nat.sub_le _ _) hle
    rw [hmark]
    split_ifs with hnull
    · exact hcarved.mono (Nat.le_add_right _ _)
    · rw [haddress.resolve_left hnull]
      have hspan : (span (s.mem.pool.validPtr, size)).start =
          start.toNat + s.mem.pool.taken sum * blockSize.toNat := hstep
      refine hcarved.carve ?_ (Nat.le_of_eq hspan.symm) ?_
      · rw [hspan]
        exact Nat.le_add_right _ _
      · rw [Span.stop, hspan]
        exact Nat.add_le_add_left (Nat.le_of_lt hbytes) _
  | free address =>
    obtain ⟨⟨m, r⟩, hm, hs⟩ := Option.bind_eq_some_iff.mp hs
    obtain rfl := Option.some.inj hs
    have hpool := MemState.memFree_pool hm
    refine ⟨by rw [hpool, hsize], by rw [hpool]; exact hle, ?_⟩
    rw [hpool]
    exact hcarved.sublist (List.filter_sublist.map span)
  | overwrite mb link block =>
    obtain rfl := Option.some.inj hs
    exact ⟨hsize, hle, hcarved⟩

/-- As long as every `mem_alloca` is in step, the allocations are inside the region and apart. -/
theorem allocated_of_inStep (hpos : 0 < blockSize)
    (hrun : MemRun start sum blockSize (TakesInStep start sum) tr s) : Allocated start sum s := by
  have hok : MemOk start sum blockSize s :=
    Run.invariant (I := fun _ s => MemOk start sum blockSize s) hrun (fun _ h => h.ok)
      fun _ _ _ _ _ hok hg hs => hok.step hpos hg hs
  refine hok.carved.mono (Nat.add_le_add_left ?_ _)
  calc s.mem.pool.taken sum * blockSize.toNat
      ≤ sum.toNat / blockSize.toNat * blockSize.toNat := by
        refine Nat.mul_le_mul_right _ ?_
        rw [MemPool.taken, hok.size]
        exact Nat.sub_le _ _
    _ ≤ sum.toNat := Nat.div_mul_le_self _ _

/-! ## Two runs -/

/-- `mem_alloca` returns when the list of the pool is a sequence that does not have its `mb`. -/
theorem MemState.memAlloca_returns {m : MemState} {xs : List MemNode} (mb : ℕ) (size : UInt32)
    (hrep : Represents m.heap .head xs) (hmb : .block mb ∉ xs) (hsize : m.pool.size ≠ 0)
    (hvalid : 0 < m.pool.valid - size / m.pool.size - 1) :
    ∃ m', m.memAlloca mb size = some (m', m.pool.validPtr) ∧
      Represents m'.heap .head (xs ++ [.block mb]) ∧
        m'.pool = ⟨m.pool.size, m.pool.valid - size / m.pool.size - 1,
          m.pool.validPtr + (m.pool.valid - size / m.pool.size - 1) * m.pool.size⟩ := by
  have happend := hrep.append (x := .block mb) (by simpa using hmb)
  obtain ⟨heap, hheap⟩ : ∃ heap, listInsertBehind m.heap .head (.block mb) = some heap :=
    ⟨_, listInsertBehind_eq hrep⟩
  rw [← Option.some.inj (hheap.symm.trans (listInsertBehind_eq hrep))] at happend
  refine ⟨⟨_, heap, update m.block mb ⟨m.pool.validPtr, 0, size / m.pool.size + 1⟩⟩, ?_,
    happend, rfl⟩
  unfold memAlloca
  dsimp only
  rw [if_neg hsize, if_pos hvalid, hheap]
  rfl

/-- A `mem_alloca` that returns `address` is a step. -/
theorem MemSys.step_alloca {m : MemState} {mb : ℕ} {size address : UInt32} (hne : address ≠ 0)
    (h : s.mem.memAlloca mb size = some (m, address)) :
    s.step (.alloca mb size) = some ⟨m, (address, size) :: s.held⟩ := by
  simp [step, h, hne]

/-- A pool that has just been created. -/
theorem MemInit.exists (start sum blockSize : UInt32) (hpos : blockSize ≠ 0) :
    ∃ s, MemInit start sum blockSize s ∧ Represents s.mem.heap .head [] ∧ s.held = [] ∧
      s.mem.pool = ⟨blockSize, sum / blockSize, start⟩ := by
  let m : MemState := ⟨⟨0, 0, 0⟩, fun _ => ⟨.head, .head⟩, fun _ => ⟨0, 0, 0⟩⟩
  refine ⟨⟨⟨⟨blockSize, sum / blockSize, start⟩, listInit m.heap .head, m.block⟩, []⟩,
    ⟨⟨m, if_neg hpos⟩, rfl⟩, ⟨List.nodup_singleton _, ?_⟩, rfl, rfl⟩
  simp [Chain, listInit]

/-- Of sixteen blocks eight are taken, and of the other eight then four. -/
theorem allocated_halves : ∃ tr s, MemRun 1000 160 10 (TakesInStep 1000 160) tr s ∧
    tr.map Prod.snd = [.alloca 1 39, .alloca 0 79] ∧ s.held = [(1080, 39), (1000, 79)] ∧
      Allocated 1000 160 s := by
  obtain ⟨s, hinit, hrep, hheld, hpool⟩ := MemInit.exists 1000 160 10 (by decide)
  obtain ⟨m₁, h₁, hrep₁, hpool₁⟩ := MemState.memAlloca_returns 0 79 hrep (by simp)
    (by rw [hpool]; decide) (by rw [hpool]; decide)
  rw [hpool] at h₁ hpool₁
  obtain ⟨m₂, h₂, hrep₂, hpool₂⟩ := MemState.memAlloca_returns 1 39 hrep₁ (by simp)
    (by rw [hpool₁]; decide) (by rw [hpool₁]; decide)
  rw [hpool₁] at h₂
  have hrun : MemRun 1000 160 10 (TakesInStep 1000 160) _ _ :=
    .cons (.cons (.nil hinit) ?_ (MemSys.step_alloca (by decide) h₁)) ?_
      (MemSys.step_alloca (s := ⟨m₁, _⟩) (by decide) h₂)
  · exact ⟨_, _, hrun, rfl, by rw [hheld]; rfl, allocated_of_inStep (by decide) hrun⟩
  · simp only [TakesInStep, MemPool.InStep, MemPool.taken]
    rw [hpool]
    decide
  · simp only [TakesInStep, MemPool.InStep, MemPool.taken]
    rw [hpool₁]
    decide

/-- Three allocations of one block each, of ten: the third is outside the region. -/
theorem not_allocated_ten : ∃ tr s, MemRun 1000 100 10 (fun _ _ => True) tr s ∧
    tr.map Prod.snd = [.alloca 2 9, .alloca 1 9, .alloca 0 9] ∧
      s.held = [(1170, 9), (1090, 9), (1000, 9)] ∧ ¬ Allocated 1000 100 s := by
  obtain ⟨s, hinit, hrep, hheld, hpool⟩ := MemInit.exists 1000 100 10 (by decide)
  obtain ⟨m₁, h₁, hrep₁, hpool₁⟩ := MemState.memAlloca_returns 0 9 hrep (by simp)
    (by rw [hpool]; decide) (by rw [hpool]; decide)
  rw [hpool] at h₁ hpool₁
  obtain ⟨m₂, h₂, hrep₂, hpool₂⟩ := MemState.memAlloca_returns 1 9 hrep₁ (by simp)
    (by rw [hpool₁]; decide) (by rw [hpool₁]; decide)
  rw [hpool₁] at h₂ hpool₂
  obtain ⟨m₃, h₃, -, -⟩ := MemState.memAlloca_returns 2 9 hrep₂ (by simp)
    (by rw [hpool₂]; decide) (by rw [hpool₂]; decide)
  rw [hpool₂] at h₃
  have hrun : MemRun 1000 100 10 (fun _ _ => True) _ _ :=
    .cons (.cons (.cons (.nil hinit) trivial (MemSys.step_alloca (by decide) h₁)) trivial
      (MemSys.step_alloca (s := ⟨m₁, _⟩) (by decide) h₂)) trivial
      (MemSys.step_alloca (s := ⟨m₂, _⟩) (by decide) h₃)
  refine ⟨_, _, hrun, rfl, by rw [hheld]; rfl, fun h => ?_⟩
  have hwithin := (h.within ⟨1170, 9⟩ (by rw [hheld]; exact List.mem_cons_self)).2
  exact absurd hwithin (by decide)

end Fos
