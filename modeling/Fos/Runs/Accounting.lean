import Mathlib.Algebra.Order.Floor.Div
import Mathlib.Data.UInt
import Fos.Runs.Memory

/-!
# The blocks that a pool counts

`mem_alloca` takes `size / block_size + 1` blocks off `valid` before it looks whether there are as
many, and keeps them when it refuses. So it takes a block too many for a size that is a multiple of
the block size, refuses a request for all blocks that are left, and, since `valid` is unsigned,
grants requests for more than that. The calls of a run are accounted exactly if none of them is of
these kinds (`accounted_iff`).
-/

namespace Fos

open Links Function Runs

/-- The blocks that a request for `size` bytes needs. -/
def need (blockSize size : ℕ) : ℕ := max 1 (size ⌈/⌉ blockSize)

/-- The blocks that the calls of a run have handed out. -/
def handedOut (blockSize : UInt32) : List (MemSys × MemAction) → ℕ
  | [] => 0
  | (s, .alloca mb size) :: tr => handedOut blockSize tr +
    match s.mem.memAlloca mb size with
    | some (_, address) => if address = 0 then 0 else need blockSize.toNat size.toNat
    | none => 0
  | _ :: tr => handedOut blockSize tr

/-- With `left` blocks not yet handed out, a `mem_alloca` returns an address exactly if the blocks
that it needs are left. Then it takes them off `valid`, and else it leaves the pool as it was. -/
def ExactCall (blockSize : UInt32) (left : ℕ) (m : MemState) (mb : ℕ) (size : UInt32) : Prop :=
  ∃ m' address, m.memAlloca mb size = some (m', address) ∧
    (address ≠ 0 ↔ need blockSize.toNat size.toNat ≤ left) ∧
    (address ≠ 0 → m'.pool.valid.toNat + need blockSize.toNat size.toNat = m.pool.valid.toNat) ∧
    (address = 0 → m'.pool = m.pool ∧ m'.heap = m.heap)

/-- All calls of a run are exact, of a pool of `total` blocks. -/
def Accounted (blockSize : UInt32) (total : ℕ) : List (MemSys × MemAction) → Prop
  | [] => True
  | (s, .alloca mb size) :: tr => Accounted blockSize total tr ∧
    ExactCall blockSize (total - handedOut blockSize tr) s.mem mb size
  | _ :: tr => Accounted blockSize total tr

/-- The size is no multiple of the block size, the blocks that are taken for it leave one at least,
the pool has an address to return, and its list has an end. Or a request for all bytes of the
address space finds a pool of bytes that has none left. -/
def Fitting (s : MemSys) : MemAction → Prop
  | .alloca _ size =>
    (size.toNat / s.mem.pool.size.toNat + 1 < s.mem.pool.valid.toNat ∧
      (size.toNat = 0 ∨ ¬ s.mem.pool.size.toNat ∣ size.toNat) ∧ s.mem.pool.validPtr ≠ 0 ∧
        (listEnd s.mem.heap .head).isSome) ∨
    (s.mem.pool.valid.toNat = 0 ∧ size.toNat / s.mem.pool.size.toNat + 1 = 2^32)
  | _ => True

/-- `mem_alloca` is called, or the stack of an earlier call is used. -/
def MemAction.NoFree : MemAction → Prop
  | .free _ => False
  | _ => True

/-! ## One call -/

/-- The blocks that `mem_alloca` takes are those that are needed, or one more. -/
theorem need_eq {blockSize : ℕ} (size : ℕ) (hpos : 0 < blockSize) : need blockSize size =
    if size = 0 ∨ ¬ blockSize ∣ size then size / blockSize + 1 else size / blockSize := by
  unfold need
  have hdiv : blockSize * (size / blockSize) ≤ size := Nat.mul_div_le size blockSize
  by_cases h0 : size = 0
  · subst h0
    simp
  by_cases hdvd : blockSize ∣ size
  · obtain ⟨k, rfl⟩ := hdvd
    have hk : 0 < k := Nat.pos_of_ne_zero fun hk => h0 (by rw [hk, Nat.mul_zero])
    have hceil : blockSize * k ⌈/⌉ blockSize = k := smul_ceilDiv hpos k
    rw [if_neg (by simp [h0]), hceil, Nat.mul_div_cancel_left k hpos]
    omega
  · have hceil : size ⌈/⌉ blockSize = size / blockSize + 1 := by
      refine Nat.le_antisymm ?_ (Nat.lt_of_not_le fun hle => hdvd ?_)
      · exact (ceilDiv_le_iff_le_mul hpos).mpr (Nat.le_of_lt (Nat.lt_mul_div_succ size hpos))
      · have hle := (ceilDiv_le_iff_le_mul hpos).mp hle
        exact ⟨size / blockSize, Nat.le_antisymm hle hdiv⟩
    rw [if_pos (Or.inr hdvd), hceil]
    exact Nat.max_eq_right (Nat.succ_pos _)

theorem need_pos (blockSize size : ℕ) : 0 < need blockSize size :=
  Nat.lt_of_lt_of_le Nat.one_pos (Nat.le_max_left _ _)

theorem toNat_pos {n : UInt32} (h : n ≠ 0) : 0 < n.toNat :=
  UInt32.lt_iff_toNat_lt.mp (UInt32.pos_iff_ne_zero.mpr h)

namespace MemState

/-- What `mem_alloca` leaves of `valid`: the difference wraps around below zero. -/
theorem left_toNat (valid n : UInt32) : (valid - n - 1).toNat =
    if n.toNat + 1 ≤ valid.toNat then valid.toNat - (n.toNat + 1)
    else valid.toNat + 2^32 - (n.toNat + 1) := by
  have hvalid := valid.toNat_lt
  have hn := n.toNat_lt
  rw [UInt32.toNat_sub, UInt32.toNat_sub, UInt32.toNat_one]
  split_ifs <;> omega

/-- A `mem_alloca` that leaves no block refuses, and has taken what was left. -/
theorem memAlloca_refuses {m : MemState} (mb : ℕ) {size : UInt32} (hsize : m.pool.size ≠ 0)
    (h : m.pool.valid - size / m.pool.size - 1 = 0) :
    m.memAlloca mb size = some ({ m with pool := { m.pool with valid := 0 } }, 0) := by
  unfold memAlloca
  dsimp only
  rw [if_neg hsize, h, if_neg (by decide)]

/-- A `mem_alloca` that leaves blocks, or has wrapped around, returns `valid_ptr`. -/
theorem memAlloca_grants {m m' : MemState} {mb : ℕ} {size address : UInt32}
    (hsize : m.pool.size ≠ 0) (h : m.pool.valid - size / m.pool.size - 1 ≠ 0) :
    m.memAlloca mb size = some (m', address) ↔ address = m.pool.validPtr ∧
      m'.pool = ⟨m.pool.size, m.pool.valid - size / m.pool.size - 1,
        m.pool.validPtr + (m.pool.valid - size / m.pool.size - 1) * m.pool.size⟩ ∧
      listInsertBehind m.heap .head (.block mb) = some m'.heap ∧
      m'.block = update m.block mb ⟨m.pool.validPtr, 0, size / m.pool.size + 1⟩ := by
  unfold memAlloca
  dsimp only
  rw [if_neg hsize, if_pos (UInt32.pos_iff_ne_zero.mpr h), Option.bind_eq_bind]
  constructor
  · intro he
    obtain ⟨heap, hheap, he⟩ := Option.bind_eq_some_iff.mp he
    obtain ⟨rfl, rfl⟩ := Prod.mk.inj (Option.some.inj he)
    exact ⟨rfl, rfl, hheap, rfl⟩
  · obtain ⟨pool, heap, block⟩ := m'
    rintro ⟨rfl, rfl, hheap, rfl⟩
    rw [hheap]
    rfl

/-- A grant sets `valid_ptr` forward: from address 0 it would stay there only by taking every block
of a pool of single bytes, and no request is that large. -/
theorem forward_ne {m : MemState} {size : UInt32} (hsize : m.pool.size ≠ 0)
    (h : m.pool.valid - size / m.pool.size - 1 ≠ 0) (hptr : m.pool.validPtr = 0) :
    (⟨m.pool.size, m.pool.valid - size / m.pool.size - 1,
      m.pool.validPtr + (m.pool.valid - size / m.pool.size - 1) * m.pool.size⟩ : MemPool) ≠
        m.pool := by
  intro hsame
  have hval := left_toNat m.pool.valid (size / m.pool.size)
  have hvalid : m.pool.valid - size / m.pool.size - 1 = m.pool.valid :=
    congrArg MemPool.valid hsame
  have hforward : m.pool.validPtr + (m.pool.valid - size / m.pool.size - 1) * m.pool.size =
      m.pool.validPtr := congrArg MemPool.validPtr hsame
  have hpos : 0 < m.pool.size.toNat := toNat_pos hsize
  have hone : m.pool.size.toNat = 1 := by
    have hall : 2^32 - 1 ≤ size.toNat / m.pool.size.toNat := by
      have hvlt := m.pool.valid.toNat_lt
      rw [hvalid, UInt32.toNat_div] at hval
      generalize size.toNat / m.pool.size.toNat = n at hval ⊢
      split_ifs at hval <;> omega
    have hmul := (Nat.le_div_iff_mul_le hpos).mp hall
    have hlt := size.toNat_lt
    omega
  rw [hptr, UInt32.toNat_inj.mp (hone.trans UInt32.toNat_one.symm), UInt32.mul_one,
    UInt32.zero_add] at hforward
  exact h (by rw [UInt32.toNat_inj.mp (hone.trans UInt32.toNat_one.symm)]; exact hforward)

end MemState

section

variable {s : MemSys} {left mb : ℕ} {size : UInt32}

/-- A `mem_alloca` that refuses is exact exactly if it fits. -/
theorem exactCall_iff_of_refuses (hsize : s.mem.pool.size ≠ 0)
    (hleft : s.mem.pool.valid.toNat = left)
    (h0 : s.mem.pool.valid - size / s.mem.pool.size - 1 = 0) :
    ExactCall s.mem.pool.size left s.mem mb size ↔ Fitting s (.alloca mb size) := by
  have hval := MemState.left_toNat s.mem.pool.valid (size / s.mem.pool.size)
  have hneed := need_eq size.toNat (toNat_pos hsize)
  have hneedpos := need_pos s.mem.pool.size.toNat size.toNat
  have hlt : size.toNat / s.mem.pool.size.toNat < 2^32 :=
    Nat.lt_of_le_of_lt (Nat.div_le_self _ _) size.toNat_lt
  have hvlt := s.mem.pool.valid.toNat_lt
  have hrefuse := MemState.memAlloca_refuses mb hsize h0
  rw [h0, UInt32.toNat_zero, UInt32.toNat_div] at hval
  unfold ExactCall Fitting
  dsimp only
  -- What is left is about the number `n` of whole blocks.
  generalize size.toNat / s.mem.pool.size.toNat = n at hval hlt hneed ⊢
  constructor
  · rintro ⟨m', address, h, -, -, hsame⟩
    obtain ⟨rfl, rfl⟩ := Prod.mk.inj (Option.some.inj (hrefuse.symm.trans h))
    -- A refused call leaves `valid` at 0, so that it has left it as it was only if it was 0.
    have hzero : s.mem.pool.valid.toNat = 0 :=
      (congrArg (fun pool => pool.valid.toNat) (hsame rfl).1).symm
    refine Or.inr ⟨hzero, ?_⟩
    split_ifs at hval <;> omega
  · rintro (⟨hfew, -⟩ | ⟨hzero, -⟩)
    · rw [if_pos (Nat.le_of_lt hfew)] at hval
      omega
    · refine ⟨_, _, hrefuse, by simp; omega, fun h => absurd rfl h, fun _ => ⟨?_, rfl⟩⟩
      rw [← UInt32.toNat_inj.mp (hzero.trans UInt32.toNat_zero.symm)]

/-- A `mem_alloca` that grants is exact exactly if it fits. -/
theorem exactCall_iff_of_grants (hsize : s.mem.pool.size ≠ 0)
    (hleft : s.mem.pool.valid.toNat = left)
    (h0 : s.mem.pool.valid - size / s.mem.pool.size - 1 ≠ 0) :
    ExactCall s.mem.pool.size left s.mem mb size ↔ Fitting s (.alloca mb size) := by
  have hval := MemState.left_toNat s.mem.pool.valid (size / s.mem.pool.size)
  have hneed := need_eq size.toNat (toNat_pos hsize)
  have hneedpos := need_pos s.mem.pool.size.toNat size.toNat
  have hlt : size.toNat / s.mem.pool.size.toNat < 2^32 :=
    Nat.lt_of_le_of_lt (Nat.div_le_self _ _) size.toNat_lt
  have hvlt := s.mem.pool.valid.toNat_lt
  have hgrant : ∀ m' address, s.mem.memAlloca mb size = some (m', address) ↔ _ :=
    fun m' address => MemState.memAlloca_grants hsize h0
  have hforward := MemState.forward_ne hsize h0
  have hne := (toNat_pos h0).ne'
  rw [UInt32.toNat_div] at hval
  unfold ExactCall Fitting
  dsimp only
  generalize s.mem.pool.valid - size / s.mem.pool.size - 1 = v' at hval hgrant hforward hne
  generalize size.toNat / s.mem.pool.size.toNat = n at hval hlt hneed ⊢
  constructor
  · rintro ⟨m', address, h, hiff, htakes, hsame⟩
    obtain ⟨rfl, hpool, hheap, -⟩ := (hgrant m' address).mp h
    obtain ⟨list, hend, -⟩ := Option.bind_eq_some_iff.mp hheap
    by_cases hptr : s.mem.pool.validPtr = 0
    -- If it returned `NULL`, it would have set `valid_ptr` forward.
    · exact absurd (hpool.symm.trans (hsame hptr).1) (hforward hptr)
    · have hfits := hiff.mp hptr
      have htakes := htakes hptr
      rw [hpool] at htakes
      dsimp only at htakes
      split_ifs at hneed with hmult
      · refine Or.inl ⟨?_, hmult, hptr, by rw [hend]; rfl⟩
        split_ifs at hval <;> omega
      · split_ifs at hval <;> omega
  · rintro (⟨hfew, hmult, hptr, hend⟩ | ⟨hzero, hall⟩)
    · obtain ⟨list, hend⟩ := Option.isSome_iff_exists.mp hend
      have hheap : listInsertBehind s.mem.heap .head (.block mb) =
          some (listInsert s.mem.heap list (.block mb)) := by
        rw [listInsertBehind, hend]
        rfl
      rw [if_pos (Nat.le_of_lt hfew)] at hval
      rw [if_pos hmult] at hneed
      refine ⟨⟨_, _, _⟩, _, (hgrant _ _).mpr ⟨rfl, rfl, hheap, rfl⟩, ?_, fun _ => ?_, fun h => ?_⟩
      · exact iff_of_true hptr (by omega)
      · dsimp only
        omega
      · exact absurd h hptr
    · rw [hzero, hall, if_neg (by decide)] at hval
      exact absurd hval hne

/-- A `mem_alloca` is exact exactly if it fits. -/
theorem exactCall_iff (hsize : s.mem.pool.size ≠ 0) (hleft : s.mem.pool.valid.toNat = left) :
    ExactCall s.mem.pool.size left s.mem mb size ↔ Fitting s (.alloca mb size) := by
  by_cases h0 : s.mem.pool.valid - size / s.mem.pool.size - 1 = 0
  · exact exactCall_iff_of_refuses hsize hleft h0
  · exact exactCall_iff_of_grants hsize hleft h0

end

/-! ## Runs -/

variable {start sum blockSize : UInt32} {tr : List (MemSys × MemAction)} {s s' : MemSys}
  {act : MemAction}

/-- What `valid` counts, as long as the calls are accounted: the blocks not yet handed out. -/
structure Counts (blockSize : UInt32) (total : ℕ) (tr : List (MemSys × MemAction)) (s : MemSys) :
    Prop where
  size : s.mem.pool.size = blockSize
  valid : s.mem.pool.valid.toNat + handedOut blockSize tr = total

/-- A step that is accounted. -/
theorem Counts.step {total : ℕ} (h : Counts blockSize total tr s) (hs : s.step act = some s')
    (hacc : Accounted blockSize total ((s, act) :: tr)) (hno : act.NoFree) :
    Counts blockSize total ((s, act) :: tr) s' := by
  cases act with
  | alloca mb size =>
    obtain ⟨⟨m, address⟩, hm, hs⟩ := Option.bind_eq_some_iff.mp hs
    obtain rfl := Option.some.inj hs
    obtain ⟨-, m', address', he, -, htakes, hsame⟩ := hacc
    obtain ⟨rfl, rfl⟩ := Prod.mk.inj (Option.some.inj (hm.symm.trans he))
    refine ⟨(MemState.memAlloca_pool hm).1.trans h.size, ?_⟩
    have hvalid := h.valid
    simp only [handedOut, hm]
    split_ifs with h0
    · rw [(hsame h0).1]
      exact hvalid
    · have := htakes h0
      omega
  | free address => exact hno.elim
  | overwrite mb link block =>
    obtain rfl := Option.some.inj hs
    exact ⟨h.size, h.valid⟩

/-- The pool has been created, and what is accounted has been counted. -/
theorem MemInit.counts (h : MemInit start sum blockSize s) :
    Counts blockSize (sum.toNat / blockSize.toNat) [] s := by
  obtain ⟨⟨m, hm⟩, -⟩ := h
  unfold MemState.memCreate at hm
  split_ifs at hm
  have hs := Option.some.inj hm
  refine ⟨by rw [← hs], ?_⟩
  rw [← hs]
  exact UInt32.toNat_div sum blockSize

/-- One more step is accounted exactly if it fits. -/
theorem Counts.accounted_cons_iff {total : ℕ} (h : Counts blockSize total tr s)
    (hpos : 0 < blockSize) (hacc : Accounted blockSize total tr) (hno : act.NoFree) :
    Accounted blockSize total ((s, act) :: tr) ↔ Fitting s act := by
  obtain ⟨rfl, hvalid⟩ := h
  cases act with
  | alloca mb size =>
    have hleft : s.mem.pool.valid.toNat = total - handedOut s.mem.pool.size tr := by omega
    rw [← exactCall_iff (UInt32.pos_iff_ne_zero.mp hpos) hleft]
    exact and_iff_right hacc
  | free address => exact hno.elim
  | overwrite mb link block => exact iff_of_true hacc trivial

/-- What is accounted has been accounted up to the last step. -/
theorem Accounted.earlier {total : ℕ} (h : Accounted blockSize total ((s, act) :: tr)) :
    Accounted blockSize total tr := by
  cases act with
  | alloca mb size => exact h.1
  | free address => exact h
  | overwrite mb link block => exact h

/-- In every run, all calls are accounted exactly if all of them fit, and then `valid` counts the
blocks that have not been handed out. -/
theorem MemRun.accounted (hpos : 0 < blockSize)
    (hrun : MemRun start sum blockSize (fun _ act => act.NoFree) tr s) :
    (Accounted blockSize (sum.toNat / blockSize.toNat) tr ↔ ∀ e ∈ tr, Fitting e.1 e.2) ∧
      (Accounted blockSize (sum.toNat / blockSize.toNat) tr →
        Counts blockSize (sum.toNat / blockSize.toNat) tr s) := by
  induction hrun with
  | nil hinit => exact ⟨iff_of_true trivial (by simp), fun _ => hinit.counts⟩
  | @cons tr s s' act _ hno hs ih =>
    obtain ⟨ih, hcounts⟩ := ih
    refine ⟨?_, fun hacc => (hcounts hacc.earlier).step hs hacc hno⟩
    rw [List.forall_mem_cons, ← ih]
    constructor
    · intro hacc
      have hiff := (hcounts hacc.earlier).accounted_cons_iff hpos hacc.earlier hno
      exact ⟨hiff.mp hacc, hacc.earlier⟩
    · rintro ⟨hfit, hacc⟩
      exact ((hcounts hacc).accounted_cons_iff hpos hacc hno).mpr hfit

/-- In every run and its next call, all calls are accounted exactly if all of them fit. -/
theorem accounted_iff (hpos : 0 < blockSize)
    (hrun : MemRun start sum blockSize (fun _ act => act.NoFree) tr s) (mb : ℕ) (size : UInt32) :
    Accounted blockSize (sum.toNat / blockSize.toNat) ((s, .alloca mb size) :: tr) ↔
      ∀ e ∈ (s, MemAction.alloca mb size) :: tr, Fitting e.1 e.2 := by
  obtain ⟨hiff, hcounts⟩ := MemRun.accounted hpos hrun
  have hno : (MemAction.alloca mb size).NoFree := trivial
  rw [List.forall_mem_cons, ← hiff]
  constructor
  · intro hacc
    exact ⟨((hcounts hacc.1).accounted_cons_iff hpos hacc.1 hno).mp hacc, hacc.1⟩
  · rintro ⟨hfit, hacc⟩
    exact ((hcounts hacc).accounted_cons_iff hpos hacc hno).mpr hfit

/-- Of ten blocks, one is taken for nine bytes, and then two for nineteen. -/
theorem accounted_ten : ∃ tr s, MemRun 1000 100 10 (fun _ act => act.NoFree) tr s ∧
    tr.map Prod.snd = [.alloca 0 9] ∧ Accounted 10 10 ((s, .alloca 1 19) :: tr) := by
  obtain ⟨s, hinit, hrep, -, hpool⟩ := MemInit.exists 1000 100 10 (by decide)
  obtain ⟨m, h, hrep', hpool'⟩ := MemState.memAlloca_returns 0 9 hrep (by simp)
    (by rw [hpool]; decide) (by rw [hpool]; decide)
  rw [hpool] at h hpool'
  have hno : (MemAction.alloca 0 9).NoFree := trivial
  have hrun : MemRun 1000 100 10 (fun _ act => act.NoFree) _ _ :=
    .cons (.nil hinit) hno (MemSys.step_alloca (by decide) h)
  refine ⟨_, _, hrun, rfl, (accounted_iff (by decide) hrun 1 19).mpr ?_⟩
  rw [List.forall_mem_cons, List.forall_mem_singleton]
  refine ⟨Or.inl ?_, Or.inl ?_⟩
  · rw [hpool', listEnd_eq hrep']
    decide
  · rw [hpool, listEnd_eq hrep]
    decide

/-- Of one block, none is returned for nine bytes, but `valid` has been taken off one. The next call
takes it below zero, and returns the block. -/
theorem not_accounted_one : ∃ s m₁ m₂, MemInit 1000 10 10 s ∧
    s.mem.memAlloca 0 9 = some (m₁, 0) ∧ m₁.pool.valid = 0 ∧
      m₁.memAlloca 1 9 = some (m₂, 1000) ∧ m₂.pool.valid = 0xffffffff ∧
        ¬ Accounted 10 1 [(⟨m₁, s.held⟩, .alloca 1 9), (s, .alloca 0 9)] := by
  obtain ⟨s, hinit, hrep, -, hpool⟩ := MemInit.exists 1000 10 10 (by decide)
  have hrefuse : s.mem.memAlloca 0 9 = _ := MemState.memAlloca_refuses 0
    (by rw [hpool]; decide) (by rw [hpool]; decide)
  obtain ⟨m₁, hpool₁, hheap₁, h₁⟩ : ∃ m₁ : MemState, m₁.pool = ⟨10, 0, 1000⟩ ∧
      m₁.heap = s.mem.heap ∧ s.mem.memAlloca 0 9 = some (m₁, 0) :=
    ⟨⟨{ s.mem.pool with valid := 0 }, s.mem.heap, s.mem.block⟩, by rw [hpool], rfl, hrefuse⟩
  rw [← hheap₁] at hrep
  obtain ⟨m₂, h₂, -, hpool₂⟩ := MemState.memAlloca_returns 1 9 hrep (by simp)
    (by rw [hpool₁]; decide) (by rw [hpool₁]; decide)
  rw [hpool₁] at h₂ hpool₂
  refine ⟨s, m₁, m₂, hinit, h₁, by rw [hpool₁], h₂, by rw [hpool₂]; decide, fun hacc => ?_⟩
  -- The first call returns `NULL`, but does not leave the pool as it was.
  obtain ⟨m', address, he, -, -, hsame⟩ := hacc.1.2
  obtain ⟨rfl, rfl⟩ := Prod.mk.inj (Option.some.inj (h₁.symm.trans he))
  have hvalid := congrArg MemPool.valid (hsame rfl).1
  rw [hpool, hpool₁] at hvalid
  exact absurd hvalid (by decide)

end Fos
