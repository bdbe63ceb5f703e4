import Fos.Kernel.State

/-!
# Memory pools, from `kernel/mem_block.c`

A pool has one list, of the `MEM_BLOCK`s of its allocations. `mem_alloca` links a `MEM_BLOCK` in
that is a local variable of its own, so that its address is wherever the stack was at the call, and
what it holds after the call is up to whoever uses the stack next. The address is an argument here.
-/

namespace Fos

open Links Loops Function

/-- The address of a `LIST` node of a pool. -/
inductive MemNode where
  /-- `ptr->head`. -/
  | head
  /-- `mb.list`, of the `MEM_BLOCK` at this address. -/
  | block (mb : ℕ)
  deriving DecidableEq

/-- `MEM_POOL`, without its `head`. -/
structure MemPool where
  size : UInt32
  valid : UInt32
  validPtr : UInt32

/-- `MEM_BLOCK`, without its `list`. -/
structure MemBlock where
  ptr : UInt32
  ifValid : UInt8
  flag : UInt32

/-- A pool, the links of its nodes, and the `MEM_BLOCK`s. -/
structure MemState where
  pool : MemPool
  heap : Heap MemNode
  block : ℕ → MemBlock

namespace MemState

/-- `mem_create`. A `block_size` of zero is a division by zero. -/
def memCreate (m : MemState) (start sum blockSize : UInt32) : Option MemState :=
  if blockSize = 0 then none
  else some ⟨⟨blockSize, sum / blockSize, start⟩, listInit m.heap .head, m.block⟩

/-- `mem_alloca`, whose `mb` has the address given. `NULL` is `0`. -/
def memAlloca (m : MemState) (mb : ℕ) (size : UInt32) : Option (MemState × UInt32) :=
  if m.pool.size = 0 then none
  else
    let n := size / m.pool.size
    let valid := m.pool.valid - n - 1
    if 0 < valid then do
      let address := m.pool.validPtr
      let block := update m.block mb ⟨address, 0, n + 1⟩
      let heap ← listInsertBehind m.heap .head (.block mb)
      some (⟨{ m.pool with valid := valid, validPtr := m.pool.validPtr + valid * m.pool.size },
        heap, block⟩, address)
    else some ({ m with pool := { m.pool with valid := valid } }, 0)

/-- The loop of `mem_free` from the node `tmp`: the `MEM_BLOCK` that it stops at. -/
def memSearch (m : MemState) (address : UInt32) (tmp : MemNode) : Option (Option ℕ) :=
  repeatUntil (fun tmp =>
    if isListLast m.heap tmp then some (.inr none)
    else
      match (m.heap tmp).next with
      | .head => none
      | .block mb =>
        if (m.block mb).ptr = address then some (.inr (some mb)) else some (.inl (.block mb))) tmp

/-- One round of the loop. -/
theorem memSearch_unfold (m : MemState) (address : UInt32) (tmp : MemNode) :
    m.memSearch address tmp =
      if isListLast m.heap tmp then some none
      else
        match (m.heap tmp).next with
        | .head => none
        | .block mb =>
          if (m.block mb).ptr = address then some (some mb)
          else m.memSearch address (.block mb) := by
  unfold memSearch
  rw [repeatUntil_eq]
  cases (m.heap tmp).next with
  | head => split_ifs <;> rfl
  | block mb => dsimp only; split_ifs <;> rfl

/-- `mem_free`. -/
def memFree (m : MemState) (address : UInt32) : Option (MemState × Ret) := do
  match ← m.memSearch address .head with
  | some mb => some ({ m with block := update m.block mb { m.block mb with ifValid := 1 } }, .TRUE)
  | none => some (m, .FALSE)

end MemState

end Fos
