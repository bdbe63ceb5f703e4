import Fos.Kernel.PrioSched

/-!
# The ready queues without the table, from `kernel/prio_sched.c`

The build with `MAPTABLE` cleared. A bit of `task_prio_map` says whether the ready list of a
priority has a task, and `bit_first_one_search` scans its 32 bits. The lists are those of the other
build.
-/

namespace Fos

open Kernel (prioListHead)

/-- The state of the build, which has no use for `y` and `c`. -/
structure MapKernel extends Kernel where
  /-- `task_prio_map`. -/
  taskPrioMap : BitVec 32

/-- `bit_set`. -/
def bitSet (num : BitVec 32) (i : ℕ) : BitVec 32 := num ||| 1#32 <<< i

/-- `bit_clear`. -/
def bitClear (num : BitVec 32) (i : ℕ) : BitVec 32 := num &&& ~~~(1#32 <<< i)

namespace MapKernel

/-- The loop of `bit_first_one_search` from `i` on. -/
def bitFirstOneSearchFrom (k : MapKernel) (num : BitVec 32) (i : ℕ) : Option (Option TcbPtr) :=
  if i < SYSTEM_WORD then
    if (num >>> i) &&& 0x01#32 ≠ 0#32 then do
      let head ← prioListHead i
      let tcb ← (k.heap head).next.tcbEntry
      some (some tcb)
    else k.bitFirstOneSearchFrom num (i + 1)
  else some none
termination_by SYSTEM_WORD - i

/-- `bit_first_one_search`. Where no task is ready, it returns `NULL`. -/
def bitFirstOneSearch (k : MapKernel) (num : BitVec 32) : Option (Option TcbPtr) :=
  k.bitFirstOneSearchFrom num 0

/-- `prio_ready_queue_init`. -/
def prioReadyQueueInit (k : MapKernel) : MapKernel :=
  { k with toKernel := k.toKernel.prioReadyQueueInit }

/-- `prio_ready_queue_insert_tail`. -/
def prioReadyQueueInsertTail (k : MapKernel) (tcb : Option TcbPtr) : Option MapKernel := do
  let tcb ← tcb
  let k := { k with taskPrioMap := bitSet k.taskPrioMap (k.prio tcb) }
  let head ← prioListHead (k.prio tcb)
  let heap ← listInsertBehind k.heap head (.tcb tcb)
  some { k with heap := heap }

/-- `prio_ready_queue_insert_head`. -/
def prioReadyQueueInsertHead (k : MapKernel) (tcb : Option TcbPtr) : Option MapKernel := do
  let tcb ← tcb
  let k := { k with taskPrioMap := bitSet k.taskPrioMap (k.prio tcb) }
  let head ← prioListHead (k.prio tcb)
  some { k with heap := listInsertSpec k.heap head (.tcb tcb) }

/-- `prio_ready_queue_delete`. -/
def prioReadyQueueDelete (k : MapKernel) (tcb : Option TcbPtr) : Option MapKernel := do
  let tcb ← tcb
  let k := { k with heap := listDelete k.heap (.tcb tcb) }
  let head ← prioListHead (k.prio tcb)
  if isListLast k.heap head then
    some { k with taskPrioMap := bitClear k.taskPrioMap (k.prio tcb) }
  else some k

/-- `prio_ready_queue_fetch`. -/
def prioReadyQueueFetch (k : MapKernel) : Option (MapKernel × Ret) := do
  let tmp ← k.bitFirstOneSearch k.taskPrioMap
  -- The assertion.
  let tmp ← tmp
  let k ←
    if isListLast k.heap (.tcb tmp) then some k
    else do
      let k ← k.prioReadyQueueDelete tmp
      k.prioReadyQueueInsertTail tmp
  if k.newTask = some tmp then some (k, .NO_SCHED)
  else some ({ k with oldTask := k.newTask, newTask := some tmp }, .SCHED)

end MapKernel

/-! ## The bits of the word -/

variable {num : BitVec 32} {i p : ℕ}

/-- The test of the loop. -/
theorem shiftRight_and_one_ne_zero : (num >>> i) &&& 0x01#32 ≠ 0#32 ↔ num.getLsbD i = true := by
  rw [← BitVec.testBit_toNat, Nat.testBit, ne_eq, ← BitVec.toNat_inj]
  simp [Nat.and_comm]

/-- The loop stops at the first bit that is set. -/
theorem MapKernel.bitFirstOneSearchFrom_of_set {k : MapKernel} (hp : p < SYSTEM_WORD) (hi : i ≤ p)
    (hset : num.getLsbD p = true) (hlow : ∀ j < p, num.getLsbD j = false) :
    k.bitFirstOneSearchFrom num i = (k.heap (readyHead p)).next.tcbEntry.map some := by
  induction hi using Nat.decreasingInduction with
  | self =>
    rw [bitFirstOneSearchFrom, if_pos hp, if_pos (shiftRight_and_one_ne_zero.mpr hset),
      prioListHead, if_pos hp]
    simp only [Option.bind_eq_bind, Option.bind_some]
    cases (k.heap (readyHead p)).next.tcbEntry <;> rfl
  | of_succ i hip ih =>
    have hclear : ¬ (num >>> i) &&& 0x01#32 ≠ 0#32 := by
      rw [shiftRight_and_one_ne_zero, hlow i hip]
      exact Bool.false_ne_true
    rw [bitFirstOneSearchFrom, if_pos (hip.trans hp), if_neg hclear, ih]

/-- Where no bit is set, it comes to the end. -/
theorem MapKernel.bitFirstOneSearchFrom_of_clear {k : MapKernel} (hi : i ≤ SYSTEM_WORD)
    (hclear : ∀ j < SYSTEM_WORD, num.getLsbD j = false) :
    k.bitFirstOneSearchFrom num i = some none := by
  induction hi using Nat.decreasingInduction with
  | self => rw [bitFirstOneSearchFrom, if_neg (Nat.lt_irrefl _)]
  | of_succ i hi ih =>
    have hi0 : ¬ (num >>> i) &&& 0x01#32 ≠ 0#32 := by
      rw [shiftRight_and_one_ne_zero, hclear i hi]
      exact Bool.false_ne_true
    rw [bitFirstOneSearchFrom, if_pos hi, if_neg hi0, ih]

end Fos
