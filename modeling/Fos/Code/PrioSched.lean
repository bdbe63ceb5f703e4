import Fos.Kernel.Task
import Fos.Lib.Interrupts

/-!
# The scheduler, statement by statement

`kernel/list.c`, `kernel/prio_sched.c`, and `kernel/task.c` as code that interrupts may come into. A
statement here is one that reads or writes memory that others can reach; an access to a local
variable goes with the statement that uses it. `task_prio_queue[]` and `c[8]` are indexed in bounds
or the code stops, so that code at this level tells an index out of bounds from all else that can go
wrong. The functions of `Fos.Kernel` are what the code computes when no interrupt comes
(`Code/Masked.lean`).
-/

namespace Fos

open Links Function Interrupts

/-- The status register. -/
abbrev Sr := BitVec 32

/-- `SPR_SR_TEE`, which enables the tick. -/
def SPR_SR_TEE : Sr := 0x2

/-- `SPR_SR_IEE`, which enables external interrupts. -/
def SPR_SR_IEE : Sr := 0x4

/-- The bits that `interrupt_disable` clears. -/
instance : Status Sr where
  enabled sr := sr &&& (SPR_SR_IEE ||| SPR_SR_TEE) ≠ 0
  mask sr := sr &&& ~~~(SPR_SR_IEE ||| SPR_SR_TEE)
  enabled_mask sr := by
    rw [BitVec.and_assoc, decide_eq_false_iff_not, not_not]
    have hnone : ~~~(SPR_SR_IEE ||| SPR_SR_TEE) &&& (SPR_SR_IEE ||| SPR_SR_TEE) = 0 := by decide
    rw [hnone]
    exact BitVec.and_zero
  mask_of_masked sr h := by
    rw [decide_eq_false_iff_not, not_not] at h
    apply BitVec.eq_of_getLsbD_eq
    intro i hi
    have hbit := congrArg (·.getLsbD i) h
    simp only [BitVec.getLsbD_and, BitVec.getLsbD_not] at hbit ⊢
    cases hsr : sr.getLsbD i <;> simp_all

/-- Memory with the links of `LIST` nodes. -/
class Nodes (σ : Type) (α : outParam Type) where
  heap : σ → Heap α
  setHeap : σ → Heap α → σ

instance : Nodes Kernel Node where
  heap := Kernel.heap
  setHeap k heap := { k with heap := heap }

namespace Code

variable {σ α : Type} [DecidableEq α] [Nodes σ α]

/-! ## `list.c` -/

/-- A statement that writes a link. -/
def links (f : Heap α → Heap α) : Prog Sr σ Unit :=
  .write fun s => Nodes.setHeap s (f (Nodes.heap s))

/-- `list_init`. -/
def listInit (head : α) : Prog Sr σ Unit := do
  links fun h => h.setNext head head
  links fun h => h.setPrev head head

/-- `is_list_last`. -/
def isListLast (head : α) : Prog Sr σ Bool :=
  .read fun s => Fos.isListLast (Nodes.heap s) head

/-- `list_insert`. -/
def listInsert (head node : α) : Prog Sr σ Unit := do
  links fun h => h.setNext node node
  links fun h => h.setPrev node head
  links fun h => h.setNext head node

/-- `list_insert_spec`. -/
def listInsertSpec (head node : α) : Prog Sr σ Unit := do
  if ← isListLast head then listInsert head node
  else do
    links fun h => h.setNext node (h head).next
    links fun h => h.setPrev node head
    links fun h => h.setPrev (h head).next node
    links fun h => h.setNext head node

/-- `list_delete`. -/
def listDelete (node : α) : Prog Sr σ Unit := do
  if ← isListLast node then
    links fun h => h.setNext (h node).prev (h node).prev
  else do
    links fun h => h.setNext (h node).prev (h node).next
    links fun h => h.setPrev (h node).next (h node).prev

/-- A round of the loop of `list_insert_behind`. -/
def listStep (list : α) : Prog Sr σ (α ⊕ α) := do
  if ← isListLast list then pure (.inr list)
  else do
    let next ← .read fun s => (Nodes.heap s list).next
    pure (.inl next)

/-- `list_insert_behind`. -/
def listInsertBehind (head node : α) : Prog Sr σ Unit := do
  let list ← Prog.loop listStep head
  listInsert list node

/-! ## `prio_sched.c` -/

/-- `bitmap_set`. -/
def bitmapSet (prio : ℕ) : Prog Sr Kernel Unit := do
  let a := prio &&& 0x7
  let b := prio >>> 3
  .inBounds (b < 8)
  .write fun k => { k with c := update k.c b (k.c b ||| 1#8 <<< a) }
  .write fun k => { k with y := k.y ||| 1#8 <<< b }

/-- `bitmap_get`. -/
def bitmapGet : Prog Sr Kernel ℕ := do
  let b ← .read fun k => bitmap.getD k.y.toNat 0
  .inBounds (b < 8)
  let a ← .read fun k => bitmap.getD (k.c b).toNat 0
  pure ((b * 8 + a) % 256)

/-- `bitmap_clear`. -/
def bitmapClear (prio : ℕ) : Prog Sr Kernel Unit := do
  let a := prio &&& 0x7
  let b := prio >>> 3
  .inBounds (b < 8)
  .write fun k => { k with c := update k.c b (k.c b &&& ~~~(1#8 <<< a)) }
  if ← .test fun k => k.c b = 0 then
    .write fun k => { k with y := k.y &&& ~~~(1#8 <<< b) }

/-- `&task_prio_queue[prio].list`. -/
def prioListHead (prio : ℕ) : Prog Sr Kernel Node := do
  .inBounds (prio < SYSTEM_WORD)
  pure (readyHead prio)

/-- `bit_first_one_search`. -/
def bitFirstOneSearch : Prog Sr Kernel TcbPtr := do
  let i ← bitmapGet
  let head ← prioListHead i
  .readSome fun k => (k.heap head).next.tcbEntry

/-- `OS_ASSERT` of a pointer. -/
def osAssert (tcb : Option TcbPtr) : Prog Sr Kernel TcbPtr :=
  match tcb with
  | some tcb => pure tcb
  | none => .stop .stuck

/-- `prio_ready_queue_insert_tail`. -/
def prioReadyQueueInsertTail (tcb : Option TcbPtr) : Prog Sr Kernel Unit := do
  let tcb ← osAssert tcb
  bitmapSet (← .read fun k => k.prio tcb)
  let head ← prioListHead (← .read fun k => k.prio tcb)
  listInsertBehind head (.tcb tcb)

/-- `prio_ready_queue_insert_head`. -/
def prioReadyQueueInsertHead (tcb : Option TcbPtr) : Prog Sr Kernel Unit := do
  let tcb ← osAssert tcb
  bitmapSet (← .read fun k => k.prio tcb)
  let head ← prioListHead (← .read fun k => k.prio tcb)
  listInsertSpec head (.tcb tcb)

/-- `prio_ready_queue_delete`. -/
def prioReadyQueueDelete (tcb : Option TcbPtr) : Prog Sr Kernel Unit := do
  let tcb ← osAssert tcb
  listDelete (Node.tcb tcb)
  let head ← prioListHead (← .read fun k => k.prio tcb)
  if ← isListLast head then
    bitmapClear (← .read fun k => k.prio tcb)

/-- The rotation in `prio_ready_queue_fetch`. -/
def rotate (tmp : TcbPtr) : Prog Sr Kernel Unit := do
  if ← isListLast (Node.tcb tmp) then pure ()
  else do
    prioReadyQueueDelete tmp
    prioReadyQueueInsertTail tmp

/-- `prio_ready_queue_fetch`. -/
def prioReadyQueueFetch : Prog Sr Kernel Ret := do
  let tmp ← bitFirstOneSearch
  rotate tmp
  if ← .test fun k => k.newTask = some tmp then .ret .NO_SCHED
  else do
    .write fun k => { k with oldTask := k.newTask }
    .write fun k => { k with newTask := some tmp }
    .ret .SCHED

/-- `schedule`. `port_schedule` is the trap in which the processor is handed over. -/
def schedule : Prog Sr Kernel Unit := do
  if ← .read fun k => k.scheduleIsLock then .ret ()
  else do
    let cpuSr ← .disable
    if (← prioReadyQueueFetch) = .NO_SCHED then do
      .setSr cpuSr
      .ret ()
    else do
      .switch
      .setSr cpuSr
      .ret ()

/-- `find_high_ready_task`. -/
def findHighReadyTask : Prog Sr Kernel Unit := do
  let _ ← Prog.critical prioReadyQueueFetch
  .ret ()

/-! ## `task.c` -/

/-- `task_create`. A priority is a `U8`. -/
def taskCreate (tcb : Option TcbPtr) (func stack : Option ℕ) (prio : ℕ) : Prog Sr Kernel Ret :=
  match tcb, func, stack with
  | some t, some _, some _ => do
    .write fun k => k.setPrio t (prio % 256)
    prioReadyQueueInsertTail t
    .ret .TRUE
  | _, _, _ => .ret .NO_TCB

/-- `task_prio_change`. The argument is a `U32`, and `tcb->prio` a `U8`. -/
def taskPrioChange (tcb : Option TcbPtr) (prio : ℕ) : Prog Sr Kernel Ret :=
  match tcb with
  | none => .ret .NO_TCB
  | some t =>
    if prio < 1 ∨ SYSTEM_WORD < prio then .ret .NO_TCB
    else do
      if ← .test fun k => k.newTask ≠ some t then .stop .stuck
      else do
        prioReadyQueueDelete t
        .write fun k => k.setPrio t (prio % 256)
        prioReadyQueueInsertHead t
        .ret .TRUE

end Code

end Fos
