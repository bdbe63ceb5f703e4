import Fos.Kernel.PrioSched

/-!
# Message queues, from `kernel/queue.c`
-/

namespace Fos.Kernel

open Links Function

/-- `msg_block_queue_insert`. -/
def msgBlockQueueInsert (k : Kernel) (q : ℕ) : Option Kernel := do
  let tcb ← k.newTask
  let heap ← listInsertBehind k.heap (.queue q) (.tcb tcb)
  some { k with heap := heap }

/-- `msg_block_queue_delete`. -/
def msgBlockQueueDelete (k : Kernel) (tcb : TcbPtr) : Kernel :=
  { k with heap := listDelete k.heap (.tcb tcb) }

/-- `msg_queue_create`. -/
def msgQueueCreate (k : Kernel) (entry : Option ℕ) (length : ℕ) : Kernel × Ret :=
  match entry with
  | none => (k, .FALSE)
  | some q =>
    if length = 0 then (k, .FALSE)
    else
      let heap := listInit k.heap (.queue q)
      let heap := listInit heap (.msgHead q)
      ({ k with heap := heap }.setQueue q ⟨length, 0⟩, .TRUE)

/-- `msg_put`. -/
def msgPut (k : Kernel) (entry msg : Option ℕ) (method : ℕ) : Option (Kernel × Ret) :=
  match entry, msg with
  | some q, some m =>
    if (k.queue q).length < (k.queue q).count then some (k, .FALSE)
    else do
      let k ←
        if ¬ isListLast k.heap (.queue q) then do
          let tcb ← (k.heap (.queue q)).next.tcbEntry
          let k := k.msgBlockQueueDelete tcb
          k.prioReadyQueueInsertHead tcb
        else some k
      if (k.queue q).count = (k.queue q).length then some (k, .FULL)
      else
        let k := k.setQueue q { k.queue q with count := ((k.queue q).count + 1) % 2^32 }
        if method = FIFO then do
          let heap ← listInsertBehind k.heap (.msgHead q) (.msg m)
          some ({ k with heap := heap }, .TRUE)
        else some ({ k with heap := listInsertSpec k.heap (.msgHead q) (.msg m) }, .TRUE)
  | _, _ => some (k, .FALSE)

/-- `memcpy(dst, src, n)`. -/
def memcpy (mem : ℕ → ℕ) (dst src n : ℕ) : ℕ → ℕ :=
  fun a => if dst ≤ a ∧ a < dst + n then mem (src + (a - dst)) else mem a

/-- `msg_get`, up to the switch of the `schedule` that ends it when the queue is empty. What follows
that `schedule` is the return of `EMPTY`. -/
def msgGet (k : Kernel) (entry buffer : Option ℕ) : Option (Kernel × Ret) :=
  match entry, buffer with
  | some q, some buf =>
    if isListLast k.heap (.msgHead q) then do
      let k ← k.prioReadyQueueDelete k.newTask
      let k ← k.msgBlockQueueInsert q
      let k ← k.schedule
      some (k, .EMPTY)
    else do
      let msg ← (k.heap (.msgHead q)).next.msgEntry
      let k := k.setMem (memcpy k.mem buf (k.msg msg).buff 5)
      let k := { k with heap := listDelete k.heap (k.heap (.msgHead q)).next }
      if 0 < (k.queue q).count then
        some (k.setQueue q { k.queue q with count := (k.queue q).count - 1 }, .TRUE)
      else some (k, .TRUE)
  | _, _ => some (k, .FALSE)

/-! ## Up to `schedule` -/

/-- `msg_put`, up to the release of the first receiver. -/
def msgRelease (k : Kernel) (q : ℕ) : Option Kernel :=
  if ¬ isListLast k.heap (.queue q) then do
    let tcb ← (k.heap (.queue q)).next.tcbEntry
    (k.msgBlockQueueDelete tcb).prioReadyQueueInsertHead tcb
  else some k

/-- `msg_get` of an empty queue, up to its `schedule`. -/
def msgWait (k : Kernel) (q : ℕ) : Option Kernel := do
  let k ← k.prioReadyQueueDelete k.newTask
  k.msgBlockQueueInsert q

/-- `msg_get` of a queue that has a message. -/
def msgTake (k : Kernel) (q buf : ℕ) : Option Kernel := do
  let msg ← (k.heap (.msgHead q)).next.msgEntry
  let k := k.setMem (memcpy k.mem buf (k.msg msg).buff 5)
  let k := { k with heap := listDelete k.heap (k.heap (.msgHead q)).next }
  if 0 < (k.queue q).count then
    some (k.setQueue q { k.queue q with count := (k.queue q).count - 1 })
  else some k

/-- `msg_put` once a receiver has been released: the message is put if there is room. -/
def msgInsert (k : Kernel) (q m method : ℕ) : Option (Kernel × Ret) :=
  if (k.queue q).count = (k.queue q).length then some (k, .FULL)
  else
    let k := k.setQueue q { k.queue q with count := ((k.queue q).count + 1) % 2^32 }
    if method = FIFO then do
      let heap ← listInsertBehind k.heap (.msgHead q) (.msg m)
      some ({ k with heap := heap }, .TRUE)
    else some ({ k with heap := listInsertSpec k.heap (.msgHead q) (.msg m) }, .TRUE)

theorem msgPut_eq (k : Kernel) (q m method : ℕ) : k.msgPut (some q) (some m) method =
    if (k.queue q).length < (k.queue q).count then some (k, .FALSE)
    else (k.msgRelease q).bind fun k => k.msgInsert q m method := by
  by_cases hfull : (k.queue q).length < (k.queue q).count
  · simp only [msgPut, if_pos hfull]
  · by_cases hlast : isListLast k.heap (.queue q) = true
    · simp only [msgPut, msgRelease, if_neg hfull, hlast, not_true_eq_false, if_false]
      rfl
    · rw [Bool.not_eq_true] at hlast
      simp only [msgPut, msgRelease, if_neg hfull, hlast, Bool.false_eq_true, not_false_eq_true,
        if_true, Option.bind_eq_bind, Option.bind_assoc]
      rfl

theorem msgGet_eq (k : Kernel) (q buf : ℕ) : k.msgGet (some q) (some buf) =
    if isListLast k.heap (.msgHead q) then
      (k.msgWait q).bind fun k => k.schedule.bind fun k => some (k, .EMPTY)
    else (k.msgTake q buf).bind fun k => some (k, .TRUE) := by
  unfold msgGet msgWait msgTake
  simp only [Option.bind_eq_bind, Option.bind_assoc]
  congr! 3
  split_ifs <;> rfl

end Fos.Kernel
