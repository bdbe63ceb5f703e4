import Fos.Kernel.PrioSched

/-!
# Mutexes, from `kernel/mutex.c`
-/

namespace Fos.Kernel

open Links Function

/-- `mutex_block_queue_insert`. -/
def mutexBlockQueueInsert (k : Kernel) (m : ℕ) : Option Kernel := do
  let tcb ← (k.mutex m).tcb
  let heap ← listInsertBehind k.heap (.mutex m) (.tcb tcb)
  some { k with heap := heap }

/-- `mutex_block_queue_delete`. -/
def mutexBlockQueueDelete (k : Kernel) (tcb : TcbPtr) : Kernel :=
  { k with heap := listDelete k.heap (.tcb tcb) }

/-- `mutex_init`. -/
def mutexInit (k : Kernel) (mutex : Option ℕ) : Kernel × Ret :=
  match mutex with
  | none => (k, .NO_MUTEX)
  | some m =>
    let k := { k with heap := listInit k.heap (.mutex m) }
    (k.setMutex m { k.mutex m with enable := 1 }, .TRUE)

/-- `mutex_get`, up to the switch of the `schedule` in it when the caller blocks. What follows that
`schedule` is the return of `TRUE`. -/
def mutexGet (k : Kernel) (mutex : Option ℕ) : Option (Kernel × Ret) :=
  match mutex with
  | none => some (k, .NO_MUTEX)
  | some m =>
    if (k.mutex m).enable = 0 then do
      let k := k.setMutex m { k.mutex m with tcb := k.newTask }
      let k ← k.prioReadyQueueDelete k.newTask
      let k ← k.mutexBlockQueueInsert m
      let k ← k.schedule
      some (k, .TRUE)
    else do
      let tcb ← k.newTask
      let k := k.setMutex m { k.mutex m with copyPrio := k.prio tcb }
      let k ← k.prioReadyQueueDelete tcb
      let k := k.setPrio tcb PRIO_MUTEX
      let k ← k.prioReadyQueueInsertHead tcb
      some (k.setMutex m { k.mutex m with enable := 0 }, .TRUE)

/-- `mutex_put`, up to the switch of the `schedule` that ends it. `copy_prio` is a `U32` and `prio`
a `U8`. -/
def mutexPut (k : Kernel) (mutex : Option ℕ) : Option (Kernel × Ret) :=
  match mutex with
  | none => some (k, .NO_MUTEX)
  | some m => do
    let tcb ← k.newTask
    let k ← k.prioReadyQueueDelete tcb
    let k := k.setPrio tcb ((k.mutex m).copyPrio % 256)
    let k ← k.prioReadyQueueInsertHead tcb
    let k := k.setMutex m { k.mutex m with enable := 1 }
    let k ←
      if ¬ isListLast k.heap (.mutex m) then do
        let tcb ← (k.heap (.mutex m)).next.tcbEntry
        let k := k.mutexBlockQueueDelete tcb
        k.prioReadyQueueInsertHead tcb
      else some k
    let k ← k.schedule
    some (k, .TRUE)

/-! ## Up to `schedule` -/

/-- `mutex_get` of a mutex that is held, up to its `schedule`. -/
def mutexWait (k : Kernel) (m : ℕ) : Option Kernel := do
  let k := k.setMutex m { k.mutex m with tcb := k.newTask }
  let k ← k.prioReadyQueueDelete k.newTask
  k.mutexBlockQueueInsert m

/-- `mutex_get` of a mutex that is free. -/
def mutexTake (k : Kernel) (m : ℕ) : Option Kernel := do
  let tcb ← k.newTask
  let k := k.setMutex m { k.mutex m with copyPrio := k.prio tcb }
  let k ← k.prioReadyQueueDelete tcb
  let k := k.setPrio tcb PRIO_MUTEX
  let k ← k.prioReadyQueueInsertHead tcb
  some (k.setMutex m { k.mutex m with enable := 0 })

/-- `mutex_put`, up to its `schedule`. -/
def mutexRelease (k : Kernel) (m : ℕ) : Option Kernel := do
  let tcb ← k.newTask
  let k ← k.prioReadyQueueDelete tcb
  let k := k.setPrio tcb ((k.mutex m).copyPrio % 256)
  let k ← k.prioReadyQueueInsertHead tcb
  let k := k.setMutex m { k.mutex m with enable := 1 }
  if ¬ isListLast k.heap (.mutex m) then do
    let tcb ← (k.heap (.mutex m)).next.tcbEntry
    (k.mutexBlockQueueDelete tcb).prioReadyQueueInsertHead tcb
  else some k

theorem mutexGet_eq (k : Kernel) (m : ℕ) : k.mutexGet (some m) =
    if (k.mutex m).enable = 0 then
      (k.mutexWait m).bind fun k => k.schedule.bind fun k => some (k, .TRUE)
    else (k.mutexTake m).bind fun k => some (k, .TRUE) := by
  simp [mutexGet, mutexWait, mutexTake, Option.bind_assoc]

theorem mutexPut_eq (k : Kernel) (m : ℕ) : k.mutexPut (some m) =
    (k.mutexRelease m).bind fun k => k.schedule.bind fun k => some (k, .TRUE) := by
  simp only [mutexPut, mutexRelease, Option.bind_eq_bind, Option.bind_assoc]
  refine congrArg _ (funext fun tcb => congrArg _ (funext fun k => congrArg _ (funext fun k => ?_)))
  split_ifs <;> simp [Option.bind_assoc]

end Fos.Kernel
