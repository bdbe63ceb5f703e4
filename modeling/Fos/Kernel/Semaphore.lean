import Fos.Kernel.PrioSched

/-!
# Semaphores, from `kernel/semaphore.c`
-/

namespace Fos.Kernel

open Links Function

/-- `sem_block_queue_insert`. -/
def semBlockQueueInsert (k : Kernel) (s : ℕ) : Option Kernel := do
  let tcb ← (k.sem s).tcb
  let heap ← listInsertBehind k.heap (.sem s) (.tcb tcb)
  some { k with heap := heap }

/-- `sem_block_queue_delete`. -/
def semBlockQueueDelete (k : Kernel) (tcb : TcbPtr) : Kernel :=
  { k with heap := listDelete k.heap (.tcb tcb) }

/-- `sem_init`. -/
def semInit (k : Kernel) (semaphore : Option ℕ) (num : ℕ) : Kernel × Ret :=
  match semaphore with
  | none => (k, .NO_SEMAPHORE)
  | some s =>
    let k := k.setSem s { k.sem s with count := num }
    ({ k with heap := listInit k.heap (.sem s) }, .TRUE)

/-- `sem_get`, up to the switch of the `schedule` in it when the caller blocks. -/
def semGet (k : Kernel) (semaphore : Option ℕ) : Option (Kernel × Ret) :=
  match semaphore with
  | none => some (k, .NO_SEMAPHORE)
  | some s =>
    if (k.sem s).count = 0 then do
      let k := k.setSem s { k.sem s with tcb := k.newTask }
      let k ← k.prioReadyQueueDelete (k.sem s).tcb
      let k ← k.semBlockQueueInsert s
      let k ← k.schedule
      some (k, .TRUE)
    else
      some (k.setSem s { k.sem s with count := (k.sem s).count - 1 }, .TRUE)

/-- `sem_put`, up to the switch of the `schedule` that ends it. -/
def semPut (k : Kernel) (semaphore : Option ℕ) : Option (Kernel × Ret) :=
  match semaphore with
  | none => some (k, .NO_SEMAPHORE)
  | some s => do
    let k ←
      if ¬ isListLast k.heap (.sem s) then do
        let tcb ← (k.heap (.sem s)).next.tcbEntry
        let k := k.semBlockQueueDelete tcb
        k.prioReadyQueueInsertHead tcb
      else if (k.sem s).count ≠ U32_MAX then
        some (k.setSem s { k.sem s with count := (k.sem s).count + 1 })
      else some k
    let k ← k.schedule
    some (k, .TRUE)

/-! ## Up to `schedule` -/

/-- `sem_get` of a semaphore without units, up to its `schedule`. -/
def semWait (k : Kernel) (s : ℕ) : Option Kernel := do
  let k := k.setSem s { k.sem s with tcb := k.newTask }
  let k ← k.prioReadyQueueDelete (k.sem s).tcb
  k.semBlockQueueInsert s

/-- `sem_put`, up to its `schedule`. -/
def semRelease (k : Kernel) (s : ℕ) : Option Kernel :=
  if ¬ isListLast k.heap (.sem s) then do
    let tcb ← (k.heap (.sem s)).next.tcbEntry
    (k.semBlockQueueDelete tcb).prioReadyQueueInsertHead tcb
  else if (k.sem s).count ≠ U32_MAX then
    some (k.setSem s { k.sem s with count := (k.sem s).count + 1 })
  else some k

theorem semGet_eq (k : Kernel) (s : ℕ) : k.semGet (some s) =
    if (k.sem s).count = 0 then
      (k.semWait s).bind fun k => k.schedule.bind fun k => some (k, .TRUE)
    else some (k.setSem s { k.sem s with count := (k.sem s).count - 1 }, .TRUE) := by
  simp [semGet, semWait, Option.bind_assoc]

theorem semPut_eq (k : Kernel) (s : ℕ) : k.semPut (some s) =
    (k.semRelease s).bind fun k => k.schedule.bind fun k => some (k, .TRUE) := by
  by_cases hlast : isListLast k.heap (.sem s) = true
  · by_cases hfull : (k.sem s).count = U32_MAX <;> simp [semPut, semRelease, hlast, hfull]
  · rw [Bool.not_eq_true] at hlast
    simp [semPut, semRelease, hlast, Option.bind_assoc]

end Fos.Kernel
