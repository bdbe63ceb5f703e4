import Fos.Kernel.PrioSched

/-!
# Tasks, from `kernel/task.c`

The stack that `task_create` fills belongs to the port and is not part of the state.
-/

namespace Fos.Kernel

open Function

/-- `task_create`. A priority is a `U8`. -/
def taskCreate (k : Kernel) (tcb : Option TcbPtr) (func stack : Option ℕ) (prio : ℕ) :
    Option (Kernel × Ret) :=
  match tcb, func, stack with
  | some t, some _, some _ => do
    let k := k.setPrio t (prio % 256)
    let k ← k.prioReadyQueueInsertTail t
    some (k, .TRUE)
  | _, _, _ => some (k, .NO_TCB)

/-- `task_prio_change`. The argument is a `U32`, and `tcb->prio` a `U8`. -/
def taskPrioChange (k : Kernel) (tcb : Option TcbPtr) (prio : ℕ) : Option (Kernel × Ret) :=
  match tcb with
  | none => some (k, .NO_TCB)
  | some t =>
    if prio < 1 ∨ SYSTEM_WORD < prio then some (k, .NO_TCB)
    else if k.newTask ≠ some t then none
    else do
      let k ← k.prioReadyQueueDelete t
      let k := k.setPrio t (prio % 256)
      let k ← k.prioReadyQueueInsertHead t
      some (k, .TRUE)

end Fos.Kernel
