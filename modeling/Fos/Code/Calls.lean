import Fos.Code.PrioSched
import Fos.Kernel.MemBlock
import Fos.System

/-!
# The calls, statement by statement

`kernel/timer.c`, `kernel/semaphore.c`, `kernel/mutex.c`, `kernel/queue.c`, and
`kernel/mem_block.c` as code that interrupts may come into. `interrupt_disable` and the
`interrupt_enable` behind it are `critical` where one follows the other on every path; in `schedule`
and `mem_free` they are apart.
-/

namespace Fos

open Links Function Interrupts

instance : Nodes MemState MemNode where
  heap := MemState.heap
  setHeap m heap := { m with heap := heap }

namespace Code

/-! ## `timer.c` -/

/-- A statement that writes a field of a `TICK`. -/
def writeTick (e : TickPtr) (f : Kernel → Tick → Tick) : Prog Sr Kernel Unit :=
  .write fun k => k.setTick e (f k (k.tick e))

/-- `tick_queue_insert`. -/
def tickQueueInsert (tick : TickPtr) : Prog Sr Kernel Unit :=
  listInsertBehind tickHead (Node.tick tick)

/-- `tick_queue_delete`. -/
def tickQueueDelete (tick : TickPtr) : Prog Sr Kernel Unit :=
  listDelete (Node.tick tick)

/-- What `hardware_timer` does with a timer when its callback has returned. -/
def afterCallback (tick : TickPtr) : Prog Sr Kernel Unit := do
  if ← .test fun k => (k.tick tick).period = CYCLE then
    writeTick tick fun _ t => { t with timeout := t.timeoutCopy }
  else tickQueueDelete tick

/-- What `hardware_timer` does with an entry that it comes to. -/
def tickBody (callback : ℕ → ℕ → Prog Sr Kernel Unit) (tick : TickPtr) : Prog Sr Kernel Unit := do
  if ← .test fun k => (k.tick tick).timeout = TIMEOUT then do
    match ← .read fun k => (k.tick tick).style with
    | .softwareTimer => do
      let func ← .readSome fun k => (k.tick tick).func
      callback func (← .read fun k => (k.tick tick).funcArg)
      afterCallback tick
    | .delay => do
      tickQueueDelete tick
      prioReadyQueueInsertTail (← .read fun k => (k.tick tick).tcb)
    | .other => pure ()
  else writeTick tick fun _ t => { t with timeout := t.timeout - 1 }

/-- A round of the loop of `hardware_timer`, at the node `tmp`. -/
def tickStep (callback : ℕ → ℕ → Prog Sr Kernel Unit) (tmp : Node) :
    Prog Sr Kernel (Node ⊕ Unit) := do
  if ← isListLast tmp then pure (.inr ())
  else do
    let tick ← .readSome fun k => (k.heap tmp).next.tickEntry
    let tmp ← .read fun k => (k.heap tmp).next
    tickBody callback tick
    pure (.inl tmp)

/-- `hardware_timer`. `callback func arg` is what the function `func` of the application does. -/
def hardwareTimer (callback : ℕ → ℕ → Prog Sr Kernel Unit) : Prog Sr Kernel Unit := do
  Prog.critical do
    .write fun k => { k with fosTick := k.fosTick + 1 }
    Prog.loop (tickStep callback) tickHead
  schedule
  .ret ()

/-- `timer_req`. -/
def timerReq (timer : Option TickPtr) (func : Option ℕ) (timeout period arg : ℕ) :
    Prog Sr Kernel Ret :=
  match func, timer with
  | some f, some e =>
    if timeout = 0 then .ret .VOID
    else do
      Prog.critical do
        writeTick e fun _ t => { t with func := some f }
        writeTick e fun _ t => { t with timeout := timeout }
        writeTick e fun _ t => { t with period := period }
        writeTick e fun _ t => { t with timeoutCopy := timeout }
        writeTick e fun _ t => { t with style := .softwareTimer }
        writeTick e fun _ t => { t with funcArg := arg }
        .write fun k => k.note (.request e period)
        tickQueueInsert e
      .ret .VOID
  | _, _ => .ret .VOID

/-- `os_delay`, up to its `schedule`. -/
def sleep (timeslice : ℕ) : Prog Sr Kernel Unit := do
  let tcb ← .readSome fun k => k.newTask
  let e := TickPtr.delay tcb
  writeTick e fun k t => { t with tcb := k.newTask }
  writeTick e fun _ t => { t with timeout := timeslice }
  writeTick e fun _ t => { t with timeoutCopy := timeslice }
  writeTick e fun _ t => { t with style := .delay }
  .write fun k => k.note (.sleep e)
  prioReadyQueueDelete (← .read fun k => (k.tick e).tcb)
  tickQueueInsert e

/-- `os_delay`. -/
def osDelay (timeslice : ℕ) : Prog Sr Kernel Ret := do
  Prog.critical (sleep timeslice)
  schedule
  .ret .VOID

/-! ## `semaphore.c` -/

/-- A statement that writes a field of a semaphore. -/
def writeSem (s : ℕ) (f : Kernel → Sem → Sem) : Prog Sr Kernel Unit :=
  .write fun k => k.setSem s (f k (k.sem s))

/-- `sem_block_queue_insert`. -/
def semBlockQueueInsert (s : ℕ) : Prog Sr Kernel Unit := do
  let tcb ← .readSome fun k => (k.sem s).tcb
  listInsertBehind (Node.sem s) (.tcb tcb)

/-- `sem_block_queue_delete`. -/
def semBlockQueueDelete (tcb : TcbPtr) : Prog Sr Kernel Unit :=
  listDelete (Node.tcb tcb)

/-- `sem_init`. -/
def semInit (semaphore : Option ℕ) (num : ℕ) : Prog Sr Kernel Ret :=
  match semaphore with
  | none => .ret .NO_SEMAPHORE
  | some s => do
    writeSem s fun _ x => { x with count := num }
    listInit (Node.sem s)
    .ret .TRUE

/-- `sem_get` of a semaphore without units, up to its `schedule`. -/
def semWait (s : ℕ) : Prog Sr Kernel Unit := do
  writeSem s fun k x => { x with tcb := k.newTask }
  prioReadyQueueDelete (← .read fun k => (k.sem s).tcb)
  semBlockQueueInsert s

/-- `sem_get`. -/
def semGet (semaphore : Option ℕ) : Prog Sr Kernel Ret :=
  match semaphore with
  | none => .ret .NO_SEMAPHORE
  | some s => do
    Prog.critical do
      if ← .test fun k => (k.sem s).count = 0 then do
        semWait s
        schedule
      else writeSem s fun _ x => { x with count := x.count - 1 }
    .ret .TRUE

/-- `sem_put`, up to its `schedule`. -/
def semRelease (s : ℕ) : Prog Sr Kernel Unit := do
  if ← isListLast (Node.sem s) then do
    if ← .test fun k => (k.sem s).count ≠ U32_MAX then
      writeSem s fun _ x => { x with count := x.count + 1 }
    else pure ()
  else do
    let tcb ← .readSome fun k => (k.heap (.sem s)).next.tcbEntry
    semBlockQueueDelete tcb
    prioReadyQueueInsertHead tcb

/-- `sem_put`. -/
def semPut (semaphore : Option ℕ) : Prog Sr Kernel Ret :=
  match semaphore with
  | none => .ret .NO_SEMAPHORE
  | some s => do
    Prog.critical (semRelease s)
    schedule
    .ret .TRUE

/-! ## `mutex.c` -/

/-- A statement that writes a field of a mutex. -/
def writeMutex (m : ℕ) (f : Kernel → Mutex → Mutex) : Prog Sr Kernel Unit :=
  .write fun k => k.setMutex m (f k (k.mutex m))

/-- `mutex_block_queue_insert`. -/
def mutexBlockQueueInsert (m : ℕ) : Prog Sr Kernel Unit := do
  let tcb ← .readSome fun k => (k.mutex m).tcb
  listInsertBehind (Node.mutex m) (.tcb tcb)

/-- `mutex_block_queue_delete`. -/
def mutexBlockQueueDelete (tcb : TcbPtr) : Prog Sr Kernel Unit :=
  listDelete (Node.tcb tcb)

/-- `mutex_init`. -/
def mutexInit (mutex : Option ℕ) : Prog Sr Kernel Ret :=
  match mutex with
  | none => .ret .NO_MUTEX
  | some m => do
    listInit (Node.mutex m)
    writeMutex m fun _ x => { x with enable := 1 }
    .ret .TRUE

/-- `mutex_get` of a mutex that is held, up to its `schedule`. -/
def mutexWait (m : ℕ) : Prog Sr Kernel Unit := do
  writeMutex m fun k x => { x with tcb := k.newTask }
  prioReadyQueueDelete (← .read fun k => k.newTask)
  mutexBlockQueueInsert m

/-- `mutex_get` of a mutex that is free. -/
def mutexTake (m : ℕ) : Prog Sr Kernel Unit := do
  let tcb ← .readSome fun k => k.newTask
  writeMutex m fun k x => { x with copyPrio := k.prio tcb }
  prioReadyQueueDelete tcb
  .write fun k => k.setPrio tcb PRIO_MUTEX
  prioReadyQueueInsertHead tcb
  writeMutex m fun _ x => { x with enable := 0 }

/-- `mutex_get`. -/
def mutexGet (mutex : Option ℕ) : Prog Sr Kernel Ret :=
  match mutex with
  | none => .ret .NO_MUTEX
  | some m => do
    Prog.critical do
      if ← .test fun k => (k.mutex m).enable = 0 then do
        mutexWait m
        schedule
      else mutexTake m
    .ret .TRUE

/-- `mutex_put`, up to its `schedule`. `copy_prio` is a `U32` and `prio` a `U8`. -/
def mutexRelease (m : ℕ) : Prog Sr Kernel Unit := do
  let tcb ← .readSome fun k => k.newTask
  prioReadyQueueDelete tcb
  .write fun k => k.setPrio tcb ((k.mutex m).copyPrio % 256)
  prioReadyQueueInsertHead tcb
  writeMutex m fun _ x => { x with enable := 1 }
  if ← isListLast (Node.mutex m) then pure ()
  else do
    let tcb ← .readSome fun k => (k.heap (.mutex m)).next.tcbEntry
    mutexBlockQueueDelete tcb
    prioReadyQueueInsertHead tcb

/-- `mutex_put`. -/
def mutexPut (mutex : Option ℕ) : Prog Sr Kernel Ret :=
  match mutex with
  | none => .ret .NO_MUTEX
  | some m => do
    Prog.critical (mutexRelease m)
    schedule
    .ret .TRUE

/-! ## `queue.c` -/

/-- A statement that writes a field of a queue. -/
def writeQueue (q : ℕ) (f : Queue → Queue) : Prog Sr Kernel Unit :=
  .write fun k => k.setQueue q (f (k.queue q))

/-- `msg_block_queue_insert`. -/
def msgBlockQueueInsert (q : ℕ) : Prog Sr Kernel Unit := do
  let tcb ← .readSome fun k => k.newTask
  listInsertBehind (Node.queue q) (.tcb tcb)

/-- `msg_block_queue_delete`. -/
def msgBlockQueueDelete (tcb : TcbPtr) : Prog Sr Kernel Unit :=
  listDelete (Node.tcb tcb)

/-- `msg_queue_create`. -/
def msgQueueCreate (entry : Option ℕ) (length : ℕ) : Prog Sr Kernel Ret :=
  match entry with
  | none => .ret .FALSE
  | some q =>
    if length = 0 then .ret .FALSE
    else do
      Prog.critical do
        listInit (Node.queue q)
        listInit (Node.msgHead q)
        writeQueue q fun x => { x with length := length }
        writeQueue q fun x => { x with count := 0 }
      .ret .TRUE

/-- `msg_put`, up to the release of the first receiver. -/
def msgRelease (q : ℕ) : Prog Sr Kernel Unit := do
  if ← isListLast (Node.queue q) then pure ()
  else do
    let tcb ← .readSome fun k => (k.heap (.queue q)).next.tcbEntry
    msgBlockQueueDelete tcb
    prioReadyQueueInsertHead tcb

/-- `msg_put` once a receiver has been released. -/
def msgInsert (q m method : ℕ) : Prog Sr Kernel Ret := do
  if ← .test fun k => (k.queue q).count = (k.queue q).length then pure .FULL
  else do
    writeQueue q fun x => { x with count := (x.count + 1) % 2^32 }
    if method = FIFO then do
      listInsertBehind (Node.msgHead q) (.msg m)
      pure .TRUE
    else do
      listInsertSpec (Node.msgHead q) (.msg m)
      pure .TRUE

/-- `msg_put`. -/
def msgPut (entry msg : Option ℕ) (method : ℕ) : Prog Sr Kernel Ret :=
  match entry, msg with
  | some q, some m => do
    if ← .test fun k => (k.queue q).length < (k.queue q).count then .ret .FALSE
    else do
      let retval ← Prog.critical do
        msgRelease q
        msgInsert q m method
      .ret retval
  | _, _ => .ret .FALSE

/-- `msg_get` of an empty queue, up to its `schedule`. -/
def msgWait (q : ℕ) : Prog Sr Kernel Unit := do
  prioReadyQueueDelete (← .read fun k => k.newTask)
  msgBlockQueueInsert q

/-- `msg_get` of a queue that has a message. -/
def msgTake (q buf : ℕ) : Prog Sr Kernel Unit := do
  let msg ← .readSome fun k => (k.heap (.msgHead q)).next.msgEntry
  .write fun k => k.setMem (Kernel.memcpy k.mem buf (k.msg msg).buff 5)
  listDelete (← .read fun k => (k.heap (.msgHead q)).next)
  if ← .test fun k => 0 < (k.queue q).count then
    writeQueue q fun x => { x with count := x.count - 1 }
  else pure ()

/-- `msg_get`. -/
def msgGet (entry buffer : Option ℕ) : Prog Sr Kernel Ret :=
  match entry, buffer with
  | some q, some buf => do
    let retval ← Prog.critical do
      if ← isListLast (Node.msgHead q) then do
        msgWait q
        pure .EMPTY
      else do
        msgTake q buf
        pure .TRUE
    if retval = .EMPTY then do
      schedule
      .ret retval
    else .ret retval
  | _, _ => .ret .FALSE

/-- A call. -/
def call : Call → Prog Sr Kernel Ret
  | .taskCreate tcb func stack prio => taskCreate tcb func stack prio
  | .taskPrioChange tcb prio => taskPrioChange tcb prio
  | .osDelay timeslice => osDelay timeslice
  | .timerReq timer func timeout period arg => timerReq timer func timeout period arg
  | .semInit s num => semInit s num
  | .semGet s => semGet s
  | .semPut s => semPut s
  | .mutexInit m => mutexInit m
  | .mutexGet m => mutexGet m
  | .mutexPut m => mutexPut m
  | .msgQueueCreate q length => msgQueueCreate q length
  | .msgPut q m method => msgPut q m method
  | .msgGet q buffer => msgGet q buffer
  | .schedule => do
    schedule
    pure .VOID

/-! ## `mem_block.c`

`critical_section_enter` is `cpu_disable`, and that is `interrupt_disable`.
-/

/-- A statement that writes a field of the pool. -/
def writePool (f : MemPool → MemPool) : Prog Sr MemState Unit :=
  .write fun m => { m with pool := f m.pool }

/-- `mem_alloca`, whose `mb` has the address given. `NULL` is `0`. -/
def memAlloca (mb : ℕ) (size : UInt32) : Prog Sr MemState UInt32 := do
  let address ← Prog.critical do
    let n ← .readSome fun m => if m.pool.size = 0 then none else some (size / m.pool.size)
    writePool fun p => { p with valid := p.valid - n - 1 }
    if ← .test fun m => 0 < m.pool.valid then do
      let address ← .read fun m => m.pool.validPtr
      writePool fun p => { p with validPtr := p.validPtr + p.valid * p.size }
      .write fun m => { m with block := update m.block mb ⟨address, 0, n + 1⟩ }
      listInsertBehind MemNode.head (.block mb)
      pure address
    else pure 0
  .ret address

/-- A round of the loop of `mem_free`, at the node `tmp`. -/
def memStep (address : UInt32) (tmp : MemNode) : Prog Sr MemState (MemNode ⊕ Bool) := do
  if ← isListLast tmp then pure (.inr false)
  else do
    match ← .read fun m => (m.heap tmp).next with
    | .head => .stop .stuck
    | .block mb =>
      if ← .test fun m => (m.block mb).ptr = address then do
        .write fun m => { m with block := update m.block mb { m.block mb with ifValid := 1 } }
        pure (.inr true)
      else pure (.inl (.block mb))

/-- `mem_free`. It returns out of its loop where it finds the address. -/
def memFree (address : UInt32) : Prog Sr MemState Ret := do
  let cpuStatus ← .disable
  if ← Prog.loop (memStep address) .head then .ret .TRUE
  else do
    .setSr cpuStatus
    .ret .FALSE

end Code

end Fos
