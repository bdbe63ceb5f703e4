import Fos.System

/-!
# The abstract kernel

What the kernel's links and bitmap are for: lists of tasks, of ticks, and of messages. Every task is
in a ready list, or waits on a semaphore, a mutex, or a queue (`TaskQueue`), or sleeps in the tick
queue. `Abs` has these lists in the place of the links and the bitmap, and the same variables. Its
operations are those of the kernel, said on lists, and they run in the system of `System.lean`.
`Refinement/` relates the two.
-/

namespace Fos

open Function

/-- A list of tasks. -/
inductive TaskQueue where
  /-- The ready tasks of a priority. -/
  | ready (p : ℕ)
  /-- The tasks that wait on a semaphore. -/
  | sem (s : ℕ)
  /-- The tasks that wait on a mutex. -/
  | mutex (m : ℕ)
  /-- The tasks that wait on a queue. -/
  | queue (q : ℕ)
  deriving DecidableEq

/-- The head of a list of tasks. -/
def TaskQueue.head : TaskQueue → Node
  | .ready p => readyHead p
  | .sem s => .sem s
  | .mutex m => .mutex m
  | .queue q => .queue q

/-- The lists. -/
structure Lists where
  /-- The tasks in each list. -/
  tasks : TaskQueue → List TcbPtr
  /-- The tick queue. -/
  ticks : List TickPtr
  /-- The messages in each queue. -/
  msgs : ℕ → List ℕ

/-- The nodes behind each head. -/
def Lists.seq (v : Lists) : Node → List Node
  | .tcb (.prioQueue p) => (v.tasks (.ready p)).map .tcb
  | .sem s => (v.tasks (.sem s)).map .tcb
  | .mutex m => (v.tasks (.mutex m)).map .tcb
  | .queue q => (v.tasks (.queue q)).map .tcb
  | .tick .tickQueue => v.ticks.map .tick
  | .msgHead q => (v.msgs q).map .msg
  | _ => []

@[simp] theorem Lists.seq_head (v : Lists) (q : TaskQueue) :
    v.seq q.head = (v.tasks q).map .tcb := by
  cases q <;> rfl

/-- The state of the abstract kernel. -/
structure Abs extends Vars, Lists

namespace Abs

/-- `tcb->prio = prio`. -/
def setPrio (a : Abs) (t : TcbPtr) (prio : ℕ) : Abs :=
  { a with prio := update a.prio t prio }

/-- Write a `TICK`. -/
def setTick (a : Abs) (e : TickPtr) (tick : Tick) : Abs :=
  { a with tick := update a.tick e tick }

/-- Write a semaphore. -/
def setSem (a : Abs) (s : ℕ) (sem : Sem) : Abs :=
  { a with sem := update a.sem s sem }

/-- Write a mutex. -/
def setMutex (a : Abs) (m : ℕ) (mutex : Mutex) : Abs :=
  { a with mutex := update a.mutex m mutex }

/-- Write a queue. -/
def setQueue (a : Abs) (q : ℕ) (queue : Queue) : Abs :=
  { a with queue := update a.queue q queue }

/-- Write the bytes of memory. -/
def setMem (a : Abs) (mem : ℕ → ℕ) : Abs :=
  { a with mem := mem }

/-- Replace the messages of a queue. -/
def setMsgs (a : Abs) (q : ℕ) (ms : List ℕ) : Abs :=
  { a with msgs := update a.msgs q ms }

/-- Note what a timer function does. -/
def note (a : Abs) (e : TimerEvent) : Abs :=
  { a with log := e :: a.log }

/-- Take a task out of the list that it is in. -/
def remove (a : Abs) (t : TcbPtr) : Abs :=
  { a with tasks := fun q => (a.tasks q).erase t }

/-- Put a task behind the others of a list. -/
def pushTail (a : Abs) (q : TaskQueue) (t : TcbPtr) : Abs :=
  { a with tasks := update a.tasks q (a.tasks q ++ [t]) }

/-- Put a task before the others of a list. -/
def pushHead (a : Abs) (q : TaskQueue) (t : TcbPtr) : Abs :=
  { a with tasks := update a.tasks q (t :: a.tasks q) }

/-- Put an entry behind the others of the tick queue. -/
def pushTick (a : Abs) (e : TickPtr) : Abs :=
  { a with ticks := a.ticks ++ [e] }

/-- Take an entry out of the tick queue. -/
def dropTick (a : Abs) (e : TickPtr) : Abs :=
  { a with ticks := a.ticks.erase e }

/-- The highest priority that has a ready task: the numerically smallest. -/
def highest (a : Abs) : Option ℕ :=
  (List.range SYSTEM_WORD).find? fun p => !(a.tasks (.ready p)).isEmpty

/-- Select a ready task of priority `p`, and move it behind its equals. -/
def select (a : Abs) (p : ℕ) (t : TcbPtr) : Abs :=
  let a := (a.remove t).pushTail (.ready p) t
  if a.newTask = some t then a else { a with oldTask := a.newTask, newTask := some t }

/-- Select the first task of the highest priority. -/
def schedule (a : Abs) : Option Abs := do
  let p ← a.highest
  let t ← (a.tasks (.ready p)).head?
  some (a.select p t)

/-- Move a waiting task to the head of the ready list of its priority. -/
def wake (a : Abs) (t : TcbPtr) : Abs :=
  (a.remove t).pushHead (.ready (a.prio t)) t

/-- Wake the first task of a list, if there is one. -/
def wakeFirst (a : Abs) (q : TaskQueue) : Abs :=
  match a.tasks q with
  | [] => a
  | t :: _ => a.wake t

/-- Move a running task to the tail of a list of waiting ones. -/
def block (a : Abs) (q : TaskQueue) (t : TcbPtr) : Abs :=
  (a.remove t).pushTail q t

/-- Give a running task another priority, and put it before its equals. -/
def reprio (a : Abs) (t : TcbPtr) (prio : ℕ) : Abs :=
  ((a.remove t).setPrio t prio).pushHead (.ready prio) t

/-- `task_create`. -/
def taskCreate (a : Abs) (tcb : Option TcbPtr) (func stack : Option ℕ) (prio : ℕ) : Abs × Ret :=
  match tcb, func, stack with
  | some t, some _, some _ =>
    ((a.setPrio t prio).pushTail (.ready prio) t, .TRUE)
  | _, _, _ => (a, .NO_TCB)

/-- `task_prio_change`. -/
def taskPrioChange (a : Abs) (tcb : Option TcbPtr) (prio : ℕ) : Abs × Ret :=
  match tcb with
  | none => (a, .NO_TCB)
  | some t => if prio = 0 then (a, .NO_TCB) else (a.reprio t prio, .TRUE)

/-- Move a running task to the tick queue. -/
def sleep (a : Abs) (t : TcbPtr) (timeslice : ℕ) : Abs :=
  let tick := { a.tick (.delay t) with
    tcb := some t, timeout := timeslice, timeoutCopy := timeslice, style := .delay }
  (((a.setTick (.delay t) tick).note (.sleep (.delay t))).remove t).pushTick (.delay t)

/-- `os_delay`. -/
def osDelay (a : Abs) (timeslice : ℕ) : Option (Abs × Ret) := do
  let t ← a.newTask
  let a ← (a.sleep t timeslice).schedule
  some (a, .VOID)

/-- `timer_req`. -/
def timerReq (a : Abs) (timer : Option TickPtr) (func : Option ℕ) (timeout period arg : ℕ) : Abs :=
  match func, timer with
  | some f, some e =>
    if timeout = 0 then a
    else
      let a := a.setTick e { a.tick e with
        func := some f, timeout := timeout, period := period, timeoutCopy := timeout,
        style := .softwareTimer, funcArg := arg }
      (a.note (.request e period)).pushTick e
  | _, _ => a

/-- `sem_init`. -/
def semInit (a : Abs) (semaphore : Option ℕ) (num : ℕ) : Abs × Ret :=
  match semaphore with
  | none => (a, .NO_SEMAPHORE)
  | some s => (a.setSem s { a.sem s with count := num }, .TRUE)

/-- A running task waits for a unit of a semaphore. -/
def semWait (a : Abs) (s : ℕ) (t : TcbPtr) : Abs :=
  (a.setSem s { a.sem s with tcb := some t }).block (.sem s) t

/-- `sem_get`: take a unit, or wait. -/
def semGet (a : Abs) (semaphore : Option ℕ) : Option (Abs × Ret) :=
  match semaphore with
  | none => some (a, .NO_SEMAPHORE)
  | some s =>
    if (a.sem s).count = 0 then do
      let t ← a.newTask
      let a ← (a.semWait s t).schedule
      some (a, .TRUE)
    else
      some (a.setSem s { a.sem s with count := (a.sem s).count - 1 }, .TRUE)

/-- What `sem_put` does before it schedules: it hands the unit to the first waiter, or keeps it. -/
def semRelease (a : Abs) (s : ℕ) : Abs :=
  if a.tasks (.sem s) ≠ [] then a.wakeFirst (.sem s)
  else if (a.sem s).count ≠ U32_MAX then
    a.setSem s { a.sem s with count := (a.sem s).count + 1 }
  else a

/-- `sem_put`. -/
def semPut (a : Abs) (semaphore : Option ℕ) : Option (Abs × Ret) :=
  match semaphore with
  | none => some (a, .NO_SEMAPHORE)
  | some s => do
    let a ← (a.semRelease s).schedule
    some (a, .TRUE)

/-- `mutex_init`. -/
def mutexInit (a : Abs) (mutex : Option ℕ) : Abs × Ret :=
  match mutex with
  | none => (a, .NO_MUTEX)
  | some m => (a.setMutex m { a.mutex m with enable := 1 }, .TRUE)

/-- A running task waits for a mutex. -/
def mutexWait (a : Abs) (m : ℕ) (t : TcbPtr) : Abs :=
  (a.setMutex m { a.mutex m with tcb := some t }).block (.mutex m) t

/-- A running task takes a mutex, and is raised to the ceiling. -/
def mutexTake (a : Abs) (m : ℕ) (t : TcbPtr) : Abs :=
  (a.setMutex m { a.mutex m with copyPrio := a.prio t, enable := 0 }).reprio t PRIO_MUTEX

/-- `mutex_get`: take the mutex, or wait. -/
def mutexGet (a : Abs) (mutex : Option ℕ) : Option (Abs × Ret) :=
  match mutex with
  | none => some (a, .NO_MUTEX)
  | some m => do
    let t ← a.newTask
    if (a.mutex m).enable = 0 then do
      let a ← (a.mutexWait m t).schedule
      some (a, .TRUE)
    else some (a.mutexTake m t, .TRUE)

/-- What `mutex_put` does before it schedules: it restores the priority of the running task, and
wakes the first waiter. -/
def mutexRelease (a : Abs) (m : ℕ) (t : TcbPtr) : Abs :=
  ((a.setMutex m { a.mutex m with enable := 1 }).reprio t (a.mutex m).copyPrio).wakeFirst (.mutex m)

/-- `mutex_put`. -/
def mutexPut (a : Abs) (mutex : Option ℕ) : Option (Abs × Ret) :=
  match mutex with
  | none => some (a, .NO_MUTEX)
  | some m => do
    let t ← a.newTask
    let a ← (a.mutexRelease m t).schedule
    some (a, .TRUE)

/-- `msg_queue_create`. -/
def msgQueueCreate (a : Abs) (entry : Option ℕ) (length : ℕ) : Abs × Ret :=
  match entry with
  | none => (a, .FALSE)
  | some q =>
    if length = 0 then (a, .FALSE)
    else (a.setQueue q ⟨length, 0⟩, .TRUE)

/-- Put a message into a queue, behind the others or before them. -/
def enqueue (a : Abs) (q m method : ℕ) : Abs :=
  (a.setMsgs q (if method = FIFO then a.msgs q ++ [m] else m :: a.msgs q)).setQueue q
    { a.queue q with count := (a.queue q).count + 1 }

/-- `msg_put`: release the first receiver, then put the message if there is room. -/
def msgPut (a : Abs) (entry msg : Option ℕ) (method : ℕ) : Abs × Ret :=
  match entry, msg with
  | some q, some m =>
    let a := a.wakeFirst (.queue q)
    if (a.queue q).count = (a.queue q).length then (a, .FULL) else (a.enqueue q m method, .TRUE)
  | _, _ => (a, .FALSE)

/-- Take the first message `m` of a queue, before `ms`, and copy its bytes. -/
def receive (a : Abs) (q buf m : ℕ) (ms : List ℕ) : Abs :=
  ((a.setMem (Kernel.memcpy a.mem buf (a.msg m).buff 5)).setMsgs q ms).setQueue q
    { a.queue q with count := (a.queue q).count - 1 }

/-- `msg_get`: take the first message, or wait for one to be put. -/
def msgGet (a : Abs) (entry buffer : Option ℕ) : Option (Abs × Ret) :=
  match entry, buffer with
  | some q, some buf =>
    match a.msgs q with
    | [] => do
      let t ← a.newTask
      let a ← (a.block (.queue q) t).schedule
      some (a, .EMPTY)
    | m :: ms => some (a.receive q buf m ms, .TRUE)
  | _, _ => some (a, .FALSE)

/-- A call of the kernel. -/
def exec (c : Call) (a : Abs) : Option (Abs × Ret) :=
  match c with
  | .taskCreate tcb func stack prio => some (a.taskCreate tcb func stack prio)
  | .taskPrioChange tcb prio => some (a.taskPrioChange tcb prio)
  | .osDelay timeslice => a.osDelay timeslice
  | .timerReq timer func timeout period arg =>
    some (a.timerReq timer func timeout period arg, .VOID)
  | .semInit s num => some (a.semInit s num)
  | .semGet s => a.semGet s
  | .semPut s => a.semPut s
  | .mutexInit m => some (a.mutexInit m)
  | .mutexGet m => a.mutexGet m
  | .mutexPut m => a.mutexPut m
  | .msgQueueCreate q length => some (a.msgQueueCreate q length)
  | .msgPut q m method => some (a.msgPut q m method)
  | .msgGet q buffer => a.msgGet q buffer
  | .schedule => a.schedule.map (·, .VOID)

/-- A callback that puts the semaphores in order. -/
def runCallback : List ℕ → Abs → Option (Abs × Option (List ℕ))
  | [], a => some (a, none)
  | s :: puts, a => do
    let (a', _) ← a.semPut (some s)
    if a'.newTask = a.newTask then runCallback puts a' else some (a', some puts)

/-- What happens to a timer when its callback has returned. -/
def afterCallback (a : Abs) (e : TickPtr) : Abs :=
  if (a.tick e).period = CYCLE then
    a.setTick e { a.tick e with timeout := (a.tick e).timeoutCopy }
  else a.dropTick e

/-- Wake the task of a delay that has expired. -/
def wakeDelay (a : Abs) (e : TickPtr) : Option Abs := do
  let t ← (a.tick e).tcb
  some ((a.dropTick e).pushTail (.ready (a.prio t)) t)

/-- Count an entry of the tick queue down. -/
def countDown (a : Abs) (e : TickPtr) : Abs :=
  a.setTick e { a.tick e with timeout := (a.tick e).timeout - 1 }

/-- A pass over the entries of the tick queue that are still to come. -/
def pass (o : Oracle) (call : ℕ) : List TickPtr → Abs → Option (Abs × Option TimerFrame)
  | [], a => some (a, none)
  | e :: es, a =>
    let a := a.note (.visit call e (a.tick e).timeout)
    if (a.tick e).timeout = TIMEOUT then
      match (a.tick e).style with
      | .softwareTimer => do
        let func ← (a.tick e).func
        let a := a.note (.callback call e func (a.tick e).funcArg)
        let (a, rest) ← runCallback (o e) a
        match rest with
        | some puts => some (a, some ⟨call, e, puts⟩)
        | none => pass o call es (a.afterCallback e)
      | .delay => do
        let a ← a.wakeDelay e
        pass o call es a
      | .other => pass o call es a
    else pass o call es (a.countDown e)

/-- What a pass does with an entry, and the semaphores that its callback has still to put where that
is switched out. -/
def passBody (o : Oracle) (call : ℕ) (e : TickPtr) (a : Abs) : Option (Abs × Option (List ℕ)) :=
  let a := a.note (.visit call e (a.tick e).timeout)
  if (a.tick e).timeout = TIMEOUT then
    match (a.tick e).style with
    | .softwareTimer => do
      let func ← (a.tick e).func
      let a := a.note (.callback call e func (a.tick e).funcArg)
      let (a, rest) ← runCallback (o e) a
      match rest with
      | some puts => some (a, some puts)
      | none => some (a.afterCallback e, none)
    | .delay => do
      let a ← a.wakeDelay e
      some (a, none)
    | .other => some (a, none)
  else some (a.countDown e, none)

/-- A pass goes from an entry to the next one until a callback is switched out. -/
theorem pass_cons (o : Oracle) (call : ℕ) (e : TickPtr) (es : List TickPtr) (a : Abs) :
    pass o call (e :: es) a = (passBody o call e a).bind fun r =>
      match r.2 with
      | some puts => some (r.1, some ⟨call, e, puts⟩)
      | none => pass o call es r.1 := by
  rw [pass]
  unfold passBody
  dsimp only
  split_ifs
  · split
    · simp only [Option.bind_eq_bind, Option.bind_assoc]
      refine congrArg _ (funext fun func => congrArg _ (funext fun r => ?_))
      obtain ⟨a₁, rest⟩ := r
      cases rest <;> rfl
    · simp only [Option.bind_eq_bind, Option.bind_assoc]
      rfl
    · rfl
  · rfl

/-- The end of `hardware_timer`: `schedule`, unless its pass is suspended. -/
def tickEnd (r : Abs × Option TimerFrame) : Option (Abs × Option TimerFrame) :=
  match r.2 with
  | some f => some (r.1, some f)
  | none => r.1.schedule.map (·, none)

/-- `hardware_timer`. -/
def hardwareTimer (o : Oracle) (a : Abs) : Option (Abs × Option TimerFrame) := do
  let a := { a with fosTick := a.fosTick + 1 }
  let r ← pass o a.fosTick a.ticks (a.note (.start a.fosTick))
  tickEnd r

/-- The entries of the tick queue behind `e`. -/
def after (e : TickPtr) (l : List TickPtr) : List TickPtr :=
  (l.dropWhile (· ≠ e)).tail

/-- The rest of a `hardware_timer` whose pass was suspended. -/
def hardwareTimerResume (f : TimerFrame) (o : Oracle) (a : Abs) :
    Option (Abs × Option TimerFrame) := do
  let (a, rest) ← runCallback f.puts a
  match rest with
  | some puts => some (a, some ⟨f.call, f.entry, puts⟩)
  | none => do
    let r ← pass o f.call (after f.entry a.ticks) (a.afterCallback f.entry)
    tickEnd r

/-- `system_init`: no list has anything but the idle task, which is ready. -/
def systemInit (v : Vars) : Abs :=
  let a : Abs := ⟨{ v with oldTask := none }, ⟨fun _ => [], [], fun _ => []⟩⟩
  (a.setPrio idleTcb 31).pushTail (.ready 31) idleTcb

/-- `start_which_task`. -/
def startWhichTask (a : Abs) (t : TcbPtr) : Abs :=
  { a with newTask := some t }

end Abs

instance : Machine Abs where
  vars := Abs.toVars
  exec := Abs.exec
  hardwareTimer := Abs.hardwareTimer
  hardwareTimerResume := Abs.hardwareTimerResume
  startWhichTask := Abs.startWhichTask
  TickQueued a e := e ∈ a.ticks
  TickAhead a e e' := e' ∈ Abs.after e a.ticks
  MsgQueued a q m := m ∈ a.msgs q

end Fos
