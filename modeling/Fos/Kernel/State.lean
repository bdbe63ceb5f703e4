import Fos.Kernel.List
import Mathlib.Logic.Function.Basic

/-!
# The state of the kernel

`Vars` has the kernel's variables and the fields of its structures, and `Kernel` adds to them the
links of all `LIST` nodes and the bitmap of the ready queues. A pointer is an inductive value that
says which object it is the address of: a `TCB` is a task's or an entry of `task_prio_queue[]`, a
`TICK` is the `delay` field of a `TCB`, a timer of the application, or `tick_queue`, and a `LIST`
node is a field of one of these or of a semaphore, a mutex, a queue, or a message. A pointer that
may be `NULL` is an `Option`. `list_entry` is then a partial inverse of the embeddings.

A kernel function is a function to `Option`. It is `none` where the source spins in a failed
`OS_ASSERT`, follows links that have no end, indexes an array out of bounds, dereferences `NULL`, or
takes a node for an object that it is not a field of.
-/

namespace Fos

open Links Function

/-- The address of a `TCB`. -/
inductive TcbPtr where
  /-- The `TCB` of a task. -/
  | task (n : ℕ)
  /-- `task_prio_queue[p]`, whose `list` is the head of a ready list. -/
  | prioQueue (p : ℕ)
  deriving DecidableEq

/-- The address of a `TICK`. -/
inductive TickPtr where
  /-- The `delay` field of a `TCB`. -/
  | delay (tcb : TcbPtr)
  /-- A timer of the application. -/
  | timer (n : ℕ)
  /-- `tick_queue`, whose `list` is the head of the tick queue. -/
  | tickQueue
  deriving DecidableEq

/-- The address of a `LIST` node. -/
inductive Node where
  /-- `tcb->list`. -/
  | tcb (tcb : TcbPtr)
  /-- `tick->list`. -/
  | tick (tick : TickPtr)
  /-- `semaphore->list`, the head of the tasks blocked on a semaphore. -/
  | sem (s : ℕ)
  /-- `mutex->list`, the head of the tasks blocked on a mutex. -/
  | mutex (m : ℕ)
  /-- `entry->list`, the head of the tasks blocked on a queue. -/
  | queue (q : ℕ)
  /-- `entry->msg_head`, the head of a queue's messages. -/
  | msgHead (q : ℕ)
  /-- `msg->list`. -/
  | msg (m : ℕ)
  deriving DecidableEq

/-- `list_entry(node, TCB, list)`. -/
def Node.tcbEntry : Node → Option TcbPtr
  | .tcb t => some t
  | _ => none

/-- `list_entry(node, TICK, list)`. -/
def Node.tickEntry : Node → Option TickPtr
  | .tick e => some e
  | _ => none

/-- `list_entry(node, MSG, list)`. -/
def Node.msgEntry : Node → Option ℕ
  | .msg m => some m
  | _ => none

@[simp] theorem Node.tcbEntry_tcb (t : TcbPtr) : (Node.tcb t).tcbEntry = some t := rfl

@[simp] theorem Node.tickEntry_tick (e : TickPtr) : (Node.tick e).tickEntry = some e := rfl

@[simp] theorem Node.msgEntry_msg (m : ℕ) : (Node.msg m).msgEntry = some m := rfl

/-- What the kernel's functions return; `VOID` is for those that return nothing. -/
inductive Ret where
  | VOID | TRUE | FALSE | NO_SEMAPHORE | NO_MUTEX | NO_TCB | NO_SCHED | SCHED | FULL | EMPTY
  deriving DecidableEq, Repr

/-- `SYSTEM_WORD`, the number of priorities. -/
def SYSTEM_WORD : ℕ := 32

/-- `PRIO_MUTEX`, the priority ceiling. -/
def PRIO_MUTEX : ℕ := 1

/-- `CYCLE`, the `period` of a timer that is started again when it expires. -/
def CYCLE : ℕ := 1

/-- `TIMEOUT`, the `timeout` of an entry that has expired. -/
def TIMEOUT : ℕ := 0

/-- `FIFO`, the `method` that puts a message behind the others. -/
def FIFO : ℕ := 1

/-- The largest `U32`. -/
def U32_MAX : ℕ := 0xffffffff

/-- The `style` of a `TICK`. -/
inductive Style where
  /-- `SOFTWARE_TIMER`. -/
  | softwareTimer
  /-- `DELAY`. -/
  | delay
  /-- Any other value. -/
  | other
  deriving DecidableEq

/-- `TICK`, without its `list`. -/
structure Tick where
  style : Style
  timeout : ℕ
  tcb : Option TcbPtr
  func : Option ℕ
  funcArg : ℕ
  period : ℕ
  timeoutCopy : ℕ

/-- `SEM`, without its `list`. -/
structure Sem where
  count : ℕ
  tcb : Option TcbPtr

/-- `MUTEX`, without its `list`. -/
structure Mutex where
  enable : ℕ
  copyPrio : ℕ
  tcb : Option TcbPtr

/-- `QUEUE`, without its `list` and `msg_head`. -/
structure Queue where
  length : ℕ
  count : ℕ

/-- `MSG`, without its `list`. -/
structure Msg where
  length : ℕ
  buff : ℕ

/-- What the timer functions have done, for statements about runs; the kernel does not read it. -/
inductive TimerEvent where
  /-- `timer_req` has queued the timer with this `period`. -/
  | request (tick : TickPtr) (period : ℕ)
  /-- `os_delay` has queued the entry. -/
  | sleep (tick : TickPtr)
  /-- The `call`-th call of `hardware_timer` begins. -/
  | start (call : ℕ)
  /-- The `call`-th call of `hardware_timer` has come to the entry and found this `timeout`. -/
  | visit (call : ℕ) (tick : TickPtr) (timeout : ℕ)
  /-- The `call`-th call of `hardware_timer` has called `tick->func(tick->func_arg)`. -/
  | callback (call : ℕ) (tick : TickPtr) (func arg : ℕ)
  deriving DecidableEq

/-- The kernel's variables, the fields of its structures, and the bytes of memory. -/
structure Vars where
  /-- `tcb->prio`. -/
  prio : TcbPtr → ℕ
  /-- The `TICK`s. -/
  tick : TickPtr → Tick
  /-- The semaphores. -/
  sem : ℕ → Sem
  /-- The mutexes. -/
  mutex : ℕ → Mutex
  /-- The queues. -/
  queue : ℕ → Queue
  /-- The messages. -/
  msg : ℕ → Msg
  /-- The bytes that message buffers point to. -/
  mem : ℕ → ℕ
  /-- `new_task`. -/
  newTask : Option TcbPtr
  /-- `old_task`. -/
  oldTask : Option TcbPtr
  /-- `schedule_is_lock`. -/
  scheduleIsLock : Bool
  /-- `fos_tick`. -/
  fosTick : ℕ
  /-- What the timer functions have done, the latest first. -/
  log : List TimerEvent

/-- The whole state: the variables, the links of the nodes, and the bitmap `y`, `c[8]`. -/
structure Kernel extends Vars where
  heap : Heap Node
  y : BitVec 8
  c : ℕ → BitVec 8

namespace Kernel

/-- `tcb->prio = prio`. -/
def setPrio (k : Kernel) (t : TcbPtr) (prio : ℕ) : Kernel :=
  { k with prio := update k.prio t prio }

/-- Write a `TICK`. -/
def setTick (k : Kernel) (e : TickPtr) (tick : Tick) : Kernel :=
  { k with tick := update k.tick e tick }

/-- Write a semaphore. -/
def setSem (k : Kernel) (s : ℕ) (sem : Sem) : Kernel :=
  { k with sem := update k.sem s sem }

/-- Write a mutex. -/
def setMutex (k : Kernel) (m : ℕ) (mutex : Mutex) : Kernel :=
  { k with mutex := update k.mutex m mutex }

/-- Write a queue. -/
def setQueue (k : Kernel) (q : ℕ) (queue : Queue) : Kernel :=
  { k with queue := update k.queue q queue }

/-- Write the bytes of memory. -/
def setMem (k : Kernel) (mem : ℕ → ℕ) : Kernel :=
  { k with mem := mem }

/-- Note what a timer function does. -/
def note (k : Kernel) (e : TimerEvent) : Kernel :=
  { k with log := e :: k.log }

end Kernel

/-- `&task_prio_queue[p].list`. -/
abbrev readyHead (p : ℕ) : Node := .tcb (.prioQueue p)

/-- `&tick_queue.list`. -/
abbrev tickHead : Node := .tick .tickQueue

/-- `idle_tcb`. -/
abbrev idleTcb : TcbPtr := .task 0

end Fos
