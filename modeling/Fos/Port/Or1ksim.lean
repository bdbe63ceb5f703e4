import Fos.Code.PrioSched
import Fos.Lib.Handover
import Fos.System

/-!
# The port to the OpenRISC simulator, from `cpu/or1ksim`

`System.lean` lets the task run that `new_task` points to, and says nothing about how it comes to
run. Here a processor runs, with registers and a stack pointer, and the exception handlers of
`reset.S` store contexts on the stacks and load them from there. Whose code the processor executes
is told by the stack that its stack pointer points into, whatever `new_task` says.

A stack belongs to a task, or to `main`. Addresses on it are counted in words, from the word at
which `stack_init` puts the first frame of the task. Nothing but the code that runs on a stack
writes to it, and no stack overflows.
-/

namespace Fos

open Function Handover

/-- A place on a stack: that of a task, or of `main`. -/
structure StackAddr where
  task : Option TcbPtr
  off : ℤ
  deriving DecidableEq

/-- A word of memory or of a register. -/
inductive Word where
  /-- A number, or the address of an instruction of a task. -/
  | num (n : BitVec 32)
  /-- An address in `timer_isr`, whose frame is at `r1`: `hardware_timer` goes on with `f`, or has
  nothing left to do but to return. -/
  | timerIsr (r1 : ℤ) (f : Option TimerFrame)
  /-- An address in `user_isr`, whose frame is at `r1`: the handlers that `usr_handle` calls have
  these semaphores still to put. -/
  | userIsr (r1 : ℤ) (puts : List ℕ)

/-- `SPR_SR_SM`, which is set in supervisor mode. -/
def SPR_SR_SM : Sr := 0x1

/-- `STK_FRAME_SIZE`, in words. -/
def STK_FRAME_SIZE : ℤ := 64

/-- The words of a frame, in the order of `ptrace.h`: the program counter (`PT_PC`), the status
register (`PT_SR`), and `r2` to `r31`. -/
abbrev Regs := Fin 32 → Word

/-- The context of a task: the registers that a frame holds, and the stack pointer `r1`. -/
structure Context where
  regs : Regs
  sp : StackAddr

namespace Context

/-- The program counter. -/
def pc (c : Context) : Word := c.regs 0

/-- The status register. -/
def sr (c : Context) : Word := c.regs 1

/-- A flag of the status register is set. -/
def flag (c : Context) (bit : Sr) : Bool :=
  match c.sr with
  | .num n => n &&& bit ≠ 0
  | _ => false

/-- `interrupt_disable`; the hardware does the same when an exception is taken. -/
def interruptDisable (c : Context) : Context :=
  match c.sr with
  | .num n => { c with regs := update c.regs 1 (.num (Interrupts.Status.mask (n : Sr))) }
  | _ => c

@[simp] theorem interruptDisable_pc (c : Context) : c.interruptDisable.pc = c.pc := by
  unfold interruptDisable
  split <;> rfl

@[simp] theorem interruptDisable_sp (c : Context) : c.interruptDisable.sp = c.sp := by
  unfold interruptDisable
  split <;> rfl

end Context

/-- Store the words of a frame at `r1`. -/
def storeFrame (mem : ℤ → Word) (r1 : ℤ) (regs : Regs) : ℤ → Word := fun x =>
  if h : r1 ≤ x ∧ x < r1 + 32 then regs ⟨(x - r1).toNat, by omega⟩ else mem x

/-- Load the words of the frame at `r1`. -/
def loadFrame (mem : ℤ → Word) (r1 : ℤ) : Regs := fun i => mem (r1 + i)

/-- The context that the frame at `r1` holds. -/
def contextAt (mem : Option TcbPtr → ℤ → Word) (r1 : StackAddr) : Context :=
  ⟨loadFrame (mem r1.task) r1.off, ⟨r1.task, r1.off + STK_FRAME_SIZE⟩⟩

/-- `stack_init`: the words of the first frame of a task. -/
def stackInit (pTask arg taskExit : BitVec 32) : Regs := fun i => .num <|
  match i with
  | 0 => pTask
  | 1 => SPR_SR_IEE ||| SPR_SR_TEE ||| SPR_SR_SM
  | 3 => arg
  | 9 => taskExit
  | i => BitVec.ofNat 32 i

/-- What the C functions under a handler do to the processor and to the stack they run on. -/
structure Clobber where
  /-- The registers. -/
  regs : Fin 32 → BitVec 32
  /-- The words on the stack where they come to an `l.sys`. -/
  depth : ℕ
  /-- What they write below the frame of the handler. -/
  below : ℤ → BitVec 32

/-- The kernel, on the processor that it runs on. -/
structure Board extends Sys Kernel where
  /-- The registers of the processor. -/
  cpu : Context
  /-- The stacks. -/
  mem : Option TcbPtr → ℤ → Word
  /-- `tcb->stack_ptr`. -/
  stackPtr : TcbPtr → StackAddr
  /-- Who was left and resumed in which context, for statements about runs. -/
  log : List (Event (Option TcbPtr) Context)

/-- What can happen next on the processor. -/
inductive PortAction where
  /-- Instructions of a task or of `main` outside the handlers. They leave any registers, and any
  words on their own stack. -/
  | run (regs : Fin 32 → BitVec 32) (off : ℤ) (mem : ℤ → BitVec 32)
  /-- A task or `main` makes a call; a task that is created gets `arg`, and returns to
  `task_exit`. The `l.sys` of the call, if there is one, is executed with the registers of the
  state. -/
  | call (c : Call) (arg taskExit : BitVec 32)
  /-- The timer interrupt, up to an `l.sys` or to the end of `hardware_timer`. -/
  | timer (o : Oracle) (cl : Clobber)
  /-- An external interrupt, up to an `l.sys` or to the end of `usr_handle`, where the handlers
  that it calls put semaphores. -/
  | external (puts : List ℕ) (cl : Clobber)
  /-- The C functions under a handler go on behind their `l.sys`. -/
  | resume (o : Oracle) (cl : Clobber)
  /-- The handler calls `find_high_ready_task`, and ends with `l.rfe`. -/
  | leave (cl : Clobber)
  /-- `main` calls `start_which_task(&idle_tcb)`. -/
  | start

namespace Board

/-- `EXCEPTION_HANDLER` and `STORE_CONTEXT`: the context goes into a frame below the stack
pointer. -/
def storeContext (b : Board) : Board :=
  let t := b.cpu.sp.task
  let r1 := b.cpu.sp.off - STK_FRAME_SIZE
  { b with
    mem := update b.mem t (storeFrame (b.mem t) r1 b.cpu.regs)
    cpu := { b.cpu with sp := ⟨t, r1⟩ }
    log := .left t b.cpu :: b.log }

/-- `RESTORE_CONTEXT` from the frame at `r1`, and `l.rfe`. -/
def restoreContext (b : Board) (r1 : StackAddr) : Board :=
  let c := contextAt b.mem r1
  { b with cpu := c, log := .resumed r1.task c :: b.log }

/-- `old_task->stack_ptr = SP`, or a write of another `stack_ptr`. -/
def setStackPtr (b : Board) (t : TcbPtr) (sp : StackAddr) : Board :=
  { b with stackPtr := update b.stackPtr t sp }

/-- `task_switch`, which `l.sys` enters. -/
def taskSwitch (b : Board) : Option Board := do
  let b := b.storeContext
  let old ← b.k.oldTask
  let b := b.setStackPtr old b.cpu.sp
  let new ← b.k.newTask
  some (b.restoreContext (b.stackPtr new))

/-- `task_switch` from `t` to `u`. -/
theorem taskSwitch_eq {b : Board} {t u : TcbPtr} (hold : b.k.oldTask = some t)
    (hnew : b.k.newTask = some u) : b.taskSwitch =
      some ((b.storeContext.setStackPtr t b.storeContext.cpu.sp).restoreContext
        ((b.storeContext.setStackPtr t b.storeContext.cpu.sp).stackPtr u)) := by
  have hold' : b.storeContext.k.oldTask = some t := hold
  have hnew' : (b.storeContext.setStackPtr t b.storeContext.cpu.sp).k.newTask = some u := hnew
  simp [taskSwitch, hold', hnew']

/-- What `task_create` does to the stack of the new task. -/
def createStack (b : Board) (c : Call) (arg taskExit : BitVec 32) : Board :=
  match c with
  | .taskCreate (some t) (some f) (some _) _ =>
    let regs := stackInit (BitVec.ofNat 32 f) arg taskExit
    { b with
      mem := update b.mem (some t) (storeFrame (fun _ => .num 0) 0 regs)
      stackPtr := update b.stackPtr t ⟨some t, 0⟩
      log := .left (some t) ⟨regs, ⟨some t, STK_FRAME_SIZE⟩⟩ :: b.log }
  | _ => b

@[simp] theorem createStack_toSys (b : Board) (c : Call) (arg taskExit : BitVec 32) :
    (b.createStack c arg taskExit).toSys = b.toSys := by
  unfold createStack
  split <;> rfl

@[simp] theorem createStack_cpu (b : Board) (c : Call) (arg taskExit : BitVec 32) :
    (b.createStack c arg taskExit).cpu = b.cpu := by
  unfold createStack
  split <;> rfl

/-- C functions under a handler whose frame is at `r1` leave the kernel in the state `k`, and write
to the stack below the frame. -/
def runBelow (b : Board) (r1 : ℤ) (cl : Clobber) (k : Kernel) : Board :=
  let t := b.cpu.sp.task
  { b with
    k := k
    mem := update b.mem t fun x => if x < r1 then .num (cl.below x) else b.mem t x }

/-- What the C functions under a handler whose frame is at `r1` come to: they return, or execute
`l.sys` where they have selected another task. `pc` says what is left of them. -/
def underHandler (b : Board) (r1 : ℤ) (pc : Word) (cl : Clobber) (k : Kernel) : Option Board :=
  let t := b.cpu.sp.task
  let regs := update (update (fun i => .num (cl.regs i)) 1 b.cpu.interruptDisable.sr) 0 pc
  let b' := b.runBelow r1 cl k
  if k.newTask = b.k.newTask then some { b' with cpu := ⟨regs, ⟨t, r1⟩⟩ }
  else taskSwitch { b' with cpu := ⟨regs, ⟨t, r1 - cl.depth⟩⟩ }

/-- Note what is left of the pass that a task is inside. -/
def setPass (b : Board) (t : TcbPtr) (f : Option TimerFrame) : Board :=
  { b with frame := update b.frame t (f.map .timer) }

/-- One step. An interrupt is taken where it is enabled; before a task runs it is not. -/
def step (b : Board) : PortAction → Option Board
  | .run regs off mem =>
    match b.cpu.pc with
    | .num _ => some { b with
        cpu := ⟨fun i => .num (regs i), ⟨b.cpu.sp.task, off⟩⟩
        mem := update b.mem b.cpu.sp.task fun x => .num (mem x) }
    | _ => none
  | .call c arg taskExit =>
    match b.cpu.pc with
    | .num _ => do
      let (k, _) ← b.k.exec c
      let b' := { b.createStack c arg taskExit with k := k, live := setUp b.live c }
      if k.newTask = b.k.newTask then some b'
      else taskSwitch { b' with cpu := b'.cpu.interruptDisable }
    | _ => none
  | .timer o cl =>
    match b.cpu.pc, b.cpu.sp.task with
    | .num _, some t =>
      if b.cpu.flag SPR_SR_TEE then do
        let b := b.storeContext
        let r1 := b.cpu.sp.off
        let (k, f) ← b.k.hardwareTimer o
        (b.setPass t f).underHandler r1 (.timerIsr r1 f) cl k
      else none
    | _, _ => none
  | .external puts cl =>
    match b.cpu.pc, b.cpu.sp.task with
    | .num _, some _ =>
      if b.cpu.flag SPR_SR_IEE then do
        let b := b.storeContext
        let r1 := b.cpu.sp.off
        let (k, rest) ← b.k.runCallback puts
        b.underHandler r1 (.userIsr r1 (rest.getD [])) cl k
      else none
    | _, _ => none
  | .resume o cl =>
    match b.cpu.pc, b.cpu.sp.task with
    | .timerIsr r1 (some f), some t => do
      let (k, f) ← b.k.hardwareTimerResume f o
      (b.setPass t f).underHandler r1 (.timerIsr r1 f) cl k
    | .userIsr r1 (s :: puts), some _ => do
      let (k, rest) ← b.k.runCallback (s :: puts)
      b.underHandler r1 (.userIsr r1 (rest.getD [])) cl k
    | _, _ => none
  | .leave cl =>
    match b.cpu.pc, b.cpu.sp.task with
    | .timerIsr r1 none, some t => do
      let k ← b.k.findHighReadyTask
      some ((b.runBelow r1 cl k).restoreContext ⟨some t, r1⟩)
    | .userIsr r1 [], some _ => do
      let k ← b.k.findHighReadyTask
      let new ← k.newTask
      some ((b.runBelow r1 cl k).restoreContext (b.stackPtr new))
    | _, _ => none
  | .start =>
    match b.cpu.pc, b.cpu.sp.task, b.k.newTask with
    | .num _, none, none =>
      some (restoreContext { b with k := b.k.startWhichTask idleTcb } (b.stackPtr idleTcb))
    | _, _, _ => none

/-- The code of a task is executed outside the handlers. -/
def Executes (b : Board) (t : TcbPtr) : Prop :=
  b.cpu.sp.task = some t ∧ ∃ n, b.cpu.pc = .num n

/-- The processor is in step with the kernel: the task whose code is executed is `new_task`, and
every task that was resumed has gone on with the context that it was left in last. -/
structure InStep (b : Board) : Prop where
  newTask : ∀ t, b.Executes t → b.k.newTask = some t
  exact : Exact b.log

end Board

end Fos
