import Fos.Lib.Runs
import Fos.Kernel.Mutex
import Fos.Kernel.Queue
import Fos.Kernel.Timer
import Fos.Kernel.Task

/-!
# The running system

The tasks, the tick, and the kernel that they share, as a transition system. The task that runs is
the one that `new_task` points to. It calls the kernel, and a call ends in one of two ways: it
returns to its caller, or its `schedule` selects another task. In the second case the caller is left
inside the call, and what is left of it is kept as a `Frame`. When the caller is selected again, it
takes up the frame before it does anything else (`Action.resume`). Every call ends with
`schedule(); interrupt_enable(cpu_sr); return ...`, so that what is left of one is the return alone,
except for a pass of `hardware_timer` that a callback has suspended. A tick comes between calls, and
`main` makes its calls before `start_which_task`, when `new_task` is still `NULL`.

The step is over any type `κ` of kernel states, since the abstract kernel of `Abstract.lean` runs in
the same system.
-/

namespace Fos

open Links Function

/-- A call of a kernel function, with the arguments that the model reads. -/
inductive Call where
  | taskCreate (tcb : Option TcbPtr) (func stack : Option ℕ) (prio : ℕ)
  | taskPrioChange (tcb : Option TcbPtr) (prio : ℕ)
  | osDelay (timeslice : ℕ)
  | timerReq (timer : Option TickPtr) (func : Option ℕ) (timeout period arg : ℕ)
  | semInit (semaphore : Option ℕ) (num : ℕ)
  | semGet (semaphore : Option ℕ)
  | semPut (semaphore : Option ℕ)
  | mutexInit (mutex : Option ℕ)
  | mutexGet (mutex : Option ℕ)
  | mutexPut (mutex : Option ℕ)
  | msgQueueCreate (entry : Option ℕ) (length : ℕ)
  | msgPut (entry msg : Option ℕ) (method : ℕ)
  | msgGet (entry buffer : Option ℕ)
  | schedule
  deriving DecidableEq

/-- What is left of a task that another one was selected over. -/
inductive Frame where
  /-- The call returns `ret`. -/
  | call (c : Call) (ret : Ret)
  /-- The pass of `hardware_timer` that has interrupted the task goes on. -/
  | timer (f : TimerFrame)
  deriving DecidableEq

/-- What can happen next. -/
inductive Action where
  /-- The running task, or `main`, makes a call. -/
  | call (c : Call)
  /-- The tick interrupts the running task; callbacks do what the oracle says. -/
  | tick (o : Oracle)
  /-- The running task goes on inside the call that it was switched out in. -/
  | resume (o : Oracle)
  /-- `main` calls `start_which_task(&idle_tcb)`. -/
  | start

/-- A type of kernel states, with the operations of the kernel on it. -/
class Machine (κ : Type) where
  /-- The variables. -/
  vars : κ → Vars
  /-- A call, up to its return or to the switch of its `schedule`. -/
  exec : Call → κ → Option (κ × Ret)
  /-- `hardware_timer`. -/
  hardwareTimer : Oracle → κ → Option (κ × Option TimerFrame)
  /-- The rest of a suspended `hardware_timer`. -/
  hardwareTimerResume : TimerFrame → Oracle → κ → Option (κ × Option TimerFrame)
  /-- `start_which_task`. -/
  startWhichTask : κ → TcbPtr → κ
  /-- The entry is in the tick queue. -/
  TickQueued : κ → TickPtr → Prop
  /-- A pass at the first entry has the second one still ahead of it in the tick queue. -/
  TickAhead : κ → TickPtr → TickPtr → Prop
  /-- The message is in the queue. -/
  MsgQueued : κ → ℕ → ℕ → Prop

/-- A call of the kernel, up to its return or to the switch of its `schedule`. -/
def Kernel.exec (c : Call) (k : Kernel) : Option (Kernel × Ret) :=
  match c with
  | .taskCreate tcb func stack prio => k.taskCreate tcb func stack prio
  | .taskPrioChange tcb prio => k.taskPrioChange tcb prio
  | .osDelay timeslice => k.osDelay timeslice
  | .timerReq timer func timeout period arg => k.timerReq timer func timeout period arg
  | .semInit s num => some (k.semInit s num)
  | .semGet s => k.semGet s
  | .semPut s => k.semPut s
  | .mutexInit m => some (k.mutexInit m)
  | .mutexGet m => k.mutexGet m
  | .mutexPut m => k.mutexPut m
  | .msgQueueCreate q length => some (k.msgQueueCreate q length)
  | .msgPut q m method => k.msgPut q m method
  | .msgGet q buffer => k.msgGet q buffer
  | .schedule => k.schedule.map (·, .VOID)

/-- What a call does up to its `schedule`, what it returns, and whether it calls `schedule`. -/
def Kernel.beforeSchedule (c : Call) (k : Kernel) : Option (Kernel × Ret × Bool) :=
  match c with
  | .osDelay timeslice => (k.sleep timeslice).map (·, .VOID, true)
  | .semGet (some s) =>
    if (k.sem s).count = 0 then (k.semWait s).map (·, .TRUE, true)
    else some (k.setSem s { k.sem s with count := (k.sem s).count - 1 }, .TRUE, false)
  | .semPut (some s) => (k.semRelease s).map (·, .TRUE, true)
  | .mutexGet (some m) =>
    if (k.mutex m).enable = 0 then (k.mutexWait m).map (·, .TRUE, true)
    else (k.mutexTake m).map (·, .TRUE, false)
  | .mutexPut (some m) => (k.mutexRelease m).map (·, .TRUE, true)
  | .msgGet (some q) (some buf) =>
    if isListLast k.heap (.msgHead q) then (k.msgWait q).map (·, .EMPTY, true)
    else (k.msgTake q buf).map (·, .TRUE, false)
  | .schedule => some (k, .VOID, true)
  | c => (k.exec c).map fun r => (r.1, r.2, false)

/-- The end of a call: `schedule`, where the call has one, and the return. -/
def Kernel.callEnd (r : Kernel × Ret × Bool) : Option (Kernel × Ret) :=
  if r.2.2 then r.1.schedule.map (·, r.2.1) else some (r.1, r.2.1)

theorem Kernel.callEnd_schedule (k : Option Kernel) (ret : Ret) :
    (k.map (·, ret, true)).bind callEnd =
      k.bind fun k => k.schedule.bind fun k => some (k, ret) := by
  cases k with
  | none => rfl
  | some k => exact Option.map_eq_bind

theorem Kernel.callEnd_return (k : Option Kernel) (ret : Ret) :
    (k.map (·, ret, false)).bind callEnd = k.bind fun k => some (k, ret) := by
  cases k <;> rfl

/-- A call is what it does up to its `schedule`, and then its end. -/
theorem Kernel.exec_eq (c : Call) (k : Kernel) :
    k.exec c = (k.beforeSchedule c).bind callEnd := by
  -- A call that does not schedule returns what it has come to.
  have hreturn : ∀ r : Option (Kernel × Ret), r = (r.map fun r => (r.1, r.2, false)).bind callEnd :=
    fun r => by cases r <;> rfl
  cases c with
  | taskCreate | taskPrioChange | timerReq | semInit | mutexInit | msgQueueCreate | msgPut =>
    exact hreturn _
  | osDelay timeslice => exact (k.osDelay_eq timeslice).trans (callEnd_schedule _ _).symm
  | semGet s =>
    cases s with
    | none => rfl
    | some s =>
      simp only [exec, beforeSchedule, semGet_eq]
      split_ifs
      · exact (callEnd_schedule _ _).symm
      · rfl
  | semPut s =>
    cases s with
    | none => rfl
    | some s => exact (k.semPut_eq s).trans (callEnd_schedule _ _).symm
  | mutexGet m =>
    cases m with
    | none => rfl
    | some m =>
      simp only [exec, beforeSchedule, mutexGet_eq]
      split_ifs
      · exact (callEnd_schedule _ _).symm
      · exact (callEnd_return _ _).symm
  | mutexPut m =>
    cases m with
    | none => rfl
    | some m => exact (k.mutexPut_eq m).trans (callEnd_schedule _ _).symm
  | msgGet q buffer =>
    match q, buffer with
    | none, _ | some _, none => rfl
    | some q, some buf =>
      simp only [exec, beforeSchedule, msgGet_eq]
      split_ifs
      · exact (callEnd_schedule _ _).symm
      · exact (callEnd_return _ _).symm
  | schedule => rfl

/-- A node is in the sequence that a head represents. -/
def Queued (h : Heap Node) (head x : Node) : Prop :=
  ∃ xs, Represents h head xs ∧ x ∈ xs

instance : Machine Kernel where
  vars := Kernel.toVars
  exec := Kernel.exec
  hardwareTimer := Kernel.hardwareTimer
  hardwareTimerResume := Kernel.hardwareTimerResume
  startWhichTask := Kernel.startWhichTask
  TickQueued k e := Queued k.heap tickHead (.tick e)
  TickAhead k e e' := ∃ xs ys, Represents k.heap tickHead (xs ++ .tick e :: ys) ∧ .tick e' ∈ ys
  MsgQueued k q m := Queued k.heap (.msgHead q) (.msg m)

/-- The state of the system. -/
structure Sys (κ : Type) where
  /-- The kernel. -/
  k : κ
  /-- What is left of the call that a task is inside. -/
  frame : TcbPtr → Option Frame
  /-- The objects that have been set up: a `TCB` by `task_create`, a semaphore by `sem_init`, a
  mutex by `mutex_init`, a queue by `msg_queue_create`. -/
  live : Node → Bool

/-- The objects that a call sets up. -/
def Call.setsUp : Call → Option Node
  | .taskCreate (some t) (some _) (some _) _ => some (.tcb t)
  | .semInit (some s) _ => some (.sem s)
  | .mutexInit (some m) => some (.mutex m)
  | .msgQueueCreate (some q) length => if length = 0 then none else some (.queue q)
  | _ => none

/-- The objects set up once the call is made. -/
def setUp (live : Node → Bool) (c : Call) : Node → Bool :=
  match c.setsUp with
  | some n => update live n true
  | none => live

namespace Sys

variable {κ : Type} [Machine κ]

/-- The task that runs. -/
def running (s : Sys κ) : Option TcbPtr := (Machine.vars s.k).newTask

/-- The frames once `t` has made a call: the call has returned, or another task runs. -/
def callFrame (s : Sys κ) (t : TcbPtr) (c : Call) (k : κ) (ret : Ret) : TcbPtr → Option Frame :=
  if (Machine.vars k).newTask = some t then s.frame else update s.frame t (some (.call c ret))

/-- One step. -/
def step (s : Sys κ) : Action → Option (Sys κ)
  | .call c =>
    match s.running with
    | none => do
      let (k, _) ← Machine.exec c s.k
      some ⟨k, s.frame, setUp s.live c⟩
    | some t =>
      match s.frame t with
      | some _ => none
      | none => do
        let (k, ret) ← Machine.exec c s.k
        some ⟨k, s.callFrame t c k ret, setUp s.live c⟩
  | .tick o =>
    match s.running with
    | none => none
    | some t =>
      match s.frame t with
      | some _ => none
      | none => do
        let (k, f) ← Machine.hardwareTimer o s.k
        some ⟨k, update s.frame t (f.map .timer), s.live⟩
  | .resume o =>
    match s.running with
    | none => none
    | some t =>
      match s.frame t with
      | none => none
      | some (.call _ _) => some { s with frame := update s.frame t none }
      | some (.timer f) => do
        let (k, f) ← Machine.hardwareTimerResume f o s.k
        some ⟨k, update s.frame t (f.map .timer), s.live⟩
  | .start =>
    match s.running with
    | none => some { s with k := Machine.startWhichTask s.k idleTcb }
    | some _ => none

variable {s s' : Sys κ} {t : TcbPtr} {c : Call} {o : Oracle}

/-- A call that `main` makes. -/
theorem step_call_main {k : κ} {ret : Ret} (hr : s.running = none)
    (he : Machine.exec c s.k = some (k, ret)) :
    s.step (.call c) = some ⟨k, s.frame, setUp s.live c⟩ := by
  simp [step, hr, he]

/-- A call that a task makes. -/
theorem step_call {k : κ} {ret : Ret} (hr : s.running = some t) (hf : s.frame t = none)
    (he : Machine.exec c s.k = some (k, ret)) :
    s.step (.call c) = some ⟨k, s.callFrame t c k ret, setUp s.live c⟩ := by
  simp [step, hr, hf, he]

/-- A tick. -/
theorem step_tick {k : κ} {f : Option TimerFrame} (hr : s.running = some t) (hf : s.frame t = none)
    (he : Machine.hardwareTimer o s.k = some (k, f)) :
    s.step (.tick o) = some ⟨k, update s.frame t (f.map .timer), s.live⟩ := by
  simp [step, hr, hf, he]

/-- The return of a call that was switched out. -/
theorem step_resume_call {ret : Ret} (hr : s.running = some t)
    (hf : s.frame t = some (.call c ret)) :
    s.step (.resume o) = some { s with frame := update s.frame t none } := by
  simp [step, hr, hf]

/-- The rest of a pass that was suspended. -/
theorem step_resume_timer {k : κ} {f : TimerFrame} {f' : Option TimerFrame}
    (hr : s.running = some t) (hf : s.frame t = some (.timer f))
    (he : Machine.hardwareTimerResume f o s.k = some (k, f')) :
    s.step (.resume o) = some ⟨k, update s.frame t (f'.map .timer), s.live⟩ := by
  simp [step, hr, hf, he]

/-- The start of the idle task. -/
theorem step_start (hr : s.running = none) :
    s.step .start = some { s with k := Machine.startWhichTask s.k idleTcb } := by
  simp [step, hr]

end Sys

section Observations

variable {κ : Type} [Machine κ]

/-- The call that a task makes. -/
def called (s : Sys κ) (act : Action) : Option (TcbPtr × Call) :=
  match act, s.running with
  | .call c, some t => some (t, c)
  | _, _ => none

/-- The call that returns to a task in a step, and what it returns: the call that the task makes, if
no other task is selected over it, or the one that the task was switched out in. -/
def returned (s : Sys κ) (act : Action) (s' : Sys κ) : Option (TcbPtr × Call × Ret) :=
  match act, s.running with
  | .call c, some t =>
    if (s'.frame t).isNone then (Machine.exec c s.k).map fun r => (t, c, r.2) else none
  | .resume _, some t =>
    match s.frame t with
    | some (.call c ret) => some (t, c, ret)
    | _ => none
  | _, _ => none

variable {s s' : Sys κ} {t : TcbPtr} {c : Call} {act : Action} {o : Oracle}

@[simp] theorem called_call : called s (.call c) = s.running.map (·, c) := by
  cases h : s.running <;> simp [called, h]

@[simp] theorem called_tick : called s (.tick o) = none := rfl

@[simp] theorem called_resume : called s (.resume o) = none := rfl

@[simp] theorem called_start : called s .start = none := rfl

/-- What a task calls is the action that is taken while it runs. -/
theorem of_called (h : called s act = some (t, c)) : act = .call c ∧ s.running = some t := by
  cases act with
  | call c' =>
    obtain ⟨hr, rfl⟩ : s.running = some t ∧ c' = c := by simpa using h
    exact ⟨rfl, hr⟩
  | tick | resume | start => simp at h

/-- Nothing returns to `main`. -/
theorem returned_main (hr : s.running = none) : returned s act s' = none := by
  cases act <;> simp [returned, hr]

/-- What returns returns to the running task. -/
theorem running_of_returned {ret : Ret} (h : returned s act s' = some (t, c, ret)) :
    s.running = some t := by
  unfold returned at h
  split at h
  · next hr =>
    split_ifs at h
    obtain ⟨_, -, heq⟩ := Option.map_eq_some_iff.mp h
    rw [hr, (Prod.mk.inj heq).1]
  · next hr =>
    split at h
    · rw [hr, (Prod.mk.inj (Option.some.inj h)).1]
    · simp at h
  · simp at h

/-- A call returns to its caller unless the caller is left inside it. -/
theorem returned_call {k : κ} {ret : Ret} (hr : s.running = some t)
    (he : Machine.exec c s.k = some (k, ret)) :
    returned s (.call c) s' = if (s'.frame t).isNone then some (t, c, ret) else none := by
  simp [returned, hr, he]

/-- What returns to a caller at once is its own call. -/
theorem eq_of_returned {c' : Call} {ret : Ret} (h : returned s (.call c) s' = some (t, c', ret)) :
    s.running = some t ∧ c' = c := by
  unfold returned at h
  cases hr : s.running with
  | none => simp [hr] at h
  | some u =>
    simp only [hr] at h
    split_ifs at h
    obtain ⟨_, -, heq⟩ := Option.map_eq_some_iff.mp h
    obtain ⟨ht, hc⟩ := Prod.mk.inj heq
    exact ⟨congrArg some ht, (Prod.mk.inj hc).1.symm⟩

/-- A call that was switched out returns. -/
theorem returned_ret {ret : Ret} (hr : s.running = some t) (hf : s.frame t = some (.call c ret)) :
    returned s (.resume o) s' = some (t, c, ret) := by
  simp [returned, hr, hf]

/-- A pass that goes on is not the return of a call. -/
theorem returned_pass {f : TimerFrame} (hr : s.running = some t)
    (hf : s.frame t = some (.timer f)) : returned s (.resume o) s' = none := by
  simp [returned, hr, hf]

@[simp] theorem returned_tick : returned s (.tick o) s' = none := rfl

@[simp] theorem returned_start : returned s .start s' = none := rfl

end Observations

/-- A run so far: the states it has left, each with the action taken there, the latest first. -/
abbrev Trace (κ : Type) := List (Sys κ × Action)

/-- Who was running when each action was taken, the latest first. -/
abbrev Hist := List (Option TcbPtr × Action)

/-- The history of a run. -/
def hist {κ : Type} [Machine κ] (tr : Trace κ) : Hist :=
  tr.map fun e => (e.1.running, e.2)

/-- The task has called `mutex_get` on the mutex. Once the task makes another call, that
`mutex_get` has returned. -/
def hasCalledGet (t : TcbPtr) (m : ℕ) (h : Hist) : Bool :=
  h.any fun e => match e with
    | (u, .call (.mutexGet (some m'))) => u = some t && m' = m
    | _ => false

/-- The calls that `main` makes, before a task runs. -/
def Call.IsSetUp : Call → Bool
  | .taskCreate .. | .timerReq .. | .semInit .. | .mutexInit .. | .msgQueueCreate .. => true
  | _ => false

section Usage

variable {κ : Type} [Machine κ]

/-- How callers use the kernel's functions: the arguments of a call that `t` makes, or `main` when
`t` is `none`. A call with a `NULL` argument is refused by the function itself and is free. -/
def CallUsage (h : Hist) (s : Sys κ) (t : Option TcbPtr) : Call → Prop
  | .taskCreate (some tcb) _ _ prio =>
    (∃ n, tcb = .task n) ∧ s.live (.tcb tcb) = false ∧ prio < SYSTEM_WORD
  | .taskPrioChange (some tcb) prio => t = some tcb ∧ prio < SYSTEM_WORD
  | .timerReq (some e) _ _ _ _ => (∃ n, e = .timer n) ∧ ¬ Machine.TickQueued s.k e
  | .semInit (some i) num => s.live (.sem i) = false ∧ num ≤ U32_MAX
  | .semGet (some i) | .semPut (some i) => s.live (.sem i) = true
  | .mutexInit (some m) => s.live (.mutex m) = false
  | .mutexGet (some m) => s.live (.mutex m) = true
  | .mutexPut (some m) => s.live (.mutex m) = true ∧ ∃ u, t = some u ∧ hasCalledGet u m h = true
  | .msgQueueCreate (some q) length => s.live (.queue q) = false ∧ length ≤ U32_MAX
  | .msgPut (some q) (some m) _ => s.live (.queue q) = true ∧
    ∀ q', s.live (.queue q') = true → ¬ Machine.MsgQueued s.k q' m
  | .msgGet (some q) _ => s.live (.queue q) = true
  | _ => True

/-- How the system is used: calls as `CallUsage` says, `main` only sets up, and the idle task only
calls `schedule`. -/
def Usage (h : Hist) (s : Sys κ) : Action → Prop
  | .call c => CallUsage h s s.running c ∧ (s.running = none → c.IsSetUp = true) ∧
      (s.running = some idleTcb → c = .schedule)
  | _ => True

/-- Callbacks put semaphores that have been set up. -/
def CallbackUsage (s : Sys κ) : Action → Prop
  | .tick o | .resume o => ∀ e, ∀ i ∈ o e, s.live (.sem i) = true
  | _ => True

/-- Callbacks make no kernel call. -/
def Passive : Action → Prop
  | .tick o | .resume o => o = passive
  | _ => True

/-- No pass has ahead of it a one-shot timer in whose callback another pass is suspended: neither a
new pass, which has the whole tick queue ahead of it, nor a pass that goes on. -/
def Undisturbed (s : Sys κ) : Action → Prop
  | .tick _ => ∀ u g, s.frame u = some (.timer g) →
      ((Machine.vars s.k).tick g.entry).period = CYCLE
  | .resume _ => ∀ t f u g, s.running = some t → s.frame t = some (.timer f) → u ≠ t →
      s.frame u = some (.timer g) → Machine.TickAhead s.k f.entry g.entry →
        ((Machine.vars s.k).tick g.entry).period = CYCLE
  | _ => True

end Usage

/-- `system_init`: the ready queues, the tick queue, and the idle task. -/
def Kernel.systemInit (k : Kernel) : Option Kernel := do
  let k := k.prioReadyQueueInit
  let k := k.tickQueueInit
  let k := { k with oldTask := none }
  let (k, _) ← k.taskCreate idleTcb (some 0) (some 0) 31
  some k

/-- The statics that are zero when the system starts; anything else may have any value. -/
structure Kernel.Zeroed (k : Kernel) : Prop where
  y : k.y = 0
  c : ∀ b, k.c b = 0
  newTask : k.newTask = none
  scheduleIsLock : k.scheduleIsLock = false
  log : k.log = []

/-- The system after `system_init`. -/
def Init (s : Sys Kernel) : Prop :=
  (∃ k : Kernel, k.Zeroed ∧ k.systemInit = some s.k) ∧ (∀ t, s.frame t = none) ∧
    s.live = update (fun _ => false) (.tcb idleTcb) true

/-- The runs of the system under a guard. -/
abbrev SysRun (guard : Trace Kernel → Sys Kernel → Action → Prop) :=
  Runs.Run Init Sys.step guard

end Fos
