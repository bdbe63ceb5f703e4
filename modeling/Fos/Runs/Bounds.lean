import Fos.Code.Calls
import Fos.Refinement.Replay

/-!
# Every priority is an index

Priorities enter the kernel through `task_create` and `task_prio_change`, and `mutex_get` and
`mutex_put` carry them to and fro. As long as callers give priorities below `SYSTEM_WORD`, all that
the kernel keeps are, and no access to `task_prio_queue[]` or `c[]` is out of bounds, whatever the
calls, their order, and their other arguments are (`prio_in_bounds`). `task_create` does not check
its argument, and `task_prio_change` lets `SYSTEM_WORD` itself pass.
-/

namespace Fos

open Links Function Interrupts Prog

/-- The priorities that the kernel keeps are below `SYSTEM_WORD`, and so is what `bitmap_get` finds:
the upper half of `y` is not used. -/
structure InRange (k : Kernel) : Prop where
  prio : ∀ t, k.prio t < SYSTEM_WORD
  copyPrio : ∀ m, (k.mutex m).copyPrio < SYSTEM_WORD
  y : k.y.toNat < 16

/-- What can happen: a call, a tick, and the other functions that a port or an application uses. -/
inductive Entry where
  | call (c : Call)
  /-- `hardware_timer`. The callback of a timer, with this argument, makes the calls given. -/
  | tick (calls : ℕ → ℕ → List Call)
  /-- `find_high_ready_task`. -/
  | exit
  /-- `start_which_task`. -/
  | start (tcb : TcbPtr)
  /-- `schedule_lock` and `schedule_unlock`. -/
  | lock (b : Bool)

namespace Code

/-- One call after the other. -/
def calls : List Call → Prog Sr Kernel Unit
  | [] => pure ()
  | c :: cs => do
    let _ ← call c
    calls cs

/-- The code of an entry. -/
def entry : Entry → Prog Sr Kernel Ret
  | .call c => call c
  | .tick cs => do
    hardwareTimer fun func arg => calls (cs func arg)
    pure .VOID
  | .exit => do
    findHighReadyTask
    pure .VOID
  | .start tcb => do
    .write fun k => { k with newTask := some tcb }
    pure .VOID
  | .lock b => do
    .write fun k => { k with scheduleIsLock := b }
    pure .VOID

end Code

/-- The priority that a call gives is below `SYSTEM_WORD`. `task_create` takes a `U8`. -/
def Call.PrioOk : Call → Prop
  | .taskCreate (some _) (some _) (some _) prio => prio % 256 < SYSTEM_WORD
  | .taskPrioChange (some _) prio => prio ≠ SYSTEM_WORD
  | _ => True

/-- So it is in every call of an entry. -/
def Entry.PrioOk : Entry → Prop
  | .call c => c.PrioOk
  | .tick cs => ∀ func arg, ∀ c ∈ cs func arg, c.PrioOk
  | _ => True

/-- The bitmap is zero when the system starts, and what the `TCB`s and `MUTEX`es hold then is in
range, as it is in static ones, which are zero. `mutex_init` does not set `copy_prio`, which
`mutex_put` writes to a `TCB`. -/
structure StaticsInRange (k : Kernel) : Prop where
  y : k.y = 0
  c : ∀ b, k.c b = 0
  prio : ∀ t, k.prio t < SYSTEM_WORD
  copyPrio : ∀ m, (k.mutex m).copyPrio < SYSTEM_WORD

/-- The memory that can be reached with entries that `ok` allows: when the system starts, where an
entry ends or is switched out, and at every point in it at which interrupts are enabled. What others
leave at these points, or while the entry is switched out, can be reached too. -/
inductive Reached (ok : Entry → Prop) : Kernel → Prop where
  | start {k : Kernel} : StaticsInRange k → Reached ok k
  | entry {k k' : Kernel} {e : Entry} {sr : Sr} {others : ℕ → Option Kernel} {r : Except Stop Ret}
      {c : Cpu Sr Kernel} : Reached ok k → ok e → (∀ i s, others i = some s → Reached ok s) →
      Code.entry e ⟨k, sr, others, 0, []⟩ = some (r, c) → k' = c.mem ∨ k' ∈ c.points → Reached ok k'

namespace Code

/-! ## The lists -/

section Lists

variable {σ α : Type} [Nodes σ α] {I : σ → Prop} (hI : ∀ s heap, I s → I (Nodes.setHeap s heap))
include hI

theorem links_keeps (f : Heap α → Heap α) : Keeps I (links f : Prog Sr σ Unit) fun _ => True :=
  .write fun s hs => hI s _ hs

variable [DecidableEq α]

theorem listInit_keeps (x : α) : Keeps I (listInit x : Prog Sr σ Unit) fun _ => True :=
  .bind (links_keeps hI _) fun _ _ => links_keeps hI _

theorem listInsert_keeps (head node : α) :
    Keeps I (listInsert head node : Prog Sr σ Unit) fun _ => True :=
  .bind (links_keeps hI _) fun _ _ => .bind (links_keeps hI _) fun _ _ => links_keeps hI _

theorem listInsertSpec_keeps (head node : α) :
    Keeps I (listInsertSpec head node : Prog Sr σ Unit) fun _ => True :=
  .bind (.readAny _) fun _ _ => .ite (fun _ => listInsert_keeps hI head node) fun _ =>
    .bind (links_keeps hI _) fun _ _ => .bind (links_keeps hI _) fun _ _ =>
      .bind (links_keeps hI _) fun _ _ => links_keeps hI _

theorem listDelete_keeps (node : α) :
    Keeps I (listDelete node : Prog Sr σ Unit) fun _ => True :=
  .bind (.readAny _) fun _ _ => .ite (fun _ => links_keeps hI _) fun _ =>
    .bind (links_keeps hI _) fun _ _ => links_keeps hI _

theorem listInsertBehind_keeps (head node : α) :
    Keeps I (listInsertBehind head node : Prog Sr σ Unit) fun _ => True := by
  refine .bind (V := fun _ => True) (.loop (B := fun _ => True) (fun list _ => ?_) trivial)
    fun list _ => listInsert_keeps hI list node
  exact .bind (.readAny _) fun _ _ => .ite (fun _ => .pure trivial) fun _ =>
    .bind (.readAny _) fun _ _ => .pure trivial

end Lists

/-! ## The bitmap and the ready queues -/

theorem inRange_setHeap (k : Kernel) (heap : Heap Node) (h : InRange k) :
    InRange (Nodes.setHeap k heap) := ⟨h.prio, h.copyPrio, h.y⟩

theorem shiftRight_lt {prio : ℕ} (h : prio < SYSTEM_WORD) : prio >>> 3 < 4 := by
  rw [Nat.shiftRight_eq_div_pow]
  exact Nat.div_lt_of_lt_mul h

/-- `bitmap[]` finds a bit of the lower half where there is no other. -/
theorem bitmap_lt_four : ∀ y < 16, bitmap.getD y 0 < 4 := by decide

theorem bitmapSet_keeps {prio : ℕ} (h : prio < SYSTEM_WORD) :
    Keeps InRange (bitmapSet prio) fun _ => True := by
  have hb := shiftRight_lt h
  refine .bind (.inBounds (by simp; omega)) fun _ _ => .bind (.write fun k hk => ?_) fun _ _ =>
    .write fun k hk => ?_
  · exact ⟨hk.prio, hk.copyPrio, hk.y⟩
  · have hbit : ∀ b < 4, (1#8 <<< b).toNat < 2 ^ 4 := by decide
    refine ⟨hk.prio, hk.copyPrio, ?_⟩
    rw [BitVec.toNat_or]
    exact Nat.or_lt_two_pow hk.y (hbit _ hb)

theorem bitmapGet_keeps : Keeps InRange bitmapGet fun i => i < SYSTEM_WORD := by
  refine .bind (V := fun b => b < 4) (.read fun k hk => bitmap_lt_four _ hk.y) fun b hb => ?_
  refine .bind (.inBounds (by simp; omega)) fun _ _ => ?_
  refine .bind (V := fun a => a < 8) (.read fun k _ => bitmap_lt_eight _) fun a ha => ?_
  refine .pure (Nat.lt_of_le_of_lt (Nat.mod_le _ _) ?_)
  unfold SYSTEM_WORD
  omega

theorem bitmapClear_keeps {prio : ℕ} (h : prio < SYSTEM_WORD) :
    Keeps InRange (bitmapClear prio) fun _ => True := by
  have hb := shiftRight_lt h
  refine .bind (.inBounds (by simp; omega)) fun _ _ => .bind (.write fun k hk => ?_) fun _ _ =>
    .bind (.test _) fun _ _ => .ite (fun _ => .write fun k hk => ?_) fun _ => .pure trivial
  · exact ⟨hk.prio, hk.copyPrio, hk.y⟩
  · refine ⟨hk.prio, hk.copyPrio, Nat.lt_of_le_of_lt ?_ hk.y⟩
    rw [BitVec.toNat_and]
    exact Nat.and_le_left

theorem prioListHead_keeps {prio : ℕ} (h : prio < SYSTEM_WORD) :
    Keeps InRange (prioListHead prio) fun _ => True :=
  .bind (.inBounds (by simpa using h)) fun _ _ => .pure trivial

theorem osAssert_keeps (tcb : Option TcbPtr) : Keeps InRange (osAssert tcb) fun _ => True := by
  cases tcb with
  | none => exact .stop (by simp)
  | some t => exact .pure trivial

theorem readPrio_keeps (t : TcbPtr) :
    Keeps InRange (.read fun k => k.prio t : Prog Sr Kernel ℕ) fun p => p < SYSTEM_WORD :=
  .read fun _ hk => hk.prio t

theorem prioReadyQueueInsertTail_keeps (tcb : Option TcbPtr) :
    Keeps InRange (prioReadyQueueInsertTail tcb) fun _ => True :=
  .bind (osAssert_keeps tcb) fun t _ => .bind (readPrio_keeps t) fun _ hp =>
    .bind (bitmapSet_keeps hp) fun _ _ => .bind (readPrio_keeps t) fun _ hp =>
      .bind (prioListHead_keeps hp) fun _ _ => listInsertBehind_keeps inRange_setHeap _ _

theorem prioReadyQueueInsertHead_keeps (tcb : Option TcbPtr) :
    Keeps InRange (prioReadyQueueInsertHead tcb) fun _ => True :=
  .bind (osAssert_keeps tcb) fun t _ => .bind (readPrio_keeps t) fun _ hp =>
    .bind (bitmapSet_keeps hp) fun _ _ => .bind (readPrio_keeps t) fun _ hp =>
      .bind (prioListHead_keeps hp) fun _ _ => listInsertSpec_keeps inRange_setHeap _ _

theorem prioReadyQueueDelete_keeps (tcb : Option TcbPtr) :
    Keeps InRange (prioReadyQueueDelete tcb) fun _ => True :=
  .bind (osAssert_keeps tcb) fun t _ => .bind (listDelete_keeps inRange_setHeap _) fun _ _ =>
    .bind (readPrio_keeps t) fun _ hp => .bind (prioListHead_keeps hp) fun _ _ =>
      .bind (.readAny _) fun _ _ => .ite
        (fun _ => .bind (readPrio_keeps t) fun _ hp => bitmapClear_keeps hp) fun _ => .pure trivial

theorem prioReadyQueueFetch_keeps : Keeps InRange prioReadyQueueFetch fun _ => True := by
  have hsearch : Keeps InRange bitFirstOneSearch fun _ => True :=
    .bind bitmapGet_keeps fun _ hi => .bind (prioListHead_keeps hi) fun _ _ => .readSomeAny _
  refine .bind hsearch fun tmp _ => .bind (V := fun _ => True) ?_ fun _ _ => ?_
  · exact .bind (.readAny _) fun _ _ => .ite (fun _ => .pure trivial) fun _ =>
      .bind (prioReadyQueueDelete_keeps _) fun _ _ => prioReadyQueueInsertTail_keeps _
  · refine .bind (.test _) fun _ _ => .ite (fun _ => .ret trivial) fun _ => ?_
    exact .bind (.write fun _ hk => ⟨hk.prio, hk.copyPrio, hk.y⟩) fun _ _ =>
      .bind (.write fun _ hk => ⟨hk.prio, hk.copyPrio, hk.y⟩) fun _ _ => .ret trivial

theorem schedule_keeps : Keeps InRange schedule fun _ => True := by
  refine .bind (.readAny _) fun _ _ => .ite (fun _ => .ret trivial) fun _ => ?_
  refine .bind .disable fun sr _ => .bind prioReadyQueueFetch_keeps fun _ _ => .ite (fun _ => ?_)
    fun _ => ?_
  · exact .bind (.setSr sr) fun _ _ => .ret trivial
  · exact .bind .switch fun _ _ => .bind (.setSr sr) fun _ _ => .ret trivial

/-! ## The calls -/

theorem setPrio_inRange {k : Kernel} {t : TcbPtr} {p : ℕ} (h : InRange k) (hp : p < SYSTEM_WORD) :
    InRange (k.setPrio t p) := by
  refine ⟨fun u => ?_, h.copyPrio, h.y⟩
  show update k.prio t p u < SYSTEM_WORD
  rcases eq_or_ne u t with rfl | hne
  · rwa [update_self]
  · rw [update_of_ne hne]
    exact h.prio u

theorem setMutex_inRange {k : Kernel} {m : ℕ} {x : Mutex} (h : InRange k)
    (hx : x.copyPrio < SYSTEM_WORD) : InRange (k.setMutex m x) := by
  refine ⟨h.prio, fun i => ?_, h.y⟩
  show (update k.mutex m x i).copyPrio < SYSTEM_WORD
  rcases eq_or_ne i m with rfl | hne
  · rwa [update_self]
  · rw [update_of_ne hne]
    exact h.copyPrio i

/-- What is not a priority may be written. -/
theorem write_keeps {f : Kernel → Kernel} (hprio : ∀ k, (f k).prio = k.prio)
    (hmutex : ∀ k, (f k).mutex = k.mutex) (hy : ∀ k, (f k).y = k.y) :
    Keeps InRange (.write f : Prog Sr Kernel Unit) fun _ => True :=
  .write fun k hk => ⟨hprio k ▸ hk.prio, hmutex k ▸ hk.copyPrio, hy k ▸ hk.y⟩

theorem writeTick_keeps (e : TickPtr) (f : Kernel → Tick → Tick) :
    Keeps InRange (writeTick e f) fun _ => True :=
  write_keeps (fun _ => rfl) (fun _ => rfl) fun _ => rfl

theorem writeSem_keeps (s : ℕ) (f : Kernel → Sem → Sem) :
    Keeps InRange (writeSem s f) fun _ => True :=
  write_keeps (fun _ => rfl) (fun _ => rfl) fun _ => rfl

theorem writeQueue_keeps (q : ℕ) (f : Queue → Queue) :
    Keeps InRange (writeQueue q f) fun _ => True :=
  write_keeps (fun _ => rfl) (fun _ => rfl) fun _ => rfl

theorem note_keeps (e : TimerEvent) :
    Keeps InRange (.write fun k => k.note e : Prog Sr Kernel Unit) fun _ => True :=
  write_keeps (fun _ => rfl) (fun _ => rfl) fun _ => rfl

/-- A field of a mutex that is not `copy_prio`. -/
theorem writeMutex_keeps (m : ℕ) {f : Kernel → Mutex → Mutex}
    (h : ∀ k x, (f k x).copyPrio = x.copyPrio) : Keeps InRange (writeMutex m f) fun _ => True := by
  refine .write fun k hk => setMutex_inRange hk ?_
  rw [h]
  exact hk.copyPrio m

/-- A list of blocked tasks. -/
theorem listInsertBehind_inRange (head node : Node) :
    Keeps InRange (listInsertBehind head node : Prog Sr Kernel Unit) fun _ => True :=
  listInsertBehind_keeps inRange_setHeap head node

/-- The first task of a list is made ready. -/
theorem wake_keeps (head : Node) : Keeps InRange (do
    let tcb ← .readSome fun k : Kernel => (k.heap head).next.tcbEntry
    listDelete (Node.tcb tcb)
    prioReadyQueueInsertHead tcb : Prog Sr Kernel Unit) fun _ => True :=
  .bind (.readSomeAny _) fun _ _ => .bind (listDelete_keeps inRange_setHeap _) fun _ _ =>
    prioReadyQueueInsertHead_keeps _

theorem sleep_keeps (timeslice : ℕ) : Keeps InRange (sleep timeslice) fun _ => True :=
  .bind (.readSomeAny _) fun _ _ => .bind (writeTick_keeps _ _) fun _ _ =>
    .bind (writeTick_keeps _ _) fun _ _ => .bind (writeTick_keeps _ _) fun _ _ =>
      .bind (writeTick_keeps _ _) fun _ _ => .bind (note_keeps _) fun _ _ =>
        .bind (.readAny _) fun _ _ => .bind (prioReadyQueueDelete_keeps _) fun _ _ =>
          listInsertBehind_inRange _ _

theorem semWait_keeps (s : ℕ) : Keeps InRange (semWait s) fun _ => True :=
  .bind (writeSem_keeps _ _) fun _ _ => .bind (.readAny _) fun _ _ =>
    .bind (prioReadyQueueDelete_keeps _) fun _ _ => .bind (.readSomeAny _) fun _ _ =>
      listInsertBehind_inRange _ _

theorem semRelease_keeps (s : ℕ) : Keeps InRange (semRelease s) fun _ => True :=
  .bind (.readAny _) fun _ _ => .ite
    (fun _ => .bind (.test _) fun _ _ => .ite (fun _ => writeSem_keeps _ _) fun _ => .pure trivial)
    fun _ => wake_keeps _

theorem mutexWait_keeps (m : ℕ) : Keeps InRange (mutexWait m) fun _ => True :=
  .bind (writeMutex_keeps _ fun _ _ => rfl) fun _ _ => .bind (.readAny _) fun _ _ =>
    .bind (prioReadyQueueDelete_keeps _) fun _ _ => .bind (.readSomeAny _) fun _ _ =>
      listInsertBehind_inRange _ _

/-- `mutex_get` keeps the priority of the task, and gives it another one. -/
theorem mutexTake_keeps (m : ℕ) : Keeps InRange (mutexTake m) fun _ => True :=
  .bind (.readSomeAny _) fun t _ =>
    .bind (.write fun _ hk => setMutex_inRange hk (hk.prio t)) fun _ _ =>
      .bind (prioReadyQueueDelete_keeps _) fun _ _ =>
        .bind (.write fun _ hk => setPrio_inRange hk (by decide)) fun _ _ =>
          .bind (prioReadyQueueInsertHead_keeps _) fun _ _ => writeMutex_keeps _ fun _ _ => rfl

/-- `mutex_put` gives the task a priority that a mutex has kept. -/
theorem mutexRelease_keeps (m : ℕ) : Keeps InRange (mutexRelease m) fun _ => True :=
  .bind (.readSomeAny _) fun _ _ => .bind (prioReadyQueueDelete_keeps _) fun _ _ =>
    .bind (.write fun _ hk => setPrio_inRange hk
      (Nat.lt_of_le_of_lt (Nat.mod_le _ _) (hk.copyPrio m))) fun _ _ =>
        .bind (prioReadyQueueInsertHead_keeps _) fun _ _ =>
          .bind (writeMutex_keeps _ fun _ _ => rfl) fun _ _ => .bind (.readAny _) fun _ _ =>
            .ite (fun _ => .pure trivial) fun _ => wake_keeps _

theorem msgRelease_keeps (q : ℕ) : Keeps InRange (msgRelease q) fun _ => True :=
  .bind (.readAny _) fun _ _ => .ite (fun _ => .pure trivial) fun _ => wake_keeps _

theorem msgInsert_keeps (q m method : ℕ) : Keeps InRange (msgInsert q m method) fun _ => True :=
  .bind (.test _) fun _ _ => .ite (fun _ => .pure trivial) fun _ =>
    .bind (writeQueue_keeps _ _) fun _ _ => .ite
      (fun _ => .bind (listInsertBehind_inRange _ _) fun _ _ => .pure trivial)
      fun _ => .bind (listInsertSpec_keeps inRange_setHeap _ _) fun _ _ => .pure trivial

theorem msgWait_keeps (q : ℕ) : Keeps InRange (msgWait q) fun _ => True :=
  .bind (.readAny _) fun _ _ => .bind (prioReadyQueueDelete_keeps _) fun _ _ =>
    .bind (.readSomeAny _) fun _ _ => listInsertBehind_inRange _ _

theorem msgTake_keeps (q buf : ℕ) : Keeps InRange (msgTake q buf) fun _ => True :=
  .bind (.readSomeAny _) fun _ _ => .bind (write_keeps (fun _ => rfl) (fun _ => rfl) fun _ => rfl)
    fun _ _ => .bind (.readAny _) fun _ _ => .bind (listDelete_keeps inRange_setHeap _) fun _ _ =>
      .bind (.test _) fun _ _ => .ite (fun _ => writeQueue_keeps _ _) fun _ => .pure trivial

/-- A call that gives a priority in range, if any. -/
theorem call_keeps {c : Call} (h : c.PrioOk) : Keeps InRange (call c) fun _ => True := by
  cases c with
  | taskCreate tcb func stack prio =>
    match tcb, func, stack with
    | none, _, _ | some _, none, _ | some _, some _, none => exact .ret trivial
    | some t, some _, some _ =>
      exact .bind (.write fun _ hk => setPrio_inRange hk h) fun _ _ =>
        .bind (prioReadyQueueInsertTail_keeps _) fun _ _ => .ret trivial
  | taskPrioChange tcb prio =>
    cases tcb with
    | none => exact .ret trivial
    | some t =>
      have hne : prio ≠ SYSTEM_WORD := h
      refine .ite (fun _ => .ret trivial) fun hcheck => ?_
      -- The check of `task_prio_change` lets the priority 32 pass, which `PrioOk` rules out.
      have hlt : prio % 256 < SYSTEM_WORD := by
        rw [not_or] at hcheck
        exact Nat.lt_of_le_of_lt (Nat.mod_le _ _) (by omega)
      exact .bind (.test _) fun _ _ => .ite (fun _ => .stop (by simp)) fun _ =>
        .bind (prioReadyQueueDelete_keeps _) fun _ _ =>
          .bind (.write fun _ hk => setPrio_inRange hk hlt) fun _ _ =>
            .bind (prioReadyQueueInsertHead_keeps _) fun _ _ => .ret trivial
  | osDelay timeslice =>
    exact .bind (.critical (sleep_keeps _)) fun _ _ => .bind schedule_keeps fun _ _ => .ret trivial
  | timerReq timer func timeout period arg =>
    match func, timer with
    | none, _ | some _, none => exact .ret trivial
    | some f, some e =>
      refine .ite (fun _ => .ret trivial) fun _ =>
        .bind (.critical (V := fun _ => True) ?_) fun _ _ => .ret trivial
      -- The fields of the tick are written one by one, and then the node is linked in.
      exact .bind (writeTick_keeps _ _) fun _ _ => .bind (writeTick_keeps _ _) fun _ _ =>
        .bind (writeTick_keeps _ _) fun _ _ => .bind (writeTick_keeps _ _) fun _ _ =>
          .bind (writeTick_keeps _ _) fun _ _ => .bind (writeTick_keeps _ _) fun _ _ =>
            .bind (note_keeps _) fun _ _ => listInsertBehind_inRange _ _
  | semInit s num =>
    cases s with
    | none => exact .ret trivial
    | some s =>
      exact .bind (writeSem_keeps _ _) fun _ _ => .bind (listInit_keeps inRange_setHeap _)
        fun _ _ => .ret trivial
  | semGet s =>
    cases s with
    | none => exact .ret trivial
    | some s =>
      refine .bind (.critical (V := fun _ => True) ?_) fun _ _ => .ret trivial
      exact .bind (.test _) fun _ _ => .ite
        (fun _ => .bind (semWait_keeps s) fun _ _ => schedule_keeps) fun _ => writeSem_keeps _ _
  | semPut s =>
    cases s with
    | none => exact .ret trivial
    | some s =>
      exact .bind (.critical (semRelease_keeps s)) fun _ _ => .bind schedule_keeps fun _ _ =>
        .ret trivial
  | mutexInit m =>
    cases m with
    | none => exact .ret trivial
    | some m =>
      exact .bind (listInit_keeps inRange_setHeap _) fun _ _ =>
        .bind (writeMutex_keeps _ fun _ _ => rfl) fun _ _ => .ret trivial
  | mutexGet m =>
    cases m with
    | none => exact .ret trivial
    | some m =>
      refine .bind (.critical (V := fun _ => True) ?_) fun _ _ => .ret trivial
      exact .bind (.test _) fun _ _ => .ite
        (fun _ => .bind (mutexWait_keeps m) fun _ _ => schedule_keeps) fun _ => mutexTake_keeps m
  | mutexPut m =>
    cases m with
    | none => exact .ret trivial
    | some m =>
      exact .bind (.critical (mutexRelease_keeps m)) fun _ _ => .bind schedule_keeps fun _ _ =>
        .ret trivial
  | msgQueueCreate q length =>
    cases q with
    | none => exact .ret trivial
    | some q =>
      refine .ite (fun _ => .ret trivial) fun _ =>
        .bind (.critical (V := fun _ => True) ?_) fun _ _ => .ret trivial
      exact .bind (listInit_keeps inRange_setHeap _) fun _ _ =>
        .bind (listInit_keeps inRange_setHeap _) fun _ _ =>
          .bind (writeQueue_keeps _ _) fun _ _ => writeQueue_keeps _ _
  | msgPut q m method =>
    match q, m with
    | none, _ | some _, none => exact .ret trivial
    | some q, some m =>
      exact .bind (.test _) fun _ _ => .ite (fun _ => .ret trivial) fun _ =>
        .bind (.critical (.bind (msgRelease_keeps q) fun _ _ => msgInsert_keeps q m method))
          fun _ _ => .ret trivial
  | msgGet q buffer =>
    match q, buffer with
    | none, _ | some _, none => exact .ret trivial
    | some q, some buf =>
      refine .bind (.critical (V := fun _ => True) ?_) fun _ _ =>
        .ite (fun _ => .bind schedule_keeps fun _ _ => .ret trivial) fun _ => .ret trivial
      -- The first `ite` is inside of the critical section, and the `schedule` behind it.
      exact .bind (.readAny _) fun _ _ => .ite
        (fun _ => .bind (msgWait_keeps q) fun _ _ => .pure trivial)
        fun _ => .bind (msgTake_keeps q buf) fun _ _ => .pure trivial
  | schedule => exact .bind schedule_keeps fun _ _ => .pure trivial

/-- Calls that do. -/
theorem calls_keeps {cs : List Call} (h : ∀ c ∈ cs, c.PrioOk) :
    Keeps InRange (calls cs) fun _ => True := by
  induction cs with
  | nil => exact .pure trivial
  | cons c cs ih =>
    exact .bind (call_keeps (h c List.mem_cons_self)) fun _ _ =>
      ih fun c hc => h c (List.mem_cons_of_mem _ hc)

/-- `hardware_timer`, with such callbacks. -/
theorem hardwareTimer_keeps {callback : ℕ → ℕ → Prog Sr Kernel Unit}
    (h : ∀ func arg, Keeps InRange (callback func arg) fun _ => True) :
    Keeps InRange (hardwareTimer callback) fun _ => True := by
  have hafter : ∀ e, Keeps InRange (afterCallback e) fun _ => True := fun e =>
    .bind (.test _) fun _ _ => .ite (fun _ => writeTick_keeps _ _) fun _ =>
      listDelete_keeps inRange_setHeap _
  have hbody : ∀ e, Keeps InRange (tickBody callback e) fun _ => True := by
    intro e
    refine .bind (.test _) fun _ _ => .ite (fun _ => .bind (.readAny _) fun style _ => ?_) fun _ =>
      writeTick_keeps _ _
    cases style with
    | softwareTimer =>
      exact .bind (.readSomeAny _) fun func _ => .bind (.readAny _) fun arg _ =>
        .bind (h func arg) fun _ _ => hafter e
    | delay =>
      exact .bind (listDelete_keeps inRange_setHeap _) fun _ _ => .bind (.readAny _) fun _ _ =>
        prioReadyQueueInsertTail_keeps _
    | other => exact .pure trivial
  have hstep : ∀ tmp,
      Keeps InRange (tickStep callback tmp) (Sum.elim (fun _ => True) fun _ => True) :=
    fun tmp => .bind (.readAny _) fun _ _ => .ite (fun _ => .pure trivial) fun _ =>
      .bind (.readSomeAny _) fun e _ => .bind (.readAny _) fun _ _ => .bind (hbody e) fun _ _ =>
        .pure trivial
  refine .bind (.critical (V := fun _ => True) ?_) fun _ _ => .bind schedule_keeps fun _ _ =>
    .ret trivial
  exact .bind (write_keeps (fun _ => rfl) (fun _ => rfl) fun _ => rfl) fun _ _ =>
    .loop (fun tmp _ => hstep tmp) trivial

/-- Every entry that does keeps the priorities in range. -/
theorem entry_keeps {e : Entry} (h : e.PrioOk) : Keeps InRange (entry e) fun _ => True := by
  cases e with
  | call c => exact call_keeps h
  | tick cs =>
    exact .bind (hardwareTimer_keeps fun func arg => calls_keeps (h func arg)) fun _ _ =>
      .pure trivial
  | exit =>
    refine .bind (V := fun _ => True) ?_ fun _ _ => .pure trivial
    exact .bind (.critical prioReadyQueueFetch_keeps) fun _ _ => .ret trivial
  | start tcb =>
    exact .bind (write_keeps (fun _ => rfl) (fun _ => rfl) fun _ => rfl) fun _ _ => .pure trivial
  | lock b =>
    exact .bind (write_keeps (fun _ => rfl) (fun _ => rfl) fun _ => rfl) fun _ _ => .pure trivial

end Code

/-! ## What can be reached -/

variable {ok : Entry → Prop} {k : Kernel} {e : Entry} {sr : Sr} {others : ℕ → Option Kernel}
  {r : Except Stop Ret} {c : Cpu Sr Kernel}

theorem StaticsInRange.inRange (h : StaticsInRange k) : InRange k := by
  refine ⟨h.prio, h.copyPrio, ?_⟩
  rw [h.y]
  decide

/-- In all that can be reached the priorities are in range, since every entry keeps them so. -/
theorem Reached.inRange (h : Reached Entry.PrioOk k) : InRange k := by
  induction h with
  | start hz => exact hz.inRange
  | entry _ hok _ hrun hmem ih ihothers =>
    obtain ⟨hinv, -, -⟩ := Code.entry_keeps hok _ ⟨ih, ihothers, by simp⟩ _ _ hrun
    rcases hmem with rfl | hmem
    · exact hinv.mem
    · exact hinv.points _ hmem

/-- Whatever is called, as long as priorities are given in range, no array is indexed out of its
bounds, and the priority of every `TCB` is below `SYSTEM_WORD`. -/
theorem prio_in_bounds (h : Reached Entry.PrioOk k) (he : e.PrioOk)
    (hothers : ∀ i s, others i = some s → Reached Entry.PrioOk s)
    (hrun : Code.entry e ⟨k, sr, others, 0, []⟩ = some (r, c)) :
    r ≠ .error .outOfBounds ∧ ∀ t, c.mem.prio t < SYSTEM_WORD := by
  obtain ⟨hinv, hbounds, -⟩ := Code.entry_keeps he _
    ⟨h.inRange, fun i s hs => (hothers i s hs).inRange, by simp⟩ _ _ hrun
  exact ⟨hbounds, hinv.mem.prio⟩

/-! ## A task is created -/

/-- The kernel when the system starts, with an empty list at every node. -/
def Kernel.zero : Kernel := ⟨Vars.zero, fun x => ⟨x, x⟩, 0, fun _ => 0⟩

theorem staticsInRange_zero : StaticsInRange Kernel.zero :=
  ⟨rfl, fun _ => rfl, fun _ => show 0 < SYSTEM_WORD by decide,
    fun _ => show 0 < SYSTEM_WORD by decide⟩

/-- `task_create` of a task with this priority. -/
def createAt (prio : ℕ) : Entry := .call (.taskCreate (some (.task 1)) (some 0) (some 0) prio)

/-- A processor with interrupts enabled, on which nothing else runs. -/
def idleCpu : Cpu Sr Kernel := ⟨Kernel.zero, SPR_SR_IEE ||| SPR_SR_TEE, fun _ => none, 0, []⟩

/-- A task is created with a priority in range. -/
theorem prio_in_bounds_create : ∃ c, Code.entry (createAt 31) idleCpu = some (.ok .TRUE, c) ∧
    ∀ t, c.mem.prio t < SYSTEM_WORD := by
  have hinsert : ∃ c, Code.prioReadyQueueInsertTail (some (.task 1))
      { idleCpu with mem := Kernel.zero.setPrio (.task 1) 31, clock := 1, points := [.zero] } =
        some (.ok (), c) := by
    unfold Code.prioReadyQueueInsertTail Code.listInsertBehind
    rw [bind_of_ok rfl, bind_of_ok rfl, bind_of_ok rfl, bind_of_ok rfl, bind_of_ok rfl]
    rw [bind_of_ok (loop_of_inr rfl)]
    exact ⟨_, rfl⟩
  obtain ⟨c, hc⟩ := hinsert
  have hrun : Code.entry (createAt 31) idleCpu = some (.ok .TRUE, c.passed) :=
    (bind_of_ok rfl).trans (bind_of_ok hc)
  have hok : (createAt 31).PrioOk := show 31 % 256 < SYSTEM_WORD by decide
  exact ⟨_, hrun, (prio_in_bounds (.start staticsInRange_zero) hok (by simp) hrun).2⟩

/-- `task_create` takes a priority that is none. -/
theorem not_prio_in_bounds_create : ∃ c, Reached (fun _ => True) Kernel.zero ∧
    Code.entry (createAt 32) idleCpu = some (.error .outOfBounds, c) ∧
      c.mem.prio (.task 1) = SYSTEM_WORD := 
  ⟨_, .start staticsInRange_zero, rfl, by decide⟩

end Fos
