import Fos.WellFormed

/-!
# What a call does

Every call of the abstract kernel changes the state (`Call.effect`), and then some calls select a
task (`Abs.exec_effect`). Selecting changes who runs and the order within a ready list, and nothing
else, so that what a call does to a variable or to a list of waiting tasks can be read off its
effect. A call makes its caller wait in at most one list (`Call.waitsIn`) and wakes the first task
of at most one (`Call.wakesFrom`), and so do all changes of the lists of waiting tasks come about
(`Abs.exec_tasks`).
-/

namespace Fos

open Function

/-- What a call by the task `t` does before it selects. -/
def Call.effect (c : Call) (t : TcbPtr) (a : Abs) : Abs :=
  match c with
  | .taskCreate tcb func stack prio => (a.taskCreate tcb func stack prio).1
  | .taskPrioChange tcb prio => (a.taskPrioChange tcb prio).1
  | .osDelay timeslice => a.sleep t timeslice
  | .timerReq timer func timeout period arg => a.timerReq timer func timeout period arg
  | .semInit s num => (a.semInit s num).1
  | .semGet (some s) => if (a.sem s).count = 0 then a.semWait s t
    else a.setSem s { a.sem s with count := (a.sem s).count - 1 }
  | .semPut (some s) => a.semRelease s
  | .mutexInit m => (a.mutexInit m).1
  | .mutexGet (some m) => if (a.mutex m).enable = 0 then a.mutexWait m t else a.mutexTake m t
  | .mutexPut (some m) => a.mutexRelease m t
  | .msgQueueCreate q length => (a.msgQueueCreate q length).1
  | .msgPut q m method => (a.msgPut q m method).1
  | .msgGet (some q) (some buf) => match a.msgs q with
    | [] => a.block (.queue q) t
    | m :: ms => a.receive q buf m ms
  | .semGet none | .semPut none | .mutexGet none | .mutexPut none | .msgGet _ _ | .schedule => a

/-- The list that a call makes its caller wait in. -/
def Call.waitsIn (c : Call) (a : Abs) : Option TaskQueue :=
  match c with
  | .semGet (some s) => if (a.sem s).count = 0 then some (.sem s) else none
  | .mutexGet (some m) => if (a.mutex m).enable = 0 then some (.mutex m) else none
  | .msgGet (some q) (some _) => if a.msgs q = [] then some (.queue q) else none
  | _ => none

/-- The list of waiting tasks whose first task a call wakes. -/
def Call.wakesFrom : Call → Option TaskQueue
  | .semPut (some s) => some (.sem s)
  | .mutexPut (some m) => some (.mutex m)
  | .msgPut (some q) (some _) _ => some (.queue q)
  | _ => none

variable {live : Node → Bool} {a a' : Abs} {c : Call} {t u : TcbPtr} {r r' : Ret} {q : TaskQueue}

/-- The caller of a call: the running task, or any task when `main` makes the call. -/
theorem Abs.exists_caller (a : Abs) : ∃ t, ∀ t', a.newTask = some t' → t' = t := by
  cases a.newTask with
  | none => exact ⟨idleTcb, by simp⟩
  | some t => exact ⟨t, by simp⟩

/-- What `schedule` selects. -/
theorem Abs.schedule_inv (h : a.schedule = some a') :
    ∃ p u ts, a.tasks (.ready p) = u :: ts ∧ a' = a.select p u := by
  unfold Abs.schedule at h
  obtain ⟨p, -, h⟩ := Option.bind_eq_some_iff.mp h
  obtain ⟨u, hu, h⟩ := Option.bind_eq_some_iff.mp h
  obtain ⟨ts, hts⟩ := List.head?_eq_some_iff.mp hu
  exact ⟨p, u, ts, hts, (Option.some.inj h).symm⟩

/-- `a'` is `a`, or `a` with a ready task selected. -/
def Abs.Selected (a a' : Abs) : Prop :=
  a' = a ∨ ∃ p u, u ∈ a.tasks (.ready p) ∧ a' = a.select p u

/-- A call that ends with `schedule`. -/
theorem Abs.selected_of_schedule (h : (a.schedule.bind fun a => some (a, r)) = some (a', r')) :
    a.Selected a' := by
  obtain ⟨a₁, h₁, h⟩ := Option.bind_eq_some_iff.mp h
  obtain ⟨p, u, ts, hts, hsel⟩ := Abs.schedule_inv h₁
  obtain ⟨rfl, -⟩ := Prod.mk.inj (Option.some.inj h)
  exact Or.inr ⟨p, u, by simp [hts], hsel⟩

/-- A call that does not select. -/
theorem Abs.selected_of_eq {b : Abs × Ret} (h : some b = some (a', r)) : b.1.Selected a' :=
  Or.inl (by rw [Option.some.inj h])

/-- A call that reads who runs is made by a task. -/
theorem Abs.newTask_of_bind {β : Type} {f : TcbPtr → Option β} {b : β}
    (hnew : ∀ t', a.newTask = some t' → t' = t) (h : a.newTask.bind f = some b) : f t = some b := by
  obtain ⟨t', ht', h⟩ := Option.bind_eq_some_iff.mp h
  rwa [hnew t' ht'] at h

/-- Every call is its effect, and perhaps a selection. -/
theorem Abs.exec_effect (hnew : ∀ t', a.newTask = some t' → t' = t)
    (h : a.exec c = some (a', r)) : (c.effect t a).Selected a' := by
  cases c with
  | taskCreate | taskPrioChange | timerReq | semInit | mutexInit | msgQueueCreate | msgPut =>
    exact Abs.selected_of_eq h
  | osDelay timeslice => exact Abs.selected_of_schedule (Abs.newTask_of_bind hnew h)
  | semGet s =>
    cases s with
    | none => exact Abs.selected_of_eq h
    | some s =>
      -- A task that has to wait is blocked before the selection; one that takes a unit goes on.
      simp only [Abs.exec, Abs.semGet, Call.effect] at h ⊢
      split_ifs at h ⊢
      · exact Abs.selected_of_schedule (Abs.newTask_of_bind hnew h)
      · exact Abs.selected_of_eq h
  | semPut s =>
    cases s with
    | none => exact Abs.selected_of_eq h
    | some s => exact Abs.selected_of_schedule h
  -- Every `mutex_get` reads who runs, and selects only if it waits.
  | mutexGet m =>
    cases m with
    | none => exact Abs.selected_of_eq h
    | some m =>
      have h := Abs.newTask_of_bind hnew h
      simp only [Call.effect] at h ⊢
      split_ifs at h ⊢
      · exact Abs.selected_of_schedule h
      · exact Abs.selected_of_eq h
  | mutexPut m =>
    cases m with
    | none => exact Abs.selected_of_eq h
    | some m => exact Abs.selected_of_schedule (Abs.newTask_of_bind hnew h)
  | msgGet q buffer =>
    match q, buffer with
    | some q, some buf =>
      simp only [Abs.exec, Abs.msgGet, Call.effect] at h ⊢
      -- With no message the caller waits; with one, `msg_get` selects no other task.
      cases hl : a.msgs q with
      | nil =>
        rw [hl] at h
        exact Abs.selected_of_schedule (Abs.newTask_of_bind hnew h)
      | cons m ms =>
        rw [hl] at h
        exact Abs.selected_of_eq h
    | none, _ | some _, none => exact Abs.selected_of_eq h
  | schedule =>
    -- `schedule` has no effect of its own.
    obtain ⟨a₁, h₁, h⟩ := Option.map_eq_some_iff.mp h
    obtain ⟨p, u, ts, hts, hsel⟩ := Abs.schedule_inv h₁
    obtain ⟨rfl, -⟩ := Prod.mk.inj h
    exact Or.inr ⟨p, u, show u ∈ a.tasks _ by simp [hts], hsel⟩

/-! ## Selecting changes nothing else -/

namespace Abs.Selected

theorem prio (h : a.Selected a') : a'.prio = a.prio := by
  rcases h with rfl | ⟨p, u, -, rfl⟩ <;> simp

theorem tick (h : a.Selected a') : a'.tick = a.tick := by
  rcases h with rfl | ⟨p, u, -, rfl⟩ <;> simp

theorem sem (h : a.Selected a') : a'.sem = a.sem := by
  rcases h with rfl | ⟨p, u, -, rfl⟩ <;> simp

theorem mutex (h : a.Selected a') : a'.mutex = a.mutex := by
  rcases h with rfl | ⟨p, u, -, rfl⟩ <;> simp

theorem queue (h : a.Selected a') : a'.queue = a.queue := by
  rcases h with rfl | ⟨p, u, -, rfl⟩ <;> simp

theorem mem (h : a.Selected a') : a'.mem = a.mem := by
  rcases h with rfl | ⟨p, u, -, rfl⟩ <;> simp

theorem msg (h : a.Selected a') : a'.msg = a.msg := by
  rcases h with rfl | ⟨p, u, -, rfl⟩ <;> simp

theorem fosTick (h : a.Selected a') : a'.fosTick = a.fosTick := by
  rcases h with rfl | ⟨p, u, -, rfl⟩ <;> simp

theorem log (h : a.Selected a') : a'.log = a.log := by
  rcases h with rfl | ⟨p, u, -, rfl⟩ <;> simp

theorem ticks (h : a.Selected a') : a'.ticks = a.ticks := by
  rcases h with rfl | ⟨p, u, -, rfl⟩ <;> simp

theorem msgs (h : a.Selected a') : a'.msgs = a.msgs := by
  rcases h with rfl | ⟨p, u, -, rfl⟩ <;> simp

/-- A list of waiting tasks stays. -/
theorem tasks_eq (h : a.Selected a') (w : WF live a) (hq : ∀ p, q ≠ .ready p) :
    a'.tasks q = a.tasks q := by
  rcases h with rfl | ⟨p, v, hv, rfl⟩
  · rfl
  · exact w.tasks.select_tasks_of_ne hv (hq p)

end Abs.Selected

/-! ## The effects keep the lists well formed -/

/-- The effect of every call that is made as `CallUsage` says keeps the lists well formed. -/
theorem WF.effect {hst : Hist} {s : Sys Abs} (w : WF s.live s.k) (hready : s.k.RunningReady)
    (hu : CallUsage hst s s.k.newTask c) (hmain : s.k.newTask = none → c.IsSetUp = true)
    (hidle : s.k.newTask = some idleTcb → c = .schedule)
    (hcopy : ∀ u m, hasCalledGet u m hst = true → (s.k.mutex m).copyPrio < SYSTEM_WORD)
    (hnew : ∀ t', s.k.newTask = some t' → t' = t) : WF (setUp s.live c) (c.effect t s.k) := by
  -- A call that is not a set-up is made by a ready task other than the idle one.
  have htask : c.IsSetUp = false → c ≠ .schedule →
      t ∈ s.k.tasks (.ready (s.k.prio t)) ∧ t ≠ idleTcb := by
    intro hset hne
    cases ht : s.k.newTask with
    | none => simp [hmain ht] at hset
    | some t' =>
      obtain rfl := hnew t' ht
      exact ⟨hready t' ht, fun e => hne (hidle (by rw [ht, e]))⟩
  cases c with
  | taskCreate tcb func stack prio =>
    match tcb, func, stack with
    | some t, some f, some st => exact w.taskCreate hu.2.1 hu.1 hu.2.2
    | none, _, _ | some _, none, _ | some _, some _, none => exact w
  | taskPrioChange tcb prio =>
    cases tcb with
    | none => exact w
    | some u =>
      obtain ⟨ht, hne⟩ := htask rfl (by simp)
      obtain rfl : u = t := hnew u hu.1
      simp only [Call.effect, Abs.taskPrioChange]
      split_ifs
      · exact w
      · exact w.reprio ht hne hu.2
  | osDelay timeslice =>
    obtain ⟨ht, hne⟩ := htask rfl (by simp)
    exact w.sleep ht hne timeslice
  | timerReq timer func timeout period arg =>
    cases timer with
    | none => cases func <;> exact w
    | some e =>
      obtain ⟨⟨n, rfl⟩, hq⟩ := hu
      exact w.timerReq hq func timeout period arg
  | semInit i num =>
    cases i with
    | none => exact w
    | some i => exact w.semInit i num
  | semGet i =>
    cases i with
    | none => exact w
    | some i =>
      obtain ⟨ht, hne⟩ := htask rfl (by simp)
      simp only [Call.effect]
      split_ifs
      · exact w.semWait ht hne hu
      · exact w.setSem _ _
  | semPut i =>
    cases i with
    | none => exact w
    | some i => exact w.semRelease i
  | mutexInit m =>
    cases m with
    | none => exact w
    | some m => exact w.mutexInit m
  | mutexGet m =>
    cases m with
    | none => exact w
    | some m =>
      obtain ⟨ht, hne⟩ := htask rfl (by simp)
      simp only [Call.effect]
      split_ifs
      · exact w.mutexWait ht hne hu
      · exact w.mutexTake ht hne m
  | mutexPut m =>
    cases m with
    | none => exact w
    | some m =>
      obtain ⟨ht, hne⟩ := htask rfl (by simp)
      obtain ⟨-, u, -, hget⟩ := hu
      exact w.mutexRelease ht hne (hcopy u m hget)
  | msgQueueCreate q length =>
    cases q with
    | none => exact w
    | some q =>
      by_cases h0 : length = 0
      · simpa [Call.effect, Abs.msgQueueCreate, setUp, Call.setsUp, h0] using w
      · simpa [Call.effect, Abs.msgQueueCreate, setUp, Call.setsUp, h0] using
          w.msgQueueCreate hu.1 hu.2
  | msgPut q m method =>
    match q, m with
    | some q, some m =>
      refine w.msgPut hu.1 (fun q' hm => ?_) method
      cases hq' : s.live (.queue q') with
      | false => simp [w.msgs.closed q' hq'] at hm
      | true => exact hu.2 q' hq' hm
    | none, _ | some _, none => exact w
  | msgGet q buffer =>
    match q, buffer with
    | some q, some buf =>
      obtain ⟨ht, hne⟩ := htask rfl (by simp)
      simp only [Call.effect]
      cases hl : s.k.msgs q with
      | nil => exact w.block ht hne hu (by simp)
      | cons m ms => exact w.receive hl buf
    | none, _ | some _, none => exact w
  | schedule => exact w

/-! ## The lists of waiting tasks -/

/-- `wakeFirst` takes the first task off its list, and leaves the other lists of waiting tasks. -/
theorem Abs.wakeFirst_tasks (q' : TaskQueue)
    (hap : ∀ u, u ∈ a.tasks q' → u ∈ a.tasks q → q = q') (hq : ∀ p, q ≠ .ready p) :
    (a.wakeFirst q').tasks q = if q' = q then (a.tasks q).tail else a.tasks q := by
  unfold Abs.wakeFirst
  cases hl : a.tasks q' with
  | nil =>
    split_ifs with h
    · simp [← h, hl]
    · rfl
  | cons u us =>
    simp only [Abs.wake, Abs.pushHead, Abs.remove, update_of_ne (hq _)]
    split_ifs with h
    · simp [← h, hl]
    · exact List.erase_of_not_mem fun hm => h (hap u (by simp [hl]) hm).symm

/-- A running task that waits goes to the end of its list, and leaves the other lists of waiting
tasks. -/
theorem WF.block_tasks (w : WF live a) (q' : TaskQueue) (ht : t ∈ a.tasks (.ready (a.prio t)))
    (hq : ∀ p, q ≠ .ready p) :
    (a.block q' t).tasks q = if q' = q then a.tasks q ++ [t] else a.tasks q := by
  simp only [Abs.block, Abs.pushTail, Abs.remove, update_apply]
  split_ifs with h h' h'
  · rw [← h, w.tasks.erase_of_mem ht (hq _)]
  · exact absurd h.symm h'
  · exact absurd h'.symm h
  · exact w.tasks.erase_of_mem ht (hq _)

/-- `reprio` leaves the lists of waiting tasks. -/
theorem WF.reprio_tasks (w : WF live a) {p : ℕ} (ht : t ∈ a.tasks (.ready (a.prio t)))
    (hq : ∀ p, q ≠ .ready p) : (a.reprio t p).tasks q = a.tasks q := by
  simp only [Abs.reprio, Abs.pushHead, Abs.setPrio, Abs.remove, update_of_ne (hq _)]
  exact w.tasks.erase_of_mem ht (hq _)

/-- What the effect of a call by a ready task does to a list of waiting tasks. -/
theorem WF.effect_tasks (w : WF live a)
    (hready : c.IsSetUp = false → t ∈ a.tasks (.ready (a.prio t)))
    (hself : ∀ u p, c = .taskPrioChange (some u) p → u = t) (hq : ∀ p, q ≠ .ready p) :
    (c.effect t a).tasks q =
      if c.waitsIn a = some q then a.tasks q ++ [t]
      else if c.wakesFrom = some q then (a.tasks q).tail else a.tasks q := by
  cases c with
  | taskCreate tcb func stack prio =>
    obtain _ | u := tcb
    · rfl
    obtain _ | f := func
    · rfl
    obtain _ | st := stack
    · rfl
    -- The task that is created goes to a ready list, and so to none that is waited in.
    simp [Call.effect, Abs.taskCreate, Abs.pushTail, Abs.setPrio, Call.waitsIn, Call.wakesFrom, hq]
  | taskPrioChange tcb prio =>
    cases tcb with
    | none => rfl
    | some u =>
      -- The caller changes its own priority, and it is ready.
      obtain rfl := hself u prio rfl
      simp only [Call.effect, Abs.taskPrioChange, Call.waitsIn, Call.wakesFrom, reduceCtorEq,
        if_false]
      split_ifs
      · rfl
      · exact w.reprio_tasks (hready rfl) hq
  | osDelay timeslice =>
    simp only [Call.effect, Abs.sleep, Abs.pushTick, Abs.remove, Abs.note, Abs.setTick,
      Call.waitsIn, Call.wakesFrom, reduceCtorEq, if_false]
    exact w.tasks.erase_of_mem (hready rfl) (hq _)
  | timerReq timer func timeout period arg =>
    simp only [Call.effect, Abs.timerReq, Call.waitsIn, Call.wakesFrom, reduceCtorEq, if_false]
    split
    · split_ifs <;> rfl
    · rfl
  | semInit i num => cases i <;> rfl
  | semGet i =>
    cases i with
    | none => rfl
    | some i =>
      simp only [Call.effect, Call.waitsIn, Call.wakesFrom, reduceCtorEq, if_false]
      by_cases hc : (a.sem i).count = 0
      · simp only [if_pos hc, Option.some.injEq]
        exact (w.setSem i _).block_tasks (.sem i) (hready rfl) hq
      · simp [hc, Abs.setSem]
  | semPut i =>
    cases i with
    | none => rfl
    | some i =>
      simp only [Call.effect, Call.waitsIn, Call.wakesFrom, reduceCtorEq, if_false, Abs.semRelease,
        Option.some.injEq]
      -- The list loses its first task, if there is one; without one, the count changes.
      have hwake := Abs.wakeFirst_tasks (a := a) (q := q) (.sem i)
        (fun u hu hu' => w.tasks.apart _ _ u hu' hu) hq
      by_cases hl : a.tasks (.sem i) = []
      · have hsame : (if TaskQueue.sem i = q then (a.tasks q).tail else a.tasks q) = a.tasks q := by
          split_ifs with hi
          · rw [← hi, hl, List.tail_nil]
          · rfl
        rw [if_neg (by simpa using hl), hsame]
        split_ifs <;> rfl
      · rw [if_pos hl, hwake]
  | mutexInit m => cases m <;> rfl
  | mutexGet m =>
    cases m with
    | none => rfl
    | some m =>
      simp only [Call.effect, Call.waitsIn, Call.wakesFrom, reduceCtorEq, if_false]
      by_cases hc : (a.mutex m).enable = 0
      · simp only [if_pos hc, Option.some.injEq]
        exact (w.setMutex m _).block_tasks (.mutex m) (hready rfl) hq
      · simp only [if_neg hc, reduceCtorEq, if_false]
        exact (w.setMutex m _).reprio_tasks (hready rfl) hq
  | mutexPut m =>
    cases m with
    | none => rfl
    | some m =>
      -- The caller gets its old priority back before the first task is woken, and both are ready
      -- tasks then, so that the lists of waiting tasks differ by the woken one only.
      have hreprio := fun q hq => (w.setMutex m { a.mutex m with enable := 1 }).reprio_tasks
        (q := q) (p := (a.mutex m).copyPrio) (hready rfl) hq
      have hm := hreprio (.mutex m) (by simp)
      have hwake := Abs.wakeFirst_tasks (q := q)
        (a := (a.setMutex m { a.mutex m with enable := 1 }).reprio t (a.mutex m).copyPrio)
        (.mutex m)
        (fun u hu hu' => w.tasks.apart _ _ u (hreprio q hq ▸ hu') (hm ▸ hu)) hq
      simp only [Call.effect, Call.waitsIn, Call.wakesFrom, reduceCtorEq, if_false,
        Abs.mutexRelease, Option.some.injEq]
      rw [hwake, hreprio q hq]
      rfl
  | msgQueueCreate q length =>
    cases q with
    | none => rfl
    | some q =>
      simp only [Call.effect, Abs.msgQueueCreate, Call.waitsIn, Call.wakesFrom, reduceCtorEq,
        if_false]
      split_ifs <;> rfl
  | msgPut i m method =>
    obtain _ | i := i
    · rfl
    obtain _ | m := m
    · rfl
    simp only [Call.effect, Abs.msgPut, Call.waitsIn, Call.wakesFrom, reduceCtorEq, if_false,
      Option.some.injEq]
    -- A full queue and one with room differ in the messages, which are no tasks.
    have hwake := Abs.wakeFirst_tasks (a := a) (q := q) (.queue i)
      (fun u hu hu' => w.tasks.apart _ _ u hu' hu) hq
    rw [← hwake]
    split_ifs <;> rfl
  | msgGet i buffer =>
    obtain _ | i := i
    · rfl
    obtain _ | buf := buffer
    · rfl
    simp only [Call.effect, Call.waitsIn, Call.wakesFrom, reduceCtorEq, if_false]
    cases hl : a.msgs i with
    | nil => simpa using w.block_tasks (.queue i) (hready rfl) hq
    | cons m ms => simp [Abs.receive, Abs.setQueue, Abs.setMsgs, Abs.setMem]
  | schedule => rfl

/-! ## The variables -/

/-- The semaphore that a call is about. -/
def Call.semArg : Call → Option ℕ
  | .semInit s _ | .semGet s | .semPut s => s
  | _ => none

/-- The mutex that a call is about. -/
def Call.mutexArg : Call → Option ℕ
  | .mutexInit m | .mutexGet m | .mutexPut m => m
  | _ => none

/-- The queue that a call is about. -/
def Call.queueArg : Call → Option ℕ
  | .msgQueueCreate q _ | .msgPut q _ _ | .msgGet q _ => q
  | _ => none

/-- The task whose priority a call of the task `t` may change. -/
def Call.prioArg (t : TcbPtr) : Call → Option TcbPtr
  | .taskCreate tcb _ _ _ | .taskPrioChange tcb _ => tcb
  | .mutexGet _ | .mutexPut _ => some t
  | _ => none

/-- The entry that a call of the task `t` puts into the tick queue. -/
def Call.queues (t : TcbPtr) : Call → Option TickPtr
  | .osDelay _ => some (.delay t)
  | .timerReq (some e) (some _) timeout _ _ => if timeout = 0 then none else some e
  | _ => none

/-- What a call of the task `t` notes. -/
def Call.notes (t : TcbPtr) : Call → Option TimerEvent
  | .osDelay _ => some (.sleep (.delay t))
  | .timerReq (some e) (some _) timeout period _ =>
    if timeout = 0 then none else some (.request e period)
  | _ => none

/-- What a call of the task `t` leaves as it is. -/
structure Call.Frame (c : Call) (t : TcbPtr) (a a' : Abs) : Prop where
  prio : ∀ u, some u ≠ c.prioArg t → a'.prio u = a.prio u
  tick : ∀ e, some e ≠ c.queues t → a'.tick e = a.tick e
  sem : ∀ s, some s ≠ c.semArg → a'.sem s = a.sem s
  mutex : ∀ m, some m ≠ c.mutexArg → a'.mutex m = a.mutex m
  queue : ∀ q, some q ≠ c.queueArg → a'.queue q = a.queue q
  msgs : ∀ q, some q ≠ c.queueArg → a'.msgs q = a.msgs q
  msg : a'.msg = a.msg
  fosTick : a'.fosTick = a.fosTick
  ticks : a'.ticks = a.ticks ++ (c.queues t).toList
  log : a'.log = (c.notes t).toList ++ a.log

@[simp] theorem Abs.wakeFirst_vars (a : Abs) (q : TaskQueue) :
    (a.wakeFirst q).toVars = a.toVars := by
  unfold Abs.wakeFirst
  split <;> rfl

@[simp] theorem Abs.wakeFirst_ticks (a : Abs) (q : TaskQueue) :
    (a.wakeFirst q).ticks = a.ticks := by
  unfold Abs.wakeFirst
  split <;> rfl

@[simp] theorem Abs.wakeFirst_msgs (a : Abs) (q : TaskQueue) : (a.wakeFirst q).msgs = a.msgs := by
  unfold Abs.wakeFirst
  split <;> rfl

/-- A call that leaves everything as it is. -/
theorem Call.Frame.refl (hq : c.queues t = none) (hn : c.notes t = none) : c.Frame t a a :=
  ⟨fun _ _ => rfl, fun _ _ => rfl, fun _ _ => rfl, fun _ _ => rfl, fun _ _ => rfl, fun _ _ => rfl,
    rfl, rfl, by simp [hq], by simp [hn]⟩

/-- What the effect of a call leaves as it is. -/
theorem Call.effect_frame : c.Frame t a (c.effect t a) := by
  cases c with
  | taskCreate tcb func stack prio =>
    obtain _ | u := tcb
    · exact .refl rfl rfl
    obtain _ | f := func
    · exact .refl rfl rfl
    obtain _ | st := stack
    · exact .refl rfl rfl
    -- A task is created: its priority and the ready lists change.
    constructor <;> simp +contextual [Call.effect, Abs.taskCreate, Call.prioArg, Call.queues,
      Call.notes, Abs.pushTail, Abs.setPrio]
  | taskPrioChange tcb prio =>
    cases tcb with
    | none => exact .refl rfl rfl
    | some u =>
      simp only [Call.effect, Abs.taskPrioChange]
      split_ifs
      · exact .refl rfl rfl
      · constructor <;> simp +contextual [Call.prioArg, Call.queues, Call.notes, Abs.reprio,
          Abs.pushHead, Abs.setPrio, Abs.remove]
  | osDelay timeslice =>
    constructor <;> simp +contextual [Call.effect, Call.queues, Call.notes, Abs.sleep, Abs.pushTick,
      Abs.remove, Abs.note, Abs.setTick]
  | timerReq timer func timeout period arg =>
    obtain _ | e := timer
    · cases func <;> exact .refl rfl rfl
    obtain _ | f := func
    · exact .refl rfl rfl
    by_cases h0 : timeout = 0
    · simp only [Call.effect, Abs.timerReq, h0, if_true]
      -- A timeout of 0 is refused.
      exact .refl (by simp [Call.queues]) (by simp [Call.notes])
    · constructor <;> simp +contextual [Call.effect, Abs.timerReq, h0, Call.queues, Call.notes,
        Abs.pushTick, Abs.note, Abs.setTick]
  | semInit i num =>
    cases i with
    | none => exact .refl rfl rfl
    | some i =>
      constructor <;> simp +contextual [Call.effect, Abs.semInit, Call.semArg, Call.queues,
        Call.notes, Abs.setSem]
  | semGet i =>
    cases i with
    | none => exact .refl rfl rfl
    | some i =>
      simp only [Call.effect]
      split_ifs
      -- The caller waits, or the count changes.
      · constructor <;> simp +contextual [Call.semArg, Call.queues, Call.notes, Abs.semWait,
          Abs.block, Abs.pushTail, Abs.remove, Abs.setSem]
      · constructor <;> simp +contextual [Call.semArg, Call.queues, Call.notes, Abs.setSem]
  | semPut i =>
    cases i with
    | none => exact .refl rfl rfl
    | some i =>
      simp only [Call.effect, Abs.semRelease]
      -- A waiting task is woken, or the count goes up, unless it is at its limit.
      split_ifs
      · constructor <;> simp [Call.queues, Call.notes]
      · constructor <;> simp +contextual [Call.semArg, Call.queues, Call.notes, Abs.setSem]
      · exact .refl rfl rfl
  | mutexInit m =>
    cases m with
    | none => exact .refl rfl rfl
    | some m =>
      constructor <;> simp +contextual [Call.effect, Abs.mutexInit, Call.mutexArg, Call.queues,
        Call.notes, Abs.setMutex]
  | mutexGet m =>
    cases m with
    | none => exact .refl rfl rfl
    | some m =>
      simp only [Call.effect]
      split_ifs
      · constructor <;> simp +contextual [Call.mutexArg, Call.queues, Call.notes, Abs.mutexWait,
          Abs.block, Abs.pushTail, Abs.remove, Abs.setMutex]
      · constructor <;> simp +contextual [Call.mutexArg, Call.prioArg, Call.queues, Call.notes,
          Abs.mutexTake, Abs.reprio, Abs.pushHead, Abs.remove, Abs.setPrio, Abs.setMutex]
  | mutexPut m =>
    cases m with
    | none => exact .refl rfl rfl
    | some m =>
      constructor <;> simp +contextual [Call.effect, Call.mutexArg, Call.prioArg, Call.queues,
        Call.notes, Abs.mutexRelease, Abs.reprio, Abs.pushHead, Abs.remove, Abs.setPrio,
        Abs.setMutex]
  | msgQueueCreate q length =>
    cases q with
    | none => exact .refl rfl rfl
    | some q =>
      simp only [Call.effect, Abs.msgQueueCreate]
      split_ifs
      · exact .refl rfl rfl
      · constructor <;> simp +contextual [Call.queueArg, Call.queues, Call.notes, Abs.setQueue]
  | msgPut i m method =>
    obtain _ | i := i
    · exact .refl rfl rfl
    obtain _ | m := m
    · exact .refl rfl rfl
    simp only [Call.effect, Abs.msgPut]
    split_ifs
    · constructor <;> simp [Call.queues, Call.notes]
    · constructor <;> simp +contextual [Call.queueArg, Call.queues, Call.notes, Abs.enqueue,
        Abs.setQueue, Abs.setMsgs]
  | msgGet i buffer =>
    obtain _ | i := i
    · exact .refl rfl rfl
    obtain _ | buf := buffer
    · exact .refl rfl rfl
    simp only [Call.effect]
    split
    · constructor <;> simp [Call.queues, Call.notes, Abs.block, Abs.pushTail, Abs.remove]
    · constructor <;> simp +contextual [Call.queueArg, Call.queues, Call.notes, Abs.receive,
        Abs.setQueue, Abs.setMsgs, Abs.setMem]
  | schedule => exact .refl rfl rfl

/-- What a call leaves as it is. -/
theorem Abs.exec_frame (hnew : ∀ t', a.newTask = some t' → t' = t) (h : a.exec c = some (a', r)) :
    c.Frame t a a' := by
  have hs := Abs.exec_effect hnew h
  obtain ⟨h₁, h₂, h₃, h₄, h₅, h₆, h₇, h₈, h₉, h₁₀⟩ := c.effect_frame (t := t) (a := a)
  exact ⟨hs.prio ▸ h₁, hs.tick ▸ h₂, hs.sem ▸ h₃, hs.mutex ▸ h₄, hs.queue ▸ h₅, hs.msgs ▸ h₆,
    hs.msg.trans h₇, hs.fosTick.trans h₈, hs.ticks.trans h₉, hs.log.trans h₁₀⟩

/-! ## The priorities -/

/-- The task to which a call gives a priority that is not for a mutex, and the priority. -/
def Call.rebases : Call → Option (TcbPtr × ℕ)
  | .taskCreate (some t) (some _) (some _) prio => some (t, prio)
  | .taskPrioChange (some t) prio =>
    if prio < 1 ∨ SYSTEM_WORD < prio then none else some (t, prio)
  | _ => none

/-- What a call makes of the priorities, unless it is about a mutex. -/
theorem Abs.exec_prio (h : a.exec c = some (a', r)) (hm : c.mutexArg = none)
    (hp : ∀ u p, c = .taskPrioChange (some u) p → p < SYSTEM_WORD) :
    a'.prio = match c.rebases with
      | some (u, p) => update a.prio u p
      | none => a.prio := by
  obtain ⟨t, hnew⟩ := a.exists_caller
  rw [(Abs.exec_effect hnew h).prio]
  have hframe := (Call.effect_frame (c := c) (t := t) (a := a)).prio
  match c with
  | .taskCreate (some u) (some _) (some _) prio => rfl
  | .taskCreate none _ _ _ | .taskCreate (some _) none _ _ | .taskCreate (some _) (some _) none _ =>
    rfl
  | .taskPrioChange none _ => rfl
  | .taskPrioChange (some u) prio =>
    have hlt : ¬ SYSTEM_WORD < prio := by have := hp u prio rfl; omega
    by_cases h0 : prio = 0
    · simp [Call.effect, Abs.taskPrioChange, Call.rebases, h0]
    · have h1 : ¬ prio < 1 := by omega
      simp [Call.effect, Abs.taskPrioChange, Call.rebases, h0, hlt, Abs.reprio, Abs.pushHead,
        Abs.setPrio, Abs.remove]
  | .mutexGet none | .mutexPut none => rfl
  | .mutexGet (some _) | .mutexPut (some _) => simp [Call.mutexArg] at hm
  | .osDelay _ | .timerReq .. | .semInit .. | .semGet _ | .semPut _ | .mutexInit _
  | .msgQueueCreate .. | .msgPut .. | .msgGet .. | .schedule =>
    exact funext fun u => hframe u (by simp [Call.prioArg])

/-! ## The messages -/

/-- What a call makes of the messages of a queue. -/
def Call.msgsOf (c : Call) (a : Abs) (i : ℕ) : List ℕ :=
  match c with
  | .msgPut (some q) (some m) method =>
    if q = i ∧ (a.queue i).count ≠ (a.queue i).length then
      if method = FIFO then a.msgs i ++ [m] else m :: a.msgs i
    else a.msgs i
  | .msgGet (some q) (some _) => if q = i then (a.msgs i).tail else a.msgs i
  | _ => a.msgs i

/-- What the effect of a call makes of the messages of a queue. -/
theorem Call.effect_msgs (i : ℕ) : (c.effect t a).msgs i = c.msgsOf a i := by
  -- Only the calls that are about the queue change its messages, and of these only three do.
  by_cases hi : some i = c.queueArg
  · cases c with
    | msgQueueCreate q length =>
      obtain rfl : some i = q := hi
      simp only [Call.effect, Abs.msgQueueCreate, Call.msgsOf]
      split_ifs <;> rfl
    | msgPut q m method =>
      obtain rfl : some i = q := hi
      cases m with
      | none => rfl
      | some m =>
        simp only [Call.effect, Abs.msgPut, Call.msgsOf, Abs.wakeFirst_vars, true_and]
        by_cases hfull : (a.queue i).count = (a.queue i).length
        · simp [hfull]
        · simp [hfull, Abs.enqueue, Abs.setQueue, Abs.setMsgs]
    | msgGet q buffer =>
      obtain rfl : some i = q := hi
      cases buffer with
      | none => rfl
      | some buf =>
        simp only [Call.effect, Call.msgsOf, if_true]
        split
        · next heq => simp [Abs.block, Abs.pushTail, Abs.remove, heq]
        · next heq => simp [Abs.receive, Abs.setQueue, Abs.setMsgs, heq]
    | _ => cases hi
  -- On another queue, `msgsOf` has to leave the messages as they are.
  · rw [(Call.effect_frame (c := c) (t := t) (a := a)).msgs i hi]
    have hne : ∀ q, some q = c.queueArg → q ≠ i := fun q hq e => hi (e ▸ hq)
    cases c with
    | msgPut q m method =>
      obtain _ | q := q
      · rfl
      cases m <;> simp [Call.msgsOf, hne q rfl]
    | msgGet q buffer =>
      obtain _ | q := q
      · rfl
      cases buffer <;> simp [Call.msgsOf, hne q rfl]
    | _ => rfl

/-- What a call makes of the messages of a queue. -/
theorem Abs.exec_msgs (h : a.exec c = some (a', r)) (i : ℕ) : a'.msgs i = c.msgsOf a i := by
  obtain ⟨t, hnew⟩ := a.exists_caller
  rw [(Abs.exec_effect hnew h).msgs, Call.effect_msgs]

/-- A message that is queued after a call was queued before, or the call has put it. -/
theorem Call.mem_msgsOf {i m : ℕ} (h : m ∈ c.msgsOf a i) :
    m ∈ a.msgs i ∨ ∃ q method, c = .msgPut q (some m) method := by
  unfold Call.msgsOf at h
  split at h
  · next q m' method =>
    have : m ∈ a.msgs i ∨ m = m' := by
      split_ifs at h
      · simpa using h
      · exact (List.mem_cons.mp h).symm
      · exact Or.inl h
    exact this.imp_right fun h => ⟨some q, method, by rw [h]⟩
  · split_ifs at h
    · exact Or.inl (List.mem_of_mem_tail h)
    · exact Or.inl h
  · exact Or.inl h

/-! ## The calls of a mutex -/

section Mutex

variable {m : ℕ}

/-- What `mutex_init` does to its mutex. -/
theorem Call.effect_mutexInit : ((Call.mutexInit (some m)).effect t a).mutex m =
    { a.mutex m with enable := 1 } := by
  simp [Call.effect, Abs.mutexInit, Abs.setMutex]

/-- What `mutex_get` does to its mutex when that is held. -/
theorem Call.effect_mutexGet_wait (hc : (a.mutex m).enable = 0) :
    ((Call.mutexGet (some m)).effect t a).mutex m = { a.mutex m with tcb := some t } := by
  simp [Call.effect, hc, Abs.mutexWait, Abs.block, Abs.pushTail, Abs.remove, Abs.setMutex]

/-- What `mutex_get` does to its mutex when that is free. -/
theorem Call.effect_mutexGet_take (hc : (a.mutex m).enable ≠ 0) :
    ((Call.mutexGet (some m)).effect t a).mutex m =
      { a.mutex m with copyPrio := a.prio t, enable := 0 } := by
  simp [Call.effect, hc, Abs.mutexTake, Abs.reprio, Abs.pushHead, Abs.remove, Abs.setPrio,
    Abs.setMutex]

/-- What `mutex_put` does to its mutex. -/
theorem Call.effect_mutexPut : ((Call.mutexPut (some m)).effect t a).mutex m =
    { a.mutex m with enable := 1 } := by
  simp [Call.effect, Abs.mutexRelease, Abs.reprio, Abs.pushHead, Abs.remove, Abs.setPrio,
    Abs.setMutex]

/-- What `mutex_init` does. -/
theorem Abs.exec_mutexInit (h : a.exec (.mutexInit (some m)) = some (a', r)) :
    a'.mutex m = { a.mutex m with enable := 1 } := by
  obtain ⟨t, hnew⟩ := a.exists_caller
  rw [(Abs.exec_effect hnew h).mutex, Call.effect_mutexInit]

/-- What `mutex_get` does when the mutex is held. -/
theorem Abs.exec_mutexGet_wait (hnew : a.newTask = some t)
    (h : a.exec (.mutexGet (some m)) = some (a', r)) (hc : (a.mutex m).enable = 0) :
    a'.mutex m = { a.mutex m with tcb := some t } ∧ a'.prio = a.prio := by
  have hs := Abs.exec_effect (t := t) (fun t' ht' => Option.some.inj (ht'.symm.trans hnew)) h
  rw [hs.mutex, hs.prio, Call.effect_mutexGet_wait hc]
  simp [Call.effect, hc, Abs.mutexWait, Abs.block, Abs.pushTail, Abs.remove, Abs.setMutex]

/-- What `mutex_get` does when the mutex is free. -/
theorem Abs.exec_mutexGet_take (hnew : a.newTask = some t)
    (h : a.exec (.mutexGet (some m)) = some (a', r)) (hc : (a.mutex m).enable ≠ 0) :
    a'.mutex m = { a.mutex m with copyPrio := a.prio t, enable := 0 } ∧
      a'.prio = update a.prio t PRIO_MUTEX ∧ a'.newTask = some t := by
  have ha' : a' = a.mutexTake m t := by
    simp only [Abs.exec, Abs.mutexGet, hnew, Option.bind_eq_bind, Option.bind_some, if_neg hc,
      Option.some.injEq, Prod.mk.injEq] at h
    exact h.1.symm
  rw [ha']
  refine ⟨by simp [Abs.mutexTake, Abs.reprio, Abs.pushHead, Abs.remove, Abs.setPrio, Abs.setMutex],
    rfl, hnew⟩

/-- What `mutex_get` returns. -/
theorem Abs.exec_mutexGet_ret (h : a.exec (.mutexGet (some m)) = some (a', r)) : r = .TRUE := by
  obtain ⟨t, -, h⟩ := Option.bind_eq_some_iff.mp h
  split_ifs at h
  · obtain ⟨b, -, h⟩ := Option.bind_eq_some_iff.mp h
    exact (Prod.mk.inj (Option.some.inj h)).2.symm
  · exact (Prod.mk.inj (Option.some.inj h)).2.symm

/-- What `mutex_put` does. -/
theorem Abs.exec_mutexPut (hnew : a.newTask = some t)
    (h : a.exec (.mutexPut (some m)) = some (a', r)) :
    a'.mutex m = { a.mutex m with enable := 1 } ∧
      a'.prio = update a.prio t (a.mutex m).copyPrio := by
  have hs := Abs.exec_effect (t := t) (fun t' ht' => Option.some.inj (ht'.symm.trans hnew)) h
  rw [hs.mutex, hs.prio, Call.effect_mutexPut]
  simp [Call.effect, Abs.mutexRelease, Abs.reprio, Abs.pushHead, Abs.remove, Abs.setPrio,
    Abs.setMutex]

end Mutex

end Fos
