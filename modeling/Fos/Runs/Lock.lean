import Fos.Runs.Control

/-!
# The lock of the scheduler

Between `schedule_lock` and `schedule_unlock`, the running task, the handlers of interrupts, and the
callbacks of timers may call any function of the kernel, and the tick comes. `schedule` leaves the
running task selected, and with it every call and `hardware_timer` (`lockedStep_selection`).
`find_high_ready_task`, with which the interrupts of the port end, does not look at the lock. It
leaves the running task selected exactly where that task is the first one of the highest priority
(`lock_excludes_switch_iff`).
-/

namespace Fos

open Function Runs

/-- What can happen between `schedule_lock` and the next `schedule_unlock`. A tick interrupt is
`timer` and then `exit`; an external interrupt is the calls of its handler and then `exit`. -/
inductive Locked where
  /-- The running task, or the handler of an external interrupt, makes a call. -/
  | call (c : Call)
  /-- The tick interrupt calls `hardware_timer`; the callback of an entry makes the calls given. -/
  | timer (calls : TickPtr → List Call)
  /-- The interrupt calls `find_high_ready_task`, and ends. -/
  | exit
  /-- The running task calls `schedule_lock` again. -/
  | lock

namespace Kernel

/-- The calls of a callback, one after the other. -/
def runCalls : List Call → Kernel → Option Kernel
  | [], k => some k
  | c :: cs, k => (k.exec c).bind fun r => runCalls cs r.1

/-- `hardware_timer`, where no call switches and so every callback returns. -/
def lockedTimer (calls : TickPtr → List Call) (k : Kernel) : Option Kernel :=
  (k.tickPass fun e k => k.runCalls (calls e)).bind schedule

/-- One step under the lock. -/
def lockedStep (k : Kernel) : Locked → Option Kernel
  | .call c => (k.exec c).map Prod.fst
  | .timer calls => k.lockedTimer calls
  | .exit => k.findHighReadyTask
  | .lock => some k.scheduleLock

/-- The tasks that are selected, and the lock. -/
def selection (k : Kernel) : Option TcbPtr × Option TcbPtr × Bool :=
  (k.newTask, k.oldTask, k.scheduleIsLock)

/-- The running task is the first one in the ready list that the bitmap gives. -/
def RunningFirst (k : Kernel) : Prop :=
  ∃ t, k.newTask = some t ∧ (k.heap (readyHead k.bitmapGet)).next = .tcb t

end Kernel

/-- The runs that begin with `schedule_lock` in the state `k`. -/
abbrev LockedRun (k : Kernel) :=
  Run (fun k₀ => k₀ = k.scheduleLock) Kernel.lockedStep fun _ _ _ => True

namespace Kernel

variable {k k' : Kernel} {r : Ret} {t : Option TcbPtr}

/-! ## What calls do up to `schedule` -/

theorem selection_of_vars (h : k'.toVars = k.toVars) : k'.selection = k.selection := by
  unfold selection
  rw [h]

theorem prioReadyQueueDelete_selection (h : k.prioReadyQueueDelete t = some k') :
    k'.selection = k.selection := selection_of_vars (prioReadyQueueDelete_vars h)

theorem prioReadyQueueInsertHead_selection (h : k.prioReadyQueueInsertHead t = some k') :
    k'.selection = k.selection := selection_of_vars (prioReadyQueueInsertHead_vars h)

theorem semWait_selection {s : ℕ} (h : k.semWait s = some k') : k'.selection = k.selection := by
  obtain ⟨k₁, h₁, h⟩ := Option.bind_eq_some_iff.mp h
  obtain ⟨tcb, -, h⟩ := Option.bind_eq_some_iff.mp h
  obtain ⟨heap, -, h⟩ := Option.bind_eq_some_iff.mp h
  obtain rfl := Option.some.inj h
  exact (prioReadyQueueDelete_selection h₁ :)

theorem semRelease_selection {s : ℕ} (h : k.semRelease s = some k') :
    k'.selection = k.selection := by
  unfold semRelease at h
  split at h
  · obtain ⟨tcb, -, h⟩ := Option.bind_eq_some_iff.mp h
    exact (prioReadyQueueInsertHead_selection h :)
  · split_ifs at h
    · obtain rfl := Option.some.inj h
      rfl
    · obtain rfl := Option.some.inj h
      rfl

theorem mutexWait_selection {m : ℕ} (h : k.mutexWait m = some k') :
    k'.selection = k.selection := by
  obtain ⟨k₁, h₁, h⟩ := Option.bind_eq_some_iff.mp h
  obtain ⟨tcb, -, h⟩ := Option.bind_eq_some_iff.mp h
  obtain ⟨heap, -, h⟩ := Option.bind_eq_some_iff.mp h
  obtain rfl := Option.some.inj h
  exact (prioReadyQueueDelete_selection h₁ :)

/-- A task that is given another priority. -/
theorem reprio_selection {k₁ : Kernel} {tcb : TcbPtr} {p : ℕ}
    (h₁ : k.prioReadyQueueDelete t = some k₁)
    (h : (k₁.setPrio tcb p).prioReadyQueueInsertHead t = some k') : k'.selection = k.selection := by
  have hinsert : k'.selection = k₁.selection := (prioReadyQueueInsertHead_selection h :)
  exact hinsert.trans (prioReadyQueueDelete_selection h₁)

theorem mutexTake_selection {m : ℕ} (h : k.mutexTake m = some k') :
    k'.selection = k.selection := by
  obtain ⟨tcb, -, h⟩ := Option.bind_eq_some_iff.mp h
  obtain ⟨k₁, h₁, h⟩ := Option.bind_eq_some_iff.mp h
  obtain ⟨k₂, h₂, h⟩ := Option.bind_eq_some_iff.mp h
  obtain rfl := Option.some.inj h
  exact (reprio_selection h₁ h₂ :)

theorem mutexRelease_selection {m : ℕ} (h : k.mutexRelease m = some k') :
    k'.selection = k.selection := by
  obtain ⟨tcb, -, h⟩ := Option.bind_eq_some_iff.mp h
  obtain ⟨k₁, h₁, h⟩ := Option.bind_eq_some_iff.mp h
  obtain ⟨k₂, h₂, h⟩ := Option.bind_eq_some_iff.mp h
  have hreprio : k₂.selection = k.selection := reprio_selection h₁ h₂
  dsimp only at h
  split at h
  · obtain ⟨u, -, h⟩ := Option.bind_eq_some_iff.mp h
    have hwake : k'.selection = k₂.selection := (prioReadyQueueInsertHead_selection h :)
    exact hwake.trans hreprio
  · obtain rfl := Option.some.inj h
    exact hreprio

theorem sleep_selection {timeslice : ℕ} (h : k.sleep timeslice = some k') :
    k'.selection = k.selection := by
  obtain ⟨tcb, -, h⟩ := Option.bind_eq_some_iff.mp h
  obtain ⟨k₁, h₁, h⟩ := Option.bind_eq_some_iff.mp h
  have hdelete : k₁.selection = k.selection := (prioReadyQueueDelete_selection h₁ :)
  exact (selection_of_vars (tickQueueInsert_vars h)).trans hdelete

theorem msgWait_selection {q : ℕ} (h : k.msgWait q = some k') : k'.selection = k.selection := by
  obtain ⟨k₁, h₁, h⟩ := Option.bind_eq_some_iff.mp h
  obtain ⟨tcb, -, h⟩ := Option.bind_eq_some_iff.mp h
  obtain ⟨heap, -, h⟩ := Option.bind_eq_some_iff.mp h
  obtain rfl := Option.some.inj h
  exact (prioReadyQueueDelete_selection h₁ :)

theorem msgTake_selection {q buf : ℕ} (h : k.msgTake q buf = some k') :
    k'.selection = k.selection := by
  obtain ⟨msg, -, h⟩ := Option.bind_eq_some_iff.mp h
  dsimp only at h
  split_ifs at h
  · obtain rfl := Option.some.inj h
    rfl
  · obtain rfl := Option.some.inj h
    rfl

theorem msgPut_selection {q m method : ℕ}
    (h : k.msgPut (some q) (some m) method = some (k', r)) : k'.selection = k.selection := by
  rw [msgPut_eq] at h
  split_ifs at h
  · obtain ⟨rfl, -⟩ := Prod.mk.inj (Option.some.inj h)
    rfl
  obtain ⟨k₁, h₁, h⟩ := Option.bind_eq_some_iff.mp h
  have hrelease : k₁.selection = k.selection := by
    unfold msgRelease at h₁
    split at h₁
    · obtain ⟨tcb, -, h₁⟩ := Option.bind_eq_some_iff.mp h₁
      exact (prioReadyQueueInsertHead_selection h₁ :)
    · rw [Option.some.inj h₁]
  rw [← hrelease]
  unfold msgInsert at h
  dsimp only at h
  split_ifs at h
  · obtain ⟨rfl, -⟩ := Prod.mk.inj (Option.some.inj h)
    rfl
  · obtain ⟨heap, -, h⟩ := Option.bind_eq_some_iff.mp h
    obtain ⟨rfl, -⟩ := Prod.mk.inj (Option.some.inj h)
    rfl
  · obtain ⟨rfl, -⟩ := Prod.mk.inj (Option.some.inj h)
    rfl

/-- No call selects a task before its `schedule`. -/
theorem beforeSchedule_selection {c : Call} {b : Bool}
    (h : k.beforeSchedule c = some (k', r, b)) : k'.selection = k.selection := by
  -- What is mapped to a state and a return.
  have hmap : ∀ {k₁ : Option Kernel} {ret : Ret} {b₁ : Bool},
      k₁.map (·, ret, b₁) = some (k', r, b) → k₁ = some k' := by
    intro k₁ ret b₁ h
    obtain ⟨k₂, hk, heq⟩ := Option.map_eq_some_iff.mp h
    rw [hk, (Prod.mk.inj heq).1]
  have hexec : ∀ {r₁ : Option (Kernel × Ret)},
      (r₁.map fun r => (r.1, r.2, false)) = some (k', r, b) → r₁ = some (k', r) := by
    intro r₁ h
    obtain ⟨r₂, hr, heq⟩ := Option.map_eq_some_iff.mp h
    obtain ⟨hk, hret⟩ := Prod.mk.inj heq
    rw [hr, ← hk, ← (Prod.mk.inj hret).1]
  have hself : ∀ {ret : Ret} {b₁ : Bool}, some (k, ret, b₁) = some (k', r, b) →
      k'.selection = k.selection := by
    intro ret b₁ h
    rw [(Prod.mk.inj (Option.some.inj h)).1]
  cases c with
  | taskCreate tcb func stack prio =>
    have h : k.taskCreate tcb func stack prio = some (k', r) := hexec h
    unfold taskCreate at h
    split at h
    · obtain ⟨k₁, h₁, h⟩ := Option.bind_eq_some_iff.mp h
      obtain ⟨rfl, -⟩ := Prod.mk.inj (Option.some.inj h)
      exact (selection_of_vars (prioReadyQueueInsertTail_vars h₁) :)
    · rw [(Prod.mk.inj (Option.some.inj h)).1]
  | taskPrioChange tcb prio =>
    have h : k.taskPrioChange tcb prio = some (k', r) := hexec h
    unfold taskPrioChange at h
    split at h
    · rw [(Prod.mk.inj (Option.some.inj h)).1]
    · split_ifs at h
      · rw [(Prod.mk.inj (Option.some.inj h)).1]
      · obtain ⟨k₁, h₁, h⟩ := Option.bind_eq_some_iff.mp h
        obtain ⟨k₂, h₂, h⟩ := Option.bind_eq_some_iff.mp h
        obtain ⟨rfl, -⟩ := Prod.mk.inj (Option.some.inj h)
        exact reprio_selection h₁ h₂
  | osDelay timeslice => exact sleep_selection (hmap h)
  | timerReq timer func timeout period arg =>
    have h : k.timerReq timer func timeout period arg = some (k', r) := hexec h
    unfold timerReq at h
    split at h
    · split_ifs at h
      · rw [(Prod.mk.inj (Option.some.inj h)).1]
      · obtain ⟨k₁, h₁, h⟩ := Option.bind_eq_some_iff.mp h
        obtain ⟨rfl, -⟩ := Prod.mk.inj (Option.some.inj h)
        exact (selection_of_vars (tickQueueInsert_vars h₁) :)
    · rw [(Prod.mk.inj (Option.some.inj h)).1]
  | semInit s num =>
    have h : some (k.semInit s num) = some (k', r) := hexec h
    have heq : (k.semInit s num).1 = k' := congrArg Prod.fst (Option.some.inj h)
    rw [← heq]
    cases s <;> rfl
  | semGet s =>
    cases s with
    | none => exact hself h
    | some s =>
      simp only [beforeSchedule] at h
      split_ifs at h
      · exact semWait_selection (hmap h)
      · rw [← (Prod.mk.inj (Option.some.inj h)).1]
        rfl
  | semPut s =>
    cases s with
    | none => exact hself h
    | some s => exact semRelease_selection (hmap h)
  | mutexInit m =>
    have h : some (k.mutexInit m) = some (k', r) := hexec h
    have heq : (k.mutexInit m).1 = k' := congrArg Prod.fst (Option.some.inj h)
    rw [← heq]
    cases m <;> rfl
  | mutexGet m =>
    cases m with
    | none => exact hself h
    | some m =>
      simp only [beforeSchedule] at h
      split_ifs at h
      · exact mutexWait_selection (hmap h)
      · exact mutexTake_selection (hmap h)
  | mutexPut m =>
    cases m with
    | none => exact hself h
    | some m => exact mutexRelease_selection (hmap h)
  | msgQueueCreate q length =>
    have h : some (k.msgQueueCreate q length) = some (k', r) := hexec h
    have heq : (k.msgQueueCreate q length).1 = k' := congrArg Prod.fst (Option.some.inj h)
    rw [← heq]
    cases q with
    | none => rfl
    | some q =>
      unfold msgQueueCreate
      dsimp only
      split_ifs <;> rfl
  | msgPut q m method =>
    obtain _ | q := q
    · exact hself h
    obtain _ | m := m
    · exact hself h
    exact msgPut_selection (hexec h)
  | msgGet q buffer =>
    obtain _ | q := q
    · exact hself h
    obtain _ | buf := buffer
    · exact hself h
    simp only [beforeSchedule] at h
    split_ifs at h
    · exact msgWait_selection (hmap h)
    · exact msgTake_selection (hmap h)
  | schedule => exact hself h

/-! ## Under the lock -/

theorem schedule_of_lock (hlock : k.scheduleIsLock = true) : k.schedule = some k := if_pos hlock

/-- Under the lock, no call selects a task. -/
theorem exec_selection {c : Call} (hlock : k.scheduleIsLock = true)
    (h : k.exec c = some (k', r)) : k'.selection = k.selection := by
  rw [exec_eq] at h
  obtain ⟨⟨k₁, ret, b⟩, h₁, h⟩ := Option.bind_eq_some_iff.mp h
  have hsel := beforeSchedule_selection h₁
  have hlock₁ : k₁.scheduleIsLock = true :=
    (congrArg (fun s => s.2.2) hsel).trans hlock
  have heq : k' = k₁ := by
    unfold callEnd at h
    dsimp only at h
    rw [schedule_of_lock hlock₁] at h
    split_ifs at h
    · exact (Prod.mk.inj (Option.some.inj h)).1.symm
    · exact (Prod.mk.inj (Option.some.inj h)).1.symm
  rw [heq, hsel]

/-- Under the lock, no callback selects a task. -/
theorem runCalls_selection {cs : List Call} (hlock : k.scheduleIsLock = true)
    (h : k.runCalls cs = some k') : k'.selection = k.selection := by
  induction cs generalizing k with
  | nil => rw [Option.some.inj h]
  | cons c cs ih =>
    obtain ⟨⟨k₁, r₁⟩, h₁, h⟩ := Option.bind_eq_some_iff.mp h
    have hsel := exec_selection hlock h₁
    have hlock₁ : k₁.scheduleIsLock = true := (congrArg (fun s => s.2.2) hsel).trans hlock
    rw [ih hlock₁ h, hsel]

/-- The body of the loop of `hardware_timer` selects no task where its callback selects none. -/
theorem tickBodyWith_selection {f : TickPtr → Kernel → Option Kernel}
    (hf : ∀ e k k', k.scheduleIsLock = true → f e k = some k' →
      k'.selection = k.selection) {call : ℕ} {tick : TickPtr} (hlock : k.scheduleIsLock = true)
    (h : tickBodyWith f call tick k = some k') : k'.selection = k.selection := by
  unfold tickBodyWith at h
  dsimp only at h
  split at h
  · split at h
    · -- A timer whose callback is called.
      obtain ⟨func, -, h⟩ := Option.bind_eq_some_iff.mp h
      obtain ⟨k₁, h₁, h⟩ := Option.bind_eq_some_iff.mp h
      obtain rfl := Option.some.inj h
      have hsel : k₁.selection = k.selection := (hf tick _ k₁ (by exact hlock) h₁ :)
      have hafter : (k₁.afterCallback tick).selection = k₁.selection := by
        unfold afterCallback
        split_ifs <;> rfl
      exact hafter.trans hsel
    · -- A task whose time has come.
      exact (selection_of_vars (prioReadyQueueInsertTail_vars h) :)
    · obtain rfl := Option.some.inj h
      rfl
  · obtain rfl := Option.some.inj h
    rfl

/-- The loop of `hardware_timer` selects no task where its callbacks select none. -/
theorem tickLoopWith_selection {f : TickPtr → Kernel → Option Kernel}
    (hf : ∀ e k k', k.scheduleIsLock = true → f e k = some k' →
      k'.selection = k.selection) {call : ℕ} {tmp : Node} (hlock : k.scheduleIsLock = true)
    (h : tickLoopWith f call tmp k = some k') : k'.selection = k.selection := by
  refine tickLoopWith_induct (P := fun _ k k' =>
    k.scheduleIsLock = true → k'.selection = k.selection) (fun _ _ _ => rfl) ?_ h hlock
  intro tmp k tick k₁ _ h₁ k' ih hlock
  have hsel := tickBodyWith_selection hf hlock h₁
  have hlock₁ : k₁.scheduleIsLock = true := (congrArg (fun s => s.2.2) hsel).trans hlock
  exact (ih hlock₁).trans hsel

/-- Under the lock, `hardware_timer` selects no task. -/
theorem lockedTimer_selection {calls : TickPtr → List Call} (hlock : k.scheduleIsLock = true)
    (h : k.lockedTimer calls = some k') : k'.selection = k.selection := by
  obtain ⟨k₁, h₁, h⟩ := Option.bind_eq_some_iff.mp h
  have hpass := tickLoopWith_selection (f := fun e k => k.runCalls (calls e))
    (fun _ _ _ hlock h => runCalls_selection hlock h) (by exact hlock) h₁
  have hsel : k₁.selection = k.selection := hpass
  have hlock₁ : k₁.scheduleIsLock = true := (congrArg (fun s => s.2.2) hsel).trans hlock
  rw [schedule_of_lock hlock₁, Option.some.injEq] at h
  rw [← h, hsel]

/-- `find_high_ready_task` selects a task unless the running one is the first. -/
theorem findHighReadyTask_newTask (h : k.findHighReadyTask = some k') :
    k'.scheduleIsLock = k.scheduleIsLock ∧
      (k.RunningFirst → k'.selection = k.selection) ∧
      (¬ k.RunningFirst → k'.newTask ≠ k.newTask) := by
  obtain ⟨⟨k₁, r₁⟩, hfetch, rfl⟩ := Option.map_eq_some_iff.mp h
  obtain ⟨tmp, htmp, hvars⟩ := prioReadyQueueFetch_vars hfetch
  obtain ⟨head, hhead, hnext⟩ := Option.bind_eq_some_iff.mp htmp
  have hhead' : head = readyHead k.bitmapGet := by
    unfold prioListHead at hhead
    split_ifs at hhead
    exact (Option.some.inj hhead).symm
  rw [hhead'] at hnext
  -- The task that is selected is the one that the head of the list links to.
  have hnode : (k.heap (readyHead k.bitmapGet)).next = .tcb tmp := by
    unfold Node.tcbEntry at hnext
    split at hnext
    · next t heq => rw [heq, Option.some.inj hnext]
    · cases hnext
  have hfirst : k.RunningFirst ↔ k.newTask = some tmp := by
    constructor
    · rintro ⟨t, ht, hnext'⟩
      rw [ht, Node.tcb.inj (hnode.symm.trans hnext')]
    · exact fun hnew => ⟨tmp, hnew, hnode⟩
  rw [hfirst]
  split_ifs at hvars with hnew
  · refine ⟨by rw [hvars], fun _ => selection_of_vars hvars, absurd hnew⟩
  · refine ⟨by rw [hvars], fun e => absurd e hnew, fun _ heq => hnew ?_⟩
    rw [hvars] at heq
    exact heq.symm

/-- One step under the lock keeps the lock, and the selection unless it is the end of an interrupt
that finds another task first. -/
theorem lockedStep_selection {e : Locked} (hlock : k.scheduleIsLock = true)
    (h : k.lockedStep e = some k') : k'.scheduleIsLock = true ∧
      ((e = .exit → k.RunningFirst) → k'.selection = k.selection) := by
  have hkeep : k'.selection = k.selection → k'.scheduleIsLock = true ∧
      ((e = .exit → k.RunningFirst) → k'.selection = k.selection) := fun hsel =>
    ⟨(congrArg (fun s => s.2.2) hsel).trans hlock, fun _ => hsel⟩
  cases e with
  | call c =>
    obtain ⟨⟨k₁, r₁⟩, hexec, rfl⟩ := Option.map_eq_some_iff.mp h
    exact hkeep (exec_selection hlock hexec)
  | timer calls => exact hkeep (lockedTimer_selection hlock h)
  | exit =>
    obtain ⟨hlock', hfirst, -⟩ := findHighReadyTask_newTask h
    exact ⟨hlock'.trans hlock, fun hf => hfirst (hf rfl)⟩
  | lock =>
    obtain rfl := Option.some.inj h
    refine hkeep ?_
    unfold selection scheduleLock
    rw [hlock]

end Kernel

/-! ## Runs -/

/-- The lock is kept. -/
theorem LockedRun.locked {k k' : Kernel} {tr : List (Kernel × Locked)} (hrun : LockedRun k tr k') :
    k'.scheduleIsLock = true :=
  Run.invariant (I := fun _ k' => k'.scheduleIsLock = true) hrun
    (fun k₀ h₀ => by rw [h₀]; rfl)
    fun _ _ _ _ _ hlock _ hstep => (Kernel.lockedStep_selection hlock hstep).1

/-- Under the lock, the running task stays selected as long as every interrupt finds it first when
it ends, and no longer. -/
theorem lock_excludes_switch_iff {k k' : Kernel} {tr : List (Kernel × Locked)}
    (hrun : LockedRun k tr k') :
    Always (fun _ s => s.newTask = k.newTask ∧ s.oldTask = k.oldTask) tr k' ↔
      ∀ e ∈ tr, e.2 = .exit → e.1.RunningFirst := by
  induction hrun with
  | nil h₀ =>
    rw [h₀]
    exact ⟨fun _ e he => absurd he List.not_mem_nil, fun _ => ⟨rfl, rfl⟩⟩
  | @cons tr s s' a hrun _ hstep ih =>
    have hlock := LockedRun.locked hrun
    have hsel := (Kernel.lockedStep_selection hlock hstep).2
    rw [List.forall_mem_cons, ← ih]
    constructor
    · intro h
      refine ⟨fun ha => ?_, h.2⟩
      by_contra hfirst
      obtain rfl : a = .exit := ha
      exact (Kernel.findHighReadyTask_newTask hstep).2.2 hfirst (h.1.1.trans h.2.last.1.symm)
    · intro h
      have heq := hsel h.1
      exact ⟨⟨(congrArg (fun s => s.1) heq).trans h.2.last.1,
        (congrArg (fun s => s.2.1) heq).trans h.2.last.2⟩, h.2⟩

/-! ## A tick interrupt under the lock -/

/-- A tick interrupt under the lock, when the tick queue is empty: it selects the first task `t` of
the highest priority. -/
theorem Core.lockedTick {hst : Hist} {s : Sys Kernel} {a : Abs} (h : Core hst s a)
    (hticks : a.ticks = []) {p : ℕ} {t : TcbPtr} {ts : List TcbPtr} (hp : p < SYSTEM_WORD)
    (hl : a.tasks (.ready p) = t :: ts) (hmin : ∀ i < p, a.tasks (.ready i) = []) :
    ∃ k₁ k₂, s.k.scheduleLock.lockedTimer (fun _ => []) = some k₁ ∧
      k₁.findHighReadyTask = some k₂ ∧ k₂.newTask = some t ∧
        (a.newTask = some t → k₁.RunningFirst) := by
  have href := h.sim.refines
  -- The state after `hardware_timer`.
  obtain ⟨k₁, hk₁⟩ : ∃ k₁, (Kernel.note { s.k.scheduleLock with fosTick := s.k.fosTick + 1 }
    (.start (s.k.fosTick + 1))) = k₁ := ⟨_, rfl⟩
  have htimer : s.k.scheduleLock.lockedTimer (fun _ => []) = some k₁ := by
    have hlast : isListLast k₁.heap tickHead = true := by
      rw [← hk₁]
      exact (isListLast_iff href.rep_ticks).mpr (by rw [hticks]; rfl)
    have hpass : s.k.scheduleLock.tickPass (fun e k => k.runCalls []) = some k₁ := by
      have hend : ∀ call, Kernel.tickLoopWith (fun e k => k.runCalls []) call tickHead k₁ =
          some k₁ := fun call => Kernel.tickLoopWith_of_last hlast
      rw [← hk₁] at hend ⊢
      exact hend _
    unfold Kernel.lockedTimer
    rw [hpass, Option.bind_some, Kernel.schedule_of_lock (by rw [← hk₁]; rfl)]
  obtain ⟨a₁, ha₁⟩ : ∃ a₁ : Abs, { a with toVars := k₁.toVars } = a₁ := ⟨_, rfl⟩
  have h₁ : Refines s.live k₁ a₁ := by
    subst ha₁ hk₁
    exact ⟨rfl, href.lists, href.bits⟩
  have w₁ : TasksOk s.live a₁.prio a₁.tasks a₁.ticks := by
    subst ha₁ hk₁
    have := h.sim.wf.tasks
    rw [← href.prio_eq] at this
    exact this
  have hl₁ : a₁.tasks (.ready p) = t :: ts := by rw [← ha₁]; exact hl
  have hmin₁ : ∀ i < p, a₁.tasks (.ready i) = [] := by rw [← ha₁]; exact hmin
  obtain ⟨hsearch, k₂, hfetch, h₂⟩ := h₁.fetch w₁ hp hl₁ hmin₁
  refine ⟨k₁, k₂, htimer, ?_, ?_, fun hnew => ⟨t, ?_, ?_⟩⟩
  · rw [Kernel.findHighReadyTask, hfetch, Option.map_some]
  · rw [h₂.newTask_eq, Abs.select_newTask]
  · rw [← hk₁]
    exact href.newTask_eq.trans hnew
  · rw [h₁.bitmapGet_eq hp hl₁ hmin₁]
    exact h₁.next_head (q := .ready p) hp hl₁

/-- One task runs at its priority. -/
def aloneAtPrio : List Move := [
  .call (.taskCreate (some (.task 1)) (some 0) (some 0) 5),
  .start, .call .schedule]

/-- A tick interrupt under the lock leaves the running task selected when it is alone at its
priority. -/
theorem lock_excludes_switch_aloneAtPrio : ∃ tr s ltr k', SysRun PassiveUsage tr s ∧
    tr.map Prod.snd = (aloneAtPrio.map Move.act).reverse ∧ LockedRun s.k ltr k' ∧
      ltr.map Prod.snd = [.exit, .timer fun _ => []] ∧
        Always (fun _ s' => s'.newTask = s.k.newTask ∧ s'.oldTask = s.k.oldTask) ltr k' := by
  have hreplay : (replay (fun _ _ _ => true) aloneAtPrio [] Sys.zero).map (fun r =>
      decide (r.2.k.ticks = [] ∧ r.2.k.tasks (.ready 5) = [.task 1] ∧
        (∀ i ∈ List.range 5, r.2.k.tasks (.ready i) = []) ∧ r.2.k.newTask = some (.task 1))) =
          some true := by decide
  obtain ⟨⟨trA, sA⟩, hr, hh⟩ := Option.map_eq_some_iff.mp hreplay
  obtain ⟨tr, s, a, hrun, hcore, -, rfl, hacts⟩ :=
    replay_run PassiveUsage (fun _ _ _ _ m _ _ _ hu _ => ⟨hu, m.passive_act⟩) hr
  obtain ⟨hticks, hl, hmin, hnew⟩ := of_decide_eq_true hh
  obtain ⟨k₁, k₂, htimer, hexit, -, hfirst⟩ := hcore.lockedTick hticks (by decide) hl
    fun i hi => hmin i (List.mem_range.mpr hi)
  have hlocked : LockedRun s.k [(k₁, .exit), (s.k.scheduleLock, .timer fun _ => [])] k₂ :=
    .cons (.cons (.nil rfl) trivial htimer) trivial hexit
  refine ⟨tr, s, _, k₂, hrun, hacts, hlocked, rfl, (lock_excludes_switch_iff hlocked).mpr ?_⟩
  intro e he hexit
  rcases List.mem_cons.mp he with rfl | he
  · exact hfirst hnew
  · rw [List.mem_singleton.mp he] at hexit
    simp at hexit

/-- One of two tasks of the same priority runs. -/
def twoAtPrio : List Move := [
  .call (.taskCreate (some (.task 1)) (some 0) (some 0) 5),
  .call (.taskCreate (some (.task 2)) (some 0) (some 0) 5),
  .start, .call .schedule]

/-- A tick interrupt under the lock of the running task selects the other one. -/
theorem not_lock_excludes_switch_twoAtPrio : ∃ tr s ltr k', SysRun PassiveUsage tr s ∧
    tr.map Prod.snd = (twoAtPrio.map Move.act).reverse ∧ LockedRun s.k ltr k' ∧
      ltr.map Prod.snd = [.exit, .timer fun _ => []] ∧ s.k.newTask = some (.task 1) ∧
        k'.scheduleIsLock = true ∧ k'.newTask = some (.task 2) ∧
          ¬ Always (fun _ s' => s'.newTask = s.k.newTask ∧ s'.oldTask = s.k.oldTask) ltr k' := by
  have hreplay : (replay (fun _ _ _ => true) twoAtPrio [] Sys.zero).map (fun r =>
      decide (r.2.k.ticks = [] ∧ r.2.k.tasks (.ready 5) = [.task 2, .task 1] ∧
        (∀ i ∈ List.range 5, r.2.k.tasks (.ready i) = []) ∧ r.2.k.newTask = some (.task 1))) =
          some true := by decide
  obtain ⟨⟨trA, sA⟩, hr, hh⟩ := Option.map_eq_some_iff.mp hreplay
  obtain ⟨tr, s, a, hrun, hcore, -, rfl, hacts⟩ :=
    replay_run PassiveUsage (fun _ _ _ _ m _ _ _ hu _ => ⟨hu, m.passive_act⟩) hr
  obtain ⟨hticks, hl, hmin, hnew⟩ := of_decide_eq_true hh
  obtain ⟨k₁, k₂, htimer, hexit, hnew₂, -⟩ := hcore.lockedTick hticks (by decide) hl
    fun i hi => hmin i (List.mem_range.mpr hi)
  have hlocked : LockedRun s.k [(k₁, .exit), (s.k.scheduleLock, .timer fun _ => [])] k₂ :=
    .cons (.cons (.nil rfl) trivial htimer) trivial hexit
  have hrunning : s.k.newTask = some (.task 1) := hcore.sim.refines.newTask_eq.trans hnew
  refine ⟨tr, s, _, k₂, hrun, hacts, hlocked, rfl, hrunning, hlocked.locked, hnew₂, fun h => ?_⟩
  have hsame := h.last.1
  rw [hnew₂, hrunning] at hsame
  exact absurd hsame (by decide)

end Fos
