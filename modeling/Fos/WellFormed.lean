import Fos.Invariant

/-!
# The moves keep the lists well formed

Every move that a call makes keeps `WF`. Where the lists are well formed, the idle task is ready, so
`schedule` finds a task: the first of the smallest priority that has one (`WF.schedule_eq`). It
moves that task behind its equals and lets it run, and changes nothing else, and after it the
running task is ready again.
-/

namespace Fos

open Function

section Select

variable (a : Abs) (p : ℕ) (t : TcbPtr)

@[simp] theorem Abs.select_newTask : (a.select p t).newTask = some t := by
  unfold Abs.select
  dsimp only
  split_ifs with h
  · exact h
  · rfl

/-- The running task before, when another one was selected. -/
theorem Abs.select_oldTask :
    (a.select p t).oldTask = if a.newTask = some t then a.oldTask else a.newTask := by
  unfold Abs.select
  dsimp only [Abs.remove, Abs.pushTail]
  split_ifs <;> rfl

/-- Of the variables, `schedule` changes `old_task` and `new_task`. -/
theorem Abs.select_vars : (a.select p t).toVars =
    { a.toVars with
      oldTask := if a.newTask = some t then a.oldTask else a.newTask
      newTask := some t } := by
  unfold Abs.select
  dsimp only [Abs.remove, Abs.pushTail]
  split_ifs with h
  · rw [← h]
  · rfl

@[simp] theorem Abs.select_prio : (a.select p t).prio = a.prio := by rw [Abs.select_vars]

@[simp] theorem Abs.select_tick : (a.select p t).tick = a.tick := by rw [Abs.select_vars]

@[simp] theorem Abs.select_sem : (a.select p t).sem = a.sem := by rw [Abs.select_vars]

@[simp] theorem Abs.select_mutex : (a.select p t).mutex = a.mutex := by rw [Abs.select_vars]

@[simp] theorem Abs.select_queue : (a.select p t).queue = a.queue := by rw [Abs.select_vars]

@[simp] theorem Abs.select_msg : (a.select p t).msg = a.msg := by rw [Abs.select_vars]

@[simp] theorem Abs.select_mem : (a.select p t).mem = a.mem := by rw [Abs.select_vars]

@[simp] theorem Abs.select_fosTick : (a.select p t).fosTick = a.fosTick := by rw [Abs.select_vars]

@[simp] theorem Abs.select_log : (a.select p t).log = a.log := by rw [Abs.select_vars]

@[simp] theorem Abs.select_scheduleIsLock :
    (a.select p t).scheduleIsLock = a.scheduleIsLock := by
  rw [Abs.select_vars]

/-- The selected task is behind its equals. -/
theorem Abs.select_tasks :
    (a.select p t).tasks = ((a.remove t).pushTail (.ready p) t).tasks := by
  unfold Abs.select
  dsimp only
  split_ifs <;> rfl

@[simp] theorem Abs.select_ticks : (a.select p t).ticks = a.ticks := by
  unfold Abs.select
  dsimp only
  split_ifs <;> rfl

@[simp] theorem Abs.select_msgs : (a.select p t).msgs = a.msgs := by
  unfold Abs.select
  dsimp only
  split_ifs <;> rfl

end Select

variable {live live' : Node → Bool} {a a' : Abs} {t u : TcbPtr} {p : ℕ} {q : TaskQueue}

/-- `select` turns the list of its priority round, and leaves the others as they are. -/
theorem TasksOk.select_tasks_eq (h : TasksOk live a.prio a.tasks a.ticks) {ts : List TcbPtr}
    (hl : a.tasks (.ready p) = t :: ts) :
    (a.select p t).tasks = update a.tasks (.ready p) (ts ++ [t]) := by
  have ht : t ∈ a.tasks (.ready p) := by simp [hl]
  funext q
  rw [Abs.select_tasks]
  simp only [Abs.remove, Abs.pushTail]
  rcases eq_or_ne q (.ready p) with rfl | hq
  · simp [hl]
  · rw [update_of_ne hq, update_of_ne hq, h.erase_of_mem ht hq]

/-- No task enters or leaves a list when one is selected. -/
theorem TasksOk.mem_select (h : TasksOk live a.prio a.tasks a.ticks)
    (ht : t ∈ a.tasks (.ready p)) : u ∈ (a.select p t).tasks q ↔ u ∈ a.tasks q := by
  have := h.mem_pushTail (.ready p) q t u
  rw [Abs.select_tasks]
  refine this.trans ⟨?_, fun hu => ?_⟩
  · rintro (⟨rfl, rfl⟩ | ⟨-, hu⟩)
    · exact ht
    · exact hu
  · rcases eq_or_ne u t with rfl | hne
    · exact Or.inl ⟨rfl, h.apart q _ u hu ht⟩
    · exact Or.inr ⟨hne, hu⟩

/-- A list that is not of ready tasks stays as it is when a task is selected. -/
theorem TasksOk.select_tasks_of_ne (h : TasksOk live a.prio a.tasks a.ticks)
    (ht : t ∈ a.tasks (.ready p)) (hq : q ≠ .ready p) : (a.select p t).tasks q = a.tasks q := by
  rw [Abs.select_tasks]
  simp only [Abs.remove, Abs.pushTail]
  rw [update_of_ne hq, h.erase_of_mem ht hq]

/-- The lists are well formed when one of tasks is, and the rest is as it was. -/
theorem WF.moved (w : WF live a) (h : TasksOk live a'.prio a'.tasks a'.ticks)
    (htick : a'.tick = a.tick) (hticks : a'.ticks = a.ticks) (hqueue : a'.queue = a.queue)
    (hmsgs : a'.msgs = a.msgs) (hlock : a'.scheduleIsLock = a.scheduleIsLock) : WF live a' where
  tasks := h
  ticks := htick ▸ hticks ▸ w.ticks
  msgs := hqueue ▸ hmsgs ▸ w.msgs
  unlocked := hlock ▸ w.unlocked

theorem WF.setSem (w : WF live a) (s : ℕ) (x : Sem) : WF live (a.setSem s x) :=
  w.moved w.tasks rfl rfl rfl rfl rfl

theorem WF.setMutex (w : WF live a) (m : ℕ) (x : Mutex) : WF live (a.setMutex m x) :=
  w.moved w.tasks rfl rfl rfl rfl rfl

theorem WF.setMem (w : WF live a) (mem : ℕ → ℕ) : WF live (a.setMem mem) :=
  w.moved w.tasks rfl rfl rfl rfl rfl

theorem WF.note (w : WF live a) (e : TimerEvent) : WF live (a.note e) :=
  w.moved w.tasks rfl rfl rfl rfl rfl

/-- `block` keeps the lists well formed. -/
theorem WF.block (w : WF live a) (ht : t ∈ a.tasks (.ready (a.prio t))) (hidle : t ≠ idleTcb)
    (hq : q.Open live) (hr : ∀ p, q ≠ .ready p) : WF live (a.block q t) :=
  w.moved (w.tasks.block q ht hidle hq fun p e => absurd e (hr p)) rfl rfl rfl rfl rfl

/-- `semWait` keeps the lists well formed. -/
theorem WF.semWait (w : WF live a) (ht : t ∈ a.tasks (.ready (a.prio t))) (hidle : t ≠ idleTcb)
    {s : ℕ} (hs : live (.sem s) = true) : WF live (a.semWait s t) :=
  (w.setSem s _).block (q := .sem s) ht hidle hs (by simp)

/-- `mutexWait` keeps the lists well formed. -/
theorem WF.mutexWait (w : WF live a) (ht : t ∈ a.tasks (.ready (a.prio t))) (hidle : t ≠ idleTcb)
    {m : ℕ} (hm : live (.mutex m) = true) : WF live (a.mutexWait m t) :=
  (w.setMutex m _).block (q := .mutex m) ht hidle hm (by simp)

/-- `wakeFirst` keeps the lists well formed. -/
theorem WF.wakeFirst (w : WF live a) (hr : ∀ p, q ≠ .ready p) : WF live (a.wakeFirst q) := by
  have htasks := w.tasks.wakeFirst (hr 31)
  unfold Abs.wakeFirst at htasks ⊢
  split at htasks
  · exact w
  · exact w.moved htasks rfl rfl rfl rfl rfl

/-- `reprio` keeps the lists well formed. -/
theorem WF.reprio (w : WF live a) (ht : t ∈ a.tasks (.ready (a.prio t))) (hidle : t ≠ idleTcb)
    (hp : p < SYSTEM_WORD) : WF live (a.reprio t p) :=
  w.moved (w.tasks.reprio ht hidle hp) rfl rfl rfl rfl rfl

/-- A mutex may be written before or after `reprio`. -/
theorem Abs.reprio_setMutex (a : Abs) (m : ℕ) (x : Mutex) (t : TcbPtr) (p : ℕ) :
    (a.reprio t p).setMutex m x = (a.setMutex m x).reprio t p :=
  rfl

/-- Only the last of two writes of a mutex counts. -/
theorem Abs.setMutex_setMutex (a : Abs) (m : ℕ) (x y : Mutex) :
    (a.setMutex m x).setMutex m y = a.setMutex m y := by
  simp [Abs.setMutex]

/-- The running task is ready after `reprio`. -/
theorem Abs.runningReady_reprio (hnew : a.newTask = some t) : (a.reprio t p).RunningReady := by
  intro u hu
  have : some t = some u := hnew.symm.trans hu
  rw [Option.some.injEq] at this
  subst this
  simp [Abs.reprio, Abs.setPrio, Abs.pushHead]

/-- `semRelease` keeps the lists well formed. -/
theorem WF.semRelease (w : WF live a) (s : ℕ) : WF live (a.semRelease s) := by
  unfold Abs.semRelease
  split_ifs
  · exact w.wakeFirst (by simp)
  · exact w.setSem _ _
  · exact w

/-- `mutexTake` keeps the lists well formed. -/
theorem WF.mutexTake (w : WF live a) (ht : t ∈ a.tasks (.ready (a.prio t))) (hidle : t ≠ idleTcb)
    (m : ℕ) : WF live (a.mutexTake m t) :=
  (w.setMutex m _).reprio ht hidle (by decide)

/-- `mutexRelease` keeps the lists well formed, where the priority to restore is one. -/
theorem WF.mutexRelease (w : WF live a) (ht : t ∈ a.tasks (.ready (a.prio t))) (hidle : t ≠ idleTcb)
    {m : ℕ} (hp : (a.mutex m).copyPrio < SYSTEM_WORD) : WF live (a.mutexRelease m t) :=
  ((w.setMutex m _).reprio ht hidle hp).wakeFirst (by simp)

/-- What has been set up stays set up. -/
theorem live_update (live : Node → Bool) (n : Node) :
    ∀ x, live x = true → update live n true x = true := by
  intro x hx
  rw [update_apply]
  split_ifs <;> simp [hx]

/-- The lists that have been set up stay set up. -/
theorem TaskQueue.Open.mono {q : TaskQueue} (hlive : ∀ n, live n = true → live' n = true)
    (hq : q.Open live) : q.Open live' := by
  cases q with
  | ready => exact hq
  | sem | mutex | queue => exact hlive _ hq

/-- The lists of tasks stay well formed when a head is set up. -/
theorem TasksOk.setUp {prio : TcbPtr → ℕ} {tasks : TaskQueue → List TcbPtr} {ticks : List TickPtr}
    (h : TasksOk live prio tasks ticks) (htcb : ∀ t, live' (.tcb t) = live (.tcb t))
    (hlive : ∀ n, live n = true → live' n = true) : TasksOk live' prio tasks ticks where
  nodup := h.nodup
  apart := h.apart
  isTask t := htcb t ▸ h.isTask t
  live_of_mem q t := htcb t ▸ h.live_of_mem q t
  open_of_mem q t ht := (h.open_of_mem q t ht).mono hlive
  ready_prio := h.ready_prio
  prio_lt t := htcb t ▸ h.prio_lt t
  placed t := htcb t ▸ h.placed t
  awake := h.awake
  idle := h.idle

/-- The tick queue stays well formed when something is set up. -/
theorem TicksOk.setUp {tick : TickPtr → Tick} {ticks : List TickPtr} (h : TicksOk live tick ticks)
    (hlive : ∀ n, live n = true → live' n = true) : TicksOk live' tick ticks where
  nodup := h.nodup
  delay t ht := (h.delay t ht).imp_left (hlive _)
  timer := h.timer
  head := h.head

/-- The lists stay well formed when anything but a queue is set up. -/
theorem MsgsOk.setUp {queue : ℕ → Queue} {msgs : ℕ → List ℕ} (h : MsgsOk live queue msgs)
    (hqueue : ∀ q, live' (.queue q) = live (.queue q)) : MsgsOk live' queue msgs where
  nodup := h.nodup
  apart := h.apart
  closed q := hqueue q ▸ h.closed q
  count q := hqueue q ▸ h.count q
  count_le q := hqueue q ▸ h.count_le q
  length_le q := hqueue q ▸ h.length_le q

/-- A new queue is empty. -/
theorem MsgsOk.create {queue : ℕ → Queue} {msgs : ℕ → List ℕ} (h : MsgsOk live queue msgs) {q : ℕ}
    (hq : live (.queue q) = false) {length : ℕ} (hlength : length ≤ U32_MAX) :
    MsgsOk (update live (.queue q) true) (update queue q ⟨length, 0⟩) msgs where
  nodup := h.nodup
  apart := h.apart
  closed i hi := by
    rcases eq_or_ne i q with rfl | hne
    · exact h.closed i hq
    · exact h.closed i (by simpa [hne] using hi)
  count i hi := by
    rcases eq_or_ne i q with rfl | hne
    · simp [h.closed i hq]
    · simpa [hne] using h.count i (by simpa [hne] using hi)
  count_le i hi := by
    rcases eq_or_ne i q with rfl | hne
    · simp
    · simpa [hne] using h.count_le i (by simpa [hne] using hi)
  length_le i hi := by
    rcases eq_or_ne i q with rfl | hne
    · simpa using hlength
    · simpa [hne] using h.length_le i (by simpa [hne] using hi)

/-- `sem_init` keeps the lists well formed. -/
theorem WF.semInit (w : WF live a) (s num : ℕ) :
    WF (update live (.sem s) true) (a.setSem s { a.sem s with count := num }) :=
  have hlive := live_update live (.sem s)
  ⟨w.tasks.setUp (by simp) hlive, w.ticks.setUp hlive, w.msgs.setUp (by simp), w.unlocked⟩

/-- `mutex_init` keeps the lists well formed. -/
theorem WF.mutexInit (w : WF live a) (m : ℕ) :
    WF (update live (.mutex m) true) (a.setMutex m { a.mutex m with enable := 1 }) :=
  have hlive := live_update live (.mutex m)
  ⟨w.tasks.setUp (by simp) hlive, w.ticks.setUp hlive, w.msgs.setUp (by simp), w.unlocked⟩

/-- `msg_queue_create` of a new queue keeps the lists well formed. -/
theorem WF.msgQueueCreate (w : WF live a) {i length : ℕ} (hi : live (.queue i) = false)
    (hlength : length ≤ U32_MAX) :
    WF (update live (.queue i) true) (a.setQueue i ⟨length, 0⟩) :=
  have hlive := live_update live (.queue i)
  ⟨w.tasks.setUp (by simp) hlive, w.ticks.setUp hlive, w.msgs.create hi hlength, w.unlocked⟩

/-- `task_create` of a new task keeps the lists well formed. -/
theorem WF.taskCreate (w : WF live a) (ht : live (.tcb t) = false) (htask : ∃ n, t = .task n)
    (hp : p < SYSTEM_WORD) :
    WF (update live (.tcb t) true) ((a.setPrio t p).pushTail (.ready p) t) :=
  have hlive := live_update live (.tcb t)
  have hdelay : .delay t ∉ a.ticks := fun hd => by simpa [ht] using (w.ticks.delay t hd).1
  ⟨w.tasks.create ht htask hp hdelay (w.tasks.live_of_mem _ _ w.tasks.idle), w.ticks.setUp hlive,
    w.msgs.setUp (by simp), w.unlocked⟩

/-- A list of tasks that has not been set up is empty. -/
theorem WF.tasks_eq_nil (w : WF live a) {q : TaskQueue} (hq : ¬ q.Open live) : a.tasks q = [] := by
  cases hl : a.tasks q with
  | nil => rfl
  | cons t ts => exact absurd (w.tasks.open_of_mem q t (by simp [hl])) hq

/-- The running task stays ready when a waiting task is woken. -/
theorem WF.runningReady_wakeFirst (w : WF live a) (hready : a.RunningReady)
    (hr : ∀ p, q ≠ .ready p) : (a.wakeFirst q).RunningReady := by
  unfold Abs.wakeFirst
  cases hl : a.tasks q with
  | nil => exact hready
  | cons t ts =>
    intro u hu
    have hu' := hready u hu
    refine (w.tasks.mem_pushHead _ _ t u).mpr (Or.inr ⟨?_, hu'⟩)
    rintro rfl
    exact hr _ (w.tasks.apart _ _ u (by simp [hl]) hu')

/-- `sleep` keeps the lists well formed. -/
theorem WF.sleep (w : WF live a) (ht : t ∈ a.tasks (.ready (a.prio t))) (hidle : t ≠ idleTcb)
    (timeslice : ℕ) : WF live (a.sleep t timeslice) where
  tasks := w.tasks.sleep ht hidle
  ticks := by
    have hd := w.tasks.awake _ t ht
    refine ⟨?_, fun u hu => ?_, fun n hn => ?_, ?_⟩
    · exact List.nodup_append.mpr ⟨w.ticks.nodup, List.nodup_singleton _, by
        rintro e he e' he' rfl
        exact hd (List.mem_singleton.mp he' ▸ he)⟩
    · rcases eq_or_ne u t with rfl | hne
      · simpa [Abs.sleep, Abs.pushTick, Abs.remove, Abs.note, Abs.setTick]
          using w.tasks.live_of_mem _ u ht
      · have hu' : .delay u ∈ a.ticks := by
          simpa [Abs.sleep, Abs.pushTick, Abs.remove, Abs.note, Abs.setTick, hne] using hu
        simpa [Abs.sleep, Abs.pushTick, Abs.remove, Abs.note, Abs.setTick, hne]
          using w.ticks.delay u hu'
    · have hn' : .timer n ∈ a.ticks := by
        simpa [Abs.sleep, Abs.pushTick, Abs.remove, Abs.note, Abs.setTick] using hn
      simpa [Abs.sleep, Abs.pushTick, Abs.remove, Abs.note, Abs.setTick] using w.ticks.timer n hn'
    · simpa [Abs.sleep, Abs.pushTick, Abs.remove, Abs.note, Abs.setTick] using w.ticks.head
  msgs := w.msgs
  unlocked := w.unlocked

/-- `timer_req` keeps the lists well formed. -/
theorem WF.request {n : ℕ} (w : WF live a) (hn : .timer n ∉ a.ticks) (x : Tick)
    (hstyle : x.style = .softwareTimer) (hfunc : x.func ≠ none) (ev : TimerEvent) :
    WF live (((a.setTick (.timer n) x).note ev).pushTick (.timer n)) where
  tasks := by
    have h := w.tasks
    exact ⟨h.nodup, h.apart, h.isTask, h.live_of_mem, h.open_of_mem, h.ready_prio, h.prio_lt,
      fun t ht => (h.placed t ht).imp_right fun hd => List.mem_append.mpr (Or.inl hd),
      fun q t ht hd => h.awake q t ht (by simpa [Abs.pushTick, Abs.note, Abs.setTick] using hd),
      h.idle⟩
  ticks := by
    refine ⟨?_, fun u hu => ?_, fun i hi => ?_, ?_⟩
    · exact List.nodup_append.mpr ⟨w.ticks.nodup, List.nodup_singleton _, by
        rintro e he e' he' rfl
        exact hn (List.mem_singleton.mp he' ▸ he)⟩
    · have hu' : .delay u ∈ a.ticks := by simpa [Abs.pushTick, Abs.note, Abs.setTick] using hu
      simpa [Abs.pushTick, Abs.note, Abs.setTick] using w.ticks.delay u hu'
    · rcases eq_or_ne i n with rfl | hne
      · simp [Abs.pushTick, Abs.note, Abs.setTick, hstyle, hfunc]
      · have hi' : .timer i ∈ a.ticks := by
          simpa [Abs.pushTick, Abs.note, Abs.setTick, hne] using hi
        simpa [Abs.pushTick, Abs.note, Abs.setTick, hne] using w.ticks.timer i hi'
    · simpa [Abs.pushTick, Abs.note, Abs.setTick] using w.ticks.head
  msgs := w.msgs
  unlocked := w.unlocked

/-- A new `timeout` keeps the lists well formed. -/
theorem WF.setTimeout (w : WF live a) (e : TickPtr) (n : ℕ) :
    WF live (a.setTick e { a.tick e with timeout := n }) where
  tasks := w.tasks
  ticks := by
    have h := w.ticks
    refine ⟨h.nodup, fun t ht => ?_, fun i hi => ?_, h.head⟩
    · rcases eq_or_ne e (.delay t) with rfl | hne
      · simpa [Abs.setTick] using h.delay t ht
      · simpa [Abs.setTick, hne.symm] using h.delay t ht
    · rcases eq_or_ne e (.timer i) with rfl | hne
      · simpa [Abs.setTick] using h.timer i hi
      · simpa [Abs.setTick, hne.symm] using h.timer i hi
  msgs := w.msgs
  unlocked := w.unlocked

/-- The tick queue without an entry. -/
theorem WF.ticks_erase (w : WF live a) (e : TickPtr) : TicksOk live a.tick (a.ticks.erase e) where
  nodup := w.ticks.nodup.erase e
  delay t ht := w.ticks.delay t (List.mem_of_mem_erase ht)
  timer i hi := w.ticks.timer i (List.mem_of_mem_erase hi)
  head hm := w.ticks.head (List.mem_of_mem_erase hm)

/-- A timer that leaves the tick queue keeps the lists well formed. -/
theorem WF.dropTimer (w : WF live a) (n : ℕ) : WF live (a.dropTick (.timer n)) where
  tasks := by
    have h := w.tasks
    have hmem : ∀ t, .delay t ∈ a.ticks.erase (.timer n) ↔ .delay t ∈ a.ticks := fun t =>
      List.mem_erase_of_ne (by simp)
    exact ⟨h.nodup, h.apart, h.isTask, h.live_of_mem, h.open_of_mem, h.ready_prio, h.prio_lt,
      fun t ht => (h.placed t ht).imp_right (hmem t).mpr,
      fun q t ht hd => h.awake q t ht ((hmem t).mp hd), h.idle⟩
  ticks := w.ticks_erase _
  msgs := w.msgs
  unlocked := w.unlocked

/-- The delay of a sleeping task is one of a task that is in no list, and names that task. -/
theorem WF.sleeping (w : WF live a) (hd : .delay t ∈ a.ticks) :
    live (.tcb t) = true ∧ (a.tick (.delay t)).tcb = some t ∧ ∀ q, t ∉ a.tasks q :=
  ⟨(w.ticks.delay t hd).1, (w.ticks.delay t hd).2.1, fun q hm => w.tasks.awake q t hm hd⟩

/-- `wakeDelay` of a sleeping task. -/
theorem WF.wakeDelay_eq (w : WF live a) (hd : .delay t ∈ a.ticks) :
    a.wakeDelay (.delay t) = some ((a.dropTick (.delay t)).pushTail (.ready (a.prio t)) t) := by
  simp [Abs.wakeDelay, (w.sleeping hd).2.1]

/-- A sleeping task that wakes keeps the lists well formed. -/
theorem WF.wakeDelay (w : WF live a) (hd : .delay t ∈ a.ticks) :
    WF live ((a.dropTick (.delay t)).pushTail (.ready (a.prio t)) t) where
  tasks := w.tasks.wakeDelay (w.sleeping hd).1 hd w.ticks.nodup
  ticks := w.ticks_erase _
  msgs := w.msgs
  unlocked := w.unlocked

/-- A task put behind others leaves the running task ready. -/
theorem Abs.RunningReady.pushTail (h : a.RunningReady) (q : TaskQueue) (t : TcbPtr) :
    (a.pushTail q t).RunningReady := by
  intro u hu
  have hu' := h u hu
  rcases eq_or_ne (.ready (a.prio u)) q with e | hne
  · subst e
    simpa [Abs.pushTail] using Or.inl hu'
  · simpa [Abs.pushTail, hne] using hu'

/-- `enqueue` keeps the lists well formed. -/
theorem WF.enqueue {i m : ℕ} (w : WF live a) (hm : ∀ q, m ∉ a.msgs q)
    (hi : live (.queue i) = true) (hroom : (a.queue i).count < (a.queue i).length) (method : ℕ) :
    WF live (a.enqueue i m method) where
  tasks := w.tasks
  ticks := w.ticks
  msgs := by
    have h := w.msgs
    -- At whichever end it is linked in, the message is in this queue now, and in no other.
    have hmem : ∀ q x, x ∈ (a.enqueue i m method).msgs q ↔ (x = m ∧ q = i) ∨ x ∈ a.msgs q := by
      intro q x
      rcases eq_or_ne q i with rfl | hq
      · simp only [Abs.enqueue, Abs.setMsgs, Abs.setQueue, update_self]
        split_ifs <;> simp [or_comm]
      · simp [Abs.enqueue, Abs.setMsgs, Abs.setQueue, hq]
    refine ⟨fun q => ?_, fun q q' x hx hx' => ?_, fun q hq => ?_, fun q hq => ?_, fun q hq => ?_,
      fun q hq => ?_⟩
    · rcases eq_or_ne q i with rfl | hne
      · simp only [Abs.enqueue, Abs.setMsgs, Abs.setQueue, update_self]
        split_ifs
        · exact List.nodup_append.mpr ⟨h.nodup q, List.nodup_singleton m, by
            rintro x hx y hy rfl
            exact hm q (List.mem_singleton.mp hy ▸ hx)⟩
        · exact List.nodup_cons.mpr ⟨hm q, h.nodup q⟩
      · simpa [Abs.enqueue, Abs.setMsgs, Abs.setQueue, hne] using h.nodup q
    · rcases (hmem q x).mp hx with ⟨rfl, e⟩ | hx₁
      · rcases (hmem q' x).mp hx' with ⟨-, e'⟩ | hx₂
        · rw [e, e']
        · exact absurd hx₂ (hm q')
      · rcases (hmem q' x).mp hx' with ⟨rfl, -⟩ | hx₂
        · exact absurd hx₁ (hm q)
        · exact h.apart q q' x hx₁ hx₂
    -- The queue has been set up, so that a queue that has not is another one.
    · have hne : q ≠ i := by rintro rfl; simp [hi] at hq
      simpa [Abs.enqueue, Abs.setMsgs, Abs.setQueue, hne] using h.closed q hq
    · rcases eq_or_ne q i with rfl | hne
      · have := h.count q hi
        simp only [Abs.enqueue, Abs.setMsgs, Abs.setQueue, update_self]
        split_ifs <;> simp [this]
      · simpa [Abs.enqueue, Abs.setMsgs, Abs.setQueue, hne] using h.count q hq
    · rcases eq_or_ne q i with rfl | hne
      · simpa [Abs.enqueue, Abs.setMsgs, Abs.setQueue] using Nat.succ_le_of_lt hroom
      · simpa [Abs.enqueue, Abs.setMsgs, Abs.setQueue, hne] using h.count_le q hq
    · rcases eq_or_ne q i with rfl | hne
      · simpa [Abs.enqueue, Abs.setMsgs, Abs.setQueue] using h.length_le q hi
      · simpa [Abs.enqueue, Abs.setMsgs, Abs.setQueue, hne] using h.length_le q hq
  unlocked := w.unlocked

/-- `receive` keeps the lists well formed. -/
theorem WF.receive {i m : ℕ} {ms : List ℕ} (w : WF live a) (hl : a.msgs i = m :: ms) (buf : ℕ) :
    WF live (a.receive i buf m ms) where
  tasks := w.tasks
  ticks := w.ticks
  msgs := by
    have h := w.msgs
    -- The queue has lost its first message, and the others none.
    have hmem : ∀ q x, x ∈ (a.receive i buf m ms).msgs q → x ∈ a.msgs q := by
      intro q x hx
      rcases eq_or_ne q i with rfl | hq
      · rw [hl]
        apply List.mem_cons_of_mem m
        simpa [Abs.receive, Abs.setMsgs, Abs.setMem, Abs.setQueue] using hx
      · simpa [Abs.receive, Abs.setMsgs, Abs.setMem, Abs.setQueue, hq] using hx
    refine ⟨fun q => ?_, fun q q' x hx hx' => h.apart q q' x (hmem q x hx) (hmem q' x hx'),
      fun q hq => ?_, fun q hq => ?_, fun q hq => ?_, fun q hq => ?_⟩
    · rcases eq_or_ne q i with rfl | hne
      · have := h.nodup q
        rw [hl, List.nodup_cons] at this
        simpa [Abs.receive, Abs.setMsgs, Abs.setMem, Abs.setQueue] using this.2
      · simpa [Abs.receive, Abs.setMsgs, Abs.setMem, Abs.setQueue, hne] using h.nodup q
    · have hne : q ≠ i := by rintro rfl; simp [h.closed q hq] at hl
      simpa [Abs.receive, Abs.setMsgs, Abs.setMem, Abs.setQueue, hne] using h.closed q hq
    · rcases eq_or_ne q i with rfl | hne
      -- One message less, and a count that is one less.
      · have := h.count q hq
        rw [hl, List.length_cons] at this
        simp [Abs.receive, Abs.setMsgs, Abs.setMem, Abs.setQueue, this]
      · simpa [Abs.receive, Abs.setMsgs, Abs.setMem, Abs.setQueue, hne] using h.count q hq
    · rcases eq_or_ne q i with rfl | hne
      · have := h.count_le q hq
        simp only [Abs.receive, Abs.setMsgs, Abs.setMem, Abs.setQueue, update_self]
        omega
      · simpa [Abs.receive, Abs.setMsgs, Abs.setMem, Abs.setQueue, hne] using h.count_le q hq
    · rcases eq_or_ne q i with rfl | hne
      · simpa [Abs.receive, Abs.setMsgs, Abs.setMem, Abs.setQueue] using h.length_le q hq
      · simpa [Abs.receive, Abs.setMsgs, Abs.setMem, Abs.setQueue, hne] using h.length_le q hq
  unlocked := w.unlocked

/-- `schedule` finds the first task of the smallest priority that has one. -/
theorem TasksOk.schedule_eq (w : TasksOk live a.prio a.tasks a.ticks) : ∃ p t ts, p < SYSTEM_WORD ∧
    a.tasks (.ready p) = t :: ts ∧ (∀ i < p, a.tasks (.ready i) = []) ∧
      a.schedule = some (a.select p t) := by
  cases hp : a.highest with
  | none =>
    have := List.find?_eq_none.mp hp 31 (by simp [SYSTEM_WORD])
    exact absurd w.idle (by simp_all)
  | some p =>
    obtain ⟨hne, xs, ys, hrange, hbefore⟩ := List.find?_eq_some_iff_append.mp hp
    have hlt : p < SYSTEM_WORD := List.mem_range.mp (hrange ▸ by simp)
    have hmin : ∀ i < p, a.tasks (.ready i) = [] := by
      intro i hi
      have hmem : i ∈ xs := by
        have hsorted := (List.pairwise_lt_range (n := SYSTEM_WORD))
        rw [hrange, List.pairwise_append] at hsorted
        have hi' : i ∈ xs ++ p :: ys := hrange ▸ List.mem_range.mpr (hi.trans hlt)
        rcases List.mem_append.mp hi' with hx | hx
        · exact hx
        · rcases List.mem_cons.mp hx with rfl | hy
          · exact absurd hi (lt_irrefl _)
          · exact absurd ((List.pairwise_cons.mp hsorted.2.1).1 i hy) (not_lt.mpr hi.le)
      simpa using hbefore i hmem
    cases hl : a.tasks (.ready p) with
    | nil => simp [hl] at hne
    | cons t ts => exact ⟨p, t, ts, hlt, hl, hmin, by simp [Abs.schedule, hp, hl]⟩

/-- `schedule` finds the first task of the smallest priority that has one. -/
theorem WF.schedule_eq (w : WF live a) : ∃ p t ts, p < SYSTEM_WORD ∧
    a.tasks (.ready p) = t :: ts ∧ (∀ i < p, a.tasks (.ready i) = []) ∧
      a.schedule = some (a.select p t) :=
  w.tasks.schedule_eq

/-- Selecting a ready task keeps the lists well formed. -/
theorem WF.select (w : WF live a) (ht : t ∈ a.tasks (.ready p)) : WF live (a.select p t) := by
  have hl := w.tasks.live_of_mem _ t ht
  have hp := w.tasks.ready_prio p t ht
  refine w.moved ?_ (by simp) (by simp) (by simp) (by simp) (by simp)
  rw [Abs.select_tasks, Abs.select_prio, Abs.select_ticks]
  refine w.tasks.relocate t (.ready p) (live_iff hl) (fun _ => id) (w.tasks.isTask t hl) ?_
    (fun q' u => w.tasks.mem_pushTail _ q' t u) (fun q' => w.tasks.nodup_pushTail _ q' t)
    (w.tasks.delay_mem_iff ht) (fun _ _ => rfl) (w.tasks.open_of_mem _ t ht)
    (fun p' e => hp.trans (TaskQueue.ready.inj e)) (w.tasks.prio_lt t hl)
  rintro rfl
  exact w.tasks.apart _ _ _ ht w.tasks.idle

/-- The task that is selected is ready. -/
theorem WF.runningReady_select (w : WF live a) (ht : t ∈ a.tasks (.ready p)) :
    (a.select p t).RunningReady := by
  intro u hu
  rw [Abs.select_newTask, Option.some.injEq] at hu
  subst hu
  rw [w.tasks.mem_select ht, Abs.select_prio, w.tasks.ready_prio p t ht]
  exact ht

/-- `timer_req` keeps the lists well formed. -/
theorem WF.timerReq (w : WF live a) {n : ℕ} (hn : .timer n ∉ a.ticks) (func : Option ℕ)
    (timeout period arg : ℕ) : WF live (a.timerReq (some (.timer n)) func timeout period arg) := by
  cases func with
  | none => exact w
  | some f =>
    by_cases h0 : timeout = 0
    · simpa [Abs.timerReq, h0] using w
    · simpa [Abs.timerReq, h0] using w.request hn _ rfl (by simp) _

/-- `msg_put` keeps the lists well formed. -/
theorem WF.msgPut (w : WF live a) {i m : ℕ} (hi : live (.queue i) = true) (hm : ∀ q, m ∉ a.msgs q)
    (method : ℕ) : WF live (a.msgPut (some i) (some m) method).1 := by
  have w₁ := w.wakeFirst (q := .queue i) (by simp)
  have hmsgs : ∀ q, m ∉ (a.wakeFirst (.queue i)).msgs q := by
    unfold Abs.wakeFirst
    split <;> exact hm
  unfold Abs.msgPut
  dsimp only
  generalize a.wakeFirst (.queue i) = a₁ at *
  split_ifs with hfull
  · exact w₁
  · have hle := w₁.msgs.count_le i hi
    exact w₁.enqueue hmsgs hi (by omega) method

end Fos
