import Fos.Refinement.Lists
import Fos.WellFormed

/-!
# The calls of the kernel

`Sim` relates the kernel and the abstract kernel between calls: the links represent well-formed
lists, and the running task is ready. Every call that is made as `CallUsage` says returns in both,
with the same value, in states that are related again (`exec_sim`).
-/

namespace Fos

open Links Function

/-- The kernel and the abstract kernel, between calls. -/
structure Sim (live : Node → Bool) (k : Kernel) (a : Abs) : Prop where
  /-- The links represent the lists. -/
  refines : Refines live k a
  /-- The lists are well formed. -/
  wf : WF live a
  /-- The running task is ready. -/
  ready : a.RunningReady

/-- The kernel and the abstract kernel inside a call, which may have moved the running task. -/
structure Tidy (live : Node → Bool) (k : Kernel) (a : Abs) : Prop where
  /-- The links represent the lists. -/
  refines : Refines live k a
  /-- The lists are well formed. -/
  wf : WF live a

/-- Between calls it is as inside a call. -/
theorem Sim.tidy {live : Node → Bool} {k : Kernel} {a : Abs} (h : Sim live k a) : Tidy live k a :=
  ⟨h.refines, h.wf⟩

/-- An operation of the kernel and one of the abstract kernel both return, with the same value, in
related states. -/
def SimRet {β : Type} (live : Node → Bool) (kr : Option (Kernel × β)) (ar : Option (Abs × β)) :
    Prop :=
  ∃ k a r, kr = some (k, r) ∧ ar = some (a, r) ∧ Sim live k a

variable {live : Node → Bool} {k : Kernel} {a : Abs} {t : TcbPtr} {q : TaskQueue}

/-! ## The scheduler -/

/-- The priority that `bitmap_get` finds. -/
theorem Refines.bitmapGet_eq (h : Refines live k a) {p : ℕ} {ts : List TcbPtr}
    (hp : p < SYSTEM_WORD) (hl : a.tasks (.ready p) = t :: ts)
    (hmin : ∀ i < p, a.tasks (.ready i) = []) : k.bitmapGet = p := by
  obtain ⟨-, hne, hlow⟩ := bitmapGet_spec h.bits hp (by simp [hl])
  rcases lt_trichotomy k.bitmapGet p with hlt | heq | hgt
  · exact absurd (hmin _ hlt) hne
  · exact heq
  · exact absurd (by simp [hl]) (hlow p hgt)

/-- The first task of a list is the last when nothing follows it. -/
theorem Refines.isListLast_first (h : Refines live k a) (hq : q.Open live) {ts : List TcbPtr}
    (hl : a.tasks q = t :: ts) : isListLast k.heap (.tcb t) = true ↔ ts = [] := by
  have hrep := h.rep hq
  rw [hl, List.map_cons] at hrep
  have hchain : Chain k.heap (.tcb t) (ts.map .tcb) := hrep.chain.2.2
  have hrep' : Represents k.heap (.tcb t) (ts.map .tcb) :=
    ⟨(List.nodup_cons.mp hrep.nodup).2, hchain⟩
  rw [Fos.isListLast_iff hrep', List.map_eq_nil_iff]

/-- What `prio_ready_queue_fetch` does: the first task `t` of the highest priority `p` is selected,
and goes behind its equals. -/
theorem Refines.fetch (h : Refines live k a) (w : TasksOk live a.prio a.tasks a.ticks) {p : ℕ}
    {ts : List TcbPtr} (hp : p < SYSTEM_WORD) (hl : a.tasks (.ready p) = t :: ts)
    (hmin : ∀ i < p, a.tasks (.ready i) = []) : k.bitFirstOneSearch = some t ∧
      ∃ k', k.prioReadyQueueFetch = some (k', if a.newTask = some t then .NO_SCHED else .SCHED) ∧
        Refines live k' (a.select p t) := by
  have ht : t ∈ a.tasks (.ready p) := by simp [hl]
  have hprio : a.prio t = p := w.ready_prio p t ht
  have hlive := w.live_of_mem _ t ht
  -- The links and the bitmap once the task is behind its equals.
  obtain ⟨k₁, e₁, h₁⟩ : ∃ k₁, k.rotate t = some k₁ ∧
      Refines live k₁ ((a.remove t).pushTail (.ready p) t) := by
    unfold Kernel.rotate
    by_cases hts : ts = []
    · refine ⟨k, if_pos ((h.isListLast_first (q := .ready p) hp hl).mpr hts), ?_⟩
      have hsame : ((a.remove t).pushTail (.ready p) t).tasks = a.tasks := by
        rw [← Abs.select_tasks, w.select_tasks_eq hl, hts, List.nil_append]
        funext q
        rcases eq_or_ne q (.ready p) with rfl | hq
        · rw [update_self, hl, hts]
        · rw [update_of_ne hq]
      have : (a.remove t).pushTail (.ready p) t = a := by
        show { a with tasks := ((a.remove t).pushTail (.ready p) t).tasks } = a
        rw [hsame]
      rwa [this]
    · have hlast : ¬ isListLast k.heap (.tcb t) = true :=
        fun e => hts ((h.isListLast_first (q := .ready p) hp hl).mp e)
      obtain ⟨k₁, e₁, h₁⟩ := h.prioReadyQueueDelete w (hprio ▸ ht)
      have hfree : ∀ q, t ∉ (a.remove t).tasks q := fun q hm => (w.mem_erase.mp hm).1 rfl
      obtain ⟨k₂, e₂, h₂, -⟩ := h₁.prioReadyQueueInsertTail hfree (w.isTask t hlive) hprio hp
      exact ⟨k₂, by simp [hlast, e₁, e₂], h₂⟩
  have hnew : k₁.newTask = a.newTask := by rw [← h₁.vars]; rfl
  have hnext : (k.heap (readyHead p)).next = .tcb t := h.next_head (q := .ready p) hp hl
  have hsearch : k.bitFirstOneSearch = some t := by
    simp [Kernel.bitFirstOneSearch, h.bitmapGet_eq hp hl hmin, Kernel.prioListHead, hp, hnext]
  refine ⟨hsearch, ?_⟩
  rw [Kernel.prioReadyQueueFetch_eq, hsearch, Option.bind_some, e₁, Option.bind_some, hnew]
  unfold Abs.select
  dsimp only
  split_ifs with hsel hsel' hsel'
  · exact ⟨k₁, rfl, h₁⟩
  · exact absurd hsel hsel'
  · exact absurd hsel' hsel
  · exact ⟨_, rfl, by rw [← h₁.vars]; rfl, h₁.lists, h₁.bits⟩

/-- `schedule` selects the task that the abstract one selects. -/
theorem Refines.schedule (h : Refines live k a) (w : WF live a) :
    ∃ k' a', k.schedule = some k' ∧ a.schedule = some a' ∧ Sim live k' a' := by
  obtain ⟨p, t, ts, hp, hl, hmin, hsched⟩ := w.schedule_eq
  have ht : t ∈ a.tasks (.ready p) := by simp [hl]
  have hlock : k.scheduleIsLock = false := by rw [← w.unlocked, h.vars]
  obtain ⟨-, k', hfetch, h'⟩ := h.fetch w.tasks hp hl hmin
  refine ⟨k', _, ?_, hsched, h', w.select ht, w.runningReady_select ht⟩
  simp [Kernel.schedule, hlock, hfetch]

/-! ## The moves of the calls -/

/-- The first waiting task leaves its list for its ready list. -/
theorem Refines.wakeFirst (h : Refines live k a) (w : TasksOk live a.prio a.tasks a.ticks)
    (hr : ∀ p, q ≠ .ready p) {ts : List TcbPtr} (hl : a.tasks q = t :: ts) :
    isListLast k.heap q.head = false ∧ (k.heap q.head).next.tcbEntry = some t ∧
      ∃ k', Kernel.prioReadyQueueInsertHead { k with heap := listDelete k.heap (.tcb t) } (some t) =
          some k' ∧ Refines live k' (a.wakeFirst q) := by
  have ht : t ∈ a.tasks q := by simp [hl]
  have hq := w.open_of_mem q t ht
  have hlive := w.live_of_mem q t ht
  have hfree : ∀ q, t ∉ (a.remove t).tasks q := fun q hm => (w.mem_erase.mp hm).1 rfl
  refine ⟨?_, by simp [h.next_head hq hl], ?_⟩
  · rw [Bool.eq_false_iff]
    exact fun e => by simp [(h.isListLast_iff hq).mp e] at hl
  · obtain ⟨k', e', h'⟩ := (h.deleteWaiter w ht hr).prioReadyQueueInsertHead hfree
      (w.isTask t hlive) rfl (w.prio_lt t hlive)
    refine ⟨k', e', ?_⟩
    unfold Abs.wakeFirst
    rw [hl]
    exact h'

/-- The running task leaves its ready list for a list of waiting ones. -/
theorem Refines.block (h : Refines live k a) (w : TasksOk live a.prio a.tasks a.ticks)
    (hq : q.Open live) (hr : ∀ p, q ≠ .ready p) (ht : t ∈ a.tasks (.ready (a.prio t))) :
    ∃ k₁ heap, k.prioReadyQueueDelete (some t) = some k₁ ∧ k₁.toVars = k.toVars ∧
      listInsertBehind k₁.heap q.head (.tcb t) = some heap ∧
        Refines live { k₁ with heap := heap } (a.block q t) := by
  obtain ⟨k₁, e₁, h₁⟩ := h.prioReadyQueueDelete w ht
  have hfree : ∀ q, t ∉ (a.remove t).tasks q := fun q hm => (w.mem_erase.mp hm).1 rfl
  obtain ⟨heap, e₂, h₂⟩ := h₁.insertWaiter hq hfree (w.isTask t (w.live_of_mem _ t ht)) hr
  exact ⟨k₁, heap, e₁, Kernel.prioReadyQueueDelete_vars e₁, e₂, h₂⟩

/-- The running task goes before the ready tasks of its new priority. -/
theorem Refines.reprio (h : Refines live k a) (w : TasksOk live a.prio a.tasks a.ticks) {p : ℕ}
    (hp : p < SYSTEM_WORD) (ht : t ∈ a.tasks (.ready (a.prio t))) :
    ∃ k₁ k₂, k.prioReadyQueueDelete (some t) = some k₁ ∧ k₁.toVars = k.toVars ∧
      (k₁.setPrio t p).prioReadyQueueInsertHead (some t) = some k₂ ∧
        Refines live k₂ (a.reprio t p) := by
  obtain ⟨k₁, e₁, h₁⟩ := h.prioReadyQueueDelete w ht
  have hfree : ∀ q, t ∉ (a.remove t).tasks q := fun q hm => (w.mem_erase.mp hm).1 rfl
  obtain ⟨k₂, e₂, h₂⟩ := (h₁.setPrio t p).prioReadyQueueInsertHead (t := t) hfree
    (w.isTask t (w.live_of_mem _ t ht)) (by simp [Abs.setPrio]) hp
  exact ⟨k₁, k₂, e₁, Kernel.prioReadyQueueDelete_vars e₁, e₂, h₂⟩

/-- A call that ends with `schedule`. -/
theorem SimRet.schedule (h : Refines live k a) (w : WF live a) (r : Ret) :
    SimRet live (k.schedule.bind fun k => some (k, r)) (a.schedule.bind fun a => some (a, r)) := by
  obtain ⟨k', a', ek, ea, hs⟩ := h.schedule w
  exact ⟨k', a', r, by simp [ek], by simp [ea], hs⟩

/-- A call that returns in the state that it is made in. -/
theorem SimRet.refl (h : Sim live k a) (r : Ret) : SimRet live (some (k, r)) (some (a, r)) :=
  ⟨k, a, r, rfl, rfl, h⟩

/-! ## Semaphores -/

/-- A task that waits for a unit. -/
theorem Refines.semWait (h : Refines live k a) (w : TasksOk live a.prio a.tasks a.ticks)
    (hnew : a.newTask = some t) (ht : t ∈ a.tasks (.ready (a.prio t))) {s : ℕ}
    (hs : live (.sem s) = true) :
    ∃ k', k.semWait s = some k' ∧ Refines live k' (a.semWait s t) := by
  have hr : ∀ p, TaskQueue.sem s ≠ .ready p := by simp
  obtain ⟨x, hx⟩ : ∃ x : Sem, { a.sem s with tcb := some t } = x := ⟨_, rfl⟩
  have hxk : { k.sem s with tcb := k.newTask } = x := by rw [h.sem_eq, h.newTask_eq, hnew, hx]
  obtain ⟨k₁, heap, e₁, v₁, e₂, h₂⟩ :=
    (h.setSem s x).block (q := .sem s) w hs hr ht
  have hself : ((k.setSem s x).sem s).tcb = some t := by simp [Kernel.setSem, ← hx]
  have e₂' : listInsertBehind k₁.heap (.sem s) (.tcb t) = some heap := e₂
  refine ⟨_, ?_, hx ▸ h₂⟩
  simp [Kernel.semWait, hxk, hself, e₁, Kernel.semBlockQueueInsert, v₁, e₂']

/-- `sem_get` of a semaphore that has been set up. -/
theorem Sim.semGet (h : Sim live k a) (hnew : a.newTask = some t) (hidle : t ≠ idleTcb) {s : ℕ}
    (hs : live (.sem s) = true) : SimRet live (k.semGet (some s)) (a.semGet (some s)) := by
  obtain ⟨href, w, hready⟩ := h
  rw [Kernel.semGet_eq, href.sem_eq]
  by_cases hc : (a.sem s).count = 0
  · -- No unit is left, and the caller waits for one.
    obtain ⟨k₁, e₁, h₁⟩ := href.semWait w.tasks hnew (hready t hnew) hs
    have ea : a.semGet (some s) = (a.semWait s t).schedule.bind fun a => some (a, .TRUE) := by
      unfold Abs.semGet
      dsimp only
      rw [if_pos hc, hnew]
      rfl
    rw [if_pos hc, e₁, Option.bind_some, ea]
    exact SimRet.schedule h₁ (w.semWait (hready t hnew) hidle hs) .TRUE
  · rw [if_neg hc]
    exact ⟨_, _, .TRUE, rfl, if_neg hc, href.setSem _ _, w.setSem _ _, hready⟩

/-- What `sem_put` does before it schedules. -/
theorem Refines.semRelease (h : Refines live k a) (w : TasksOk live a.prio a.tasks a.ticks) {s : ℕ}
    (hs : live (.sem s) = true) :
    ∃ k', k.semRelease s = some k' ∧ Refines live k' (a.semRelease s) := by
  have hr : ∀ p, TaskQueue.sem s ≠ .ready p := by simp
  unfold Kernel.semRelease Abs.semRelease
  cases hl : a.tasks (.sem s) with
  | nil =>
    have hlast : isListLast k.heap (.sem s) = true := (h.isListLast_iff (q := .sem s) hs).mpr hl
    by_cases hc : (a.sem s).count = U32_MAX
    · exact ⟨k, by simp [hlast, h.sem_eq, hc], by simpa [hc] using h⟩
    · exact ⟨_, by simp [hlast, h.sem_eq, hc]; rfl, by simpa [hc] using h.setSem s _⟩
  | cons t ts =>
    obtain ⟨hlast, hentry, k₁, e₁, h₁⟩ := h.wakeFirst w hr hl
    have hlast' : isListLast k.heap (.sem s) = false := hlast
    have hentry' : (k.heap (.sem s)).next.tcbEntry = some t := hentry
    exact ⟨k₁, by simp [hlast', hentry', Kernel.semBlockQueueDelete, e₁], by simpa using h₁⟩

/-- `sem_put` of a semaphore that has been set up. Callbacks call it too, so that the running task
may be waiting. -/
theorem Refines.semPut (h : Refines live k a) (w : WF live a) {s : ℕ}
    (hs : live (.sem s) = true) : SimRet live (k.semPut (some s)) (a.semPut (some s)) := by
  obtain ⟨k₁, e₁, h₁⟩ := h.semRelease w.tasks hs
  rw [Kernel.semPut_eq, e₁, Option.bind_some]
  exact SimRet.schedule h₁ (w.semRelease s) .TRUE

/-! ## Mutexes -/

/-- A task that waits for a mutex. -/
theorem Refines.mutexWait (h : Refines live k a) (w : TasksOk live a.prio a.tasks a.ticks)
    (hnew : a.newTask = some t) (ht : t ∈ a.tasks (.ready (a.prio t))) {m : ℕ}
    (hm : live (.mutex m) = true) :
    ∃ k', k.mutexWait m = some k' ∧ Refines live k' (a.mutexWait m t) := by
  have hr : ∀ p, TaskQueue.mutex m ≠ .ready p := by simp
  have hknew : k.newTask = some t := by rw [h.newTask_eq, hnew]
  obtain ⟨x, hx⟩ : ∃ x : Mutex, { a.mutex m with tcb := some t } = x := ⟨_, rfl⟩
  have hxk : { k.mutex m with tcb := k.newTask } = x := by rw [h.mutex_eq, hknew, hx]
  obtain ⟨k₁, heap, e₁, v₁, e₂, h₂⟩ :=
    (h.setMutex m x).block (q := .mutex m) w hm hr ht
  have hself : ((k.setMutex m x).mutex m).tcb = some t := by simp [Kernel.setMutex, ← hx]
  have hnew₁ : (k.setMutex m x).newTask = some t := hknew
  have e₂' : listInsertBehind k₁.heap (.mutex m) (.tcb t) = some heap := e₂
  refine ⟨_, ?_, hx ▸ h₂⟩
  simp [Kernel.mutexWait, hxk, hnew₁, e₁, Kernel.mutexBlockQueueInsert, v₁, hself, e₂']

/-- A task that takes a mutex is raised to the ceiling. -/
theorem Refines.mutexTake (h : Refines live k a) (w : TasksOk live a.prio a.tasks a.ticks)
    (hnew : a.newTask = some t) (ht : t ∈ a.tasks (.ready (a.prio t))) (m : ℕ) :
    ∃ k', k.mutexTake m = some k' ∧ Refines live k' (a.mutexTake m t) := by
  have hknew : k.newTask = some t := by rw [h.newTask_eq, hnew]
  obtain ⟨x, hx⟩ : ∃ x : Mutex, { a.mutex m with copyPrio := a.prio t } = x := ⟨_, rfl⟩
  have hxk : { k.mutex m with copyPrio := k.prio t } = x := by rw [h.mutex_eq, h.prio_eq, hx]
  have hp : PRIO_MUTEX < SYSTEM_WORD := by decide
  obtain ⟨k₁, k₂, e₁, v₁, e₂, h₂⟩ := (h.setMutex m x).reprio w hp ht
  have hmutex : k₂.mutex m = x := by
    rw [h₂.mutex_eq]
    exact update_self m x a.mutex
  have hsame : ((a.setMutex m x).reprio t PRIO_MUTEX).setMutex m { x with enable := 0 } =
      a.mutexTake m t := by
    rw [Abs.reprio_setMutex, Abs.setMutex_setMutex, ← hx]
    rfl
  refine ⟨k₂.setMutex m { x with enable := 0 }, ?_, hsame ▸ h₂.setMutex m _⟩
  rw [← hmutex]
  unfold Kernel.mutexTake
  rw [hknew, Option.bind_eq_bind, Option.bind_some]
  dsimp only
  rw [hxk]
  simp [e₁, e₂]

/-- `mutex_get` of a mutex that has been set up. -/
theorem Sim.mutexGet (h : Sim live k a) (hnew : a.newTask = some t) (hidle : t ≠ idleTcb) {m : ℕ}
    (hm : live (.mutex m) = true) : SimRet live (k.mutexGet (some m)) (a.mutexGet (some m)) := by
  obtain ⟨href, w, hready⟩ := h
  have ht := hready t hnew
  rw [Kernel.mutexGet_eq, href.mutex_eq]
  by_cases hc : (a.mutex m).enable = 0
  · -- The mutex is held, and the caller waits for it.
    obtain ⟨k₁, e₁, h₁⟩ := href.mutexWait w.tasks hnew ht hm
    have ea : a.mutexGet (some m) =
        (a.mutexWait m t).schedule.bind fun a => some (a, .TRUE) := by
      unfold Abs.mutexGet
      dsimp only
      rw [hnew, Option.bind_eq_bind, Option.bind_some, if_pos hc]
      rfl
    rw [if_pos hc, e₁, Option.bind_some, ea]
    exact SimRet.schedule h₁ (w.mutexWait ht hidle hm) .TRUE
  · -- The mutex is free, and the caller is raised to the ceiling.
    obtain ⟨k₁, e₁, h₁⟩ := href.mutexTake w.tasks hnew ht m
    have ea : a.mutexGet (some m) = some (a.mutexTake m t, .TRUE) := by
      unfold Abs.mutexGet
      dsimp only
      rw [hnew, Option.bind_eq_bind, Option.bind_some, if_neg hc]
    rw [if_neg hc, e₁, Option.bind_some, ea]
    exact ⟨_, _, .TRUE, rfl, rfl, h₁, w.mutexTake ht hidle m, Abs.runningReady_reprio hnew⟩

/-- What `mutex_put` does before it schedules, where the priority to restore is one. -/
theorem Refines.mutexRelease (h : Refines live k a) (w : TasksOk live a.prio a.tasks a.ticks)
    (hnew : a.newTask = some t) (ht : t ∈ a.tasks (.ready (a.prio t))) (hidle : t ≠ idleTcb) {m : ℕ}
    (hp : (a.mutex m).copyPrio < SYSTEM_WORD) (hm : live (.mutex m) = true) :
    ∃ k', k.mutexRelease m = some k' ∧ Refines live k' (a.mutexRelease m t) := by
  have hknew : k.newTask = some t := by rw [h.newTask_eq, hnew]
  have hp' : (a.mutex m).copyPrio < 32 := hp
  obtain ⟨x, hx⟩ : ∃ x : Mutex, { a.mutex m with enable := 1 } = x := ⟨_, rfl⟩
  obtain ⟨k₁, k₂, e₁, v₁, e₂, h₂⟩ := h.reprio w hp ht
  -- The priority is stored in a byte, and the copy fits into it.
  have hcopy : (k₁.mutex m).copyPrio % 256 = (a.mutex m).copyPrio := by
    rw [v₁, h.mutex_eq]
    omega
  have hmutex : { k₂.mutex m with enable := 1 } = x := by
    rw [h₂.mutex_eq, ← hx]
    rfl
  -- The code writes the mutex after the priority, and the abstract state before it, which comes
  -- to the same.
  have h₃ : Refines live (k₂.setMutex m x) ((a.setMutex m x).reprio t (a.mutex m).copyPrio) :=
    h₂.setMutex m x
  have w₃ := TasksOk.reprio (a := a.setMutex m x) w ht hidle hp
  have hr : ∀ p, TaskQueue.mutex m ≠ .ready p := by simp
  unfold Abs.mutexRelease
  rw [hx]
  -- Whether a task waits is read off the list once the caller has moved.
  cases hl : ((a.setMutex m x).reprio t (a.mutex m).copyPrio).tasks (.mutex m) with
  | nil =>
    have hlast : isListLast (k₂.setMutex m x).heap (.mutex m) = true :=
      (h₃.isListLast_iff (q := .mutex m) hm).mpr hl
    refine ⟨k₂.setMutex m x, ?_, by unfold Abs.wakeFirst; rw [hl]; exact h₃⟩
    simp [Kernel.mutexRelease, hknew, e₁, hcopy, e₂, hmutex, hlast]
  | cons u us =>
    obtain ⟨hlast, hentry, k₄, e₄, h₄⟩ := h₃.wakeFirst w₃ hr hl
    have hlast' : isListLast (k₂.setMutex m x).heap (.mutex m) = false := hlast
    have hentry' : ((k₂.setMutex m x).heap (.mutex m)).next.tcbEntry = some u := hentry
    refine ⟨k₄, ?_, h₄⟩
    simp [Kernel.mutexRelease, hknew, e₁, hcopy, e₂, hmutex, hlast', hentry',
      Kernel.mutexBlockQueueDelete, e₄]

/-- `mutex_put` of a mutex that has been set up, where the priority to restore is one. -/
theorem Sim.mutexPut (h : Sim live k a) (hnew : a.newTask = some t) (hidle : t ≠ idleTcb) {m : ℕ}
    (hp : (a.mutex m).copyPrio < SYSTEM_WORD) (hm : live (.mutex m) = true) :
    SimRet live (k.mutexPut (some m)) (a.mutexPut (some m)) := by
  obtain ⟨href, w, hready⟩ := h
  have ht := hready t hnew
  obtain ⟨k₁, e₁, h₁⟩ := href.mutexRelease w.tasks hnew ht hidle hp hm
  have ea : a.mutexPut (some m) =
      (a.mutexRelease m t).schedule.bind fun a => some (a, .TRUE) := by
    unfold Abs.mutexPut
    rw [hnew]
    rfl
  rw [Kernel.mutexPut_eq, e₁, Option.bind_some, ea]
  exact SimRet.schedule h₁ (w.mutexRelease ht hidle hp) .TRUE

/-! ## Tasks -/

/-- `task_prio_change` of the running task, with a priority. -/
theorem Refines.taskPrioChange (h : Refines live k a) (w : TasksOk live a.prio a.tasks a.ticks)
    (hnew : a.newTask = some t) (ht : t ∈ a.tasks (.ready (a.prio t))) {prio : ℕ}
    (hp : prio < SYSTEM_WORD) : ∃ k', k.taskPrioChange (some t) prio =
      some (k', (a.taskPrioChange (some t) prio).2) ∧
        Refines live k' (a.taskPrioChange (some t) prio).1 := by
  have hp' : prio < 32 := hp
  by_cases h0 : prio = 0
  · exact ⟨k, by simp [Kernel.taskPrioChange, Abs.taskPrioChange, h0], by
      simpa [Abs.taskPrioChange, h0] using h⟩
  · obtain ⟨k₁, k₂, e₁, -, e₂, h₂⟩ := h.reprio w hp ht
    have hle : prio ≤ SYSTEM_WORD := hp.le
    have hmod : prio % 256 = prio := Nat.mod_eq_of_lt (by omega)
    refine ⟨k₂, ?_, by simpa [Abs.taskPrioChange, h0] using h₂⟩
    simp [Kernel.taskPrioChange, Abs.taskPrioChange, h0, hle, h.newTask_eq, hnew, e₁, hmod, e₂]

/-- `task_prio_change` of the running task, with a priority. -/
theorem Sim.taskPrioChange (h : Sim live k a) (hnew : a.newTask = some t) (hidle : t ≠ idleTcb)
    {prio : ℕ} (hp : prio < SYSTEM_WORD) :
    SimRet live (k.taskPrioChange (some t) prio) (some (a.taskPrioChange (some t) prio)) := by
  obtain ⟨href, w, hready⟩ := h
  have ht := hready t hnew
  obtain ⟨k₁, e₁, h₁⟩ := href.taskPrioChange w.tasks hnew ht hp
  refine ⟨k₁, (a.taskPrioChange (some t) prio).1, _, e₁, rfl, h₁, ?_, ?_⟩
  · unfold Abs.taskPrioChange
    split_ifs
    · exact w
    · exact w.reprio ht hidle hp
  · unfold Abs.taskPrioChange
    split_ifs
    · exact hready
    · exact Abs.runningReady_reprio hnew

/-- A task that falls asleep. -/
theorem Refines.sleep (h : Refines live k a) (w : TasksOk live a.prio a.tasks a.ticks)
    (hnew : a.newTask = some t) (ht : t ∈ a.tasks (.ready (a.prio t))) (timeslice : ℕ) :
    ∃ k', k.sleep timeslice = some k' ∧ Refines live k' (a.sleep t timeslice) := by
  have hknew : k.newTask = some t := by rw [h.newTask_eq, hnew]
  obtain ⟨x, hx⟩ : ∃ x : Tick, { a.tick (.delay t) with
    tcb := some t, timeout := timeslice, timeoutCopy := timeslice, style := .delay } = x := ⟨_, rfl⟩
  have hxk : { k.tick (.delay t) with
      tcb := some t, timeout := timeslice, timeoutCopy := timeslice, style := .delay } = x := by
    rw [h.tick_eq, hx]
  have h₀ := (h.setTick (.delay t) x).note (.sleep (.delay t))
  obtain ⟨k₁, e₁, h₁⟩ := h₀.prioReadyQueueDelete w ht
  obtain ⟨k₂, e₂, h₂⟩ := h₁.tickQueueInsert (w.awake _ t ht) (by simp)
  have hself : (((k.setTick (.delay t) x).note (.sleep (.delay t))).tick (.delay t)).tcb =
      some t := by
    simp [Kernel.note, Kernel.setTick, ← hx]
  refine ⟨k₂, ?_, by subst hx; exact h₂⟩
  unfold Kernel.sleep
  rw [hknew, Option.bind_eq_bind, Option.bind_some]
  dsimp only
  rw [hxk, hself, e₁]
  simp [e₂]

/-- `os_delay`. -/
theorem Sim.osDelay (h : Sim live k a) (hnew : a.newTask = some t) (hidle : t ≠ idleTcb)
    (timeslice : ℕ) : SimRet live (k.osDelay timeslice) (a.osDelay timeslice) := by
  obtain ⟨href, w, hready⟩ := h
  have ht := hready t hnew
  obtain ⟨k₁, e₁, h₁⟩ := href.sleep w.tasks hnew ht timeslice
  have ea : a.osDelay timeslice =
      (a.sleep t timeslice).schedule.bind fun a => some (a, .VOID) := by
    unfold Abs.osDelay
    rw [hnew]
    rfl
  rw [Kernel.osDelay_eq, e₁, Option.bind_some, ea]
  exact SimRet.schedule h₁ (w.sleep ht hidle timeslice) .VOID

/-- `timer_req` of a timer that is not queued. -/
theorem Refines.timerReq (h : Refines live k a) {n : ℕ} (hn : .timer n ∉ a.ticks) (func : Option ℕ)
    (timeout period arg : ℕ) :
    ∃ k', k.timerReq (some (.timer n)) func timeout period arg = some (k', .VOID) ∧
      Refines live k' (a.timerReq (some (.timer n)) func timeout period arg) := by
  cases func with
  | none => exact ⟨k, rfl, h⟩
  | some f =>
    by_cases h0 : timeout = 0
    · exact ⟨k, by simp [Kernel.timerReq, h0], by simpa [Abs.timerReq, h0] using h⟩
    · obtain ⟨x, hx⟩ : ∃ x : Tick, { a.tick (.timer n) with
        func := some f, timeout := timeout, period := period, timeoutCopy := timeout,
        style := .softwareTimer, funcArg := arg } = x := ⟨_, rfl⟩
      obtain ⟨k₁, e₁, h₁⟩ := ((h.setTick (.timer n) x).note (.request (.timer n) period))
        |>.tickQueueInsert hn (by simp)
      refine ⟨k₁, by simp [Kernel.timerReq, h0, h.tick_eq, hx, e₁], ?_⟩
      simpa [Abs.timerReq, h0, hx] using h₁

/-- `timer_req` of a timer that is not queued. -/
theorem Sim.timerReq (h : Sim live k a) {n : ℕ} (hn : .timer n ∉ a.ticks) (func : Option ℕ)
    (timeout period arg : ℕ) :
    SimRet live (k.timerReq (some (.timer n)) func timeout period arg)
      (some (a.timerReq (some (.timer n)) func timeout period arg, .VOID)) := by
  obtain ⟨href, w, hready⟩ := h
  obtain ⟨k₁, e₁, h₁⟩ := href.timerReq hn func timeout period arg
  refine ⟨k₁, _, .VOID, e₁, rfl, h₁, w.timerReq hn func timeout period arg, ?_⟩
  cases func with
  | none => exact hready
  | some f =>
    unfold Abs.timerReq
    split_ifs
    · exact hready
    · exact hready

/-! ## Messages -/

/-- The release of the first receiver. -/
theorem Refines.msgRelease (h : Refines live k a) (w : TasksOk live a.prio a.tasks a.ticks) {i : ℕ}
    (hi : live (.queue i) = true) :
    ∃ k', k.msgRelease i = some k' ∧ Refines live k' (a.wakeFirst (.queue i)) := by
  have hr : ∀ p, TaskQueue.queue i ≠ .ready p := by simp
  unfold Kernel.msgRelease
  cases hl : a.tasks (.queue i) with
  | nil =>
    have hlast : isListLast k.heap (.queue i) = true :=
      (h.isListLast_iff (q := .queue i) hi).mpr hl
    exact ⟨k, by simp [hlast], by unfold Abs.wakeFirst; rw [hl]; exact h⟩
  | cons t ts =>
    obtain ⟨hlast, hentry, k₁, e₁, h₁⟩ := h.wakeFirst w hr hl
    have hlast' : isListLast k.heap (.queue i) = false := hlast
    have hentry' : (k.heap (.queue i)).next.tcbEntry = some t := hentry
    exact ⟨k₁, by simp [hlast', hentry', Kernel.msgBlockQueueDelete, e₁], h₁⟩

/-- `msg_put` of a message that is in no queue. -/
theorem Refines.msgPut (h : Refines live k a) (w : TasksOk live a.prio a.tasks a.ticks)
    (hmsgs : MsgsOk live a.queue a.msgs) {i m : ℕ} (hi : live (.queue i) = true)
    (hm : ∀ q, m ∉ a.msgs q) (method : ℕ) :
    ∃ k', k.msgPut (some i) (some m) method =
        some (k', (a.msgPut (some i) (some m) method).2) ∧
      Refines live k' (a.msgPut (some i) (some m) method).1 := by
  have hle := hmsgs.count_le i hi
  have hlen := hmsgs.length_le i hi
  have hguard : ¬ (k.queue i).length < (k.queue i).count := by rw [h.queue_eq]; omega
  -- The first receiver is released, whether there is room or not.
  obtain ⟨k₁, e₁, h₁⟩ := h.msgRelease w hi
  rw [Kernel.msgPut_eq, if_neg hguard, e₁, Option.bind_some]
  have hqueue : (a.wakeFirst (.queue i)).queue = a.queue := by
    unfold Abs.wakeFirst
    split <;> rfl
  have hm₁ : ∀ q, m ∉ (a.wakeFirst (.queue i)).msgs q := by
    unfold Abs.wakeFirst
    split <;> exact hm
  unfold Kernel.msgInsert Abs.msgPut
  dsimp only
  rw [h₁.queue_eq]
  rw [← hqueue] at hle hlen
  generalize a.wakeFirst (.queue i) = a₁ at *
  by_cases hfull : (a₁.queue i).count = (a₁.queue i).length
  · rw [if_pos hfull, if_pos hfull]
    exact ⟨k₁, rfl, h₁⟩
  · rw [if_neg hfull, if_neg hfull]
    have hmod : ((a₁.queue i).count + 1) % 2^32 = (a₁.queue i).count + 1 := by
      apply Nat.mod_eq_of_lt
      simp only [U32_MAX] at hlen
      omega
    rw [hmod]
    have h₂ := h₁.setQueue i { a₁.queue i with count := (a₁.queue i).count + 1 }
    obtain ⟨⟨heap, e₂, htail⟩, hhead⟩ := h₂.msgInsert hi hm₁
    by_cases hmethod : method = FIFO
    · refine ⟨_, (if_pos hmethod).trans (by rw [e₂]; rfl), ?_⟩
      dsimp only
      rw [Abs.enqueue, if_pos hmethod]
      exact htail
    · refine ⟨_, if_neg hmethod, ?_⟩
      dsimp only
      rw [Abs.enqueue, if_neg hmethod]
      exact hhead

/-- `msg_put` of a message that is in no queue. -/
theorem Sim.msgPut (h : Sim live k a) {i m : ℕ} (hi : live (.queue i) = true)
    (hm : ∀ q, m ∉ a.msgs q) (method : ℕ) :
    SimRet live (k.msgPut (some i) (some m) method)
      (some (a.msgPut (some i) (some m) method)) := by
  obtain ⟨href, w, hready⟩ := h
  obtain ⟨k₁, e₁, h₁⟩ := href.msgPut w.tasks w.msgs hi hm method
  refine ⟨k₁, (a.msgPut (some i) (some m) method).1, _, e₁, rfl, h₁, w.msgPut hi hm method, ?_⟩
  have hready₁ := w.runningReady_wakeFirst hready (q := .queue i) (by simp)
  unfold Abs.msgPut
  dsimp only
  split_ifs
  · exact hready₁
  · exact hready₁

/-- A task that waits for a message. -/
theorem Refines.msgWait (h : Refines live k a) (w : TasksOk live a.prio a.tasks a.ticks)
    (hnew : a.newTask = some t) (ht : t ∈ a.tasks (.ready (a.prio t))) {i : ℕ}
    (hi : live (.queue i) = true) :
    ∃ k', k.msgWait i = some k' ∧ Refines live k' (a.block (.queue i) t) := by
  have hr : ∀ p, TaskQueue.queue i ≠ .ready p := by simp
  have hknew : k.newTask = some t := by rw [h.newTask_eq, hnew]
  obtain ⟨k₁, heap, e₁, v₁, e₂, h₂⟩ := h.block w (q := .queue i) hi hr ht
  have hnew₁ : k₁.newTask = some t := by rw [v₁, hknew]
  have e₂' : listInsertBehind k₁.heap (.queue i) (.tcb t) = some heap := e₂
  exact ⟨_, by simp [Kernel.msgWait, hknew, e₁, Kernel.msgBlockQueueInsert, hnew₁, e₂'], h₂⟩

/-- A task that takes a message. -/
theorem Refines.msgTake (h : Refines live k a) (hmsgs : MsgsOk live a.queue a.msgs) {i m : ℕ}
    {ms : List ℕ} (hi : live (.queue i) = true) (hl : a.msgs i = m :: ms) (buf : ℕ) :
    ∃ k', k.msgTake i buf = some k' ∧ Refines live k' (a.receive i buf m ms) := by
  have hnext : (k.heap (.msgHead i)).next = .msg m := by
    have := (h.rep_msgs hi).chain.next_eq
    simpa [hl] using this
  have hcount : 0 < (a.queue i).count := by rw [hmsgs.count i hi, hl]; simp
  have hmem : Kernel.memcpy k.mem buf (k.msg m).buff 5 =
      Kernel.memcpy a.mem buf (a.msg m).buff 5 := by rw [h.vars]
  have h₀ := h.setMem (Kernel.memcpy a.mem buf (a.msg m).buff 5)
  obtain ⟨k₀, hk₀⟩ : ∃ k₀, k.setMem (Kernel.memcpy a.mem buf (a.msg m).buff 5) = k₀ := ⟨_, rfl⟩
  rw [hk₀] at h₀
  have hnext₀ : (k₀.heap (.msgHead i)).next = .msg m := by rw [← hk₀]; exact hnext
  have hqueue₀ : k₀.queue = a.queue := h₀.queue_eq
  have h₁ := (h₀.msgDelete hi hl).setQueue i { a.queue i with count := (a.queue i).count - 1 }
  refine ⟨_, ?_, h₁⟩
  simp [Kernel.msgTake, hnext, hmem, hk₀, hnext₀, hqueue₀, hcount]

/-- The queue is empty, as `msg_get` sees it. -/
theorem Refines.isListLast_msgs (h : Refines live k a) {i : ℕ} (hi : live (.queue i) = true) :
    isListLast k.heap (.msgHead i) = true ↔ a.msgs i = [] := by
  rw [Fos.isListLast_iff (h.rep_msgs hi), List.map_eq_nil_iff]

/-- `msg_get`. -/
theorem Sim.msgGet (h : Sim live k a) (hnew : a.newTask = some t) (hidle : t ≠ idleTcb) {i : ℕ}
    (hi : live (.queue i) = true) (buffer : Option ℕ) :
    SimRet live (k.msgGet (some i) buffer) (a.msgGet (some i) buffer) := by
  cases buffer with
  | none => exact SimRet.refl h .FALSE
  | some buf =>
    obtain ⟨href, w, hready⟩ := h
    have hlast := href.isListLast_msgs hi
    rw [Kernel.msgGet_eq]
    cases hl : a.msgs i with
    | nil =>
      -- The queue is empty, and the caller waits.
      have ht := hready t hnew
      obtain ⟨k₁, e₁, h₁⟩ := href.msgWait w.tasks hnew ht hi
      have ea : a.msgGet (some i) (some buf) =
          (a.block (.queue i) t).schedule.bind fun a => some (a, .EMPTY) := by
        simp [Abs.msgGet, hl, hnew]
      rw [if_pos (hlast.mpr hl), e₁, Option.bind_some, ea]
      exact SimRet.schedule h₁ (w.block ht hidle hi (by simp)) .EMPTY
    | cons m ms =>
      obtain ⟨k₁, e₁, h₁⟩ := href.msgTake w.msgs hi hl buf
      rw [if_neg fun e => by simp [hlast.mp e] at hl, e₁, Option.bind_some]
      exact ⟨_, _, .TRUE, rfl, by simp only [Abs.msgGet, hl], h₁, w.receive hl buf, hready⟩

end Fos
