import Fos.Runs.Dispatch

/-!
# Wake-ups

`sem_put` and `mutex_put` take the first task off the list of those that wait, put it before its
equals, and call `schedule`. So the task is selected at once unless a ready task has a smaller
priority (`wakeUp_dispatched`). By then `mutex_put` has given the caller its own priority back.
-/

namespace Fos

open Links Function

/-- The call wakes the first task of the list. -/
def Call.Wakes (c : Call) (q : TaskQueue) : Prop :=
  (∃ i, c = .semPut (some i) ∧ q = .sem i) ∨ ∃ m, c = .mutexPut (some m) ∧ q = .mutex m

/-- A call of `t` in the state `k₀` takes `u` off the list `q`, before `us`: it comes to `schedule`
in the state `k`, and `schedule` returns in `k'`. -/
structure WokenUp (q : TaskQueue) (t u : TcbPtr) (us : List TcbPtr) (k₀ k k' : Kernel) : Prop where
  /-- The others go on waiting, in order. -/
  released : Represents k'.heap q.head (us.map .tcb)
  /-- A mutex has given the caller its priority back. -/
  restored : ∀ m, q = .mutex m → k.prio t = (k₀.mutex m).copyPrio
  /-- The caller is ready. -/
  caller : Queued k.heap (readyHead (k.prio t)) (.tcb t)
  /-- The task comes before every other one of its priority. -/
  first : ∃ vs, Represents k.heap (readyHead (k.prio u)) ((u :: vs).map .tcb)
  /-- It is selected unless a ready task has a smaller priority. -/
  selected : k'.newTask = some u ↔
    ∀ p < SYSTEM_WORD, ∀ v, Queued k.heap (readyHead p) (.tcb v) → k.prio u ≤ k.prio v

variable {hst : Hist} {s : Sys Kernel} {a a' : Abs} {live : Node → Bool} {t u : TcbPtr}
  {q : TaskQueue} {us vs : List TcbPtr} {c : Call}

/-- The first task of a list is before its equals once it is woken. -/
theorem Abs.wakeFirst_ready (h : a.tasks q = u :: us) :
    ∃ vs, (a.wakeFirst q).tasks (.ready ((a.wakeFirst q).prio u)) = u :: vs := by
  refine ⟨(a.tasks (.ready (a.prio u))).erase u, ?_⟩
  simp [Abs.wakeFirst, h, Abs.wake, Abs.pushHead, Abs.remove]

/-- The task that a call wakes is before its equals when the call comes to its `schedule`. -/
theorem WF.effect_ready (w : WF live a) (ht : t ∈ a.tasks (.ready (a.prio t))) (hc : c.Wakes q)
    (hl : a.tasks q = u :: us) :
    ∃ vs, (c.effect t a).tasks (.ready ((c.effect t a).prio u)) = u :: vs := by
  rcases hc with ⟨i, rfl, rfl⟩ | ⟨m, rfl, rfl⟩
  · have hne : a.tasks (.sem i) ≠ [] := by simp [hl]
    simp only [Call.effect, Abs.semRelease, if_pos hne]
    exact Abs.wakeFirst_ready hl
  · have hreprio := (w.setMutex m { a.mutex m with enable := 1 }).reprio_tasks
      (q := .mutex m) (p := (a.mutex m).copyPrio) ht (by simp)
    exact Abs.wakeFirst_ready (hreprio.trans hl)

/-- A call that wakes a task leaves the running task selected. -/
theorem Call.Wakes.effect_newTask (hc : c.Wakes q) (t : TcbPtr) (a : Abs) :
    (c.effect t a).newTask = a.newTask := by
  rcases hc with ⟨i, rfl, -⟩ | ⟨m, rfl, -⟩
  · simp only [Call.effect, Abs.semRelease]
    split_ifs
    · rw [Abs.wakeFirst_vars]
    · rfl
    · rfl
  · simp only [Call.effect, Abs.mutexRelease, Abs.wakeFirst_vars]
    rfl

/-- A call that wakes a task does not make its caller wait. -/
theorem Call.Wakes.not_blocks (hc : c.Wakes q) (k : Kernel) : ¬ c.Blocks k := by
  rcases hc with ⟨i, rfl, -⟩ | ⟨m, rfl, -⟩ <;> exact id

/-- `schedule` selects the first task of a ready list exactly if no ready task has a smaller
priority. -/
theorem WF.schedule_selects_iff (w : WF live a) (hu : a.tasks (.ready (a.prio u)) = u :: vs)
    (h : a.schedule = some a') :
    a'.newTask = some u ↔ ∀ p v, v ∈ a.tasks (.ready p) → a.prio u ≤ a.prio v := by
  obtain ⟨p, t, ts, hp, hl, hmin, hsched⟩ := w.schedule_eq
  obtain rfl := Option.some.inj (hsched.symm.trans h)
  have ht : t ∈ a.tasks (.ready p) := by simp [hl]
  have hprio := w.tasks.ready_prio p t ht
  rw [Abs.select_newTask, Option.some.injEq]
  constructor
  · rintro rfl i v hv
    rw [hprio, w.tasks.ready_prio i v hv]
    by_contra hlt
    rw [hmin i (by omega)] at hv
    exact absurd hv List.not_mem_nil
  · intro hall
    have hle : a.prio u ≤ p := hprio ▸ hall p t ht
    have hge : ¬ a.prio u < p := fun hlt => by simp [hmin _ hlt] at hu
    have heq : a.prio u = p := by omega
    rw [heq, hl] at hu
    exact (List.cons.inj hu).1

/-- In every run, the first task that waits on a semaphore or a mutex is woken before its equals by
a `sem_put` or a `mutex_put`, and selected at once unless a ready task has a smaller priority. -/
theorem wakeUp_dispatched {tr : Trace Kernel}
    (hrun : SysRun (fun tr s act => Orderly (hist tr) s act) tr s)
    (ho : Orderly (hist tr) s (.call c)) (hr : s.running = some t) (hc : c.Wakes q)
    (hl : Represents s.k.heap q.head ((u :: us).map .tcb)) : ∃ k k',
    s.k.beforeSchedule c = some (k, .TRUE, true) ∧ k.schedule = some k' ∧
      s.k.exec c = some (k', .TRUE) ∧ WokenUp q t u us s.k k k' := by
  obtain ⟨a, hcore⟩ := hrun.core fun _ _ _ hg => hg
  have hnew : a.newTask = some t := hcore.running_eq.symm.trans hr
  have hself : ∀ t', a.newTask = some t' → t' = t := fun t' h => Option.some.inj (h.symm.trans hnew)
  have ht := hcore.sim.ready t hnew
  -- The list is one that has been set up, and the call comes to its `schedule`.
  have hopen : q.Open s.live ∧ ∀ p, q ≠ .ready p := by
    rcases hc with ⟨i, rfl, rfl⟩ | ⟨m, rfl, rfl⟩
    · exact ⟨ho.usage.1, by simp⟩
    · exact ⟨ho.usage.1.1, by simp⟩
  have hlist : a.tasks q = u :: us := by
    have := hl.unique (hcore.sim.refines.rep hopen.1)
    exact (List.map_injective_iff.mpr Node.tcb_injective this).symm
  obtain ⟨k, r, b, hbefore, hwithin⟩ := hcore.effect ho.usage hself
  obtain ⟨rfl, rfl⟩ : r = .TRUE ∧ b = true := by
    rcases hc with ⟨i, rfl, rfl⟩ | ⟨m, rfl, rfl⟩
    · obtain ⟨_, -, heq⟩ := Option.map_eq_some_iff.mp hbefore
      exact ⟨(Prod.mk.inj (Prod.mk.inj heq).2).1.symm, (Prod.mk.inj (Prod.mk.inj heq).2).2.symm⟩
    · obtain ⟨_, -, heq⟩ := Option.map_eq_some_iff.mp hbefore
      exact ⟨(Prod.mk.inj (Prod.mk.inj heq).2).1.symm, (Prod.mk.inj (Prod.mk.inj heq).2).2.symm⟩
  obtain ⟨href, hwf⟩ := hwithin.tidy
  rw [setUp_of_beforeSchedule hbefore] at href hwf
  have hready := (hcore.runningReady_effect ho.usage hself).mpr (hc.not_blocks _) t
    ((hc.effect_newTask t a).trans hnew)
  have htasks := hcore.sim.wf.effect_tasks (c := c) (q := q) (fun _ => ht)
    (by rcases hc with ⟨i, rfl, -⟩ | ⟨m, rfl, -⟩ <;> simp) hopen.2
  have hwaits : c.waitsIn a ≠ some q ∧ c.wakesFrom = some q := by
    rcases hc with ⟨i, rfl, rfl⟩ | ⟨m, rfl, rfl⟩ <;> simp [Call.waitsIn, Call.wakesFrom]
  rw [if_neg hwaits.1, if_pos hwaits.2, hlist, List.tail_cons] at htasks
  obtain ⟨vs, hfirst⟩ := hcore.sim.wf.effect_ready ht hc hlist
  generalize heff : c.effect t a = a₁ at href hwf hready htasks hfirst
  have hlt : ∀ v p, v ∈ a₁.tasks (.ready p) → a₁.prio v = p ∧ p < SYSTEM_WORD := fun v p hv =>
    ⟨hwf.tasks.ready_prio p v hv, hwf.tasks.open_of_mem _ v hv⟩
  obtain ⟨k', a', hsched, hsched', hsim'⟩ := href.schedule hwf
  refine ⟨k, k', hbefore, hsched, ?_, ?_, ?_, ?_, ?_, ?_⟩
  · rw [Kernel.exec_eq, hbefore, Option.bind_some]
    simp [Kernel.callEnd, hsched]
  · obtain ⟨p, v, _, hv, rfl⟩ := Abs.schedule_inv hsched'
    have hrep := hsim'.refines.rep hopen.1
    rwa [hwf.tasks.select_tasks_of_ne (hv ▸ List.mem_cons_self) (hopen.2 p), htasks] at hrep
  · rintro m rfl
    rcases hc with ⟨i, -, hq⟩ | ⟨m', rfl, hq⟩
    · simp at hq
    · obtain rfl := TaskQueue.mutex.inj hq
      rw [href.prio_eq, ← heff, hcore.sim.refines.mutex_eq]
      simp [Call.effect, Abs.mutexRelease, Abs.reprio, Abs.setPrio, Abs.pushHead]
  · rw [href.prio_eq]
    exact (href.queued_task_iff (q := .ready _) (hlt t _ hready).2 t).mpr hready
  · rw [href.prio_eq]
    have hmem : u ∈ a₁.tasks (.ready (a₁.prio u)) := hfirst ▸ List.mem_cons_self
    exact ⟨vs, hfirst ▸ href.rep (q := .ready _) (hlt u _ hmem).2⟩
  · rw [hsim'.refines.newTask_eq, hwf.schedule_selects_iff hfirst hsched', href.prio_eq]
    constructor
    · intro hall p hp v hv
      exact hall p v ((href.queued_task_iff (q := .ready p) hp v).mp hv)
    · intro hall p v hv
      exact hall p (hlt v p hv).2 v ((href.queued_task_iff (q := .ready p) (hlt v p hv).2 v).mpr hv)

/-- A task waits on a semaphore, and one of a lower priority runs. -/
def oneWaits : List Move := [
  .call (.taskCreate (some (.task 1)) (some 0) (some 0) 5),
  .call (.taskCreate (some (.task 2)) (some 0) (some 0) 6),
  .call (.semInit (some 0) 0),
  .start, .call .schedule, .call (.semGet (some 0))]

/-- The task that waits is woken by a `sem_put` of the other one. -/
theorem wakeUp_dispatched_oneWaits : ∃ tr s,
    SysRun (fun tr s act => Orderly (hist tr) s act) tr s ∧
      tr.map Prod.snd = (oneWaits.map Move.act).reverse ∧ s.running = some (.task 2) ∧ ∃ k k',
        s.k.beforeSchedule (.semPut (some 0)) = some (k, .TRUE, true) ∧ k.schedule = some k' ∧
          s.k.exec (.semPut (some 0)) = some (k', .TRUE) ∧
            WokenUp (.sem 0) (.task 2) (.task 1) [] s.k k k' := by
  have hreplay : (replay (fun _ _ _ => true) oneWaits [] Sys.zero).map (fun r =>
      (r.2.k.newTask, r.2.live (.sem 0), r.2.k.tasks (.sem 0),
        (Move.call (.semPut (some 0))).check (hist r.1) r.2)) =
        some (some (.task 2), true, [.task 1], true) := by decide
  obtain ⟨⟨trA, sA⟩, hr, hh⟩ := Option.map_eq_some_iff.mp hreplay
  obtain ⟨tr, s, a, hrun, hcore, rfl, hacts, hnext⟩ := replay_orderly Sys.zero_init hr
  simp only [Prod.mk.injEq] at hh
  obtain ⟨hnew, hlive, hwaits, hcheck⟩ := hh
  have hrunning : s.running = some (.task 2) := hcore.running_eq.trans hnew
  have hrep := hcore.sim.refines.rep (q := .sem 0) hlive
  rw [show a.tasks (.sem 0) = _ from hwaits] at hrep
  exact ⟨tr, s, hrun, hacts, hrunning,
    wakeUp_dispatched hrun (hnext _ hcheck) hrunning (Or.inl ⟨0, rfl, rfl⟩) hrep⟩

end Fos
