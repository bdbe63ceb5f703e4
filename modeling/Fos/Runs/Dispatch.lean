import Fos.Runs.Control

/-!
# Dispatch

`schedule` is entered in the middle of calls and passes: a task that has just taken itself off its
ready list calls it, and so does a callback of `hardware_timer` that has put a semaphore.
`EntersSchedule` says in which states the kernel is then. The lists of tasks are well formed in
every one of them (`Core.entersSchedule`), so that `schedule` selects the first task of the highest
priority, and does nothing else but put it behind its equals (`schedule_dispatches`).
-/

namespace Fos

open Links Function

/-! ## Where `schedule` is entered -/

/-- A callback with the semaphores `puts` still to put comes to a `schedule` in the last state. -/
inductive PutEnters : List ℕ → Kernel → Kernel → Prop where
  /-- The one of the next semaphore. -/
  | head {i : ℕ} {puts : List ℕ} {k k' : Kernel} : k.semRelease i = some k' →
      PutEnters (i :: puts) k k'
  /-- One of a later semaphore: that of the next one selects the interrupted task again. -/
  | tail {i : ℕ} {puts : List ℕ} {k k₁ k' : Kernel} {r : Ret} :
      k.semPut (some i) = some (k₁, r) → k₁.newTask = k.newTask → PutEnters puts k₁ k' →
      PutEnters (i :: puts) k k'

/-- The loop of `hardware_timer` comes from the node `tmp` to a `schedule` in the last state. -/
inductive LoopEnters (o : Oracle) (call : ℕ) : Node → Kernel → Kernel → Prop where
  /-- The one behind the loop. -/
  | done {tmp : Node} {k : Kernel} : isListLast k.heap tmp = true → LoopEnters o call tmp k k
  /-- One in the callback of the next entry. -/
  | callback {tmp : Node} {k k' : Kernel} {tick : TickPtr} {func : ℕ} :
      isListLast k.heap tmp = false → (k.heap tmp).next.tickEntry = some tick →
      (k.tick tick).timeout = TIMEOUT → (k.tick tick).style = .softwareTimer →
      (k.tick tick).func = some func →
      PutEnters (o tick) ((k.note (.visit call tick TIMEOUT)).note
        (.callback call tick func (k.tick tick).funcArg)) k' →
      LoopEnters o call tmp k k'
  /-- One later in the loop. -/
  | next {tmp : Node} {k k₁ k' : Kernel} {tick : TickPtr} :
      isListLast k.heap tmp = false → (k.heap tmp).next.tickEntry = some tick →
      k.tickBody o call tick = some (k₁, none) → LoopEnters o call (k.heap tmp).next k₁ k' →
      LoopEnters o call tmp k k'

/-- `schedule` is entered in the state `k` when the action is taken. -/
inductive EntersSchedule (s : Sys Kernel) : Action → Kernel → Prop where
  /-- A call comes to its `schedule`. -/
  | call {c : Call} {k : Kernel} {r : Ret} : s.k.beforeSchedule c = some (k, r, true) →
      EntersSchedule s (.call c) k
  /-- `hardware_timer` comes to a `schedule`. -/
  | tick {o : Oracle} {k : Kernel} :
      LoopEnters o (s.k.fosTick + 1) tickHead
        (Kernel.note { s.k with fosTick := s.k.fosTick + 1 } (.start (s.k.fosTick + 1))) k →
      EntersSchedule s (.tick o) k
  /-- The rest of a callback comes to a `schedule`. -/
  | put {t : TcbPtr} {f : TimerFrame} {o : Oracle} {k : Kernel} : s.running = some t →
      s.frame t = some (.timer f) → PutEnters f.puts s.k k → EntersSchedule s (.resume o) k
  /-- The rest of a pass comes to a `schedule`. -/
  | resume {t : TcbPtr} {f : TimerFrame} {o : Oracle} {k₁ k : Kernel} : s.running = some t →
      s.frame t = some (.timer f) → s.k.runCallback f.puts = some (k₁, none) →
      LoopEnters o f.call (.tick f.entry) (k₁.afterCallback f.entry) k →
      EntersSchedule s (.resume o) k

/-! ## The lists are well formed there -/

variable {hst : Hist} {s : Sys Kernel} {a : Abs} {act : Action} {live : Node → Bool}
  {k k' : Kernel} {o : Oracle} {c : Call} {r : Ret} {t : TcbPtr}

/-- A call that comes to a `schedule` sets up nothing. -/
theorem setUp_of_beforeSchedule (h : k.beforeSchedule c = some (k', r, true)) :
    setUp live c = live := by
  have hexec : ((k.exec c).map fun r => (r.1, r.2, false)) ≠ some (k', r, true) := by
    intro h
    obtain ⟨r₁, -, heq⟩ := Option.map_eq_some_iff.mp h
    simp at heq
  cases c with
  | taskCreate | semInit | mutexInit | msgQueueCreate => exact absurd h hexec
  | taskPrioChange | osDelay | timerReq | semGet | semPut | mutexGet | mutexPut | msgPut | msgGet
  | schedule => rfl

/-- A callback comes to its `schedule`s in states whose lists are well formed. -/
theorem PutEnters.wf {puts : List ℕ} (he : PutEnters puts k k') (h : Tidy live k a)
    (hlive : ∀ i ∈ puts, live (.sem i) = true) : ∃ a', Refines live k' a' ∧ WF live a' := by
  induction he generalizing a with
  | @head i puts k k' hk =>
    obtain ⟨k₁, e₁, h₁⟩ := h.refines.semRelease h.wf.tasks (hlive i (by simp))
    obtain rfl := Option.some.inj (e₁.symm.trans hk)
    exact ⟨_, h₁, h.wf.semRelease i⟩
  | @tail i puts k k₁ k' r hk _ _ ih =>
    obtain ⟨k₂, a₂, r₂, e₂, -, h₂⟩ := h.refines.semPut h.wf (hlive i (by simp))
    obtain ⟨rfl, -⟩ := Prod.mk.inj (Option.some.inj (e₂.symm.trans hk))
    exact ih h₂.tidy fun j hj => hlive j (List.mem_cons_of_mem i hj)

/-- The loop of `hardware_timer` comes to its `schedule`s in states whose lists are well formed. -/
theorem LoopEnters.wf {call : ℕ} {x : Node} {es : List TickPtr} (he : LoopEnters o call x k k')
    (h : Tidy live k a) (hc : Cursor k a x es) (ho : ∀ e, ∀ i ∈ o e, live (.sem i) = true) :
    ∃ a', Refines live k' a' ∧ WF live a' := by
  -- The entry that the loop comes to is the first one that is still to come.
  have hentry : ∀ {x : Node} {k : Kernel} {a : Abs} {es : List TickPtr} {tick : TickPtr},
      Cursor k a x es → isListLast k.heap x = false → (k.heap x).next.tickEntry = some tick →
        (k.heap x).next = .tick tick ∧ ∃ es', es = tick :: es' := by
    intro x k a es tick hc hlast htick
    cases es with
    | nil => simp [hc.isListLast_iff.mpr rfl] at hlast
    | cons e es =>
      have hnext : (k.heap x).next = .tick e := hc.next
      rw [hnext, Node.tickEntry_tick, Option.some.injEq] at htick
      exact ⟨by rw [hnext, htick], es, by rw [htick]⟩
  induction he generalizing a es with
  | done => exact ⟨a, h.refines, h.wf⟩
  | callback hlast htick _ _ _ hput =>
    exact hput.wf (a := (a.note _).note _) ⟨(h.refines.note _).note _, (h.wf.note _).note _⟩ (ho _)
  | @next tmp k k₁ k' tick hlast htick hbody _ ih =>
    obtain ⟨hnext, es', rfl⟩ := hentry hc hlast htick
    obtain ⟨k₂, a₂, rest, e₂, -, h₂, -, hc₂⟩ := tickBody_sim o ho call h hc.suffix
    obtain ⟨rfl, rfl⟩ := Prod.mk.inj (Option.some.inj (e₂.symm.trans hbody))
    rw [hnext] at ih
    exact ih h₂ (hc₂ rfl)

/-- Wherever `schedule` is entered, the lists are well formed. -/
theorem Core.entersSchedule (h : Core hst s a) (ho : Orderly hst s act)
    (he : EntersSchedule s act k) : ∃ a', Refines s.live k a' ∧ WF s.live a' := by
  cases he with
  | @call c _ r hk =>
    obtain ⟨t, hnew⟩ := a.exists_caller
    obtain ⟨k₁, r₁, b, e₁, hwithin⟩ := h.effect ho.usage hnew
    obtain ⟨rfl, -⟩ := Prod.mk.inj (Option.some.inj (e₁.symm.trans hk))
    have htidy := hwithin.tidy
    rw [setUp_of_beforeSchedule hk] at htidy
    exact ⟨_, htidy.refines, htidy.wf⟩
  | tick he =>
    have h₁ := h.sim.tidy.tickStart
    exact he.wf h₁ h₁.refines.cursor_head ho.callbacks
  | put hr hf he =>
    obtain ⟨-, -, hputs⟩ := h.timer _ _ hf
    exact he.wf h.sim.tidy hputs
  | @resume t f _ k₁ _ hr hf hcallback he =>
    obtain ⟨⟨n, hn⟩, hmem, hputs⟩ := h.timer _ _ hf
    obtain ⟨k₂, a₂, rest, e₂, -, h₂, -, hput, -, -⟩ := runCallback_sim f.puts h.sim.tidy hputs
    obtain ⟨rfl, rfl⟩ := Prod.mk.inj (Option.some.inj (e₂.symm.trans hcallback))
    obtain ⟨pre, es, hl⟩ := List.append_of_mem hmem
    rw [hn] at hl he
    have hsuf : .timer n :: es <:+ a₂.ticks := ⟨pre, by rw [hput.ticks, hl]⟩
    obtain ⟨h₃, hc₃⟩ := h₂.afterCallback hsuf
    exact he.wf h₃ hc₃ ho.callbacks

/-! ## What `schedule` does -/

/-- The ready lists of the kernel. -/
def ReadyLists (k : Kernel) (ready : ℕ → List TcbPtr) : Prop :=
  ∀ p < SYSTEM_WORD, Represents k.heap (readyHead p) ((ready p).map .tcb)

/-- `prio_ready_queue_fetch` reports `r` in the state `k` with the ready lists `ready`, and selects
`t` in `k'`. -/
structure Dispatches (live : Node → Bool) (ready : ℕ → List TcbPtr) (k : Kernel) (r : Ret)
    (k' : Kernel) (t : TcbPtr) : Prop where
  /-- The task is selected. -/
  selected : k'.newTask = some t
  /-- It has been created. -/
  created : live (.tcb t) = true
  /-- It is in the ready list of its priority. -/
  linked : k'.prio t < SYSTEM_WORD ∧ t ∈ ready (k'.prio t)
  /-- No ready task has a smaller priority. -/
  highest : ∀ p < SYSTEM_WORD, ∀ u ∈ ready p, k'.prio t ≤ k'.prio u
  /-- `NO_SCHED` is reported when the task was selected already. -/
  report : r = if k.newTask = some t then .NO_SCHED else .SCHED
  /-- `old_task` is the task that another one is selected over. -/
  oldTask : k'.oldTask = if k.newTask = some t then k.oldTask else k.newTask
  /-- The task goes to the tail of its list, and nothing else moves. -/
  moved : ReadyLists k' (update ready (k'.prio t) ((ready (k'.prio t)).erase t ++ [t]))

/-- Where the lists are well formed, `schedule` dispatches. -/
theorem Refines.dispatches (h : Refines live k a) (w : WF live a) : ∃ ready r k' t,
    ReadyLists k ready ∧ k.prioReadyQueueFetch = some (k', r) ∧ k.schedule = some k' ∧
      Dispatches live ready k r k' t := by
  -- The first task of the first list that is not empty.
  obtain ⟨p, t, ts, hp, hl, hmin, -⟩ := w.schedule_eq
  obtain ⟨-, k', hfetch, h'⟩ := h.fetch w.tasks hp hl hmin
  have ht : t ∈ a.tasks (.ready p) := by simp [hl]
  have hlock : k.scheduleIsLock = false := by rw [← w.unlocked, h.vars]
  have hprio' : k'.prio = a.prio := by rw [h'.prio_eq, Abs.select_prio]
  have hprio : k'.prio t = p := by rw [hprio', w.tasks.ready_prio p t ht]
  refine ⟨fun i => a.tasks (.ready i), _, k', t, fun i hi => h.rep (q := .ready i) hi, hfetch,
    by simp [Kernel.schedule, hlock, hfetch], ?_, w.tasks.live_of_mem _ t ht, ?_, ?_, ?_, ?_, ?_⟩
  · rw [h'.newTask_eq, Abs.select_newTask]
  · rw [hprio]
    exact ⟨hp, ht⟩
  · intro i hi u hu
    rw [hprio, hprio', w.tasks.ready_prio i u hu]
    -- A list of a higher priority is empty.
    by_contra hlt
    rw [hmin i (by omega)] at hu
    exact absurd hu List.not_mem_nil
  · rw [h.newTask_eq]
  · rw [← h'.vars, Abs.select_oldTask, ← h.vars]
  · intro i hi
    -- The list that is taken from has lost its first task, and the others are as before.
    have hrep := h'.rep (q := .ready i) hi
    rw [w.tasks.select_tasks_eq hl] at hrep
    rw [hprio]
    rcases eq_or_ne i p with rfl | hne
    · rw [update_self] at hrep ⊢
      rw [hl, List.erase_cons_head]
      exact hrep
    · rw [update_of_ne (by simpa using hne)] at hrep
      rw [update_of_ne hne]
      exact hrep

/-! ## Runs -/

/-- Wherever `schedule` is entered in a run, it dispatches the first of the highest priority. -/
theorem schedule_dispatches {tr : Trace Kernel}
    (hrun : SysRun (fun tr s act => Orderly (hist tr) s act) tr s) (ho : Orderly (hist tr) s act)
    (he : EntersSchedule s act k) : ∃ ready r k' t,
    ReadyLists k ready ∧ k.prioReadyQueueFetch = some (k', r) ∧ k.schedule = some k' ∧
      Dispatches s.live ready k r k' t := by
  obtain ⟨a, hcore⟩ := hrun.core fun _ _ _ hg => hg
  obtain ⟨a', href, hwf⟩ := hcore.entersSchedule ho he
  exact href.dispatches hwf

/-- A task runs, and a semaphore has no units. -/
def noUnits : List Move := [
  .call (.taskCreate (some (.task 1)) (some 0) (some 0) 5),
  .call (.semInit (some 0) 0),
  .start, .call .schedule]

/-- The `schedule` in `sem_get` dispatches when the caller has just taken itself off its list. -/
theorem schedule_dispatches_noUnits : ∃ tr s k,
    SysRun (fun tr s act => Orderly (hist tr) s act) tr s ∧
      tr.map Prod.snd = (noUnits.map Move.act).reverse ∧
        EntersSchedule s (.call (.semGet (some 0))) k ∧ ∃ ready r k' t, ReadyLists k ready ∧
          k.prioReadyQueueFetch = some (k', r) ∧ k.schedule = some k' ∧
            Dispatches s.live ready k r k' t := by
  have hreplay : (replay (fun _ _ _ => true) noUnits [] Sys.zero).map (fun r =>
      (r.2.k.newTask, r.2.live (.sem 0), (r.2.k.sem 0).count)) =
        some (some (.task 1), true, 0) := by
    decide
  obtain ⟨⟨trA, sA⟩, hr, hh⟩ := Option.map_eq_some_iff.mp hreplay
  obtain ⟨tr, s, a, hrun, hcore, -, rfl, hacts⟩ :=
    replay_run PassiveUsage (fun _ _ _ _ m _ _ _ hu _ => ⟨hu, m.passive_act⟩) hr
  obtain ⟨hnew, hh⟩ := Prod.mk.inj hh
  obtain ⟨hlive, hcount⟩ := Prod.mk.inj hh
  have href := hcore.sim.refines
  obtain ⟨horderly, hno⟩ := hrun.orderly fun _ _ _ hg => hg
  have hrun' : SysRun (fun tr s act => Orderly (hist tr) s act) tr s :=
    Runs.Run.mono horderly fun _ _ _ _ hg => hg.2
  have hrunning : s.running = some (.task 1) := hcore.running_eq.trans hnew
  have ho : Orderly (hist tr) s (.call (.semGet (some 0))) :=
    .of_passive ⟨hlive, fun hmain => by simp [hrunning] at hmain,
      fun hidle => by simp [hrunning] at hidle⟩ trivial hno
  -- The caller waits, since no unit is left.
  obtain ⟨k, hk, -⟩ := href.semWait hcore.sim.wf.tasks hnew (hcore.sim.ready _ hnew) hlive
  have he : EntersSchedule s (.call (.semGet (some 0))) k := by
    refine .call (r := .TRUE) ?_
    have hzero : (s.k.sem 0).count = 0 := by rw [href.sem_eq]; exact hcount
    rw [Kernel.beforeSchedule, if_pos hzero, hk, Option.map_some]
  exact ⟨tr, s, k, hrun', hacts, he, schedule_dispatches hrun' ho he⟩

end Fos
