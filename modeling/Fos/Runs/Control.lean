import Fos.Refinement.Inside
import Fos.Refinement.Replay

/-!
# Where the tasks are that do not run

A task that waits in a list is inside the call that made it wait, and a task that sleeps is inside
`os_delay` (`Parked`). A call that makes its caller wait has another task selected, so that the
caller is left inside the call.
-/

namespace Fos

open Function Runs

/-- The system is used as its functions ask for, and callbacks make no kernel call. -/
def PassiveUsage (tr : Trace Kernel) (s : Sys Kernel) (act : Action) : Prop :=
  Usage (hist tr) s act ∧ Passive act

variable {hst hst' : Hist} {s s' : Sys Kernel} {a a' : Abs} {act : Action} {t u : TcbPtr}
  {c c' : Call} {r r' : Ret} {k' : Kernel} {q : TaskQueue} {f : Option TimerFrame}

/-- What can be replayed is a run with passive callbacks. -/
theorem PassiveUsage.of_replay (ms : List Move)
    (hr : (replay (fun _ _ _ => true) ms [] Sys.zero).isSome) :
    ∃ tr s, SysRun PassiveUsage tr s ∧ tr.map Prod.snd = (ms.map Move.act).reverse := by
  obtain ⟨⟨trA, sA⟩, hr⟩ := Option.isSome_iff_exists.mp hr
  obtain ⟨tr, s, -, hrun, -, -, -, hacts⟩ := replay_run PassiveUsage
    (fun _ _ _ _ m _ _ _ hu _ => ⟨hu, m.passive_act⟩) hr
  exact ⟨tr, s, hrun, hacts⟩

/-! ## What is set up after a step -/

/-- What is live after a step, of the mutexes. -/
theorem Lockstep.live_mutex (h : Lockstep s a act s' a') {m : ℕ}
    (hne : act ≠ .call (.mutexInit (some m))) : s'.live (.mutex m) = s.live (.mutex m) := by
  cases h with
  | main | call => exact setUp_of_ne fun heq => hne (by rw [Call.eq_of_setsUp_mutex heq])
  | tick | ret | pass | start => rfl

/-- What has been set up stays set up. -/
theorem Lockstep.live_mono (h : Lockstep s a act s' a') {n : Node} (hn : s.live n = true) :
    s'.live n = true := by
  cases h with
  | main | call => exact setUp_mono hn
  | tick | ret | pass | start => exact hn

/-! ## The frames after a call -/

/-- The caller is left inside its call exactly when another task is selected. -/
theorem Sys.callFrame_self (hf : s.frame t = none) :
    s.callFrame t c k' r t = if k'.newTask = some t then none else some (.call c r) := by
  unfold Sys.callFrame
  by_cases h : k'.newTask = some t
  · rw [if_pos h]
    exact (congrFun (if_pos h) t).trans hf
  · rw [if_neg h]
    exact (congrFun (if_neg h) t).trans (update_self _ _ _)

/-- The frame of another task stays. -/
theorem Sys.callFrame_of_ne (hu : u ≠ t) : s.callFrame t c k' r u = s.frame u := by
  unfold Sys.callFrame
  split_ifs
  · rfl
  · exact update_of_ne hu _ _

/-- A frame after a call was one before, or is that of the call, over which another task has been
selected. -/
theorem Sys.callFrame_cases (hf : s.frame t = none)
    (h : s.callFrame t c k' r u = some (.call c' r')) :
    s.frame u = some (.call c' r') ∨ u = t ∧ c' = c ∧ r' = r ∧ k'.newTask ≠ some t := by
  rcases eq_or_ne u t with rfl | hu
  · rw [Sys.callFrame_self hf] at h
    split_ifs at h with hnew
    obtain ⟨rfl, rfl⟩ := Frame.call.inj (Option.some.inj h)
    exact Or.inr ⟨rfl, rfl, rfl, hnew⟩
  · rw [Sys.callFrame_of_ne hu] at h
    exact Or.inl h

/-- A call returns at once exactly when no other task is selected. -/
theorem returned_callFrame {live : Node → Bool} (hr : s.running = some t) (hf : s.frame t = none)
    (hk : s.k.exec c = some (k', r)) :
    returned s (.call c) ⟨k', s.callFrame t c k' r, live⟩ =
      if k'.newTask = some t then some (t, c, r) else none := by
  rw [returned_call hr hk]
  by_cases h : k'.newTask = some t
  · simp [Sys.callFrame_self hf, h]
  · simp [Sys.callFrame_self hf, h]

/-- The frame of a call, after a pass or the return of another call, was one before. -/
theorem Sys.frame_of_passFrame {f : Option TimerFrame}
    (h : update s.frame t (f.map .timer) u = some (.call c r)) : s.frame u = some (.call c r) := by
  rcases eq_or_ne u t with rfl | hu
  · rw [update_self] at h
    obtain ⟨g, -, hg⟩ := Option.map_eq_some_iff.mp h
    simp at hg
  · rwa [update_of_ne hu] at h

/-! ## The lists of waiting tasks after a call -/

/-- What a call does to a list of waiting tasks. -/
theorem Core.exec_tasks (h : Core hst s a) (hu : Usage hst s (.call c))
    (hnew : ∀ t', a.newTask = some t' → t' = t) (ha : a.exec c = some (a', r))
    (hq : ∀ p, q ≠ .ready p) :
    a'.tasks q = if c.waitsIn a = some q then a.tasks q ++ [t]
      else if c.wakesFrom = some q then (a.tasks q).tail else a.tasks q := by
  rw [(Abs.exec_effect hnew ha).tasks_eq (h.wf_effect hu hnew) hq]
  refine h.sim.wf.effect_tasks (fun hset => ?_) (fun u p hc => ?_) hq
  · cases hr : a.newTask with
    | none => simp [hu.2.1 (h.running_eq.trans hr)] at hset
    | some t' => exact hnew t' hr ▸ h.sim.ready t' hr
  · subst hc
    exact hnew u (h.running_eq.symm.trans hu.1.1)

/-- A call that makes its caller wait has another task selected. -/
theorem Core.newTask_ne_of_waits (h : Core hst s a) (h' : Core hst' s' a')
    (hu : Usage hst s (.call c)) (hr : a.newTask = some t) (ha : a.exec c = some (a', r))
    (hw : c.waitsIn a = some q) : a'.newTask ≠ some t := by
  intro hself
  have hq : ∀ p, q ≠ .ready p := by
    rintro p rfl
    unfold Call.waitsIn at hw
    split at hw <;> simp at hw
  have hmem : t ∈ a'.tasks q := by
    rw [h.exec_tasks hu (fun t' ht' => Option.some.inj (ht'.symm.trans hr)) ha hq, if_pos hw]
    simp
  exact hq _ (h'.sim.wf.tasks.apart _ _ t hmem (h'.sim.ready t hself))

/-- The first task of a list, as the kernel reads it. -/
def firstTask (k : Kernel) (q : TaskQueue) : List TcbPtr :=
  if isListLast k.heap q.head then [] else ((k.heap q.head).next.tcbEntry).toList

/-- The first task of a list is that of the list of the abstract kernel. -/
theorem Core.firstTask_eq (h : Core hst s a) (hq : q.Open s.live) :
    firstTask s.k q = (a.tasks q).head?.toList := by
  have href := h.sim.refines
  have hlast := href.isListLast_iff hq
  unfold firstTask
  cases hw : a.tasks q with
  | nil => simp [hlast.mpr hw]
  | cons t ts =>
    have hne : ¬ isListLast s.k.heap q.head = true := fun hl => by
      simp [hlast.mp hl] at hw
    simp [hne, href.next_head hq hw]

/-! ## Calls and returns -/

/-- The task that makes the call. -/
def caller {κ : Type} [Machine κ] (c : Call) (s : Sys κ) (act : Action) : List TcbPtr :=
  match called s act with
  | some (t, c') => if c' = c then [t] else []
  | none => []

/-- The task to which the call returns. -/
def returnee {κ : Type} [Machine κ] (c : Call) (s : Sys κ) (act : Action) (s' : Sys κ) :
    List TcbPtr :=
  match returned s act s' with
  | some (t, c', _) => if c' = c then [t] else []
  | none => []

/-- The tasks to which the call has returned, in order. -/
def returnees {κ : Type} [Machine κ] (c : Call) : Trace κ → Sys κ → List TcbPtr
  | [], _ => []
  | e :: tr, s => returnees c tr e.1 ++ returnee c e.1 e.2 s

/-- The task is inside the call. -/
def inside {κ : Type} (s : Sys κ) (t : TcbPtr) (c : Call) : Bool :=
  match s.frame t with
  | some (.call c' _) => c' = c
  | _ => false

/-- A task that is not inside any call. -/
theorem inside_of_none {κ : Type} {s : Sys κ} (hf : s.frame t = none) : inside s t c = false := by
  simp [inside, hf]

/-- Whether a task is inside a call depends on its frame only. -/
theorem inside_congr {κ : Type} {s s' : Sys κ} (hf : s'.frame t = s.frame t) :
    inside s' t c = inside s t c := by
  simp [inside, hf]

/-- A pass of the running task is not inside a call. -/
theorem inside_passFrame {κ : Type} {k : κ} {frame : TcbPtr → Option Frame} {live : Node → Bool}
    {f : Option TimerFrame} :
    inside (⟨k, update frame t (f.map .timer), live⟩ : Sys κ) t c = false := by
  cases f <;> simp [inside]

/-- In one step as many calls begin, or go on, as return, or go on. -/
theorem Lockstep.caller_count (h : Lockstep s a act s' a') (u : TcbPtr) (c : Call) :
    (caller c s act).count u + (inside s u c).toNat =
      (returnee c s act s').count u + (inside s' u c).toNat := by
  cases h with
  | main hr _ _ => simp [caller, returnee, hr, returned_main hr, inside]
  | @call t c' k' _ r hr hf hk _ _ =>
    rw [caller, returnee, called_call, returned_callFrame hr hf hk, hr]
    -- The caller is inside of the call now, or has come back from it at once.
    rcases eq_or_ne u t with rfl | hne
    · rw [inside_of_none hf]
      by_cases hnew : k'.newTask = some u
      · by_cases hc : c' = c <;> simp [inside, Sys.callFrame_self hf, hnew, hc]
      · by_cases hc : c' = c <;> simp [inside, Sys.callFrame_self hf, hnew, hc]
    -- The frame of another task is as before.
    · have hsame : inside ⟨k', s.callFrame t c' k' r, setUp s.live c'⟩ u c = inside s u c :=
        inside_congr (Sys.callFrame_of_ne hne)
      rw [hsame]
      by_cases hnew : k'.newTask = some t
      · by_cases hc : c' = c <;> simp [hnew, hc, hne.symm]
      · by_cases hc : c' = c <;> simp [hnew, hc, hne.symm]
  | @tick t o k' _ f hr hf _ _ =>
    rcases eq_or_ne u t with rfl | hne
    · simp [caller, returnee, inside_of_none hf, inside_passFrame]
    · simp [caller, returnee, inside, hne]
  -- A task that has waited comes back from its call.
  | @ret t o c' r hr hf =>
    rw [caller, returnee, returned_ret hr hf]
    rcases eq_or_ne u t with rfl | hne
    · by_cases hc : c' = c <;> simp [inside, hf, hc]
    · by_cases hc : c' = c <;> simp [inside, hne, hc, hne.symm]
  | @pass t o f k' _ f' hr hf _ _ =>
    rw [caller, returnee, returned_pass hr hf]
    rcases eq_or_ne u t with rfl | hne
    · simp [inside, hf]
    · simp [inside, hne]
  | start hr => rfl

/-- A call that a task has made has returned to it, unless the task is inside it. -/
theorem SysRun.callers_count {tr : Trace Kernel} (h : SysRun PassiveUsage tr s) (t : TcbPtr)
    (c : Call) : (collect (caller c) tr).count t =
      (returnees c tr s).count t + (inside s t c).toNat := by
  obtain ⟨hrun, -⟩ := h.orderly fun _ _ _ hg => hg
  let P (tr : Trace Kernel) (s : Sys Kernel) (_ : Abs) : Prop :=
    (collect (caller c) tr).count t = (returnees c tr s).count t + (inside s t c).toNat
  obtain ⟨a, -, hp⟩ : ∃ a, Core (hist tr) s a ∧ P tr s a := by
    refine hrun.invariant (fun _ _ _ hg => hg.2) (fun s k hinit _ _ => ?_) ?_
    · simp [P, returnees, inside_of_none (hinit.2.1 t)]
    · intro tr s a act s' a' _ _ hp _ hl _
      have := hl.caller_count t c
      simp only [P, collect_cons, returnees, List.count_append] at hp ⊢
      omega
  exact hp

/-! ## Waiting and sleeping -/

/-- The list that a task waits in inside a call. -/
def Call.waitList : Call → Option TaskQueue
  | .semGet (some s) => some (.sem s)
  | .mutexGet (some m) => some (.mutex m)
  | .msgGet (some q) (some _) => some (.queue q)
  | _ => none

/-- Tasks that wait or sleep are inside the calls that made them. -/
structure Parked (s : Sys Kernel) (a : Abs) : Prop where
  /-- A task that waits. -/
  waits : ∀ q t, (∀ p, q ≠ .ready p) → t ∈ a.tasks q →
    ∃ c r, s.frame t = some (.call c r) ∧ c.waitList = some q
  /-- A task that sleeps. -/
  sleeps : ∀ t, .delay t ∈ a.ticks → ∃ n r, s.frame t = some (.call (.osDelay n) r)

/-- A call that makes its caller wait is one that waits in that list. -/
theorem Call.waitList_of_waitsIn (h : c.waitsIn a = some q) : c.waitList = some q := by
  unfold Call.waitsIn at h
  split at h
  · split_ifs at h
    exact h
  · split_ifs at h
    exact h
  · split_ifs at h
    exact h
  · simp at h

/-- `main` does not wait. -/
theorem Call.waitsIn_of_isSetUp (h : c.IsSetUp = true) : c.waitsIn a = none := by
  cases c <;> first | rfl | simp [Call.IsSetUp] at h

/-- The delay of a task is put into the tick queue by `os_delay`. -/
theorem Call.eq_osDelay (hu : CallUsage hst s s.running c)
    (h : TickPtr.delay u ∈ (c.queues t).toList) : u = t ∧ ∃ n, c = .osDelay n := by
  rw [Option.mem_toList] at h
  match c with
  | .osDelay n => exact ⟨(TickPtr.delay.inj (Option.some.inj h)).symm, n, rfl⟩
  | .timerReq (some e) (some f) timeout period arg =>
    -- A timer of the application is not the delay of a task.
    obtain ⟨⟨n, rfl⟩, -⟩ := hu
    simp only [Call.queues] at h
    split_ifs at h
    simp at h
  | .timerReq none _ _ _ _ | .timerReq (some _) none _ _ _ => simp [Call.queues] at h
  | .taskCreate .. | .taskPrioChange .. | .semInit .. | .semGet _ | .semPut _ | .mutexInit _
  | .mutexGet _ | .mutexPut _ | .msgQueueCreate .. | .msgPut .. | .msgGet .. | .schedule =>
    simp [Call.queues] at h

/-- A task that waits after a call has waited before, or it is the caller. -/
theorem Core.mem_tasks_of_exec (h : Core hst s a) (hu : Usage hst s (.call c))
    (hnew : ∀ t', a.newTask = some t' → t' = t) (ha : a.exec c = some (a', r))
    (hq : ∀ p, q ≠ .ready p) (hmem : u ∈ a'.tasks q) :
    u ∈ a.tasks q ∨ u = t ∧ c.waitsIn a = some q := by
  rw [h.exec_tasks hu hnew ha hq] at hmem
  split_ifs at hmem with hin
  · exact (List.mem_append.mp hmem).imp_right fun hm => ⟨List.mem_singleton.mp hm, hin⟩
  · exact Or.inl (List.mem_of_mem_tail hmem)
  · exact Or.inl hmem

/-- An entry that is queued after a passive tick was queued before. -/
theorem WF.mem_ticks_of_hardwareTimer {live : Node → Bool} (w : WF live a)
    (ha : a.hardwareTimer passive = some (a', f)) {e : TickPtr} (h : e ∈ a'.ticks) : e ∈ a.ticks :=
  (w.passFrom_hardwareTimer ha).1.subset e h

/-- A passive tick changes the ticks, the log and who runs, and no other variable. -/
theorem WF.vars_hardwareTimer {live : Node → Bool} (w : WF live a)
    (ha : a.hardwareTimer passive = some (a', f)) :
    a'.toVars = { a.toVars with
      tick := a'.tick, log := a'.log, newTask := a'.newTask, oldTask := a'.oldTask,
      fosTick := a.fosTick + 1 } := by
  obtain ⟨-, b, hb, hsched⟩ := w.passed_hardwareTimer ha
  obtain ⟨p, v, vs, -, rfl⟩ := Abs.schedule_inv hsched
  rw [Abs.select_vars, hb.vars]
  rfl

/-- A pass wakes the task whose delay it has come to. -/
theorem WF.eq_delay_of_woken {live : Node → Bool} (w : WF live a) {e : TickPtr} (he : e ∈ a.ticks)
    (h : (a.tick e).woken = some u) : e = .delay u := by
  obtain ⟨⟨-, hstyle⟩, htcb⟩ : ((a.tick e).timeout = TIMEOUT ∧ (a.tick e).style = .delay) ∧
      (a.tick e).tcb = some u := by simpa [Tick.woken] using h
  cases e with
  | delay t =>
    have htcb' := (w.ticks.delay t he).2.1
    rw [htcb'] at htcb
    rw [Option.some.inj htcb]
  | timer n => simp [(w.ticks.timer n he).1] at hstyle
  | tickQueue => exact absurd he w.ticks.head

/-- What a passive tick does to the tick queue. -/
theorem WF.ticks_hardwareTimer {live : Node → Bool} (w : WF live a)
    (ha : a.hardwareTimer passive = some (a', f)) (e : TickPtr) :
    (e ∈ a'.ticks ↔ e ∈ a.ticks ∧ ¬ (a.tick e).Leaves) ∧
      a'.tick e = if e ∈ a.ticks then (a.tick e).passed else a.tick e := by
  obtain ⟨-, b, hb, hsched⟩ := w.passed_hardwareTimer ha
  obtain ⟨p, v, vs, -, rfl⟩ := Abs.schedule_inv hsched
  rw [Abs.select_ticks, Abs.select_tick]
  refine ⟨?_, hb.tick e⟩
  rw [hb.ticks, List.mem_filter, decide_eq_true_eq]
  constructor
  · rintro ⟨he, hl⟩
    exact ⟨he, fun hleaves => hl ⟨he, hleaves⟩⟩
  · rintro ⟨he, hl⟩
    exact ⟨he, fun hleaves => hl hleaves.2⟩

/-- The tasks that wait go on waiting over a passive tick. -/
theorem WF.tasks_hardwareTimer {live : Node → Bool} (w : WF live a)
    (ha : a.hardwareTimer passive = some (a', f)) (hq : ∀ p, q ≠ .ready p) :
    a'.tasks q = a.tasks q := by
  obtain ⟨-, b, hb, hsched⟩ := w.passed_hardwareTimer ha
  obtain ⟨p, v, vs, hv, rfl⟩ := Abs.schedule_inv hsched
  have hsame : b.tasks q = a.tasks q := hb.waiting q hq
  rw [Abs.select_tasks]
  simp only [Abs.pushTail, Abs.remove, update_of_ne (hq p), hsame]
  -- The selected task was ready, or it has slept.
  refine List.erase_of_not_mem fun hm => ?_
  have hmem : v ∈ b.tasks (.ready p) := by simp [hv]
  rw [hb.ready p] at hmem
  rcases List.mem_append.mp hmem with hready | hwoken
  · exact hq _ (w.tasks.apart _ _ v hm hready)
  · obtain ⟨e, he, hwoken⟩ := List.mem_filterMap.mp (List.mem_filter.mp hwoken).1
    obtain rfl := w.eq_delay_of_woken he hwoken
    exact w.tasks.awake q v hm he

/-- `Parked`, after one more step. -/
theorem Parked.step (h : Parked s a) (hl : Lockstep s a act s' a') (hcore : Core hst s a)
    (hcore' : Core hst' s' a') (hu : Usage hst s act) (hp : Passive act)
    (hno : ∀ t f, s.frame t ≠ some (.timer f)) : Parked s' a' := by
  -- A task that waits or sleeps does not run.
  have hwaits : ∀ q u, (∀ p, q ≠ .ready p) → u ∈ a.tasks q → s.running ≠ some u := by
    intro q u hq hu hr
    have := hcore.sim.ready u (hcore.running_eq.symm.trans hr)
    exact hq _ (hcore.sim.wf.tasks.apart _ _ u hu this)
  have hsleeps : ∀ u, .delay u ∈ a.ticks → s.running ≠ some u := by
    intro u hu hr
    have := hcore.sim.ready u (hcore.running_eq.symm.trans hr)
    exact hcore.sim.wf.tasks.awake _ u this hu
  cases hl with
  | @main c k' _ r hr hk ha =>
    obtain ⟨t, hnew⟩ := a.exists_caller
    refine ⟨fun q u hq hmem => h.waits q u hq ?_, fun u hmem => h.sleeps u ?_⟩
    · refine (hcore.mem_tasks_of_exec hu hnew ha hq hmem).resolve_right fun hin => ?_
      rw [Call.waitsIn_of_isSetUp (hu.2.1 hr)] at hin
      exact absurd hin.2 (by simp)
    · rw [(Abs.exec_frame hnew ha).ticks] at hmem
      refine (List.mem_append.mp hmem).resolve_right fun hq => ?_
      obtain ⟨-, n, rfl⟩ := Call.eq_osDelay hu.1 hq
      exact absurd (hu.2.1 hr) (by simp [Call.IsSetUp])
  | @call t c k' _ r hr hf hk ha hnew =>
    have hrun := hcore.running_eq.symm.trans hr
    have hcaller : ∀ t', a.newTask = some t' → t' = t := fun t' ht' =>
      Option.some.inj (ht'.symm.trans hrun)
    -- The caller is left inside its call when it waits or sleeps.
    have hself : a'.newTask ≠ some t → s.callFrame t c k' r t = some (.call c r) := fun hne => by
      rw [Sys.callFrame_self hf, if_neg (hnew ▸ hne)]
    refine ⟨fun q u hq hmem => ?_, fun u hmem => ?_⟩
    · rcases hcore.mem_tasks_of_exec hu hcaller ha hq hmem with hold | ⟨rfl, hin⟩
      · have hne : u ≠ t := fun heq => hwaits q u hq hold (heq ▸ hr)
        show ∃ c' r', s.callFrame t c k' r u = _ ∧ _
        rw [Sys.callFrame_of_ne hne]
        exact h.waits q u hq hold
      · exact ⟨c, r, hself (hcore.newTask_ne_of_waits hcore' hu hrun ha hin),
          Call.waitList_of_waitsIn hin⟩
    · have hmem' := hmem
      rw [(Abs.exec_frame hcaller ha).ticks] at hmem'
      rcases List.mem_append.mp hmem' with hold | hq
      · have hne : u ≠ t := fun heq => hsleeps u hold (heq ▸ hr)
        show ∃ n r', s.callFrame t c k' r u = _
        rw [Sys.callFrame_of_ne hne]
        exact h.sleeps u hold
      · obtain ⟨rfl, n, rfl⟩ := Call.eq_osDelay hu.1 hq
        -- A sleeping task is not ready, so that another one is selected.
        exact ⟨n, r, hself fun heq => hcore'.sim.wf.tasks.awake _ u (hcore'.sim.ready u heq) hmem⟩
  | @tick t o k' _ f hr hf _ ha =>
    obtain rfl : o = passive := hp
    refine ⟨fun q u hq hmem => ?_, fun u hmem => ?_⟩
    · have hold := (hcore.sim.wf.tasks_hardwareTimer ha hq) ▸ hmem
      have hne : u ≠ t := fun heq => hwaits q u hq hold (heq ▸ hr)
      show ∃ c' r', update s.frame t _ u = _ ∧ _
      rw [update_of_ne hne]
      exact h.waits q u hq hold
    · have hold := hcore.sim.wf.mem_ticks_of_hardwareTimer ha hmem
      have hne : u ≠ t := fun heq => hsleeps u hold (heq ▸ hr)
      show ∃ n r', update s.frame t _ u = _
      rw [update_of_ne hne]
      exact h.sleeps u hold
  | @ret t o c r hr hf =>
    refine ⟨fun q u hq hmem => ?_, fun u hmem => ?_⟩
    · have hne : u ≠ t := fun heq => hwaits q u hq hmem (heq ▸ hr)
      show ∃ c' r', update s.frame t _ u = _ ∧ _
      rw [update_of_ne hne]
      exact h.waits q u hq hmem
    · have hne : u ≠ t := fun heq => hsleeps u hmem (heq ▸ hr)
      show ∃ n r', update s.frame t _ u = _
      rw [update_of_ne hne]
      exact h.sleeps u hmem
  | @pass t o f k' _ f' hr hf _ _ => exact absurd hf (hno t f)
  | start hr => exact ⟨h.waits, h.sleeps⟩

/-- What holds at the start and is kept by every step holds at the end of every run with passive
callbacks. In each of its states, tasks that wait or sleep are inside the calls that made them, and
no pass is suspended. -/
theorem SysRun.passive {P : Trace Kernel → Sys Kernel → Abs → Prop} {tr : Trace Kernel}
    (h : SysRun PassiveUsage tr s)
    (h0 : ∀ s (k : Kernel), Init s → k.Zeroed → Core [] s (Abs.systemInit k.toVars) →
      P [] s (Abs.systemInit k.toVars))
    (hstep : ∀ tr s a act s' a', SysRun PassiveUsage tr s → Core (hist tr) s a → Parked s a →
      P tr s a → PassiveUsage tr s act → (∀ t f, s.frame t ≠ some (.timer f)) →
      Lockstep s a act s' a' → Core (hist ((s, act) :: tr)) s' a' → P ((s, act) :: tr) s' a') :
    ∃ a, Core (hist tr) s a ∧ Parked s a ∧ P tr s a := by
  obtain ⟨hrun, -⟩ := h.orderly fun _ _ _ hg => hg
  refine hrun.invariant (P := fun tr s a => Parked s a ∧ P tr s a) (fun _ _ _ hg => hg.2)
    (fun s k hinit hz hcore =>
      ⟨⟨fun q t hq hmem => ?_, fun t hmem => ?_⟩, h0 s k hinit hz hcore⟩) ?_
  · simp [Abs.systemInit, Abs.pushTail, Abs.setPrio, hq] at hmem
  · simp [Abs.systemInit, Abs.pushTail, Abs.setPrio] at hmem
  · rintro tr s a act s' a' hrun hcore ⟨hparked, hp⟩ hg hl hcore'
    have hrun' : SysRun PassiveUsage tr s := hrun.mono fun _ _ _ _ hg => hg.1
    have hno := (hrun'.orderly fun _ _ _ hg => hg).2
    exact ⟨hparked.step hl hcore hcore' hg.1.1 hg.1.2 hno,
      hstep tr s a act s' a' hrun' hcore hparked hp hg.1 hno hl hcore'⟩

end Fos
