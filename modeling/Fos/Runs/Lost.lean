import Fos.Runs.Preemption

/-!
# What a tick does to a torn call

`task_prio_change` takes its caller out of its ready list, writes the priority, and puts the caller
into the new list, all with interrupts enabled. A tick that comes between finds the caller in no
list. It selects another task, and the caller never runs again (`prio_change_loses`): from then on
the system is as if the task had not been created (`without`). A tick that comes to `task_create`
between the bitmap and the list may select what is no task, the head of the list
(`Core.tick_head`).
-/

namespace Fos

open Links Function Interrupts

variable {live : Node → Bool} {k k₁ : Kernel} {a : Abs} {hst : Hist} {s s' : Sys Kernel}
  {t u : TcbPtr} {o : Oracle} {act : Action} {p : ℕ}

/-- The system as if the task had not been created. -/
def without (t : TcbPtr) (s : Sys Kernel) : Sys Kernel :=
  { s with live := update s.live (.tcb t) false }

/-- The heads are the same without a task. -/
theorem isHead_without (t : TcbPtr) (n : Node) :
    IsHead (update live (.tcb t) false) n ↔ IsHead live n := by
  cases n with
  | tcb u => cases u <;> exact Iff.rfl
  | tick e => cases e <;> exact Iff.rfl
  | sem | mutex | queue | msgHead | msg => simp [IsHead]

/-- The lists are well formed without a task that is in none. -/
theorem WF.without (w : WF live a) (ht : t ∈ a.tasks (.ready (a.prio t))) (hidle : t ≠ idleTcb) :
    WF (update live (.tcb t) false) (a.remove t) where
  tasks := by
    have h := w.tasks
    have hlive : ∀ v,
        update live (.tcb t) false (.tcb v) = true ↔ v ≠ t ∧ live (.tcb v) = true := by
      intro v
      rcases eq_or_ne v t with rfl | hne
      · simp
      · simp [hne]
    refine ⟨fun q => (h.nodup q).erase t, fun q q' v hv hv' => ?_, fun v hv => ?_, fun q v hv => ?_,
      fun q v hv => ?_, fun p v hv => ?_, fun v hv => ?_, fun v hv => ?_, fun q v hv => ?_, ?_⟩
    · exact h.apart q q' v (h.mem_erase.mp hv).2 (h.mem_erase.mp hv').2
    · exact h.isTask v ((hlive v).mp hv).2
    · obtain ⟨hne, hv⟩ := h.mem_erase.mp hv
      exact (hlive v).mpr ⟨hne, h.live_of_mem q v hv⟩
    · have hopen := h.open_of_mem q v (h.mem_erase.mp hv).2
      exact isHead_head.mp ((isHead_without t q.head).mpr (isHead_head.mpr hopen))
    · exact h.ready_prio p v (h.mem_erase.mp hv).2
    · exact h.prio_lt v ((hlive v).mp hv).2
    · obtain ⟨hne, hv⟩ := (hlive v).mp hv
      exact (h.placed v hv).imp_left fun ⟨q, hq⟩ => ⟨q, h.mem_erase.mpr ⟨hne, hq⟩⟩
    · exact h.awake q v (h.mem_erase.mp hv).2
    · exact h.mem_erase.mpr ⟨hidle.symm, h.idle⟩
  ticks := by
    have hdelay := w.tasks.awake _ t ht
    refine ⟨w.ticks.nodup, fun v hv => ?_, w.ticks.timer, w.ticks.head⟩
    have hne : v ≠ t := fun e => hdelay (e ▸ hv)
    have h := w.ticks.delay v hv
    exact ⟨by simp [hne, h.1], h.2⟩
  msgs := w.msgs.setUp (by simp)
  unlocked := w.unlocked

/-- A running task that has left its ready list. -/
theorem Core.without (h : Core hst s a) (hr : s.running = some t) (hidle : t ≠ idleTcb)
    (hk : s.k.prioReadyQueueDelete (some t) = some k₁) :
    Within hst (Fos.without t ⟨k₁, s.frame, s.live⟩) (a.remove t) := by
  have hready := h.sim.ready t (h.running_eq.symm.trans hr)
  have w := h.sim.wf
  obtain ⟨k', hk', href⟩ := h.sim.refines.prioReadyQueueDelete w.tasks hready
  obtain rfl := Option.some.inj (hk.symm.trans hk')
  refine ⟨⟨⟨href.vars, href.lists.congr_heads fun n => isHead_without t n, href.bits⟩,
    w.without hready hidle⟩, fun u m hget => ?_, h.copy_prio, fun m hm => ?_, fun u f hf => ?_,
    h.apart⟩
  · simpa [Fos.without] using h.get_live u m hget
  · exact h.fresh m (by simpa [Fos.without] using hm)
  · obtain ⟨hn, hmem, hputs⟩ := h.timer u f hf
    exact ⟨hn, hmem, fun i hi => by simpa [Fos.without] using hputs i hi⟩

/-- A system that is well formed without the task has it in no list. -/
theorem Core.not_placed (h : Core hst (Fos.without t s) a) (n : Node) : ¬ PlacedAt s t n := by
  intro hn
  have hdead := h.in_place.created t n ⟨(isHead_without t n).mpr hn.1, hn.2⟩
  simp [Fos.without] at hdead

/-- A tick that comes to the running task once it has left its ready list leaves the system well
formed without the task. -/
theorem Core.tick_without (h : Core hst s a) (hr : s.running = some t) (hidle : t ≠ idleTcb)
    (hk : s.k.prioReadyQueueDelete (some t) = some k₁) (ho : CallbackUsage s (.tick o))
    (hd : Undisturbed s (.tick o)) : ∃ k' a' f, k₁.hardwareTimer o = some (k', f) ∧
      Core ((some t, .tick o) :: hst)
        (Fos.without t ⟨k', update s.frame t (f.map .timer), s.live⟩) a' := by
  have hvars := Kernel.prioReadyQueueDelete_vars hk
  obtain ⟨k', a', f, ek, -, hcore⟩ := (h.without hr hidle hk).tick t (some t)
    (fun e i hi => by simpa [Fos.without] using ho e i hi)
    (fun u g hg => by
      show (k₁.tick g.entry).period = CYCLE
      rw [hvars]
      exact hd u g hg)
  exact ⟨k', a', f, ek, hcore⟩

/-- Whoever may do something may do it without the task, which has been created already. -/
theorem Orderly.without (h : Orderly hst s act) : Orderly hst (Fos.without t s) act := by
  obtain ⟨hu, hc, hd⟩ := h
  have hobject : ∀ n : Node, n ≠ .tcb t → (Fos.without t s).live n = s.live n := fun n hn =>
    update_of_ne hn _ _
  refine ⟨?_, ?_, hd⟩
  · cases act with
    | call c =>
      refine ⟨?_, hu.2⟩
      have hcall := hu.1
      cases c with
      | taskCreate tcb =>
        cases tcb with
        | none => trivial
        | some v =>
          refine ⟨hcall.1, ?_, hcall.2.2⟩
          show update s.live (.tcb t) false (.tcb v) = false
          rw [update_apply, hcall.2.1, ite_self]
      | semInit i =>
        cases i with
        | none => trivial
        | some i => exact ⟨(hobject _ (by simp)).trans hcall.1, hcall.2⟩
      | semGet i | semPut i | mutexInit i | mutexGet i =>
        cases i with
        | none => trivial
        | some i => exact (hobject _ (by simp)).trans hcall
      | mutexPut m =>
        cases m with
        | none => trivial
        | some m => exact ⟨(hobject _ (by simp)).trans hcall.1, hcall.2⟩
      | msgQueueCreate q =>
        cases q with
        | none => trivial
        | some q => exact ⟨(hobject _ (by simp)).trans hcall.1, hcall.2⟩
      | msgPut q m =>
        cases q with
        | none => trivial
        | some q =>
          cases m with
          | none => trivial
          | some m =>
            exact ⟨(hobject _ (by simp)).trans hcall.1, fun q' hq' =>
              hcall.2 q' ((hobject _ (by simp)).symm.trans hq')⟩
      | msgGet q =>
        cases q with
        | none => trivial
        | some q => exact (hobject _ (by simp)).trans hcall
      | taskPrioChange u =>
        cases u with
        | none => trivial
        | some u => exact hcall
      | timerReq e =>
        cases e with
        | none => trivial
        | some e => exact hcall
      | osDelay | schedule => trivial
    | _ => trivial
  · cases act with
    | tick o | resume o => exact fun e i hi => (hobject _ (by simp)).trans (hc e i hi)
    | call | start => trivial

/-- A call sets up the same objects without the task, unless it creates that task. -/
theorem setUp_without {c : Call} (h : c.setsUp ≠ some (.tcb t)) :
    setUp (update live (.tcb t) false) c = update (setUp live c) (.tcb t) false := by
  unfold setUp
  cases hn : c.setsUp with
  | none => rfl
  | some n => exact update_comm (fun e => h (hn.trans (congrArg some e.symm))) _ _ _

/-- A step makes no difference between the system and the one without a task that has been
created. -/
theorem step_without (hlive : s.live (.tcb t) = true) (ho : Orderly hst s act)
    (hs : s.step act = some s') :
    (without t s).step act = some (without t s') ∧ s'.live (.tcb t) = true := by
  cases act with
  | call c =>
    have hne : c.setsUp ≠ some (.tcb t) := fun hc => by
      obtain ⟨f, st, p, rfl⟩ := Call.eq_of_setsUp_tcb hc
      have hdead : s.live (.tcb t) = false := ho.usage.1.2.1
      simp [hlive] at hdead
    cases hr : s.running with
    | none =>
      simp only [Sys.step, hr] at hs
      obtain ⟨⟨k, r⟩, hk, heq⟩ := Option.bind_eq_some_iff.mp hs
      obtain rfl := Option.some.inj heq
      refine ⟨?_, setUp_mono hlive⟩
      rw [Sys.step_call_main (s := without t s) hr hk]
      simp only [without, setUp_without hne]
    | some u =>
      have hf := Sys.enabled_of_step hs u hr
      simp only [Sys.step, hr, hf] at hs
      obtain ⟨⟨k, r⟩, hk, heq⟩ := Option.bind_eq_some_iff.mp hs
      obtain rfl := Option.some.inj heq
      refine ⟨?_, setUp_mono hlive⟩
      rw [Sys.step_call (s := without t s) hr hf hk]
      simp only [without, setUp_without hne, Sys.callFrame]
  | tick o =>
    obtain ⟨u, hr, hf⟩ := Sys.enabled_of_step hs
    simp only [Sys.step, hr, hf] at hs
    obtain ⟨⟨k, f⟩, hk, heq⟩ := Option.bind_eq_some_iff.mp hs
    obtain rfl := Option.some.inj heq
    exact ⟨Sys.step_tick (s := without t s) hr hf hk, hlive⟩
  | resume o =>
    obtain ⟨u, f, hr, hf⟩ := Sys.enabled_of_step hs
    cases f with
    | call c ret =>
      obtain rfl := Option.some.inj ((Sys.step_resume_call hr hf).symm.trans hs)
      exact ⟨Sys.step_resume_call (s := without t s) hr hf, hlive⟩
    | timer f =>
      simp only [Sys.step, hr, hf] at hs
      obtain ⟨⟨k, f'⟩, hk, heq⟩ := Option.bind_eq_some_iff.mp hs
      obtain rfl := Option.some.inj heq
      exact ⟨Sys.step_resume_timer (s := without t s) hr hf hk, hlive⟩
  | start =>
    have hr : s.running = none := Sys.enabled_of_step hs
    obtain rfl := Option.some.inj ((Sys.step_start hr).symm.trans hs)
    exact ⟨Sys.step_start (s := without t s) hr, hlive⟩

/-- What goes on from a state that is well formed without the task: the task is in no list, and does
not run. -/
theorem Core.never_runs {hst₀ : Hist} {tr : Trace Kernel} {s₀ : Sys Kernel}
    (h0 : Core hst₀ (Fos.without t s₀) a) (hlive : s₀.live (.tcb t) = true)
    (h : Runs.Run (· = s₀) Sys.step (fun tr s act => Orderly (hist tr ++ hst₀) s act) tr s) :
    s.running ≠ some t ∧ ∀ n, ¬ PlacedAt s t n := by
  obtain ⟨-, a', hcore⟩ := h.invariant
    (I := fun tr s => s.live (.tcb t) = true ∧ ∃ a, Core (hist tr ++ hst₀) (Fos.without t s) a)
    (by rintro _ rfl; exact ⟨hlive, a, h0⟩) fun tr s act s' _ ⟨hlive, a, hcore⟩ ho hs => by
      obtain ⟨hs, hlive'⟩ := step_without hlive ho hs
      obtain ⟨a', -, hcore'⟩ := hcore.lockstep ho.without hs
      exact ⟨hlive', a', hcore'⟩
  refine ⟨fun hr => ?_, hcore.not_placed⟩
  have hdead := hcore.live_running (t := t) hr
  simp [Fos.without] at hdead

open Code in
/-- A point of `task_prio_change` at which the caller is in no list. -/
theorem atPoint_taskPrioChange (hf : s.frame t = none) (hnew : s.k.newTask = some t)
    (hlegal : ¬ (p < 1 ∨ SYSTEM_WORD < p)) (h₁ : s.k.prioReadyQueueDelete (some t) = some k₁)
    (h₂ : (k₁.setPrio t (p % 256)).prioReadyQueueInsertHead (some t) = some k₂) :
    AtPoint s t (.taskPrioChange (some t) p) k₁ := by
  obtain ⟨V, hdelete, -⟩ := prioReadyQueueDelete_computes h₁
  obtain ⟨W, hinsert, -⟩ := prioReadyQueueInsertHead_computes h₂
  have hwalk : Walk ({s.k} ∪ (V ∪ ({k₁} ∪ (W ∪ {k₂})))) (call (.taskPrioChange (some t) p)) s.k
      (.ok .TRUE) k₂ := by
    show Walk _ (taskPrioChange (some t) p) s.k _ k₂
    unfold taskPrioChange
    dsimp only
    rw [if_neg hlegal]
    refine Walk.bind (.test _ _) ?_
    rw [if_neg (by simp [hnew])]
    exact hdelete.bind (Walk.bind (.write _ _) (hinsert.bind (.ret _ _)))
  obtain ⟨cpu, hcpu, hw⟩ := hwalk (atEntry s.k SPR_SR_TEE) (fun _ => rfl) rfl
  obtain ⟨new, hpoints, hmem⟩ := hw.points
  refine .ahead hf hcpu ?_
  rw [hpoints]
  have henabled : Status.enabled SPR_SR_TEE = true := by decide
  exact List.mem_append_left _ ((hmem _).mpr ⟨henabled, .inr (.inr (.inl rfl))⟩)

/-- A legal `task_prio_change` takes its caller out of its ready list, and passes a point there. -/
theorem Core.prioChange_leaves (h : Core hst s a) (hr : s.running = some t) (hf : s.frame t = none)
    (hu : Usage hst s (.call (.taskPrioChange (some t) p))) (hp : 1 ≤ p) :
    ∃ k₁, s.k.prioReadyQueueDelete (some t) = some k₁ ∧
      AtPoint s t (.taskPrioChange (some t) p) k₁ := by
  have hnew : s.k.newTask = some t := hr
  have hp' : p < 32 := hu.1.2
  have hlegal : ¬ (p < 1 ∨ SYSTEM_WORD < p) := by simp only [SYSTEM_WORD]; omega
  obtain ⟨k₂, r, hk⟩ := h.exec_running hr hf hu
  simp only [Kernel.exec, Kernel.taskPrioChange, if_neg hlegal,
    if_neg (show ¬ s.k.newTask ≠ some t by simp [hnew])] at hk
  obtain ⟨k₁, h₁, hk⟩ := Option.bind_eq_some_iff.mp hk
  obtain ⟨k₃, h₂, -⟩ := Option.bind_eq_some_iff.mp hk
  exact ⟨k₁, h₁, atPoint_taskPrioChange hf hnew hlegal h₁ h₂⟩

/-- In every state of every run, a task that makes a legal `task_prio_change` passes a point at
which it is lost to a tick: whatever happens after that tick, the task is in no list, and never
runs. -/
theorem prio_change_loses {tr : Trace Kernel}
    (h : SysRun (fun tr s act => Orderly (hist tr) s act) tr s) (hr : s.running = some t)
    (hf : s.frame t = none) (hu : Usage (hist tr) s (.call (.taskPrioChange (some t) p)))
    (hp : 1 ≤ p) (ho : CallbackUsage s (.tick o)) (hd : Undisturbed s (.tick o)) :
    ∃ k₁ k' f, AtPoint s t (.taskPrioChange (some t) p) k₁ ∧ k₁.hardwareTimer o = some (k', f) ∧
      ∀ tr' s', Runs.Run (· = ⟨k', update s.frame t (f.map .timer), s.live⟩) Sys.step
        (fun tr' s' act => Orderly (hist tr' ++ (some t, .tick o) :: hist tr) s' act) tr' s' →
          s'.running ≠ some t ∧ ∀ n, ¬ PlacedAt s' t n := by
  obtain ⟨a, hcore⟩ := h.core fun _ _ _ hg => hg
  have hidle : t ≠ idleTcb := fun e => by simpa using hu.2.2 (e ▸ hr)
  obtain ⟨k₁, h₁, hpoint⟩ := hcore.prioChange_leaves hr hf hu hp
  obtain ⟨k', a', f, ek, hafter⟩ := hcore.tick_without hr hidle h₁ ho hd
  exact ⟨k₁, k', f, hpoint, ek, fun tr' s' h' => hafter.never_runs (hcore.live_running hr) h'⟩

/-- After `oneTask`, a tick can take the task out of the system while its priority goes to 9. -/
theorem prio_change_loses_oneTask :
    ∃ tr s, SysRun (fun tr s act => Orderly (hist tr) s act) tr s ∧
      tr.map Prod.snd = (oneTask.map Move.act).reverse ∧ s.running = some (.task 1) ∧
      ∃ k₁ k' f, AtPoint s (.task 1) (.taskPrioChange (some (.task 1)) 9) k₁ ∧
        k₁.hardwareTimer passive = some (k', f) ∧
        ∀ tr' s', Runs.Run (· = ⟨k', update s.frame (.task 1) (f.map .timer), s.live⟩) Sys.step
          (fun tr' s' act =>
            Orderly (hist tr' ++ (some (.task 1), .tick passive) :: hist tr) s' act) tr' s' →
        s'.running ≠ some (.task 1) ∧ ∀ n, ¬ PlacedAt s' (.task 1) n := by
  obtain ⟨tr, s, a, hrun, -, hacts, hr, hf, -, -, -, htick⟩ := oneTask_run
  have hu : Usage (hist tr) s (.call (.taskPrioChange (some (.task 1)) 9)) :=
    ⟨⟨hr, by decide⟩, by simp [hr], by simp [hr]⟩
  exact ⟨tr, s, hrun, hacts, hr,
    prio_change_loses hrun hr hf hu (by decide) htick.callbacks htick.undisturbed⟩

/-! ## A list that is marked and empty -/

/-- A tick that finds no timer, and a bitmap that marks an empty list, selects the head of the
list. -/
theorem Kernel.hardwareTimer_head (hticks : isListLast k.heap tickHead = true)
    (hlock : k.scheduleIsLock = false) (hget : k.bitmapGet = p) (hp : p < SYSTEM_WORD)
    (hempty : isListLast k.heap (readyHead p) = true) (hnew : k.newTask ≠ some (.prioQueue p)) :
    ∃ k', k.hardwareTimer o = some (k', none) ∧ k'.newTask = some (.prioQueue p) := by
  let k₀ : Kernel := Kernel.note { k with fosTick := k.fosTick + 1 } (.start (k.fosTick + 1))
  have hloop : k₀.tickLoop o (k.fosTick + 1) tickHead = some (k₀, none) :=
    Kernel.tickLoop_of_last hticks
  have hnext : (k.heap (readyHead p)).next = readyHead p := of_decide_eq_true hempty
  have hsearch : k₀.bitFirstOneSearch = some (.prioQueue p) := by
    have hget₀ : k₀.bitmapGet = p := hget
    have hnext₀ : (k₀.heap (readyHead p)).next = readyHead p := hnext
    simp [Kernel.bitFirstOneSearch, hget₀, prioListHead, hp, hnext₀, Node.tcbEntry]
  let k₁ : Kernel := { k₀ with oldTask := k₀.newTask, newTask := some (.prioQueue p) }
  have hrotate : k₀.rotate (.prioQueue p) = some k₀ := if_pos hempty
  have hne : ¬ k₀.newTask = some (.prioQueue p) := hnew
  have hfetch : k₀.prioReadyQueueFetch = some (k₁, .SCHED) := by
    rw [Kernel.prioReadyQueueFetch_eq, hsearch, Option.bind_some, hrotate, Option.bind_some,
      if_neg hne]
  have hunlocked : ¬ k₀.scheduleIsLock = true := ne_true_of_eq_false hlock
  have hsched : k₀.schedule = some k₁ := by
    rw [Kernel.schedule, if_neg hunlocked, hfetch]
    rfl
  refine ⟨k₁, ?_, rfl⟩
  show (k₀.tickLoop o (k.fosTick + 1) tickHead).bind Kernel.tickEnd = _
  rw [hloop]
  show k₀.schedule.map (·, none) = _
  rw [hsched]
  rfl

/-- Where no timer is queued, a tick that comes to `task_create` once the bit of the new priority is
set selects the head of an empty list, if no ready task has the new priority or a higher one and one
is ready whose bit is in the same byte. -/
theorem Core.tick_head (h : Core hst s a) (hr : s.running = some t) (hp : p < SYSTEM_WORD)
    (hticks : a.ticks = []) (hnone : ∀ q ≤ p, a.tasks (.ready q) = []) {q : ℕ}
    (hq : q < SYSTEM_WORD) (hbyte : q / 8 = p / 8) (hready : a.tasks (.ready q) ≠ [])
    (u : TcbPtr) (o : Oracle) :
    ∃ k', (byteMarked p (s.k.setPrio u p)).hardwareTimer o = some (k', none) ∧
      k'.newTask = some (.prioQueue p) := by
  have href := h.sim.refines
  have w := h.sim.wf
  obtain ⟨k₁, hset, -, -, hbits⟩ := bitmapSet_spec (k := s.k) href.bits hp
  have hp' : p < 32 := hp
  have hq' : q < 32 := hq
  -- The byte is marked already.
  have hy : s.k.y ||| 1#8 <<< (p / 8) = s.k.y := by
    refine BitVec.eq_of_getLsbD_eq fun i hi => ?_
    rw [BitVec.getLsbD_or, getLsbD_one_shiftLeft _ _ hi]
    rcases eq_or_ne i (p / 8) with rfl | hne
    · have hset : s.k.y.getLsbD (p / 8) = true := by
        rw [← hbyte]
        refine (href.bits.byte _ (by omega)).mpr ((ne_zero_iff_getLsbD _).mpr ⟨q % 8, by omega, ?_⟩)
        exact (href.bits.bit q hq).mpr hready
      simp [hset]
    · simp [hne]
  have hbits' : BitmapOk (byteMarked p (s.k.setPrio u p)).y (byteMarked p (s.k.setPrio u p)).c
      fun i => i = p ∨ a.tasks (.ready i) ≠ [] := by
    unfold Kernel.bitmapSet at hset
    dsimp only at hset
    rw [if_pos (by rw [shiftRight_three]; omega)] at hset
    obtain rfl := Option.some.inj hset
    rw [shiftRight_three, hy] at hbits
    rw [← shiftRight_three] at hbits
    exact hbits
  -- `bitmap_get` finds the new priority.
  obtain ⟨-, hmarked, hlow⟩ := bitmapGet_spec hbits' hp (.inl rfl)
  have hget : (byteMarked p (s.k.setPrio u p)).bitmapGet = p := by
    refine hmarked.resolve_right fun hne => ?_
    rcases Nat.lt_or_ge p (byteMarked p (s.k.setPrio u p)).bitmapGet with hlt | hge
    · exact hlow p hlt (.inl rfl)
    · exact hne (hnone _ hge)
  refine Kernel.hardwareTimer_head (k := byteMarked p (s.k.setPrio u p)) ?_ ?_ hget hp ?_ ?_
  · exact (isListLast_iff href.rep_ticks).mpr (by simp [hticks])
  · show s.k.scheduleIsLock = false
    rw [← w.unlocked, href.vars]
  · exact (href.isListLast_iff (q := .ready p) hp).mpr (hnone p le_rfl)
  · obtain ⟨n, rfl⟩ := w.tasks.isTask t (h.live_running hr)
    show s.running ≠ _
    rw [hr]
    simp

end Fos
