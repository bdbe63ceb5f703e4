import Fos.Refinement.Locked

/-!
# Blocking calls under the lock

`schedule` returns at once while the scheduler is locked. A call that makes its caller wait or sleep
has taken it off its ready list by then, so that the caller goes on running from a list of waiting
tasks or from none, and `sem_get` and `mutex_get` return `TRUE` to it. As long as no call does so
under the lock, every call under the lock leaves what it should (`locked_calls_sound_iff`).
-/

namespace Fos

open Links Function Runs

/-- What can happen next, where tasks lock and unlock the scheduler between their calls. -/
inductive LockAction where
  | act (act : Action)
  /-- The running task calls `schedule_lock`. -/
  | lock
  /-- The running task calls `schedule_unlock`. -/
  | unlock

/-- The running task sets the lock, between its calls. -/
def Sys.setLock (s : Sys Kernel) (set : Kernel → Kernel) : Option (Sys Kernel) := do
  let t ← s.running
  match s.frame t with
  | none => some { s with k := set s.k }
  | some _ => none

/-- One step. -/
def Sys.lockStep (s : Sys Kernel) : LockAction → Option (Sys Kernel)
  | .act act => s.step act
  | .lock => s.setLock Kernel.scheduleLock
  | .unlock => s.setLock Kernel.scheduleUnlock

/-- The steps of a run that do not set the lock. -/
def acts : List (Sys Kernel × LockAction) → Trace Kernel
  | [] => []
  | (s, .act act) :: tr => (s, act) :: acts tr
  | (_, .lock) :: tr | (_, .unlock) :: tr => acts tr

/-- The runs of the system in which tasks lock and unlock the scheduler. -/
abbrev LockRun := Run Init Sys.lockStep fun tr s act =>
  ∀ act', act = .act act' → Orderly (hist (acts tr)) s act'

/-- The calls that may make their caller wait or sleep. -/
def Call.MayBlock : Call → Prop
  | .osDelay _ | .semGet _ | .mutexGet _ | .msgGet .. => True
  | _ => False

/-- What such a call by the task `t` leaves when it has returned under the lock. -/
structure Sound (s : Sys Kernel) (t : TcbPtr) (c : Call) (s' : Sys Kernel) : Prop where
  /-- The caller is in the ready list of its priority. -/
  linked : Queued s'.k.heap (readyHead (s'.k.prio t)) (.tcb t)
  /-- The lists are well formed, and share no node. -/
  wellFormed : ∃ seq, Family s'.k.heap (IsHead s'.live) seq
  /-- No ready list, no list of waiting tasks, and not the tick queue has lost another node. -/
  kept : ∀ n x, IsHead s.live n → (∀ q, n ≠ .msgHead q) → x ≠ .tcb t →
    Queued s.k.heap n x → Queued s'.k.heap n x
  /-- Where `sem_get` returns `TRUE`, the caller has taken a unit. -/
  unit : ∀ i, c = .semGet (some i) → returned s (.call c) s' = some (t, c, .TRUE) →
    (s.k.sem i).count = (s'.k.sem i).count + 1
  /-- Where `mutex_get` returns `TRUE`, the caller has taken the mutex. -/
  ownership : ∀ m, c = .mutexGet (some m) → returned s (.call c) s' = some (t, c, .TRUE) →
    (s.k.mutex m).enable ≠ 0 ∧ (s'.k.mutex m).enable = 0

/-- Such a call under the lock leaves what it should. -/
def StaysSound (s : Sys Kernel) (act : LockAction) : Prop :=
  ∀ t c s', act = .act (.call c) → c.MayBlock → s.k.scheduleIsLock = true → s.running = some t →
    s.lockStep act = some s' → Sound s t c s'

/-- A call under the lock makes its caller wait or sleep. -/
def BlocksLocked (s : Sys Kernel) (act : LockAction) : Prop :=
  s.k.scheduleIsLock = true ∧ ∃ c, act = .act (.call c) ∧ c.Blocks s.k

variable {hst : Hist} {s s' : Sys Kernel} {a : Abs} {t : TcbPtr} {c : Call} {k k' : Kernel}
  {tr : List (Sys Kernel × LockAction)} {act : LockAction}

/-! ## One call -/

/-- The calls that block are among those that may. -/
theorem Call.Blocks.mayBlock (h : c.Blocks k) : c.MayBlock := by
  cases c <;> trivial

/-- A call that may block sets nothing up. -/
theorem Call.MayBlock.setUp (h : c.MayBlock) (live : Node → Bool) : setUp live c = live := by
  cases c <;> first | rfl | cases h

/-- A call that may block and does not takes no other task off a list, and nothing off the tick
queue. -/
theorem Call.MayBlock.mem_effect (h : c.MayBlock) (href : Refines s.live k a)
    (hu : CallUsage hst s s.running c) (hno : ¬ c.Blocks k) {n x : Node} (hn : ∀ q, n ≠ .msgHead q)
    (hx : x ≠ .tcb t) (hmem : x ∈ a.seq n) : x ∈ (c.effect t a).seq n := by
  cases c with
  | osDelay timeslice => exact absurd trivial hno
  | semGet i =>
    obtain _ | i := i
    · exact hmem
    -- A unit is there, and taking it moves no node.
    have hc : (a.sem i).count ≠ 0 := by
      rw [← href.sem_eq]
      exact hno
    simp only [Call.effect, if_neg hc]
    exact hmem
  | mutexGet m =>
    obtain _ | m := m
    · exact hmem
    have hc : (a.mutex m).enable ≠ 0 := by
      rw [← href.mutex_eq]
      exact hno
    simp only [Call.effect, if_neg hc, Abs.mutexTake, Abs.reprio, Abs.pushHead]
    -- Taking the mutex moves the caller to the ready list of the mutex, and no other node.
    have hrest : x ∈ (a.remove t).seq n := by
      rw [seq_remove]
      exact (List.mem_erase_of_ne hx).mpr hmem
    rw [seq_update_tasks]
    rcases eq_or_ne n (TaskQueue.ready PRIO_MUTEX).head with rfl | hne
    · rw [update_self, List.map_cons]
      rw [Lists.seq_head] at hrest
      exact List.mem_cons_of_mem _ hrest
    · rw [update_of_ne hne]
      exact hrest
  | msgGet q buffer =>
    obtain _ | q := q
    · exact hmem
    obtain _ | buf := buffer
    · exact hmem
    cases hl : a.msgs q with
    | nil => exact absurd ((href.isListLast_msgs hu).mpr hl) hno
    | cons m ms =>
      -- A message is taken out of its queue, which is not the list of the node.
      have hseq : ((Call.msgGet (some q) (some buf)).effect t a).seq =
          update a.seq (.msgHead q) (ms.map .msg) := by
        simp only [Call.effect, hl]
        exact seq_update_msgs a.toLists q ms
      rw [hseq, update_of_ne (hn q)]
      exact hmem
  | _ => cases h

/-- A call that may block leaves under the lock what it should exactly if it does not block. -/
theorem Core.sound_iff (h : Core hst s a) (hu : Usage hst s (.call c)) (hc : c.MayBlock)
    (hr : s.running = some t) (hf : s.frame t = none)
    (hs : Sys.step { s with k := s.k.scheduleLock } (.call c) = some s') :
    Sound { s with k := s.k.scheduleLock } t c s' ↔ ¬ c.Blocks s.k := by
  obtain ⟨k', r, ek, hwithin, hnew, hready⟩ := h.call_scheduleLock hu hr
  have hset := hc.setUp s.live
  -- The state after the call.
  have hs' : s' = ⟨k'.scheduleLock, s.frame, s.live⟩ := by
    have hstep := Sys.step_call (s := { s with k := s.k.scheduleLock }) hr hf ek
    have hframe : Sys.callFrame { s with k := s.k.scheduleLock } t c k'.scheduleLock r = s.frame :=
      if_pos hnew
    rw [hframe] at hstep
    rw [← hset]
    exact Option.some.inj (hs.symm.trans hstep)
  subst hs'
  have href := h.sim.refines
  have href' : Refines s.live k' (c.effect t a) := hset ▸ hwithin.tidy.refines
  have hrun : a.newTask = some t := h.running_eq.symm.trans hr
  have hnew' : (c.effect t a).newTask = some t := href'.newTask_eq.symm.trans hnew
  have hlive := h.sim.wf.tasks.live_of_mem _ t (h.sim.ready t hrun)
  have hlt : (c.effect t a).prio t < SYSTEM_WORD :=
    hwithin.tidy.wf.tasks.prio_lt t (setUp_mono hlive)
  have hlinked : Queued k'.heap (readyHead (k'.prio t)) (.tcb t) ↔ (c.effect t a).RunningReady := by
    rw [href'.prio_eq, href'.queued_iff (n := readyHead _) hlt]
    constructor
    · intro hm u hu
      obtain rfl := Option.some.inj (hnew'.symm.trans hu)
      simpa [Lists.seq] using hm
    · intro hm
      simpa [Lists.seq] using hm t hnew'
  rw [← hready, ← hlinked]
  refine ⟨fun hsound => hsound.linked, fun hl => ?_⟩
  have hno : ¬ c.Blocks s.k := hready.mp (hlinked.mp hl)
  refine ⟨hl, ⟨_, href'.lists⟩, fun n x hn hmsg hx hq => ?_, ?_, ?_⟩
  · refine (href'.queued_iff hn x).mpr ?_
    exact hc.mem_effect href hu.1 hno hmsg hx ((href.queued_iff hn x).mp hq)
  · rintro i rfl -
    have hcount : (s.k.sem i).count ≠ 0 := hno
    have hsem : (k'.sem i).count = (s.k.sem i).count - 1 := by
      rw [href'.sem_eq]
      rw [href.sem_eq] at hcount ⊢
      simp [Call.effect, hcount, Abs.setSem]
    show (s.k.sem i).count = (k'.sem i).count + 1
    omega
  · rintro m rfl -
    have henable : (s.k.mutex m).enable ≠ 0 := hno
    refine ⟨henable, ?_⟩
    show (k'.mutex m).enable = 0
    rw [href'.mutex_eq]
    rw [href.mutex_eq] at henable
    rw [Call.effect_mutexGet_take henable]

/-! ## Runs -/

/-- The state is one of a run without lock, or one in which the running task holds the lock between
its calls. -/
def Between (hst : Hist) (s : Sys Kernel) : Prop :=
  ∃ k a, Core hst { s with k := k } a ∧
    (s.k = k ∨ s.k = k.scheduleLock ∧ ∃ t, s.running = some t ∧ s.frame t = none)

/-- The lock is not held in a run without lock. -/
theorem Core.unlocked (h : Core hst s a) : s.k.scheduleIsLock = false := by
  rw [← h.sim.wf.unlocked, h.sim.refines.vars]

/-- Where the lock is not held, `schedule_unlock` changes nothing. -/
theorem Core.scheduleUnlock_eq (h : Core hst s a) : s.k.scheduleUnlock = s.k := by
  unfold Kernel.scheduleUnlock
  rw [← h.unlocked]

/-- The lock is set by a running task that is not inside a call. -/
theorem Sys.of_setLock {set : Kernel → Kernel} (hs : s.setLock set = some s') :
    (∃ t, s.running = some t ∧ s.frame t = none) ∧ s' = { s with k := set s.k } := by
  obtain ⟨t, hr, hs⟩ := Option.bind_eq_some_iff.mp hs
  split at hs
  · next hf => exact ⟨⟨t, hr, hf⟩, (Option.some.inj hs).symm⟩
  · cases hs

/-- A step of the system under the lock that does not block. -/
theorem Core.step_scheduleLock {act : Action} (h : Core hst s a)
    (ho : Orderly hst { s with k := s.k.scheduleLock } act) (hr : s.running = some t)
    (hf : s.frame t = none) (hs : Sys.step { s with k := s.k.scheduleLock } act = some s')
    (hno : ∀ c, act = .call c → ¬ c.Blocks s.k) : Between ((s.running, act) :: hst) s' := by
  cases act with
  | call c =>
    -- The call does not select another task, so that it returns to its caller.
    obtain ⟨k', r, ek, hwithin, hnew, hready⟩ := h.call_scheduleLock (by exact ho.usage) hr
    have hstep := Sys.step_call (s := { s with k := s.k.scheduleLock }) hr hf ek
    have hframe : Sys.callFrame { s with k := s.k.scheduleLock } t c k'.scheduleLock r = s.frame :=
      if_pos hnew
    rw [hframe] at hstep
    obtain rfl := Option.some.inj (hs.symm.trans hstep)
    exact ⟨k', _, hwithin.core (hready.mpr (hno c rfl)), Or.inr ⟨rfl, t, hnew, hf⟩⟩
  | tick o =>
    -- Nor does the tick.
    obtain ⟨k', a', ek, hcore', hnew⟩ :=
      h.tick_scheduleLock t s.running (by exact ho.callbacks) (by exact ho.undisturbed)
    obtain rfl := Option.some.inj
      (hs.symm.trans (Sys.step_tick (s := { s with k := s.k.scheduleLock }) hr hf ek))
    have hr' : k'.newTask = some t := by
      rw [hcore'.sim.refines.newTask_eq, hnew]
      exact h.running_eq.symm.trans hr
    exact ⟨k', a', hcore', Or.inr ⟨rfl, t, hr', update_self t _ _⟩⟩
  | resume o =>
    -- The task that runs is not inside of a call, and the system has started.
    obtain ⟨u, f, hu, hf'⟩ := Sys.enabled_of_step hs
    obtain rfl := Option.some.inj (hr.symm.trans hu)
    exact absurd (hf.symm.trans hf') (by simp)
  | start =>
    have hnone : s.running = none := Sys.enabled_of_step hs
    exact absurd (hr.symm.trans hnone) (by simp)

/-- A step that does not block under the lock. -/
theorem Between.step (h : Between (hist (acts tr)) s)
    (hg : ∀ act', act = .act act' → Orderly (hist (acts tr)) s act')
    (hs : s.lockStep act = some s') (hno : ¬ BlocksLocked s act) :
    Between (hist (acts ((s, act) :: tr))) s' := by
  obtain ⟨k, frame, live⟩ := s
  obtain ⟨k₀, a, hcore, hk⟩ := h
  cases act with
  | act act =>
    rcases hk with rfl | ⟨rfl, t, hr, hf⟩
    · obtain ⟨a', -, hcore'⟩ := hcore.lockstep (hg act rfl) hs
      exact ⟨s'.k, a', hcore', Or.inl rfl⟩
    · exact hcore.step_scheduleLock (hg act rfl) hr hf hs
        fun c hc hb => hno ⟨rfl, c, congrArg LockAction.act hc, hb⟩
  | lock =>
    obtain ⟨hfree, rfl⟩ := Sys.of_setLock hs
    refine ⟨k₀, a, hcore, Or.inr ⟨?_, hfree⟩⟩
    rcases hk with rfl | ⟨rfl, -⟩ <;> rfl
  | unlock =>
    obtain ⟨-, rfl⟩ := Sys.of_setLock hs
    refine ⟨k₀, a, hcore, Or.inl ?_⟩
    rcases hk with rfl | ⟨rfl, -⟩ <;> exact hcore.scheduleUnlock_eq

/-- A run in which no call has blocked under the lock. -/
theorem LockRun.between (h : LockRun tr s) (hno : ∀ e ∈ tr, ¬ BlocksLocked e.1 e.2) :
    Between (hist (acts tr)) s := by
  induction h with
  | nil hinit =>
    obtain ⟨⟨k, hz, hk⟩, hframe, hlive⟩ := hinit
    exact ⟨_, _, Core.zeroed hz hk hframe hlive, Or.inl rfl⟩
  | cons _ hg hs ih =>
    obtain ⟨hhead, htail⟩ := List.forall_mem_cons.mp hno
    exact (ih htail).step hg hs hhead

/-- A step leaves what it should under the lock exactly if it does not block there. -/
theorem Between.staysSound_iff (h : Between (hist (acts tr)) s)
    (hg : ∀ act', act = .act act' → Orderly (hist (acts tr)) s act')
    (hs : s.lockStep act = some s') : StaysSound s act ↔ ¬ BlocksLocked s act := by
  obtain ⟨k, frame, live⟩ := s
  obtain ⟨k₀, a, hcore, hk⟩ := h
  constructor
  · rintro hsound ⟨hlock, c, rfl, hb⟩
    rcases hk with rfl | ⟨rfl, t, hr, hf⟩
    · exact absurd (hlock.symm.trans hcore.unlocked) (by simp)
    · have hsound' := hsound t c s' rfl hb.mayBlock rfl hr hs
      exact (hcore.sound_iff (by exact (hg _ rfl).usage) hb.mayBlock hr hf hs).mp hsound' hb
  · rintro hno t c s₁ rfl hc hlock hr hs₁
    rcases hk with rfl | ⟨rfl, u, hu, hf⟩
    · exact absurd (hlock.symm.trans hcore.unlocked) (by simp)
    · obtain rfl := Option.some.inj (hr.symm.trans hu)
      exact (hcore.sound_iff (by exact (hg _ rfl).usage) hc hr hf hs₁).mpr
        fun hb => hno ⟨rfl, c, rfl, hb⟩

/-- In a run, all calls under the lock that may block leave what they should exactly if none of them
does block. -/
theorem locked_calls_sound_iff (h : LockRun tr s) :
    (∀ e ∈ tr, StaysSound e.1 e.2) ↔ ∀ e ∈ tr, ¬ BlocksLocked e.1 e.2 := by
  induction h with
  | nil => simp
  | @cons tr s s' act hrun hg hs ih =>
    rw [List.forall_mem_cons, List.forall_mem_cons, ih]
    exact and_congr_left fun hno => (LockRun.between hrun hno).staysSound_iff hg hs

/-! ## A semaphore under the lock -/

/-- A run without lock. -/
theorem LockRun.of_sysRun {tr : Trace Kernel}
    (h : SysRun (fun tr s act => Orderly (hist tr) s act) tr s) :
    ∃ ltr, LockRun ltr s ∧ acts ltr = tr ∧ (∀ e ∈ ltr, ¬ BlocksLocked e.1 e.2) ∧
      ltr.map Prod.snd = (tr.map Prod.snd).map .act := by
  induction h with
  | nil hinit => exact ⟨[], .nil hinit, rfl, by simp, rfl⟩
  | @cons tr s s' act hrun hg hs ih =>
    obtain ⟨ltr, hltr, rfl, hno, hacts⟩ := ih
    obtain ⟨a, hcore⟩ := SysRun.core hrun fun _ _ _ h => h
    refine ⟨(s, .act act) :: ltr, .cons hltr ?_ hs, rfl, ?_, congrArg (_ :: ·) hacts⟩
    · rintro act' heq
      rw [← LockAction.act.inj heq]
      exact hg
    · refine List.forall_mem_cons.mpr ⟨fun hb => ?_, hno⟩
      exact absurd (hb.1.symm.trans hcore.unlocked) (by simp)

/-- The running task locks the scheduler, and calls `sem_get`. -/
theorem Core.semGet_locked {tr : Trace Kernel}
    (hrun : SysRun (fun tr s act => Orderly (hist tr) s act) tr s) (h : Core (hist tr) s a)
    (hr : s.running = some t) (hf : s.frame t = none) {i : ℕ}
    (ho : Orderly (hist tr) s (.call (.semGet (some i)))) :
    ∃ ltr s', LockRun (({ s with k := s.k.scheduleLock }, .act (.call (.semGet (some i)))) ::
        (s, .lock) :: ltr) s' ∧
      (∀ e ∈ ltr, ¬ BlocksLocked e.1 e.2) ∧ ltr.map Prod.snd = (tr.map Prod.snd).map .act ∧
        returned { s with k := s.k.scheduleLock } (.call (.semGet (some i))) s' =
          some (t, .semGet (some i), .TRUE) := by
  obtain ⟨ltr, hltr, rfl, hno, hacts⟩ := LockRun.of_sysRun hrun
  obtain ⟨k', r, ek, -, hnew, -⟩ := h.call_scheduleLock ho.usage hr
  have hlock : s.lockStep .lock = some { s with k := s.k.scheduleLock } := by
    simp [Sys.lockStep, Sys.setLock, hr, hf]
  have hstep := Sys.step_call (s := { s with k := s.k.scheduleLock }) hr hf ek
  refine ⟨ltr, _, .cons (.cons hltr (fun _ heq => by cases heq) hlock) ?_ hstep, hno, hacts, ?_⟩
  · rintro act heq
    rw [← LockAction.act.inj heq]
    exact ⟨by exact ho.usage, by exact ho.callbacks, by exact ho.undisturbed⟩
  -- Whether it has taken a unit or blocked, `sem_get` returns `TRUE`.
  · have hret : r = .TRUE := by
      have hget : s.k.scheduleLock.semGet (some i) = some (k'.scheduleLock, r) := ek
      rw [Kernel.semGet_eq] at hget
      split_ifs at hget
      · obtain ⟨k₁, -, hget⟩ := Option.bind_eq_some_iff.mp hget
        obtain ⟨k₂, -, hget⟩ := Option.bind_eq_some_iff.mp hget
        exact (Prod.mk.inj (Option.some.inj hget)).2.symm
      · exact (Prod.mk.inj (Option.some.inj hget)).2.symm
    rw [returned_callFrame (s := { s with k := s.k.scheduleLock }) hr hf ek, hret]
    exact if_pos hnew

/-- A task runs, and there is a semaphore with `num` units. -/
def semReady (num : ℕ) : List Move := [
  .call (.taskCreate (some (.task 1)) (some 0) (some 0) 5),
  .call (.semInit (some 0) num), .start, .call .schedule]

/-- What the run of `semReady` comes to, with one move more that is allowed. -/
theorem replay_semReady (num : ℕ)
    (h : (replay (fun _ _ _ => true) (semReady num) [] Sys.zero).map (fun r =>
      decide (r.2.k.newTask = some (.task 1) ∧ r.2.frame (.task 1) = none ∧
        (r.2.k.sem 0).count = num ∧
          (Move.call (.semGet (some 0))).check (hist r.1) r.2 = true)) = some true) :
    ∃ tr s a, SysRun (fun tr s act => Orderly (hist tr) s act) tr s ∧ Core (hist tr) s a ∧
      tr.map Prod.snd = ((semReady num).map Move.act).reverse ∧ s.running = some (.task 1) ∧
        s.frame (.task 1) = none ∧ (s.k.sem 0).count = num ∧
          Orderly (hist tr) s (.call (.semGet (some 0))) := by
  obtain ⟨⟨trA, sA⟩, hr, hh⟩ := Option.map_eq_some_iff.mp h
  obtain ⟨hnew, hframe, hcount, hcheck⟩ := of_decide_eq_true hh
  obtain ⟨tr, s, a, hrun, hcore, rfl, hacts, hnext⟩ := replay_orderly Sys.zero_init hr
  refine ⟨tr, s, a, hrun, hcore, hacts, hcore.running_eq.trans hnew, hframe, ?_, hnext _ hcheck⟩
  rw [hcore.sim.refines.sem_eq]
  exact hcount

/-- With a unit, a `sem_get` under the lock leaves what it should. -/
theorem locked_calls_sound_oneUnit : ∃ tr s, LockRun tr s ∧
    tr.map Prod.snd = .act (.call (.semGet (some 0))) :: .lock ::
      ((semReady 1).map Move.act).reverse.map .act ∧ ∀ e ∈ tr, StaysSound e.1 e.2 := by
  obtain ⟨tr, s, a, hrun, hcore, hacts, hr, hf, hcount, ho⟩ :=
    replay_semReady 1 (by decide)
  obtain ⟨ltr, s', hltr, hno, hltr', -⟩ := hcore.semGet_locked hrun hr hf ho
  refine ⟨_, s', hltr, ?_, (locked_calls_sound_iff hltr).mpr ?_⟩
  · rw [List.map_cons, List.map_cons, hltr', hacts]
  · refine List.forall_mem_cons.mpr ⟨?_, List.forall_mem_cons.mpr ⟨?_, hno⟩⟩
    · rintro ⟨-, c, heq, hb⟩
      obtain rfl := Action.call.inj (LockAction.act.inj heq)
      have hzero : (s.k.sem 0).count = 0 := hb
      omega
    · rintro ⟨-, c, heq, -⟩
      cases heq

/-- Without one, it returns `TRUE` all the same, to a task that is in no ready list. -/
theorem not_locked_calls_sound_noUnit : ∃ tr s s', LockRun tr s' ∧
    tr.map Prod.snd = .act (.call (.semGet (some 0))) :: .lock ::
      ((semReady 0).map Move.act).reverse.map .act ∧
    tr.head? = some (s, .act (.call (.semGet (some 0)))) ∧ (s.k.sem 0).count = 0 ∧
      returned s (.call (.semGet (some 0))) s' = some (.task 1, .semGet (some 0), .TRUE) ∧
        ¬ ∀ e ∈ tr, StaysSound e.1 e.2 := by
  obtain ⟨tr, s, a, hrun, hcore, hacts, hr, hf, hcount, ho⟩ :=
    replay_semReady 0 (by decide)
  obtain ⟨ltr, s', hltr, hno, hltr', hret⟩ := hcore.semGet_locked hrun hr hf ho
  refine ⟨_, _, s', hltr, ?_, rfl, hcount, hret, fun hsound => ?_⟩
  · rw [List.map_cons, List.map_cons, hltr', hacts]
  · cases hltr with
    | cons hprev hg hs =>
      have hbetween := LockRun.between hprev (List.forall_mem_cons.mpr ⟨?_, hno⟩)
      · refine (hbetween.staysSound_iff hg hs).mp (hsound _ List.mem_cons_self) ?_
        exact ⟨rfl, _, rfl, hcount⟩
      · rintro ⟨-, c, heq, -⟩
        cases heq

end Fos
