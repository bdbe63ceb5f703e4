import Fos.Refinement.Calls

/-!
# Setting up

`task_create`, `sem_init`, `mutex_init`, and `msg_queue_create` set up a task or a head, which is
free before. With them every call refines the abstract one (`exec_sim`), and `system_init` starts
the kernel and the abstract kernel in related states (`systemInit_sim`).
-/

namespace Fos

open Links Function

variable {live live' : Node → Bool} {k : Kernel} {a : Abs} {t : TcbPtr}

/-- `sem_init` of a semaphore that has not been set up. -/
theorem Sim.semInit (h : Sim live k a) {s : ℕ} (hs : live (.sem s) = false) (num : ℕ) :
    SimRet (update live (.sem s) true) (some (k.semInit (some s) num))
      (some (a.semInit (some s) num)) := by
  obtain ⟨href, w, hready⟩ := h
  have hempty := w.tasks_eq_nil (q := .sem s) (by simp [TaskQueue.Open, hs])
  have h₁ := href.setSem s { a.sem s with count := num }
  refine ⟨_, _, .TRUE, by simp only [Kernel.semInit, href.sem_eq]; rfl, rfl, ?_⟩
  refine ⟨⟨h₁.vars, ?_, h₁.bits⟩, ?_, hready⟩
  · refine (family_listInit (n := .sem s) h₁.lists (by simp [IsHead, hs]) rfl rfl rfl
      (List.map_eq_nil_iff.mpr hempty)).congr_heads fun n => ?_
    cases n with
    | sem i => by_cases hi : i = s <;> simp [IsHead, hi]
    | tcb t => cases t <;> simp [IsHead]
    | tick e => cases e <;> simp [IsHead]
    | mutex | queue | msgHead | msg => simp [IsHead]
  · exact w.semInit s num

/-- `mutex_init` of a mutex that has not been set up. -/
theorem Sim.mutexInit (h : Sim live k a) {m : ℕ} (hm : live (.mutex m) = false) :
    SimRet (update live (.mutex m) true) (some (k.mutexInit (some m)))
      (some (a.mutexInit (some m))) := by
  obtain ⟨href, w, hready⟩ := h
  have hempty := w.tasks_eq_nil (q := .mutex m) (by simp [TaskQueue.Open, hm])
  have h₁ := href.setMutex m { a.mutex m with enable := 1 }
  refine ⟨_, _, .TRUE, by simp only [Kernel.mutexInit, href.mutex_eq]; rfl, rfl, ?_⟩
  refine ⟨⟨h₁.vars, ?_, h₁.bits⟩, ?_, hready⟩
  · refine (family_listInit (n := .mutex m) h₁.lists (by simp [IsHead, hm]) rfl rfl rfl
      (List.map_eq_nil_iff.mpr hempty)).congr_heads fun n => ?_
    cases n with
    | mutex i => by_cases hi : i = m <;> simp [IsHead, hi]
    | tcb t => cases t <;> simp [IsHead]
    | tick e => cases e <;> simp [IsHead]
    | sem | queue | msgHead | msg => simp [IsHead]
  · exact w.mutexInit m

/-- `msg_queue_create` of a queue that has not been set up. -/
theorem Sim.msgQueueCreate (h : Sim live k a) {q : ℕ} (hq : live (.queue q) = false) {length : ℕ}
    (h0 : length ≠ 0) (hlength : length ≤ U32_MAX) :
    SimRet (update live (.queue q) true) (some (k.msgQueueCreate (some q) length))
      (some (a.msgQueueCreate (some q) length)) := by
  obtain ⟨href, w, hready⟩ := h
  have hempty := w.tasks_eq_nil (q := .queue q) (by simp [TaskQueue.Open, hq])
  have hmsgs := w.msgs.closed q hq
  have h₁ := href.setQueue q ⟨length, 0⟩
  refine ⟨_, _, .TRUE, by simp only [Kernel.msgQueueCreate, if_neg h0]; rfl,
    by simp only [Abs.msgQueueCreate, if_neg h0]; rfl, ?_⟩
  refine ⟨⟨h₁.vars, ?_, h₁.bits⟩, ?_, hready⟩
  · have hf := family_listInit (n := .queue q) h₁.lists (by simp [IsHead, hq]) rfl rfl rfl
      (List.map_eq_nil_iff.mpr hempty)
    refine (family_listInit (n := .msgHead q) hf (by simp [IsHead, hq]) rfl rfl rfl
      (List.map_eq_nil_iff.mpr hmsgs)).congr_heads fun n => ?_
    cases n with
    | queue i => by_cases hi : i = q <;> simp [IsHead, hi]
    | msgHead i => by_cases hi : i = q <;> simp [IsHead, hi]
    | tcb t => cases t <;> simp [IsHead]
    | tick e => cases e <;> simp [IsHead]
    | sem | mutex | msg => simp [IsHead]
  · exact w.msgQueueCreate hq hlength

/-- `task_create` of a task that has not been created. -/
theorem Sim.taskCreate (h : Sim live k a) (ht : live (.tcb t) = false) (htask : ∃ n, t = .task n)
    {prio : ℕ} (hp : prio < SYSTEM_WORD) (func stack : ℕ) :
    SimRet (update live (.tcb t) true) (k.taskCreate (some t) (some func) (some stack) prio)
      (some (a.taskCreate (some t) (some func) (some stack) prio)) := by
  obtain ⟨href, w, hready⟩ := h
  have hp' : prio < 32 := hp
  have hmod : prio % 256 = prio := Nat.mod_eq_of_lt (by omega)
  have hfree : ∀ q, t ∉ a.tasks q := fun q hm => by simpa [ht] using w.tasks.live_of_mem q t hm
  obtain ⟨k₁, e₁, h₁, -⟩ := (href.setPrio t prio).prioReadyQueueInsertTail (t := t) hfree htask
    (by simp [Abs.setPrio]) hp
  refine ⟨k₁, _, .TRUE, by simp [Kernel.taskCreate, hmod, e₁], rfl, ⟨h₁.vars, ?_, h₁.bits⟩,
    w.taskCreate ht htask hp, ?_⟩
  · refine h₁.lists.congr_heads fun n => ?_
    cases n with
    | tcb t => cases t <;> simp [IsHead]
    | tick e => cases e <;> simp [IsHead]
    | sem | mutex | queue | msgHead | msg => simp [IsHead]
  · -- The running task is another one, so it keeps its priority and its place.
    intro u hu
    have hu' := hready u hu
    have hne : u ≠ t := fun e => hfree _ (e ▸ hu')
    rcases eq_or_ne (a.prio u) prio with e | hpu
    · simp [Abs.pushTail, Abs.setPrio, hne, e, e ▸ hu']
    · simpa [Abs.pushTail, Abs.setPrio, hne, hpu] using hu'

/-! ## Every call -/

/-- A task is linked behind the head of the list that it is in. -/
theorem Refines.queued_task_iff (h : Refines live k a) {q : TaskQueue} (hq : q.Open live)
    (t : TcbPtr) : Queued k.heap q.head (.tcb t) ↔ t ∈ a.tasks q := by
  rw [h.queued_iff (isHead_head.mpr hq), Lists.seq_head,
    List.mem_map_of_injective Node.tcb_injective]

/-- An entry is queued when it is in the abstract tick queue. -/
theorem Refines.queued_tick_iff (h : Refines live k a) (e : TickPtr) :
    Queued k.heap tickHead (.tick e) ↔ e ∈ a.ticks := by
  constructor
  · rintro ⟨xs, hx, hm⟩
    rw [hx.unique h.rep_ticks] at hm
    simpa using hm
  · exact fun he => ⟨_, h.rep_ticks, List.mem_map_of_mem he⟩

/-- A message is queued when it is in an abstract queue. -/
theorem Refines.queued_msg_iff (h : Refines live k a) {q : ℕ} (hq : live (.queue q) = true)
    (m : ℕ) : Queued k.heap (.msgHead q) (.msg m) ↔ m ∈ a.msgs q := by
  constructor
  · rintro ⟨xs, hx, hm⟩
    rw [hx.unique (h.rep_msgs hq)] at hm
    simpa using hm
  · exact fun he => ⟨_, h.rep_msgs hq, List.mem_map_of_mem he⟩

/-- Every call that is made as `CallUsage` says refines the abstract one. -/
theorem exec_sim {hst : Hist} {s : Sys Kernel} {c : Call} (h : Sim s.live s.k a)
    (hu : CallUsage hst s s.running c) (hmain : s.running = none → c.IsSetUp = true)
    (hidle : s.running = some idleTcb → c = .schedule)
    (hcopy : ∀ u m, hasCalledGet u m hst = true → (a.mutex m).copyPrio < SYSTEM_WORD) :
    SimRet (setUp s.live c) (s.k.exec c) (a.exec c) := by
  have hrun : s.running = a.newTask := h.refines.newTask_eq
  -- A call that is not a set-up is made by a task other than the idle one.
  have htask : c.IsSetUp = false → c ≠ .schedule → ∃ t, a.newTask = some t ∧ t ≠ idleTcb := by
    intro hset hne
    cases hnew : a.newTask with
    | none => simp [hmain (hrun.trans hnew)] at hset
    | some t => exact ⟨t, rfl, fun e => hne (hidle (by rw [hrun, hnew, e]))⟩
  cases c with
  | taskCreate tcb func stack prio =>
    obtain _ | t := tcb
    · exact SimRet.refl h .NO_TCB
    obtain _ | f := func
    · exact SimRet.refl h .NO_TCB
    obtain _ | st := stack
    · exact SimRet.refl h .NO_TCB
    exact h.taskCreate hu.2.1 hu.1 hu.2.2 f st
  | taskPrioChange tcb prio =>
    cases tcb with
    | none => exact SimRet.refl h .NO_TCB
    | some t =>
      obtain ⟨u, hnew, hne⟩ := htask rfl (by simp)
      have : u = t := by simpa [hrun, hnew] using hu.1
      subst this
      exact h.taskPrioChange hnew hne hu.2
  | osDelay timeslice =>
    obtain ⟨t, hnew, hne⟩ := htask rfl (by simp)
    exact h.osDelay hnew hne timeslice
  | timerReq timer func timeout period arg =>
    cases timer with
    | none => cases func <;> exact SimRet.refl h .VOID
    | some e =>
      obtain ⟨⟨n, rfl⟩, hq⟩ := hu
      exact h.timerReq (fun hm => hq ((h.refines.queued_tick_iff _).mpr hm)) func timeout period arg
  | semInit i num =>
    cases i with
    | none => exact SimRet.refl h .NO_SEMAPHORE
    | some i => exact h.semInit hu.1 num
  | semGet i =>
    cases i with
    | none => exact SimRet.refl h .NO_SEMAPHORE
    | some i =>
      obtain ⟨t, hnew, hne⟩ := htask rfl (by simp)
      exact h.semGet hnew hne hu
  | semPut i =>
    cases i with
    | none => exact SimRet.refl h .NO_SEMAPHORE
    | some i => exact h.refines.semPut h.wf hu
  | mutexInit m =>
    cases m with
    | none => exact SimRet.refl h .NO_MUTEX
    | some m => exact h.mutexInit hu
  | mutexGet m =>
    cases m with
    | none => exact SimRet.refl h .NO_MUTEX
    | some m =>
      obtain ⟨t, hnew, hne⟩ := htask rfl (by simp)
      exact h.mutexGet hnew hne hu
  | mutexPut m =>
    cases m with
    | none => exact SimRet.refl h .NO_MUTEX
    | some m =>
      obtain ⟨t, hnew, hne⟩ := htask rfl (by simp)
      obtain ⟨hm, u, -, hget⟩ := hu
      exact h.mutexPut hnew hne (hcopy u m hget) hm
  | msgQueueCreate q length =>
    cases q with
    | none => exact SimRet.refl h .FALSE
    | some q =>
      by_cases h0 : length = 0
      · subst h0
        exact SimRet.refl h .FALSE
      · have := h.msgQueueCreate hu.1 h0 hu.2
        simpa [setUp, Call.setsUp, h0, Kernel.exec, Abs.exec] using this
  | msgPut q m method =>
    obtain _ | q := q
    · exact SimRet.refl h .FALSE
    obtain _ | m := m
    · exact SimRet.refl h .FALSE
    refine h.msgPut hu.1 (fun q' hm => ?_) method
    cases hq' : s.live (.queue q') with
    | false => simp [h.wf.msgs.closed q' hq'] at hm
    | true => exact hu.2 q' hq' ((h.refines.queued_msg_iff hq' m).mpr hm)
  | msgGet q buffer =>
    cases q with
    | none => exact SimRet.refl h .FALSE
    | some q =>
      obtain ⟨t, hnew, hne⟩ := htask rfl (by simp)
      exact h.msgGet hnew hne hu buffer
  | schedule =>
    obtain ⟨k', a', ek, ea, hs⟩ := h.refines.schedule h.wf
    exact ⟨k', a', .VOID, by simp [Kernel.exec, ek], by simp [Abs.exec, ea], hs⟩

/-! ## The start -/

/-- No list has anything. -/
def Lists.empty : Lists := ⟨fun _ => [], [], fun _ => []⟩

theorem Lists.empty_seq (n : Node) : Lists.empty.seq n = [] := by
  cases n with
  | tcb t => cases t <;> rfl
  | tick e => cases e <;> rfl
  | sem | mutex | queue | msgHead | msg => rfl

/-- `prio_ready_queue_init` makes the first `n` ready lists empty. -/
theorem family_prioReadyQueueInit (h : Heap Node) (n : ℕ) :
    Family ((List.range n).foldl (fun h i => listInit h (readyHead i)) h)
      (fun x => ∃ p < n, x = readyHead p) Lists.empty.seq := by
  induction n with
  | zero => exact ⟨by simp, by simp, by simp⟩
  | succ n ih =>
    rw [List.range_succ, List.foldl_append]
    have hfree : Free (fun x => ∃ p < n, x = readyHead p) Lists.empty.seq (readyHead n) :=
      ⟨by simp, by simp [Lists.empty_seq]⟩
    refine (ih.adopt hfree (Lists.empty_seq _)).congr_heads fun x => ?_
    constructor
    · rintro ⟨p, hp, rfl⟩
      rcases Nat.lt_succ_iff_lt_or_eq.mp hp with hlt | rfl
      · exact Or.inr ⟨p, hlt, rfl⟩
      · exact Or.inl rfl
    · rintro (rfl | ⟨p, hp, rfl⟩)
      · exact ⟨n, Nat.lt_succ_self n, rfl⟩
      · exact ⟨p, Nat.lt_succ_of_lt hp, rfl⟩

/-- What is set up after `system_init`. -/
def liveInit : Node → Bool := update (fun _ => false) (.tcb idleTcb) true

/-- `system_init` starts the kernel and the abstract kernel in related states. -/
theorem systemInit_sim (hz : k.Zeroed) : ∃ k', k.systemInit = some k' ∧
    Sim liveInit k' (Abs.systemInit k.toVars) := by
  -- All lists are empty before the idle task is created.
  let heap := listInit ((List.range SYSTEM_WORD).foldl (fun h i => listInit h (readyHead i)) k.heap)
    tickHead
  let v : Vars := { k.toVars with oldTask := none }
  have hlists : Family heap (IsHead liveInit) Lists.empty.seq := by
    have hfree : Free (fun x => ∃ p < SYSTEM_WORD, x = readyHead p) Lists.empty.seq tickHead :=
      ⟨by simp, by simp [Lists.empty_seq]⟩
    refine ((family_prioReadyQueueInit k.heap SYSTEM_WORD).adopt hfree
      (Lists.empty_seq _)).congr_heads fun n => ?_
    cases n with
    | tcb t => cases t <;> simp [IsHead]
    | tick e => cases e <;> simp [IsHead]
    | sem | mutex | queue | msgHead | msg => simp [IsHead, liveInit]
  have hbits : BitmapOk k.y k.c fun _ => False :=
    ⟨by simp [hz.c], by simp [hz.y, hz.c], by simp [hz.c]⟩
  have h₀ : Refines liveInit { toVars := v, heap := heap, y := k.y, c := k.c } ⟨v, Lists.empty⟩ :=
    ⟨rfl, hlists, hbits.congr fun p _ => by simp [Lists.empty]⟩
  obtain ⟨k', e', h', -⟩ := (h₀.setPrio idleTcb 31).prioReadyQueueInsertTail (t := idleTcb)
    (by simp [Abs.setPrio, Lists.empty]) ⟨0, rfl⟩ (p := 31) (by simp [Abs.setPrio]) (by decide)
  refine ⟨k', ?_, h', ?_, ?_⟩
  · have : (31 : ℕ) % 256 = 31 := rfl
    simp only [Kernel.systemInit, Kernel.prioReadyQueueInit, Kernel.tickQueueInit,
      Kernel.taskCreate, this]
    have e'' := e'
    simp only [v, heap] at e''
    simp only [Option.bind_eq_bind, e'', Option.bind_some]
  · refine ⟨?_, ?_, ?_, hz.scheduleIsLock⟩
    · have hmem : ∀ q t, t ∈ (Abs.systemInit k.toVars).tasks q ↔ q = .ready 31 ∧ t = idleTcb := by
        intro q t
        rcases eq_or_ne q (.ready 31) with rfl | hq
        · simp [Abs.systemInit, Abs.pushTail, Abs.setPrio]
        · simp [Abs.systemInit, Abs.pushTail, Abs.setPrio, hq]
      have hlive : ∀ t, liveInit (.tcb t) = true ↔ t = idleTcb := by
        intro t
        by_cases e : t = idleTcb <;> simp [liveInit, e]
      have hprio : (Abs.systemInit k.toVars).prio idleTcb = 31 := by
        simp [Abs.systemInit, Abs.pushTail, Abs.setPrio]
      constructor
      · intro q
        rcases eq_or_ne q (.ready 31) with rfl | hq
        · simp [Abs.systemInit, Abs.pushTail, Abs.setPrio]
        · simp [Abs.systemInit, Abs.pushTail, Abs.setPrio, hq]
      · intro q q' t ht ht'
        rw [((hmem q t).mp ht).1, ((hmem q' t).mp ht').1]
      · exact fun t ht => ⟨0, (hlive t).mp ht⟩
      · exact fun q t ht => (hlive t).mpr ((hmem q t).mp ht).2
      · rintro q t ht
        rw [((hmem q t).mp ht).1]
        show 31 < SYSTEM_WORD
        decide
      · intro p t ht
        obtain ⟨hq, rfl⟩ := (hmem _ t).mp ht
        rw [TaskQueue.ready.inj hq, hprio]
      · intro t ht
        rw [(hlive t).mp ht, hprio]
        decide
      · exact fun t ht => Or.inl ⟨.ready 31, (hmem _ t).mpr ⟨rfl, (hlive t).mp ht⟩⟩
      · exact fun q t _ => List.not_mem_nil
      · exact (hmem _ _).mpr ⟨rfl, rfl⟩
    · exact ⟨List.nodup_nil, by simp [Abs.systemInit, Abs.pushTail, Abs.setPrio],
        by simp [Abs.systemInit, Abs.pushTail, Abs.setPrio], List.not_mem_nil⟩
    · exact ⟨fun _ => List.nodup_nil, by simp [Abs.systemInit, Abs.pushTail, Abs.setPrio],
        fun _ _ => rfl, by simp [liveInit], by simp [liveInit], by simp [liveInit]⟩
  · intro t ht
    have hnew : k.newTask = some t := ht
    rw [hz.newTask] at hnew
    exact absurd hnew (by simp)

end Fos
