import Fos.Runs.Control

/-!
# Sleeping

A task that has called `os_delay(n)` is in no ready list until the `n + 1`-st call of
`hardware_timer` after it, and that call puts it behind the ready tasks of its priority
(`sleeps_on_time`). What carries this is that the `timeout` of its delay and the ticks since the
call add up to `n` (`Asleep`).
-/

namespace Fos

open Links Function Runs

/-- The argument of the last `os_delay` of a task, and the ticks since then. -/
def slept (t : TcbPtr) : Trace Kernel → Option (ℕ × ℕ)
  | [] => none
  | (s, .call (.osDelay n)) :: tr => if s.running = some t then some (n, 0) else slept t tr
  | (_, .tick _) :: tr => (slept t tr).map fun d => (d.1, d.2 + 1)
  | _ :: tr => slept t tr

/-- Tasks sleep for as long as they have asked, and no longer. -/
structure SleepsOnTime (tr : Trace Kernel) (s : Sys Kernel) : Prop where
  /-- Up to the `n`-th tick after `os_delay(n)`, the task is in no ready list. It is in the tick
  queue with what is left of its `timeout`. -/
  asleep : ∀ t n j, slept t tr = some (n, j) → j ≤ n →
    (∀ p < SYSTEM_WORD, ¬ Queued s.k.heap (readyHead p) (.tcb t)) ∧
      Queued s.k.heap tickHead (.tick (.delay t)) ∧ (s.k.tick (.delay t)).timeout = n - j
  /-- No other task is in the tick queue. -/
  only : ∀ t, Queued s.k.heap tickHead (.tick (.delay t)) → ∃ n j, slept t tr = some (n, j) ∧ j ≤ n
  /-- A tick appends to the ready list of each priority the tasks of that priority for which it is
  the `n + 1`-st one, and no others. Then it calls `schedule`, which leaves them ready. -/
  wakes : ∀ s', s.step (.tick passive) = some s' → ∃ (k : Kernel) (woken : ℕ → List TcbPtr),
    s.k.passiveLoop = some (k, none) ∧ k.schedule = some s'.k ∧ ∀ p < SYSTEM_WORD,
      (∃ ts, Represents s.k.heap (readyHead p) (ts.map .tcb) ∧
        Represents k.heap (readyHead p) ((ts ++ woken p).map .tcb)) ∧
      ∀ t, (t ∈ woken p ↔ (∃ n, slept t tr = some (n, n)) ∧ s.k.prio t = p) ∧
        (t ∈ woken p → Queued s'.k.heap (readyHead p) (.tcb t))

variable {hst hst' : Hist} {tr : Trace Kernel} {s s' : Sys Kernel} {a a' : Abs} {act : Action}
  {t u : TcbPtr} {n j : ℕ} {r : Ret} {c : Call}

/-- The tasks that sleep, in the tick queue of the abstract kernel. -/
structure Asleep (tr : Trace Kernel) (a : Abs) : Prop where
  /-- What is left of the `timeout` and the ticks since `os_delay(n)` add up to `n`. -/
  sleeps : ∀ t n j, slept t tr = some (n, j) → j ≤ n →
    .delay t ∈ a.ticks ∧ (a.tick (.delay t)).timeout + j = n
  /-- No other task is in the tick queue. -/
  only : ∀ t, .delay t ∈ a.ticks → ∃ n j, slept t tr = some (n, j) ∧ j ≤ n

/-- What `os_delay` does to its entry. -/
theorem Abs.exec_osDelay (hnew : a.newTask = some t)
    (h : a.exec (.osDelay n) = some (a', r)) : (a'.tick (.delay t)).timeout = n := by
  have hs := Abs.exec_effect (t := t) (fun t' ht' => Option.some.inj (ht'.symm.trans hnew)) h
  rw [hs.tick]
  simp [Call.effect, Abs.sleep, Abs.pushTick, Abs.remove, Abs.note, Abs.setTick]

/-- The entries of tasks that sleep, after a step that leaves them. -/
theorem Asleep.congr {tr' : Trace Kernel} (h : Asleep tr a)
    (hslept : ∀ t, slept t tr' = slept t tr)
    (hmem : ∀ t, .delay t ∈ a'.ticks ↔ .delay t ∈ a.ticks)
    (htick : ∀ t, a'.tick (.delay t) = a.tick (.delay t)) : Asleep tr' a' where
  sleeps t n j hs hj := by
    rw [hmem, htick]
    exact h.sleeps t n j (hslept t ▸ hs) hj
  only t ht := by
    rw [hslept]
    exact h.only t ((hmem t).mp ht)

/-- A call that is not `os_delay` leaves the tasks that sleep. -/
theorem Asleep.call (h : Asleep tr a) (hu : CallUsage (hist tr) s s.running c)
    (ha : a.exec c = some (a', r)) (hc : ∀ n, c ≠ .osDelay n) : Asleep ((s, .call c) :: tr) a' := by
  obtain ⟨t₀, hnew⟩ := a.exists_caller
  have hframe := Abs.exec_frame hnew ha
  -- The entry that the call queues is not the delay of a task.
  have hother : ∀ u, TickPtr.delay u ∉ (c.queues t₀).toList := fun u hq => by
    obtain ⟨-, n, heq⟩ := Call.eq_osDelay hu hq
    exact hc n heq
  refine h.congr (fun t => ?_) (fun t => ?_) fun t => ?_
  · cases c <;> first | rfl | exact absurd rfl (hc _)
  · rw [hframe.ticks, List.mem_append, or_iff_left (hother t)]
  · exact hframe.tick _ fun heq => hother t (by simp [← heq])

/-- The caller of `os_delay` sleeps, and the others go on sleeping. -/
theorem Asleep.osDelay (h : Asleep tr a) (hr : s.running = some t) (hnew : a.newTask = some t)
    (ha : a.exec (.osDelay n) = some (a', r)) : Asleep ((s, .call (.osDelay n)) :: tr) a' := by
  have hframe := Abs.exec_frame (t := t) (fun t' ht' => Option.some.inj (ht'.symm.trans hnew)) ha
  have hmem : ∀ u, .delay u ∈ a'.ticks ↔ .delay u ∈ a.ticks ∨ u = t := fun u => by
    rw [hframe.ticks, List.mem_append]
    simp [Call.queues]
  refine ⟨fun u m j hs hj => ?_, fun u hu => ?_⟩
  · rcases eq_or_ne u t with rfl | hne
    · obtain ⟨rfl, rfl⟩ : n = m ∧ 0 = j := by simpa [slept, hr] using hs
      exact ⟨(hmem u).mpr (Or.inr rfl), Abs.exec_osDelay hnew ha⟩
    · have hold : slept u tr = some (m, j) := by simpa [slept, hr, hne.symm] using hs
      obtain ⟨hm, htime⟩ := h.sleeps u m j hold hj
      refine ⟨(hmem u).mpr (Or.inl hm), ?_⟩
      rw [hframe.tick (.delay u) (by simpa [Call.queues] using hne), htime]
  · rcases eq_or_ne u t with rfl | hne
    · exact ⟨n, 0, by simp [slept, hr], Nat.zero_le n⟩
    · obtain ⟨m, j, hs, hj⟩ := h.only u (((hmem u).mp hu).resolve_right hne)
      exact ⟨m, j, by simp [slept, hr, hne.symm, hs], hj⟩

/-- A tick counts the tasks that sleep down, and wakes those that have come to their end. -/
theorem Asleep.tick {live : Node → Bool} {f : Option TimerFrame} (h : Asleep tr a) (w : WF live a)
    (ha : a.hardwareTimer passive = some (a', f)) : Asleep ((s, .tick passive) :: tr) a' := by
  refine ⟨fun t n j' hs hj => ?_, fun t ht => ?_⟩
  · obtain ⟨⟨n, j⟩, hold, heq⟩ := Option.map_eq_some_iff.mp hs
    obtain ⟨rfl, rfl⟩ := Prod.mk.inj heq
    dsimp only at hj ⊢
    obtain ⟨hm, htime⟩ := h.sleeps t n j hold (by omega)
    obtain ⟨hmem, htick⟩ := w.ticks_hardwareTimer ha (.delay t)
    -- The tick is not the last one, so that the `timeout` is not yet zero.
    have hpos : (a.tick (.delay t)).timeout ≠ TIMEOUT := by
      unfold TIMEOUT
      omega
    refine ⟨hmem.mpr ⟨hm, fun hl => hpos hl.1⟩, ?_⟩
    rw [htick, if_pos hm, Tick.passed, if_neg hpos]
    unfold TIMEOUT at hpos
    dsimp only
    omega
  · obtain ⟨hmem, -⟩ := w.ticks_hardwareTimer ha (.delay t)
    obtain ⟨hm, hstay⟩ := hmem.mp ht
    obtain ⟨n, j, hs, hj⟩ := h.only t hm
    obtain ⟨-, htime⟩ := h.sleeps t n j hs hj
    have hpos : (a.tick (.delay t)).timeout ≠ 0 := fun h0 =>
      hstay ⟨h0, Or.inl (w.ticks.delay t hm).2.2⟩
    exact ⟨n, j + 1, by simp [slept, hs], by omega⟩

/-- `Asleep`, after one more step. -/
theorem Asleep.step (h : Asleep tr a) (hl : Lockstep s a act s' a') (hcore : Core (hist tr) s a)
    (hg : PassiveUsage tr s act) (hno : ∀ t f, s.frame t ≠ some (.timer f)) :
    Asleep ((s, act) :: tr) a' := by
  cases hl with
  | @main c k' _ r hr hk ha =>
    refine h.call hg.1.1 ha ?_
    rintro n rfl
    exact absurd (hg.1.2.1 hr) (by simp [Call.IsSetUp])
  | @call t c k' _ r hr hf hk ha hnew =>
    by_cases hc : ∃ n, c = .osDelay n
    · obtain ⟨n, rfl⟩ := hc
      exact h.osDelay hr (hcore.running_eq.symm.trans hr) ha
    · exact h.call hg.1.1 ha fun n heq => hc ⟨n, heq⟩
  | @tick t o k' _ f hr hf _ ha =>
    obtain rfl : o = passive := hg.2
    exact h.tick hcore.sim.wf ha
  | ret | start => exact h.congr (fun _ => rfl) (fun _ => Iff.rfl) fun _ => rfl
  | pass _ hf _ _ => exact absurd hf (hno _ _)

/-- What the loop of a passive `hardware_timer` does, in both kernels. -/
theorem Core.passiveLoop (h : Core hst s a) : ∃ k b, s.k.passiveLoop = some (k, none) ∧
    Sim s.live k b ∧
    (Abs.note { a with fosTick := a.fosTick + 1 } (.start (a.fosTick + 1))).Passed a.ticks b := by
  have htick : s.k.fosTick = a.fosTick := by rw [h.sim.refines.vars]
  have hstart := h.sim.tidy.tickStart
  obtain ⟨k, b, f, hk, hb, htidy, hready⟩ := tickLoop_sim passive (by simp [passive])
    (s.k.fosTick + 1) a.ticks hstart hstart.refines.cursor_head
  obtain ⟨rfl, hpassed⟩ := Abs.passed_pass hstart.wf.ticks.nodup hstart.wf.ticks.nodup hb
  rw [htick] at hpassed
  exact ⟨k, b, hk, ⟨htidy.refines, htidy.wf, hready (Or.inl h.sim.ready)⟩, hpassed⟩

/-- The tasks of a priority that a tick wakes, in the order of the tick queue. -/
def Abs.woken (a : Abs) (p : ℕ) : List TcbPtr :=
  (a.ticks.filterMap fun e => (a.tick e).woken).filter (a.prio · = p)

/-- A tick wakes the tasks for which it is the last one. -/
theorem Asleep.mem_woken {live : Node → Bool} {p : ℕ} (h : Asleep tr a) (w : WF live a) :
    t ∈ a.woken p ↔ (∃ n, slept t tr = some (n, n)) ∧ a.prio t = p := by
  rw [Abs.woken, List.mem_filter, List.mem_filterMap, decide_eq_true_eq]
  refine and_congr_left fun _ => ⟨?_, ?_⟩
  · rintro ⟨e, he, hwoken⟩
    obtain rfl := w.eq_delay_of_woken he hwoken
    have hzero : (a.tick (.delay t)).timeout = 0 := by
      unfold Tick.woken at hwoken
      split_ifs at hwoken with hexp
      exact hexp.1
    obtain ⟨n, j, hs, hj⟩ := h.only t he
    obtain ⟨-, htime⟩ := h.sleeps t n j hs hj
    obtain rfl : j = n := by omega
    exact ⟨j, hs⟩
  · rintro ⟨n, hs⟩
    obtain ⟨hm, htime⟩ := h.sleeps t n n hs (Nat.le_refl n)
    obtain ⟨-, htcb, hstyle⟩ := w.ticks.delay t hm
    have hzero : (a.tick (.delay t)).timeout = TIMEOUT := by
      unfold TIMEOUT
      omega
    exact ⟨.delay t, hm, by simp [Tick.woken, hzero, hstyle, htcb]⟩

/-- Tasks sleep for as long as they have asked, in every run. -/
theorem sleeps_on_time (h : SysRun PassiveUsage tr s) : SleepsOnTime tr s := by
  obtain ⟨a, hcore, -, hasleep⟩ := h.passive (P := fun tr _ a => Asleep tr a)
    (fun s k _ _ _ => ⟨by simp [slept], fun t ht => by
      simp [Abs.systemInit, Abs.pushTail, Abs.setPrio] at ht⟩)
    (fun tr s a act s' a' _ hcore _ hp hg hno hl _ => hp.step hl hcore hg hno)
  have href := hcore.sim.refines
  have htasks := hcore.sim.wf.tasks
  refine ⟨fun t n j hs hj => ?_, fun t ht => ?_, fun s' hs => ?_⟩
  · obtain ⟨hm, htime⟩ := hasleep.sleeps t n j hs hj
    refine ⟨fun p hp hq => ?_, (href.queued_tick_iff _).mpr hm, ?_⟩
    · obtain ⟨q, -, ht⟩ := mem_seq_tcb.mp ((href.queued_iff (n := readyHead p) hp _).mp hq)
      exact htasks.awake q t ht hm
    · rw [href.tick_eq]
      omega
  · exact hasleep.only t ((href.queued_tick_iff _).mp ht)
  · have hg : PassiveUsage tr s (.tick passive) := ⟨trivial, rfl⟩
    obtain ⟨a', hl, -⟩ := h.lockstep (fun _ _ _ hg => hg) hg hs hcore
    obtain ⟨k, b, hloop, hsim, hpassed⟩ := hcore.passiveLoop
    obtain ⟨k₁, a₁, hk₁, ha₁, hsim₁⟩ := hsim.refines.schedule hsim.wf
    -- The call is its loop and a `schedule`.
    have htimer : s.k.hardwareTimer passive = some (k₁, none) := by
      show s.k.passiveLoop.bind Kernel.tickEnd = _
      rw [hloop]
      simp [Kernel.tickEnd, hk₁]
    cases hl with
    | @tick t _ k' _ f hr hf hk ha =>
      obtain ⟨rfl, -⟩ := Prod.mk.inj (Option.some.inj (hk.symm.trans htimer))
      refine ⟨k, a.woken, hloop, hk₁, fun p hp => ⟨?_, fun t => ⟨?_, fun ht => ?_⟩⟩⟩
      · refine ⟨a.tasks (.ready p), href.rep (q := .ready p) hp, ?_⟩
        have hrep := hsim.refines.rep (q := .ready p) hp
        rwa [show b.tasks (.ready p) = a.tasks (.ready p) ++ a.woken p from hpassed.ready p] at hrep
      · rw [href.prio_eq]
        exact hasleep.mem_woken hcore.sim.wf
      · obtain ⟨p', v, vs, hv, rfl⟩ := Abs.schedule_inv ha₁
        have hready : t ∈ b.tasks (.ready p) := by
          rw [hpassed.ready p]
          exact List.mem_append_right _ ht
        refine (hsim₁.refines.queued_iff (n := readyHead p) hp _).mpr ?_
        refine mem_seq_tcb.mpr ⟨.ready p, rfl, ?_⟩
        exact (hsim.wf.tasks.mem_select (by simp [hv])).mpr hready

/-- `task 1` sleeps for one tick, which has come, while a timer runs. -/
def nap : List Move := [
  .call (.taskCreate (some (.task 1)) (some 0) (some 0) 5),
  .call (.timerReq (some (.timer 0)) (some 0) 1 CYCLE 0),
  .start, .call .schedule, .call (.osDelay 1), .resume, .tick]

/-- The tasks of `nap` sleep for as long as they have asked. -/
theorem sleeps_on_time_nap : ∃ tr s, SysRun PassiveUsage tr s ∧
    tr.map Prod.snd = (nap.map Move.act).reverse ∧ SleepsOnTime tr s := by
  obtain ⟨tr, s, hrun, hacts⟩ := PassiveUsage.of_replay nap (by decide)
  exact ⟨tr, s, hrun, hacts, sleeps_on_time hrun⟩

end Fos
