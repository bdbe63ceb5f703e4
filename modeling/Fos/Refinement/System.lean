import Fos.Refinement.SetUp
import Fos.Refinement.Timer

/-!
# The system over the kernel and over the abstract kernel

The system of `System.lean` over the kernel and the one over the abstract kernel go in lockstep, as
long as callers use the kernel's functions as `Usage` says and no suspended pass over the tick queue
is disturbed (`Core.step`). `Core` is the invariant that carries this: the states are related by
`Sim`, the priority that a mutex keeps for its holder is one, and the timers in whose callbacks
passes are suspended are queued. `SysRun.core` says that it holds in every state of every run.
-/

namespace Fos

open Links Function

/-- The system over an abstract kernel in the place of the kernel. -/
def Sys.over (s : Sys Kernel) (a : Abs) : Sys Abs := ⟨a, s.frame, s.live⟩

/-- The invariant of the runs of the system. -/
structure Core (h : Hist) (s : Sys Kernel) (a : Abs) : Prop where
  /-- The kernel represents the abstract one. -/
  sim : Sim s.live s.k a
  /-- Only mutexes that have been set up have been asked for. -/
  get_live : ∀ t m, hasCalledGet t m h = true → s.live (.mutex m) = true
  /-- A mutex that has been asked for keeps a priority. -/
  copy_prio : ∀ t m, hasCalledGet t m h = true → (a.mutex m).copyPrio < SYSTEM_WORD
  /-- A mutex that has not been asked for is free. -/
  fresh : ∀ m, s.live (.mutex m) = true → (∀ t, hasCalledGet t m h = false) →
    (a.mutex m).enable ≠ 0
  /-- A pass is suspended at a timer that is queued. -/
  timer : ∀ t f, s.frame t = some (.timer f) →
    (∃ n, f.entry = .timer n) ∧ f.entry ∈ a.ticks ∧ ∀ i ∈ f.puts, s.live (.sem i) = true
  /-- Two passes are suspended at one timer only when its period is `CYCLE`. -/
  apart : ∀ t u f g, s.frame t = some (.timer f) → s.frame u = some (.timer g) →
    f.entry = g.entry → t = u ∨ (a.tick f.entry).period = CYCLE

/-- The invariant inside a call as well, where the running task may not be ready. -/
structure Within (h : Hist) (s : Sys Kernel) (a : Abs) : Prop where
  /-- The kernel represents the abstract one. -/
  tidy : Tidy s.live s.k a
  /-- Only mutexes that have been set up have been asked for. -/
  get_live : ∀ t m, hasCalledGet t m h = true → s.live (.mutex m) = true
  /-- A mutex that has been asked for keeps a priority. -/
  copy_prio : ∀ t m, hasCalledGet t m h = true → (a.mutex m).copyPrio < SYSTEM_WORD
  /-- A mutex that has not been asked for is free. -/
  fresh : ∀ m, s.live (.mutex m) = true → (∀ t, hasCalledGet t m h = false) →
    (a.mutex m).enable ≠ 0
  /-- A pass is suspended at a timer that is queued. -/
  timer : ∀ t f, s.frame t = some (.timer f) →
    (∃ n, f.entry = .timer n) ∧ f.entry ∈ a.ticks ∧ ∀ i ∈ f.puts, s.live (.sem i) = true
  /-- Two passes are suspended at one timer only when its period is `CYCLE`. -/
  apart : ∀ t u f g, s.frame t = some (.timer f) → s.frame u = some (.timer g) →
    f.entry = g.entry → t = u ∨ (a.tick f.entry).period = CYCLE

variable {hst : Hist} {s s' : Sys Kernel} {a a' : Abs} {act : Action}

theorem Core.within (h : Core hst s a) : Within hst s a :=
  ⟨h.sim.tidy, h.get_live, h.copy_prio, h.fresh, h.timer, h.apart⟩

/-- Where the running task is ready, it is as between calls. -/
theorem Within.core (h : Within hst s a) (hready : a.RunningReady) : Core hst s a :=
  ⟨⟨h.tidy.refines, h.tidy.wf, hready⟩, h.get_live, h.copy_prio, h.fresh, h.timer, h.apart⟩

/-- The same task runs. -/
theorem Within.running_eq (h : Within hst s a) : s.running = a.newTask := h.tidy.refines.newTask_eq

/-- The same task runs. -/
theorem Core.running_eq (h : Core hst s a) : s.running = a.newTask := h.sim.refines.newTask_eq

/-- Whoever makes the next call is the running task. -/
theorem Core.eq_caller (h : Core hst s a) {t : TcbPtr} (hr : s.running = some t) :
    ∀ t', a.newTask = some t' → t' = t := fun _ ht' =>
  Option.some.inj (ht'.symm.trans (h.running_eq.symm.trans hr))

/-- The running task has been created. -/
theorem Core.live_running (h : Core hst s a) {t : TcbPtr} (hr : s.running = some t) :
    s.live (.tcb t) = true :=
  h.sim.wf.tasks.live_of_mem _ t (h.sim.ready t (h.running_eq.symm.trans hr))

/-- One step of both systems: the calls return the same value, and the passes are suspended at the
same place. -/
inductive Lockstep (s : Sys Kernel) (a : Abs) : Action → Sys Kernel → Abs → Prop where
  /-- `main` makes a call. -/
  | main {c : Call} {k' : Kernel} {a' : Abs} {r : Ret} (hr : s.running = none)
      (hk : s.k.exec c = some (k', r)) (ha : a.exec c = some (a', r)) :
      Lockstep s a (.call c) ⟨k', s.frame, setUp s.live c⟩ a'
  /-- A task makes a call. -/
  | call {t : TcbPtr} {c : Call} {k' : Kernel} {a' : Abs} {r : Ret} (hr : s.running = some t)
      (hf : s.frame t = none) (hk : s.k.exec c = some (k', r)) (ha : a.exec c = some (a', r))
      (hnew : k'.newTask = a'.newTask) :
      Lockstep s a (.call c) ⟨k', s.callFrame t c k' r, setUp s.live c⟩ a'
  /-- A tick. -/
  | tick {t : TcbPtr} {o : Oracle} {k' : Kernel} {a' : Abs} {f : Option TimerFrame}
      (hr : s.running = some t) (hf : s.frame t = none) (hk : s.k.hardwareTimer o = some (k', f))
      (ha : a.hardwareTimer o = some (a', f)) :
      Lockstep s a (.tick o) ⟨k', update s.frame t (f.map .timer), s.live⟩ a'
  /-- A call that was switched out returns. -/
  | ret {t : TcbPtr} {o : Oracle} {c : Call} {r : Ret} (hr : s.running = some t)
      (hf : s.frame t = some (.call c r)) :
      Lockstep s a (.resume o) ⟨s.k, update s.frame t none, s.live⟩ a
  /-- A pass that was suspended goes on. -/
  | pass {t : TcbPtr} {o : Oracle} {f : TimerFrame} {k' : Kernel} {a' : Abs}
      {f' : Option TimerFrame} (hr : s.running = some t) (hf : s.frame t = some (.timer f))
      (hk : s.k.hardwareTimerResume f o = some (k', f'))
      (ha : a.hardwareTimerResume f o = some (a', f')) :
      Lockstep s a (.resume o) ⟨k', update s.frame t (f'.map .timer), s.live⟩ a'
  /-- The idle task starts. -/
  | start (hr : s.running = none) :
      Lockstep s a .start ⟨s.k.startWhichTask idleTcb, s.frame, s.live⟩ (a.startWhichTask idleTcb)

/-- A step in lockstep is a step of the system over the kernel. -/
theorem Lockstep.step (h : Lockstep s a act s' a') : s.step act = some s' := by
  cases h with
  | main hr hk _ => exact Sys.step_call_main hr hk
  | call hr hf hk _ _ => exact Sys.step_call hr hf hk
  | tick hr hf hk _ => exact Sys.step_tick hr hf hk
  | ret hr hf => exact Sys.step_resume_call hr hf
  | pass hr hf hk _ => exact Sys.step_resume_timer hr hf hk
  | start hr => exact Sys.step_start hr

/-- A step in lockstep is a step of the system over the abstract kernel. -/
theorem Lockstep.step_over (h : Lockstep s a act s' a') (hrun : s.running = a.newTask) :
    (s.over a).step act = some (s'.over a') := by
  have hrun' : (s.over a).running = s.running := hrun.symm
  cases h with
  | main hr _ ha => exact Sys.step_call_main (hrun'.trans hr) ha
  | @call t c k' _ r hr hf _ ha hnew =>
    have hsame : (s.over a).callFrame t c a' r = s.callFrame t c k' r := by
      show (if a'.newTask = some t then _ else _) = if k'.newTask = some t then _ else _
      rw [hnew]
      rfl
    rw [Sys.step_call (hrun'.trans hr) hf ha, hsame]
    rfl
  | tick hr hf _ ha => exact Sys.step_tick (hrun'.trans hr) hf ha
  | ret hr hf => exact Sys.step_resume_call (hrun'.trans hr) hf
  | pass hr hf _ ha => exact Sys.step_resume_timer (hrun'.trans hr) hf ha
  | start hr => exact Sys.step_start (hrun'.trans hr)

/-- What returns in a step in lockstep. -/
theorem Lockstep.returned_eq (h : Lockstep s a act s' a') (hrun : s.running = a.newTask) :
    returned (s.over a) act (s'.over a') = returned s act s' := by
  have hrun' : (s.over a).running = s.running := hrun.symm
  cases h with
  | main hr _ _ => rw [returned_main hr, returned_main (hrun'.trans hr)]
  | call hr hf hk ha _ =>
    rw [returned_call hr hk, returned_call (s := s.over a) (hrun'.trans hr) ha]
    rfl
  | tick | start => rfl
  | ret hr hf => rw [returned_ret hr hf, returned_ret (s := s.over a) (hrun'.trans hr) hf]
  | pass hr hf _ _ => rw [returned_pass hr hf, returned_pass (s := s.over a) (hrun'.trans hr) hf]

/-- The entries that a pass has ahead of it are those behind its cursor. -/
theorem Core.tickAhead_iff (h : Core hst s a) {e e' : TickPtr} :
    Machine.TickAhead s.k e e' ↔ e ∈ a.ticks ∧ e' ∈ Abs.after e a.ticks := by
  have hrep := h.sim.refines.rep_ticks
  have hn := h.sim.wf.ticks.nodup
  constructor
  · rintro ⟨xs, ys, hx, hm⟩
    have := hx.unique hrep
    obtain ⟨xs', l, hl, rfl, hl'⟩ := List.map_eq_append_iff.mp this.symm
    obtain ⟨e₁, ys', rfl, he₁, rfl⟩ := List.map_eq_cons_iff.mp hl'
    obtain rfl := Node.tick.inj he₁
    rw [Abs.after_eq hl hn]
    exact ⟨by simp [hl], by simpa using hm⟩
  · rintro ⟨he, he'⟩
    obtain ⟨pre, es, hl⟩ := List.append_of_mem he
    rw [Abs.after_eq hl hn] at he'
    exact ⟨pre.map .tick, es.map .tick, by simpa [hl] using hrep, List.mem_map_of_mem he'⟩

/-- What has been called, after one more action. -/
theorem hasCalledGet_cons {t : TcbPtr} {m : ℕ} {u : Option TcbPtr} :
    hasCalledGet t m ((u, act) :: hst) = true ↔
      (act = .call (.mutexGet (some m)) ∧ u = some t) ∨ hasCalledGet t m hst = true := by
  simp only [hasCalledGet, List.any_cons, Bool.or_eq_true]
  refine or_congr ?_ Iff.rfl
  split
  · next u' m' heq =>
    obtain ⟨rfl, rfl⟩ := Prod.mk.inj heq
    simp [and_comm]
  · next hne =>
    simp only [Bool.false_eq_true, false_iff]
    rintro ⟨rfl, rfl⟩
    exact hne _ _ rfl

/-- Any other action leaves what has been called. -/
theorem hasCalledGet_cons_of_ne (hst : Hist) (t : TcbPtr) {m : ℕ} (u : Option TcbPtr)
    (h : act ≠ .call (.mutexGet (some m))) :
    hasCalledGet t m ((u, act) :: hst) = hasCalledGet t m hst := by
  rw [Bool.eq_iff_iff, hasCalledGet_cons]
  simp [h]

/-- A call sets up what it says, and nothing else. -/
theorem setUp_of_ne {live : Node → Bool} {c : Call} {n : Node} (h : c.setsUp ≠ some n) :
    setUp live c n = live n := by
  unfold setUp
  cases hc : c.setsUp with
  | none => rfl
  | some n' => exact update_of_ne (fun e => h (by rw [hc, e])) _ _

/-- A mutex is set up by `mutex_init`. -/
theorem Call.eq_of_setsUp_mutex {c : Call} {m : ℕ} (h : c.setsUp = some (.mutex m)) :
    c = .mutexInit (some m) := by
  unfold Call.setsUp at h
  split at h
  · simp at h
  · simp at h
  · simpa using h
  · split_ifs at h
    simp at h
  · simp at h

/-- A task is set up by `task_create`. -/
theorem Call.eq_of_setsUp_tcb {c : Call} {t : TcbPtr} (h : c.setsUp = some (.tcb t)) :
    ∃ f st p, c = .taskCreate (some t) (some f) (some st) p := by
  unfold Call.setsUp at h
  split at h
  · next u f st p =>
    obtain rfl : u = t := by simpa using h
    exact ⟨f, st, p, rfl⟩
  all_goals simp at h

/-- What has been set up stays set up. -/
theorem setUp_mono {live : Node → Bool} {c : Call} {n : Node} (h : live n = true) :
    setUp live c n = true := by
  unfold setUp
  cases c.setsUp with
  | none => exact h
  | some n' => exact live_update live n' n h

/-- A call keeps the invariant of the mutexes. -/
theorem Core.mutex_call (h : Core hst s a) {c : Call} {t₀ : TcbPtr}
    (hnew : ∀ t', a.newTask = some t' → t' = t₀) (hu : CallUsage hst s s.running c)
    (hmain : s.running = none → c.IsSetUp = true) (hmutex : a'.mutex = (c.effect t₀ a).mutex)
    (m : ℕ) :
    (∀ t, hasCalledGet t m ((s.running, .call c) :: hst) = true →
      setUp s.live c (.mutex m) = true ∧ (a'.mutex m).copyPrio < SYSTEM_WORD) ∧
    (setUp s.live c (.mutex m) = true →
      (∀ t, hasCalledGet t m ((s.running, .call c) :: hst) = false) → (a'.mutex m).enable ≠ 0) := by
  rw [hmutex]
  by_cases hm : some m = c.mutexArg
  · match c with
    | .mutexInit (some i) =>
      -- A new mutex has not been asked for.
      obtain rfl : m = i := Option.some.inj hm
      have hno : ∀ t, hasCalledGet t m hst ≠ true := fun t ht => by
        have hlive : s.live (.mutex m) = false := hu
        simp [h.get_live t m ht] at hlive
      have hget := fun t => hasCalledGet_cons_of_ne hst t s.running
        (show Action.call (.mutexInit (some m)) ≠ .call (.mutexGet (some m)) by simp)
      refine ⟨fun t ht => absurd ((hget t) ▸ ht) (hno t), fun _ _ => ?_⟩
      rw [Call.effect_mutexInit]
      simp
    | .mutexGet (some i) =>
      obtain rfl : m = i := Option.some.inj hm
      have hlive : s.live (.mutex m) = true := hu
      cases hrun : a.newTask with
      | none => exact absurd (hmain (h.running_eq.trans hrun)) (by simp [Call.IsSetUp])
      | some t =>
        have hrun' := h.running_eq.trans hrun
        refine ⟨fun u _ => ⟨setUp_mono hlive, ?_⟩, fun _ hno => ?_⟩
        · by_cases hc : (a.mutex m).enable = 0
          · rw [Call.effect_mutexGet_wait hc]
            by_contra hge
            refine h.fresh m hlive (fun v => ?_) hc
            rw [Bool.eq_false_iff]
            exact fun hv => hge (h.copy_prio v m hv)
          · rw [Call.effect_mutexGet_take hc, ← hnew t hrun]
            have ht := h.sim.ready t hrun
            exact h.sim.wf.tasks.prio_lt t (h.sim.wf.tasks.live_of_mem _ t ht)
        · have := hasCalledGet_cons.mpr (Or.inl ⟨rfl, hrun'⟩ : _ ∨ hasCalledGet t m hst = true)
          simp [hno t] at this
    | .mutexPut (some i) =>
      obtain rfl : m = i := Option.some.inj hm
      obtain ⟨hlive, t, hrun, hget⟩ := hu
      rw [Call.effect_mutexPut]
      refine ⟨fun v hv => ⟨setUp_mono hlive, h.copy_prio t m hget⟩, fun _ _ => by simp⟩
  · -- The call is not about this mutex.
    rw [Call.effect_frame.mutex m hm]
    have hne : Action.call c ≠ .call (.mutexGet (some m)) := by
      rintro heq
      exact hm (by rw [Action.call.inj heq]; rfl)
    have hget := fun t => hasCalledGet_cons_of_ne hst t s.running hne
    have hset : setUp s.live c (.mutex m) = s.live (.mutex m) := by
      exact setUp_of_ne fun heq => hm (by rw [Call.eq_of_setsUp_mutex heq]; rfl)
    rw [hset]
    refine ⟨fun t ht => ?_, fun hlive hno => h.fresh m hlive fun t => (hget t) ▸ hno t⟩
    rw [hget t] at ht
    exact ⟨h.get_live t m ht, h.copy_prio t m ht⟩

/-- The entries that are queued stay queued over a call, with their periods. -/
theorem Core.ticks_call (h : Core hst s a) {c : Call} {t₀ : TcbPtr}
    (hu : CallUsage hst s s.running c) (hframe : c.Frame t₀ a a') {n : ℕ}
    (hn : .timer n ∈ a.ticks) :
    .timer n ∈ a'.ticks ∧ a'.tick (.timer n) = a.tick (.timer n) := by
  refine ⟨by rw [hframe.ticks]; exact List.mem_append_left _ hn, hframe.tick _ fun heq => ?_⟩
  cases c with
  | osDelay => simp [Call.queues] at heq
  | timerReq timer func timeout period arg =>
    obtain _ | e := timer
    · cases func <;> simp [Call.queues] at heq
    obtain _ | f := func
    · simp [Call.queues] at heq
    have he : e = .timer n := by
      simp only [Call.queues] at heq
      split_ifs at heq
      exact (Option.some.inj heq).symm
    exact hu.2 ((h.sim.refines.queued_tick_iff e).mpr (he ▸ hn))
  | _ => simp [Call.queues] at heq

/-- A call keeps the invariant, up to its `schedule` and up to its return, whatever becomes of the
caller's frame. -/
theorem Core.within_call (h : Core hst s a) {c : Call} {t₀ : TcbPtr} {k' : Kernel}
    {frame : TcbPtr → Option Frame} (hnew : ∀ t', a.newTask = some t' → t' = t₀)
    (hu : CallUsage hst s s.running c) (hmain : s.running = none → c.IsSetUp = true)
    (htidy : Tidy (setUp s.live c) k' a') (hmutex : a'.mutex = (c.effect t₀ a).mutex)
    (hframe : c.Frame t₀ a a')
    (hpass : ∀ t f, frame t = some (.timer f) → s.frame t = some (.timer f)) :
    Within ((s.running, .call c) :: hst) ⟨k', frame, setUp s.live c⟩ a' := by
  have hmutex := h.mutex_call hnew hu hmain hmutex
  refine ⟨htidy, fun t m hget => ((hmutex m).1 t hget).1, fun t m hget => ((hmutex m).1 t hget).2,
    fun m => (hmutex m).2, fun t f ht => ?_, fun t u f g ht hu' heq => ?_⟩
  · obtain ⟨⟨n, hn⟩, hmem, hputs⟩ := h.timer t f (hpass t f ht)
    rw [hn] at hmem ⊢
    exact ⟨⟨n, rfl⟩, (h.ticks_call hu hframe hmem).1, fun i hi => setUp_mono (hputs i hi)⟩
  · obtain ⟨⟨n, hn⟩, hmem, -⟩ := h.timer t f (hpass t f ht)
    rw [hn] at hmem
    refine (h.apart t u f g (hpass t f ht) (hpass u g hu') heq).imp_right fun hcycle => ?_
    rw [hn, (h.ticks_call hu hframe hmem).2, ← hn, hcycle]

/-- A call, in lockstep. -/
theorem Core.call (h : Core hst s a) {c : Call} (hu : Usage hst s (.call c))
    (hfree : ∀ t, s.running = some t → s.frame t = none) :
    ∃ s' a', Lockstep s a (.call c) s' a' ∧ Core ((s.running, .call c) :: hst) s' a' := by
  obtain ⟨husage, hmain, hidle⟩ := hu
  obtain ⟨k', a', r, ek, ea, hsim⟩ := exec_sim h.sim husage hmain hidle h.copy_prio
  obtain ⟨t₀, hnew⟩ := a.exists_caller
  have hcore : ∀ frame : TcbPtr → Option Frame,
      (∀ t f, frame t = some (.timer f) → s.frame t = some (.timer f)) →
        Core ((s.running, .call c) :: hst) ⟨k', frame, setUp s.live c⟩ a' := fun frame hframe =>
    (h.within_call hnew husage hmain hsim.tidy (Abs.exec_effect hnew ea).mutex
      (Abs.exec_frame hnew ea) hframe).core hsim.ready
  cases hr : s.running with
  | none => exact ⟨_, a', .main hr ek ea, hr ▸ hcore s.frame fun _ _ => id⟩
  | some t =>
    refine ⟨_, a', .call hr (hfree t hr) ek ea hsim.refines.newTask_eq,
      hr ▸ hcore _ fun u f hu => ?_⟩
    unfold Sys.callFrame at hu
    split_ifs at hu
    · exact hu
    · rcases eq_or_ne u t with rfl | hne
      · simp at hu
      · simpa [hne] using hu

/-- A pass over entries at which no other pass is suspended, unless their period is `CYCLE`, keeps
the invariant. -/
theorem Within.passed (h : Within hst s a) {es : List TickPtr} {k' : Kernel}
    {f : Option TimerFrame} {t : TcbPtr} {u : Option TcbPtr} {n : ℕ} (htidy : Tidy s.live k' a')
    (hact : ∀ m, act ≠ .call (.mutexGet (some m)))
    (hpass : ({ a with fosTick := n } : Abs).PassFrom es a')
    (hat : ∀ g, f = some g → g.entry ∈ es ∧ (∃ n, g.entry = .timer n) ∧ g.entry ∈ a'.ticks ∧
      ∀ i ∈ g.puts, s.live (.sem i) = true)
    (hothers : ∀ v g, v ≠ t → s.frame v = some (.timer g) → g.entry ∈ es →
      (a.tick g.entry).period = CYCLE) :
    Within ((u, act) :: hst) ⟨k', update s.frame t (f.map .timer), s.live⟩ a' := by
  have hget := fun v m => hasCalledGet_cons_of_ne hst v u (hact m)
  have hmutex : a'.mutex = a.mutex := by rw [hpass.vars]
  -- The pass of the running task, and those of the others.
  have hself : ∀ g, update s.frame t (f.map .timer) t = some (.timer g) → f = some g := by
    intro g hg
    rw [update_self] at hg
    obtain ⟨g', hg', heq⟩ := Option.map_eq_some_iff.mp hg
    rw [hg', Frame.timer.inj heq]
  have hother : ∀ v g, v ≠ t → update s.frame t (f.map .timer) v = some (.timer g) →
      s.frame v = some (.timer g) := fun v g hv hg => by rwa [update_of_ne hv] at hg
  refine ⟨htidy, fun v m hv => h.get_live v m (hget v m ▸ hv), fun v m hv => ?_, fun m hm hno => ?_,
    fun v g hg => ?_, fun v w g g' hg hg' heq => ?_⟩
  · rw [hmutex]
    exact h.copy_prio v m (hget v m ▸ hv)
  · rw [hmutex]
    exact h.fresh m hm fun v => hget v m ▸ hno v
  · rcases eq_or_ne v t with rfl | hv
    · obtain ⟨-, hn, hmem, hputs⟩ := hat g (hself g hg)
      exact ⟨hn, hmem, hputs⟩
    · obtain ⟨⟨n, hn⟩, hmem, hputs⟩ := h.timer v g (hother v g hv hg)
      refine ⟨⟨n, hn⟩, ?_, hputs⟩
      by_cases hes : g.entry ∈ es
      · have hcycle := hothers v g hv (hother v g hv hg) hes
        rw [hn] at hmem hcycle ⊢
        exact hpass.mem_of_cycle n hmem hcycle
      · exact hpass.mem_of_not_mem _ hmem hes
  · rw [hpass.period]
    rcases eq_or_ne v t with rfl | hv
    · rcases eq_or_ne w v with rfl | hw
      · exact Or.inl rfl
      · have hes := (hat g (hself g hg)).1
        rw [heq] at hes ⊢
        exact Or.inr (hothers w g' hw (hother w g' hw hg') hes)
    · rcases eq_or_ne w t with rfl | hw
      · have hes := (hat g' (hself g' hg')).1
        rw [← heq] at hes
        exact Or.inr (hothers v g hv (hother v g hv hg) hes)
      · exact h.apart v w g g' (hother v g hv hg) (hother w g' hw hg') heq

/-- An entry of the tick queue that is a software timer is one of the application. -/
theorem WF.timer_of_style {live : Node → Bool} (w : WF live a) {e : TickPtr} (he : e ∈ a.ticks)
    (hstyle : (a.tick e).style = .softwareTimer) : ∃ n, e = .timer n := by
  cases e with
  | delay t => simp [(w.ticks.delay t he).2.2] at hstyle
  | timer n => exact ⟨n, rfl⟩
  | tickQueue => exact absurd he w.ticks.head

/-- What `schedule` does after a pass is not to the tick queue. -/
theorem Abs.passFrom_tickEnd {b : Abs} {es : List TickPtr} {f f' : Option TimerFrame}
    (h : a.PassFrom es b) (he : Abs.tickEnd (b, f) = some (a', f')) : a.PassFrom es a' ∧ f' = f ∧
      a'.ticks = b.ticks := by
  cases f with
  | some g =>
    obtain ⟨rfl, rfl⟩ := Prod.mk.inj (Option.some.inj he)
    exact ⟨h, rfl, rfl⟩
  | none =>
    obtain ⟨b', hb', heq⟩ := Option.map_eq_some_iff.mp he
    obtain ⟨rfl, rfl⟩ := Prod.mk.inj heq
    obtain ⟨p, u, ts, -, rfl⟩ := Abs.schedule_inv hb'
    exact ⟨h.trans (.of_putFrom es ⟨by simp [Abs.select_vars], by simp, by simp⟩), rfl, by simp⟩

/-- The pass of a new `hardware_timer`. -/
theorem WF.passFrom_hardwareTimer {live : Node → Bool} (w : WF live a) {o : Oracle}
    {f : Option TimerFrame} (h : a.hardwareTimer o = some (a', f)) :
    ({ a with fosTick := a.fosTick + 1 } : Abs).PassFrom a.ticks a' ∧ ∀ g, f = some g →
      g.entry ∈ a.ticks ∧ (∃ n, g.entry = .timer n) ∧ g.entry ∈ a'.ticks ∧
        ∀ i ∈ g.puts, i ∈ o g.entry := by
  obtain ⟨⟨b, g⟩, hpass, hend⟩ := Option.bind_eq_some_iff.mp h
  have hpass : Abs.pass o _ a.ticks _ = some (b, g) := hpass
  obtain ⟨hes, hat⟩ := Abs.passFrom_pass w.ticks.nodup
    (fun n hn => by exact (w.ticks.timer n hn).1) hpass
  obtain ⟨hall, rfl, hticks⟩ := Abs.passFrom_tickEnd ((Abs.PassFrom.note _ _ _).trans hes) hend
  refine ⟨hall, fun g hg => ?_⟩
  have hg := hat g hg
  exact ⟨hg.mem, w.timer_of_style hg.mem hg.style, hticks ▸ hg.queued hg.mem, hg.puts⟩

/-- The pass of a new `hardware_timer` whose callbacks are passive. -/
theorem WF.passed_hardwareTimer {live : Node → Bool} (w : WF live a) {f : Option TimerFrame}
    (h : a.hardwareTimer passive = some (a', f)) : f = none ∧ ∃ b : Abs,
      (Abs.note { a with fosTick := a.fosTick + 1 } (.start (a.fosTick + 1))).Passed a.ticks b ∧
        b.schedule = some a' := by
  obtain ⟨⟨b, g⟩, hpass, hend⟩ := Option.bind_eq_some_iff.mp h
  have hn := w.ticks.nodup
  have hpass : Abs.pass passive _ a.ticks _ = some (b, g) := hpass
  obtain ⟨rfl, hb⟩ := Abs.passed_pass hn (by exact hn) hpass
  obtain ⟨b', hb', heq⟩ := Option.map_eq_some_iff.mp hend
  obtain ⟨rfl, rfl⟩ := Prod.mk.inj heq
  exact ⟨rfl, b, hb, hb'⟩

/-- The rest of the pass of a suspended `hardware_timer`. -/
theorem WF.passFrom_hardwareTimerResume {live : Node → Bool} (w : WF live a) {o : Oracle}
    {f : TimerFrame} {f' : Option TimerFrame} (hf : ∃ n, f.entry = .timer n)
    (hmem : f.entry ∈ a.ticks) (h : a.hardwareTimerResume f o = some (a', f')) :
    a.PassFrom (f.entry :: Abs.after f.entry a.ticks) a' ∧ ∀ g, f' = some g →
      g.entry ∈ f.entry :: Abs.after f.entry a.ticks ∧ (∃ n, g.entry = .timer n) ∧
        g.entry ∈ a'.ticks ∧ ∀ i ∈ g.puts, i ∈ f.puts ∨ i ∈ o g.entry := by
  obtain ⟨⟨b, rest⟩, hrun, h⟩ := Option.bind_eq_some_iff.mp h
  obtain ⟨hput, hputs⟩ := Abs.putFrom_runCallback hrun
  obtain ⟨pre, es, hl⟩ := List.append_of_mem hmem
  have hafter := Abs.after_eq hl w.ticks.nodup
  cases rest with
  | some puts =>
    -- The callback has been switched out again.
    obtain ⟨rfl, rfl⟩ := Prod.mk.inj (Option.some.inj h)
    refine ⟨.of_putFrom _ hput, fun g hg => ?_⟩
    obtain rfl := Option.some.inj hg
    exact ⟨by simp, hf, by rwa [hput.ticks], fun i hi => Or.inl (hputs puts rfl i hi)⟩
  | none =>
    obtain ⟨⟨c, g⟩, hpass, hend⟩ := Option.bind_eq_some_iff.mp h
    have hb := hput.ticks
    rw [hb] at hpass
    have hcall := b.passFrom_afterCallback (e := f.entry) (List.mem_singleton.mpr rfl)
    have hn : (f.entry :: es).Nodup := by
      have := w.ticks.nodup
      rw [hl] at this
      exact this.sublist (List.sublist_append_right _ _)
    rw [hafter] at hpass ⊢
    obtain ⟨hes, hat⟩ := Abs.passFrom_pass (List.nodup_cons.mp hn).2 (fun n hn => by
      rw [hcall.style, hput.tick]
      exact (w.ticks.timer n (hl ▸ by simp [hn])).1) hpass
    have hall : a.PassFrom (f.entry :: es) c :=
      (Abs.PassFrom.of_putFrom _ hput).trans ((hcall.mono (by simp)).trans
        (hes.mono fun _ => List.mem_cons_of_mem _))
    obtain ⟨hend', rfl, hticks⟩ := Abs.passFrom_tickEnd hall hend
    refine ⟨hend', fun g hg => ?_⟩
    have hg := hat g hg
    have hga : g.entry ∈ a.ticks := hl ▸ by simp [hg.mem]
    have hgb : g.entry ∈ (b.afterCallback f.entry).ticks := by
      refine hcall.mem_of_not_mem _ (hb ▸ hga) fun heq => ?_
      exact (List.nodup_cons.mp hn).1 (List.mem_singleton.mp heq ▸ hg.mem)
    refine ⟨List.mem_cons_of_mem _ hg.mem, w.timer_of_style hga ?_, hticks ▸ hg.queued hgb,
      fun i hi => Or.inr (hg.puts i hi)⟩
    rw [← hput.tick, ← hcall.style, hg.style]

/-- A tick, which may come into a call. -/
theorem Within.tick (h : Within hst s a) {o : Oracle} (t : TcbPtr) (u : Option TcbPtr)
    (ho : CallbackUsage s (.tick o)) (hd : Undisturbed s (.tick o)) :
    ∃ k' a' f, s.k.hardwareTimer o = some (k', f) ∧ a.hardwareTimer o = some (a', f) ∧
      Core ((u, .tick o) :: hst) ⟨k', update s.frame t (f.map .timer), s.live⟩ a' := by
  obtain ⟨k', a', f, ek, ea, hsim⟩ := h.tidy.hardwareTimer o ho
  refine ⟨k', a', f, ek, ea, Within.core ?_ hsim.ready⟩
  obtain ⟨hpass, hat⟩ := h.tidy.wf.passFrom_hardwareTimer ea
  refine h.passed hsim.tidy (by simp) hpass (fun g hg => ?_) fun v g _ hg _ => ?_
  · obtain ⟨hmem, hn, hmem', hputs⟩ := hat g hg
    exact ⟨hmem, hn, hmem', fun i hi => ho _ i (hputs i hi)⟩
  · rw [← h.tidy.refines.tick_eq]
    exact hd v g hg

/-- A tick, in lockstep. -/
theorem Core.tick (h : Core hst s a) {o : Oracle} {t : TcbPtr} (hr : s.running = some t)
    (hf : s.frame t = none) (ho : CallbackUsage s (.tick o)) (hd : Undisturbed s (.tick o)) :
    ∃ s' a', Lockstep s a (.tick o) s' a' ∧ Core ((s.running, .tick o) :: hst) s' a' := by
  obtain ⟨k', a', f, ek, ea, hcore⟩ := h.within.tick t s.running ho hd
  exact ⟨_, a', .tick hr hf ek ea, hcore⟩

/-- A task that goes on inside the call that it was switched out in, in lockstep. -/
theorem Core.resume (h : Core hst s a) {o : Oracle} {t : TcbPtr} {f : Frame}
    (hr : s.running = some t) (hf : s.frame t = some f) (ho : CallbackUsage s (.resume o))
    (hd : Undisturbed s (.resume o)) :
    ∃ s' a', Lockstep s a (.resume o) s' a' ∧ Core ((s.running, .resume o) :: hst) s' a' := by
  cases f with
  | call c ret =>
    refine ⟨_, a, .ret hr hf, ?_⟩
    exact (h.within.passed (n := a.fosTick) (f := none) h.sim.tidy (by simp) (.refl [] a) (by simp)
      (by simp)).core h.sim.ready
  | timer f =>
    obtain ⟨hn, hmem, hputs⟩ := h.timer t f hf
    obtain ⟨k', a', f', ek, ea, hsim⟩ := h.sim.hardwareTimerResume hn.choose_spec hmem hputs o ho
    refine ⟨_, a', .pass hr hf ek ea, ?_⟩
    obtain ⟨hpass, hat⟩ := h.sim.wf.passFrom_hardwareTimerResume hn hmem ea
    refine (h.within.passed (n := a.fosTick) hsim.tidy (by simp) hpass (fun g hg => ?_)
      fun v g hv hg hes => ?_).core hsim.ready
    · obtain ⟨hes, hn', hmem', hputs'⟩ := hat g hg
      exact ⟨hes, hn', hmem', fun i hi => (hputs' i hi).elim (hputs i) (ho _ i)⟩
    · rcases List.mem_cons.mp hes with heq | hes
      · -- Another pass is suspended at the same timer.
        exact (h.apart v t g f hg hf heq).resolve_left hv
      · rw [← h.sim.refines.tick_eq]
        exact hd t f v g hr hf hv hg (h.tickAhead_iff.mpr ⟨hmem, hes⟩)

/-- The start of the idle task, in lockstep. -/
theorem Core.start (h : Core hst s a) (hr : s.running = none) :
    ∃ s' a', Lockstep s a .start s' a' ∧ Core ((s.running, .start) :: hst) s' a' := by
  refine ⟨_, a.startWhichTask idleTcb, .start hr, ?_⟩
  have hsim : Sim s.live (s.k.startWhichTask idleTcb) (a.startWhichTask idleTcb) := by
    obtain ⟨href, w, -⟩ := h.sim
    refine ⟨href.congr (by simp only [Kernel.startWhichTask, Abs.startWhichTask, href.vars]) rfl rfl
      rfl rfl, w.moved w.tasks rfl rfl rfl rfl rfl, fun t ht => ?_⟩
    obtain rfl : idleTcb = t := Option.some.inj ht
    have hidle := w.tasks.idle
    rw [← w.tasks.ready_prio 31 _ hidle] at hidle
    exact hidle
  have hget := fun t m => hasCalledGet_cons_of_ne hst t s.running
    (show Action.start ≠ .call (.mutexGet (some m)) by simp)
  exact ⟨hsim, fun t m hm => h.get_live t m (hget t m ▸ hm),
    fun t m hm => h.copy_prio t m (hget t m ▸ hm),
    fun m hm hno => h.fresh m hm fun t => hget t m ▸ hno t, h.timer, h.apart⟩

/-- The caller is not inside a call, or it goes on inside one. -/
def Sys.Enabled {κ : Type} [Machine κ] (s : Sys κ) : Action → Prop
  | .call _ => ∀ t, s.running = some t → s.frame t = none
  | .tick _ => ∃ t, s.running = some t ∧ s.frame t = none
  | .resume _ => ∃ t f, s.running = some t ∧ s.frame t = some f
  | .start => s.running = none

/-- A step is taken only by a caller that can take it. -/
theorem Sys.enabled_of_step {κ : Type} [Machine κ] {s s' : Sys κ} (h : s.step act = some s') :
    s.Enabled act := by
  cases act with
  | call c =>
    intro t hr
    by_contra hf
    obtain ⟨f, hf⟩ := Option.ne_none_iff_exists'.mp hf
    simp [Sys.step, hr, hf] at h
  | tick o =>
    cases hr : s.running with
    | none => simp [Sys.step, hr] at h
    | some t =>
      cases hf : s.frame t with
      | none => exact ⟨t, hr, hf⟩
      | some f => simp [Sys.step, hr, hf] at h
  | resume o =>
    cases hr : s.running with
    | none => simp [Sys.step, hr] at h
    | some t =>
      cases hf : s.frame t with
      | none => simp [Sys.step, hr, hf] at h
      | some f => exact ⟨t, f, hr, hf⟩
  | start =>
    cases hr : s.running with
    | none => exact hr
    | some t => simp [Sys.step, hr] at h

/-- A step as the kernel is meant to be used, which disturbs no suspended pass. -/
structure Orderly {κ : Type} [Machine κ] (hst : Hist) (s : Sys κ) (act : Action) : Prop where
  usage : Usage hst s act
  callbacks : CallbackUsage s act
  undisturbed : Undisturbed s act

/-- A caller that can take a step over the abstract kernel can take it over the kernel. -/
theorem Core.enabled_of_step_over {sA : Sys Abs} (h : Core hst s a)
    (hs : (s.over a).step act = some sA) : s.Enabled act := by
  have henabled := Sys.enabled_of_step hs
  have hrun : (s.over a).running = s.running := h.running_eq.symm
  cases act with
  | call c => exact fun t hr => henabled t (hrun.trans hr)
  | tick o => exact henabled.imp fun t ht => ⟨hrun.symm.trans ht.1, ht.2⟩
  | resume o => exact henabled.imp fun t ⟨f, hr, hf⟩ => ⟨f, hrun.symm.trans hr, hf⟩
  | start => exact hrun.symm.trans henabled

/-- While callbacks are passive and no pass is suspended, none is disturbed. -/
theorem Orderly.of_passive (hu : Usage hst s act) (hp : Passive act)
    (hno : ∀ t f, s.frame t ≠ some (.timer f)) : Orderly hst s act := by
  refine ⟨hu, ?_, ?_⟩
  · cases act with
    | tick o | resume o =>
      obtain rfl : o = passive := hp
      simp [CallbackUsage, passive]
    | call | start => trivial
  · cases act with
    | tick o => exact fun u g hg => absurd hg (hno u g)
    | resume o => exact fun t f u g _ ht => absurd ht (hno t f)
    | call | start => trivial

/-- One step, in lockstep: it is taken whenever its caller can take it. -/
theorem Core.step (h : Core hst s a) (ho : Orderly hst s act) (he : s.Enabled act) :
    ∃ s' a', Lockstep s a act s' a' ∧ Core ((s.running, act) :: hst) s' a' := by
  cases act with
  | call c => exact h.call ho.usage he
  | tick o =>
    obtain ⟨t, hr, hf⟩ := he
    exact h.tick hr hf ho.callbacks ho.undisturbed
  | resume o =>
    obtain ⟨t, f, hr, hf⟩ := he
    exact h.resume hr hf ho.callbacks ho.undisturbed
  | start => exact h.start he

/-- The invariant holds at the start. -/
theorem Core.zeroed {k : Kernel} (hz : k.Zeroed) (hk : k.systemInit = some s.k)
    (hframe : ∀ t, s.frame t = none) (hlive : s.live = liveInit) :
    Core [] s (Abs.systemInit k.toVars) := by
  obtain ⟨k', ek, hsim⟩ := systemInit_sim hz
  obtain rfl := Option.some.inj (hk.symm.trans ek)
  refine ⟨hlive ▸ hsim, by simp [hasCalledGet], by simp [hasCalledGet], fun m hm => ?_,
    by simp [hframe], by simp [hframe]⟩
  simp [hlive, liveInit] at hm

/-- A step of the kernel is one in lockstep. -/
theorem Core.lockstep (h : Core hst s a) (ho : Orderly hst s act) (hs : s.step act = some s') :
    ∃ a', Lockstep s a act s' a' ∧ Core ((s.running, act) :: hst) s' a' := by
  obtain ⟨s₁, a', hlock, hcore⟩ := h.step ho (Sys.enabled_of_step hs)
  obtain rfl := Option.some.inj (hs.symm.trans hlock.step)
  exact ⟨a', hlock, hcore⟩

/-! ## Runs -/

section Runs

variable {guard : Trace Kernel → Sys Kernel → Action → Prop} {tr : Trace Kernel}

/-- What holds at the start and is kept by every step in lockstep holds at the end of every run. -/
theorem SysRun.invariant {P : Trace Kernel → Sys Kernel → Abs → Prop} (h : SysRun guard tr s)
    (hguard : ∀ tr s act, guard tr s act → Orderly (hist tr) s act)
    (h0 : ∀ s (k : Kernel), Init s → k.Zeroed → Core [] s (Abs.systemInit k.toVars) →
      P [] s (Abs.systemInit k.toVars))
    (hstep : ∀ tr s a act s' a', SysRun guard tr s → Core (hist tr) s a → P tr s a →
      guard tr s act → Lockstep s a act s' a' → Core (hist ((s, act) :: tr)) s' a' →
        P ((s, act) :: tr) s' a') :
    ∃ a, Core (hist tr) s a ∧ P tr s a := by
  refine Runs.Run.invariant (I := fun tr s => ∃ a, Core (hist tr) s a ∧ P tr s a) h ?_ ?_
  · rintro s ⟨⟨k, hz, hk⟩, hframe, hlive⟩
    have hcore := Core.zeroed hz hk hframe hlive
    exact ⟨_, hcore, h0 s k ⟨⟨k, hz, hk⟩, hframe, hlive⟩ hz hcore⟩
  · rintro tr s act s' hrun ⟨a, hcore, hp⟩ hg hs
    obtain ⟨a', hlock, hcore'⟩ := hcore.lockstep (hguard tr s act hg) hs
    exact ⟨a', hcore', hstep tr s a act s' a' hrun hcore hp hg hlock hcore'⟩

/-- The invariant of the system holds in every state of every run. -/
theorem SysRun.core (h : SysRun guard tr s)
    (hguard : ∀ tr s act, guard tr s act → Orderly (hist tr) s act) : ∃ a, Core (hist tr) s a := by
  obtain ⟨a, hcore, -⟩ := h.invariant (P := fun _ _ _ => True) hguard (by simp) (by simp)
  exact ⟨a, hcore⟩

/-- While callbacks are passive, no pass is suspended. -/
theorem Lockstep.noTimerFrame (h : Lockstep s a act s' a') (hcore : Core hst s a)
    (hp : Passive act) (hno : ∀ t f, s.frame t ≠ some (.timer f)) :
    ∀ t f, s'.frame t ≠ some (.timer f) := by
  cases h with
  | main | start => exact hno
  | @call t c k' _ r =>
    intro u f
    -- The frame of a call is none of a pass.
    show s.callFrame t c k' r u ≠ _
    unfold Sys.callFrame
    split_ifs
    · exact hno u f
    · rcases eq_or_ne u t with rfl | hne
      · simp
      · simpa [hne] using hno u f
  | @tick t o k' _ f _ _ _ ha =>
    -- A passive callback is not switched out, so that the pass ends in the tick.
    obtain rfl : o = passive := hp
    obtain ⟨rfl, -⟩ := hcore.sim.wf.passed_hardwareTimer ha
    intro u f
    rcases eq_or_ne u t with rfl | hne
    · simp
    · simpa [hne] using hno u f
  | @ret t =>
    intro u f
    rcases eq_or_ne u t with rfl | hne
    · simp
    · simpa [hne] using hno u f
  | @pass t o f _ _ _ _ hf => exact absurd hf (hno t f)

/-- A run whose callbacks are passive disturbs no suspended pass, since there is none. -/
theorem SysRun.orderly (h : SysRun guard tr s)
    (hguard : ∀ tr s act, guard tr s act → Usage (hist tr) s act ∧ Passive act) :
    SysRun (fun tr s act => guard tr s act ∧ Orderly (hist tr) s act) tr s ∧
      ∀ t f, s.frame t ≠ some (.timer f) := by
  induction h with
  | nil hinit => exact ⟨.nil hinit, fun t f => by simp [hinit.2.1 t]⟩
  | @cons tr s s' act _ hg hs ih =>
    obtain ⟨hrun, hno⟩ := ih
    obtain ⟨husage, hpassive⟩ := hguard _ _ _ hg
    have ho : Orderly (hist tr) s act := .of_passive husage hpassive hno
    obtain ⟨a, hcore⟩ := hrun.core fun _ _ _ h => h.2
    obtain ⟨a', hlock, -⟩ := hcore.lockstep ho hs
    exact ⟨.cons hrun ⟨hg, ho⟩ hs, hlock.noTimerFrame hcore hpassive hno⟩

/-- A step that goes on from a run whose callbacks are passive is one in lockstep. -/
theorem SysRun.lockstep (h : SysRun guard tr s)
    (hguard : ∀ tr s act, guard tr s act → Usage (hist tr) s act ∧ Passive act)
    (hg : guard tr s act) (hs : s.step act = some s') (hcore : Core (hist tr) s a) :
    ∃ a', Lockstep s a act s' a' ∧ Core (hist ((s, act) :: tr)) s' a' := by
  obtain ⟨husage, hpassive⟩ := hguard _ _ _ hg
  exact hcore.lockstep (.of_passive husage hpassive (h.orderly hguard).2) hs

end Runs

end Fos
