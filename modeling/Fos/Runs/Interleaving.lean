import Fos.Runs.Lost

/-!
# Runs in which ticks come into calls

In the system of `System.lean` a call is one step, and ticks come between the calls. Here ticks come
into calls as well (`Interleaved.step`): while a call writes what it sets up, or behind its changes
and ahead of its `schedule`, which the caller makes when it goes on. With the points before a call
and behind it these are all at which the code has interrupts enabled, except inside the changes that
`task_create` and `task_prio_change` make to the ready lists (`Core.whole_of_atPoint`).

A call that is interrupted before its changes is made as a whole when the caller goes on. Only
`msg_put` has read anything by then, whether the queue has more messages than it has room for, which
is never so.

The invariant holds in every state of these runs too (`InterleavedRun.core`), so that a tick is safe
at every point of every call that is not torn there (`tick_at_any_point`).
-/

namespace Fos

open Links Function Interrupts

variable {k k₁ k₂ x : Kernel} {a : Abs} {hst : Hist} {s : Sys Kernel} {t u : TcbPtr} {o : Oracle}
  {c : Call} {p : ℕ}

/-! ## The system -/

/-- The system, and which tasks have been interrupted ahead of the `schedule` of a call. -/
structure Interleaved where
  sys : Sys Kernel
  left : TcbPtr → Bool

/-- What the system does next. -/
inductive Slice where
  /-- A call, or a step between calls. -/
  | act (act : Action)
  /-- A tick while the call writes what it sets up, and the kernel is `x`. What is left of the call
  writes what the whole call does, and is a call that comes later. -/
  | settingUp (c : Call) (x : Kernel) (o : Oracle)
  /-- A call, up to its `schedule`, and a tick there, also where the code has interrupts masked. -/
  | ahead (c : Call) (o : Oracle)
  /-- The `schedule` that is left of such a call. -/
  | rest

namespace Interleaved

/-- The running task has a `schedule` left, and makes no other call before. -/
def owes (s : Interleaved) : Bool := s.sys.running.any s.left

/-- One step. -/
def step (s : Interleaved) : Slice → Option Interleaved
  | .act (.call c) => if s.owes then none else (s.sys.step (.call c)).map (⟨·, s.left⟩)
  | .act act => (s.sys.step act).map (⟨·, s.left⟩)
  | .settingUp _ x o =>
    if s.owes then none
    else (Sys.step ⟨x, s.sys.frame, s.sys.live⟩ (.tick o)).map (⟨·, s.left⟩)
  | .ahead c o =>
    match s.sys.running, s.sys.k.beforeSchedule c with
    | some t, some (k, _, true) =>
      if s.owes then none
      else (Sys.step ⟨k, s.sys.frame, setUp s.sys.live c⟩ (.tick o)).map (⟨·, update s.left t true⟩)
    | _, _ => none
  | .rest =>
    match s.sys.running with
    | some t =>
      if s.owes then (s.sys.step (.call .schedule)).map (⟨·, update s.left t false⟩) else none
    | none => none

/-- What happens in a step, the latest first. -/
def happens (s : Interleaved) : Slice → Hist
  | .act act => [(s.sys.running, act)]
  | .settingUp _ _ o => [(s.sys.running, .tick o)]
  | .ahead c o => [(s.sys.running, .tick o), (s.sys.running, .call c)]
  | .rest => [(s.sys.running, .call .schedule)]

/-- The kernel is used as it is meant to be, and no tick disturbs a suspended pass. -/
def Fits (hst : Hist) (s : Interleaved) : Slice → Prop
  | .act act => Orderly hst s.sys act
  | .settingUp c x o =>
    Usage hst s.sys (.call c) ∧ SettingUp s.sys.k c x ∧ Orderly hst s.sys (.tick o)
  | .ahead c o => Usage hst s.sys (.call c) ∧ Orderly hst s.sys (.tick o)
  | .rest => True

end Interleaved

/-- The history of a run in which ticks come into calls. -/
def past (tr : List (Interleaved × Slice)) : Hist := tr.flatMap fun e => e.1.happens e.2

/-- The runs in which ticks come into calls. -/
abbrev InterleavedRun := Runs.Run (fun s : Interleaved => Init s.sys ∧ ∀ t, s.left t = false)
  Interleaved.step fun tr s e => s.Fits (past tr) e

/-! ## The invariant -/

/-- A tick into a call disturbs no suspended pass if one before the call disturbs none. -/
theorem Core.undisturbed_effect (h : Core hst s a) (hu : Usage hst s (.call c))
    (hk : Refines (setUp s.live c) k (c.effect t a)) (hd : Undisturbed s (.tick o)) :
    Undisturbed ⟨k, s.frame, setUp s.live c⟩ (.tick o) := by
  intro v g hg
  obtain ⟨⟨n, hn⟩, hmem, -⟩ := h.timer v g hg
  rw [hn] at hmem
  have hperiod := hd v g hg
  show (k.tick g.entry).period = CYCLE
  rw [hk.tick_eq, hn, (h.ticks_call hu.1 Call.effect_frame hmem).2, ← hn,
    ← h.sim.refines.tick_eq]
  exact hperiod

/-- A tick between the changes of a call and its `schedule` keeps the invariant. -/
theorem Core.ahead {r : Ret} (h : Core hst s a) (hr : s.running = some t) (hf : s.frame t = none)
    (hu : Usage hst s (.call c)) (ho : Orderly hst s (.tick o))
    (hk : s.k.beforeSchedule c = some (k, r, true)) : ∃ k' a' f,
    Sys.step ⟨k, s.frame, setUp s.live c⟩ (.tick o) =
      some ⟨k', update s.frame t (f.map .timer), setUp s.live c⟩ ∧
    (c.effect t a).hardwareTimer o = some (a', f) ∧
    Core ((some t, .tick o) :: (some t, .call c) :: hst)
      ⟨k', update s.frame t (f.map .timer), setUp s.live c⟩ a' := by
  obtain ⟨k₁, r₁, b, hbefore, hwithin⟩ := h.effect hu (h.eq_caller hr)
  obtain ⟨rfl, rfl, rfl⟩ : k = k₁ ∧ r = r₁ ∧ true = b := by
    simpa using hk.symm.trans hbefore
  have hsel := Kernel.newTask_of_selection (Kernel.beforeSchedule_selection hbefore)
  obtain ⟨k', a', f, ek, ea, hcore⟩ := hwithin.tick t (some t)
    (fun e i hi => setUp_mono (ho.callbacks e i hi))
    (h.undisturbed_effect hu hwithin.tidy.refines ho.undisturbed)
  exact ⟨k', a', f, Sys.step_tick (hsel.trans hr) hf ek, ea, hr ▸ hcore⟩

/-- A tick while a call writes what it sets up keeps the invariant. -/
theorem Core.tick_settingUp (h : Core hst s a) (hu : Usage hst s (.call c))
    (hx : SettingUp s.k c x) (ho : Orderly hst s (.tick o)) {s' : Sys Kernel}
    (hs : Sys.step ⟨x, s.frame, s.live⟩ (.tick o) = some s') :
    ∃ a', Core ((s.running, .tick o) :: hst) s' a' := by
  obtain ⟨a₁, hwithin⟩ := h.settingUp hu hx
  obtain ⟨t, hr, hf⟩ := Sys.enabled_of_step hs
  obtain ⟨k', a', f, ek, -, hcore⟩ := hwithin.tick t s.running ho.callbacks fun v g hg => by
    show (x.tick g.entry).period = CYCLE
    rw [hx.tick]
    exact ho.undisturbed v g hg
  obtain rfl := Option.some.inj (hs.symm.trans (Sys.step_tick hr hf ek))
  exact ⟨a', hcore⟩

/-- Every step keeps the invariant. -/
theorem Core.interleaved {s s' : Interleaved} {e : Slice} (h : Core hst s.sys a)
    (ho : s.Fits hst e) (hs : s.step e = some s') : ∃ a', Core (s.happens e ++ hst) s'.sys a' := by
  cases e with
  | act act =>
    have hstep : s.sys.step act = some s'.sys := by
      cases act with
      | call c =>
        simp only [Interleaved.step] at hs
        split_ifs at hs
        obtain ⟨_, h₁, rfl⟩ := Option.map_eq_some_iff.mp hs
        exact h₁
      | tick | resume | start =>
        obtain ⟨_, h₁, rfl⟩ := Option.map_eq_some_iff.mp hs
        exact h₁
    obtain ⟨a', -, hcore⟩ := h.lockstep ho hstep
    exact ⟨a', hcore⟩
  | settingUp c x o =>
    simp only [Interleaved.step] at hs
    split_ifs at hs
    obtain ⟨_, h₁, rfl⟩ := Option.map_eq_some_iff.mp hs
    exact h.tick_settingUp ho.1 ho.2.1 ho.2.2 h₁
  | ahead c o =>
    simp only [Interleaved.step] at hs
    split at hs
    · next t k r hr hk =>
      split_ifs at hs
      obtain ⟨_, h₁, rfl⟩ := Option.map_eq_some_iff.mp hs
      have hsel := Kernel.newTask_of_selection (Kernel.beforeSchedule_selection hk)
      obtain ⟨t', hr', hf⟩ := Sys.enabled_of_step h₁
      obtain rfl : t' = t := Option.some.inj (hr'.symm.trans (hsel.trans hr))
      obtain ⟨k', a', f, hstep, -, hcore⟩ := h.ahead hr hf ho.1 ho.2 hk
      obtain rfl := Option.some.inj (hstep.symm.trans h₁)
      refine ⟨a', ?_⟩
      rwa [Interleaved.happens, hr]
    · cases hs
  | rest =>
    simp only [Interleaved.step] at hs
    split at hs
    · next t hr =>
      split_ifs at hs
      obtain ⟨_, h₁, rfl⟩ := Option.map_eq_some_iff.mp hs
      have horderly : Orderly hst s.sys (.call .schedule) :=
        ⟨⟨trivial, by simp [hr], fun _ => rfl⟩, trivial, trivial⟩
      obtain ⟨a', -, hcore⟩ := h.lockstep horderly h₁
      exact ⟨a', hcore⟩
    · cases hs

/-- The invariant holds in every state of every run in which ticks come into calls. -/
theorem InterleavedRun.core {tr : List (Interleaved × Slice)} {s : Interleaved}
    (h : InterleavedRun tr s) : ∃ a, Core (past tr) s.sys a := by
  refine Runs.Run.invariant (I := fun tr s => ∃ a, Core (past tr) s.sys a) h ?_ ?_
  · rintro s ⟨⟨⟨k, hz, hk⟩, hframe, hlive⟩, -⟩
    exact ⟨_, Core.zeroed hz hk hframe hlive⟩
  · rintro tr s e s' - ⟨a, hcore⟩ ho hs
    exact hcore.interleaved ho hs

/-- A run in which ticks come between the calls is one in which ticks come into calls. -/
theorem SysRun.interleaved {tr : Trace Kernel}
    (h : SysRun (fun tr s act => Orderly (hist tr) s act) tr s) :
    ∃ tr', InterleavedRun tr' ⟨s, fun _ => false⟩ ∧ past tr' = hist tr ∧
      tr'.map Prod.snd = (tr.map Prod.snd).map .act := by
  induction h with
  | nil hi => exact ⟨[], .nil ⟨hi, fun _ => rfl⟩, rfl, rfl⟩
  | @cons tr s s' act _ ho hs ih =>
    obtain ⟨tr', hrun, hpast, hacts⟩ := ih
    refine ⟨(⟨s, fun _ => false⟩, .act act) :: tr', .cons hrun (hpast ▸ ho) ?_, ?_, ?_⟩
    · have howes : Interleaved.owes ⟨s, fun _ => false⟩ = false := by
        cases hr : s.running <;> simp [Interleaved.owes, hr]
      cases act <;> simp [Interleaved.step, howes, hs]
    · show [(s.running, act)] ++ past tr' = _
      rw [hpast]
      rfl
    · simp [hacts]

/-- A run goes on with a call into which a tick comes ahead of its `schedule`. -/
theorem InterleavedRun.ahead {tr : List (Interleaved × Slice)} {s : Interleaved} {r : Ret}
    (h : InterleavedRun tr s) (hcore : Core (past tr) s.sys a) (hr : s.sys.running = some t)
    (hf : s.sys.frame t = none) (hl : s.left t = false) (hu : Usage (past tr) s.sys (.call c))
    (ho : Orderly (past tr) s.sys (.tick o))
    (hk : s.sys.k.beforeSchedule c = some (k, r, true)) : ∃ k' a' f,
    InterleavedRun ((s, .ahead c o) :: tr)
      ⟨⟨k', update s.sys.frame t (f.map .timer), setUp s.sys.live c⟩, update s.left t true⟩ ∧
    (c.effect t a).hardwareTimer o = some (a', f) ∧
    Core (past ((s, .ahead c o) :: tr))
      ⟨k', update s.sys.frame t (f.map .timer), setUp s.sys.live c⟩ a' := by
  obtain ⟨k', a', f, hstep, ha, hcore'⟩ := hcore.ahead hr hf hu ho hk
  refine ⟨k', a', f, .cons h ⟨hu, ho⟩ ?_, ha, ?_⟩
  · simp only [Interleaved.step, hr, hk, Interleaved.owes, Option.any_some, hl, hstep]
    rfl
  · show Core ([(s.sys.running, .tick o), (s.sys.running, .call c)] ++ past tr) _ a'
    rw [hr]
    exact hcore'

/-- A run goes on with the `schedule` that the running task has left. -/
theorem InterleavedRun.rest {tr : List (Interleaved × Slice)} {s : Interleaved}
    (h : InterleavedRun tr s) (hcore : Core (past tr) s.sys a) (hr : s.sys.running = some t)
    (hf : s.sys.frame t = none) (hl : s.left t = true) : ∃ k' a' r,
    InterleavedRun ((s, .rest) :: tr)
      ⟨⟨k', s.sys.callFrame t .schedule k' r, s.sys.live⟩, update s.left t false⟩ ∧
    a.exec .schedule = some (a', r) ∧
    Core (past ((s, .rest) :: tr)) ⟨k', s.sys.callFrame t .schedule k' r, s.sys.live⟩ a' := by
  have hu : Usage (past tr) s.sys (.call .schedule) := ⟨trivial, by simp [hr], fun _ => rfl⟩
  obtain ⟨s', a', hlock, hcore'⟩ := hcore.call hu fun _ ht =>
    Option.some.inj (hr.symm.trans ht) ▸ hf
  have hstep := hlock.step
  cases hlock with
  | main hmain => simp [hr] at hmain
  | @call t' _ k' _ r hr' _ hk ha =>
    obtain rfl : t' = t := Option.some.inj (hr'.symm.trans hr)
    refine ⟨k', a', r, .cons h trivial ?_, ha, hcore'⟩
    simp only [Interleaved.step, hr, Interleaved.owes, Option.any_some, hl, hstep]
    rfl

/-! ## Where ticks come -/

/-- The call changes the ready lists with interrupts enabled. -/
def Call.relinks : Call → Bool
  | .taskCreate (some _) (some _) (some _) _ | .taskPrioChange (some _) _ => true
  | _ => false

/-- Of the calls that make changes with interrupts enabled, two change no ready list. -/
theorem Call.eq_of_unmasked (h : c.unmasked = true) (hc : c.relinks = false) :
    (∃ i num, c = .semInit (some i) num) ∨ ∃ m, c = .mutexInit (some m) := by
  unfold Call.unmasked at h
  split at h
  · simp [Call.relinks] at hc
  · simp [Call.relinks] at hc
  · exact .inl ⟨_, _, rfl⟩
  · exact .inr ⟨_, rfl⟩
  · cases h

/-- The points at which ticks come into the calls of `Interleaved.step`, where the kernel is `x`:
before the call, while it writes what it sets up, ahead of its `schedule`, and behind it. -/
def Whole (k : Kernel) (c : Call) (x : Kernel) : Prop :=
  x = k ∨ SettingUp k c x ∨ (∃ r, k.beforeSchedule c = some (x, r, true)) ∨
    ∃ r, k.exec c = some (x, r)

open Code in
/-- The points of a call that does not change the ready lists with interrupts enabled. -/
theorem call_whole {r : Ret} (hk : k.exec c = some (k₂, r)) (hc : c.relinks = false) :
    ∃ e, Course (Whole k c) (call c) k e k₂ := by
  have hafter : Whole k c k₂ := .inr (.inr (.inr ⟨r, hk⟩))
  by_cases hmask : c.unmasked = true
  · rcases c.eq_of_unmasked hmask hc with ⟨i, num, rfl⟩ | ⟨m, rfl⟩
    · have heq : k.semInit (some i) num = (k₂, r) := Option.some.inj hk
      have hcourse : Course (Whole k (.semInit (some i) num)) (semInit (some i) num) k
          (.ok .TRUE) (k.semInit (some i) num).1 := by
        refine semInit_course (.inl rfl) (.inr (.inl ⟨_, _, _, rfl, rfl, fun _ _ => rfl⟩))
          (.inr (.inl ⟨_, _, _, rfl, rfl, fun n hn => ?_⟩)) (heq ▸ hafter)
        simp [Heap.setNext, hn]
      exact ⟨_, heq ▸ hcourse⟩
    · have heq : k.mutexInit (some m) = (k₂, r) := Option.some.inj hk
      have hcourse : Course (Whole k (.mutexInit (some m))) (mutexInit (some m)) k
          (.ok .TRUE) (k.mutexInit (some m)).1 := by
        refine mutexInit_course (.inl rfl) (.inr (.inl ⟨_, _, _, rfl, rfl, fun n hn => ?_⟩))
          (.inr (.inl ⟨_, _, _, rfl, rfl, fun n hn => ?_⟩)) (heq ▸ hafter)
        · simp [Heap.setNext, hn]
        · simp [Fos.listInit, Heap.setNext, Heap.setPrev, hn]
      exact ⟨_, heq ▸ hcourse⟩
  · obtain ⟨⟨k₁, r₁, b⟩, hbefore, hend⟩ := Option.bind_eq_some_iff.mp (Kernel.exec_eq c k ▸ hk)
    obtain rfl := callEnd_ret hend
    refine ⟨_, call_course (by simpa using hmask) hbefore hend (.inl rfl) ?_ hafter⟩
    cases b with
    | true => exact .inr (.inr (.inl ⟨_, hbefore⟩))
    | false =>
      obtain ⟨rfl, -⟩ := Prod.mk.inj (Option.some.inj hend)
      exact hafter

/-- A tick comes into a call where it may come in `Interleaved.step`, unless the call changes the
ready lists with interrupts enabled. -/
theorem Core.whole_of_atPoint (h : Core hst s a) (hr : s.running = some t)
    (hx : AtPoint s t c x) (hu : s.frame t = none → Usage hst s (.call c))
    (hc : c.relinks = false) : Whole s.k c x := by
  by_cases hf : s.frame t = none
  · obtain ⟨k₂, r, hk⟩ := h.exec_running hr hf (hu hf)
    obtain ⟨e, hcourse⟩ := call_whole hk hc
    exact hx.of_course hf hcourse
  · exact .inl (hx.eq_of_frame hf)

/-- The state behind `oneTask`, and what becomes of it where a tick comes into a sleep of no ticks
ahead of its `schedule`, which is left for later. -/
theorem oneTask_core : ∃ tr s a, SysRun (fun tr s act => Orderly (hist tr) s act) tr s ∧
    Core (hist tr) s a ∧ tr.map Prod.snd = (oneTask.map Move.act).reverse ∧
      s.running = some (.task 1) ∧ s.frame (.task 1) = none ∧
      (∀ t f, s.frame t ≠ some (.timer f)) ∧ s.live (.tcb (.task 2)) = false ∧
      a.ticks = [] ∧ (∀ q ≤ 3, a.tasks (.ready q) = []) ∧ a.tasks (.ready 5) ≠ [] ∧
      ∃ a₁ a₂ r, ((Call.osDelay 0).effect (.task 1) a).hardwareTimer passive = some (a₁, none) ∧
        a₁.exec .schedule = some (a₂, r) ∧ a₁.newTask = some (.task 1) ∧
          a₂.newTask = some (.task 1) ∧ a₂.tasks (.ready 5) ≠ [] := by
  have hreplay : (replay (fun _ _ _ => true) oneTask [] Sys.zero).bind (fun r =>
      (((Call.osDelay 0).effect (.task 1) r.2.k).hardwareTimer passive).bind fun b =>
        (b.1.exec .schedule).map fun d => decide (r.2.k.newTask = some (.task 1) ∧
          r.2.frame (.task 1) = none ∧ r.2.live (.tcb (.task 2)) = false ∧ r.2.k.ticks = [] ∧
            (∀ q ≤ 3, r.2.k.tasks (.ready q) = []) ∧ r.2.k.tasks (.ready 5) ≠ [] ∧ b.2 = none ∧
              b.1.newTask = some (.task 1) ∧ d.1.newTask = some (.task 1) ∧
                d.1.tasks (.ready 5) ≠ [])) = some true := by decide
  obtain ⟨⟨trA, sA⟩, hr, hreplay⟩ := Option.bind_eq_some_iff.mp hreplay
  obtain ⟨⟨a₁, f⟩, htick, hreplay⟩ := Option.bind_eq_some_iff.mp hreplay
  obtain ⟨⟨a₂, r⟩, hsched, hfacts⟩ := Option.map_eq_some_iff.mp hreplay
  obtain ⟨hnew, hframe, hlive, hticks, hnone, hready, rfl, hnew₁, hnew₂, hready₂⟩ :=
    of_decide_eq_true hfacts
  obtain ⟨tr, s, a, hrun, hcore, -, rfl, hacts, hno, -⟩ := replay_next PassiveUsage Sys.zero_init
    (fun _ _ _ _ m _ _ _ hu _ => ⟨hu, m.passive_act⟩) hr
  obtain ⟨horderly, -⟩ := hrun.orderly fun _ _ _ hg => hg
  exact ⟨tr, s, a, Runs.Run.mono horderly fun _ _ _ _ hg => hg.2, hcore, hacts,
    hcore.running_eq.trans hnew, hframe, hno, hlive, hticks, hnone, hready, a₁, a₂, r, htick,
    hsched, hnew₁, hnew₂, hready₂⟩

/-- Behind `oneTask`, a sleep of no ticks with a tick ahead of its `schedule`, and the `schedule`
that was left: the same task runs. -/
theorem oneTask_slept : ∃ tr s a, InterleavedRun tr s ∧ Core (past tr) s.sys a ∧
    tr.map Prod.snd =
      .rest :: .ahead (.osDelay 0) passive :: (oneTask.map Move.act).reverse.map .act ∧
    s.sys.running = some (.task 1) ∧ s.sys.frame (.task 1) = none ∧
      (∀ t f, s.sys.frame t ≠ some (.timer f)) ∧ s.sys.live (.tcb (.task 2)) = false ∧
        a.tasks (.ready 5) ≠ [] := by
  obtain ⟨tr, s, a, hrun, hcore, hacts, hr, hf, hno, hlive, -, -, -, a₁, a₂, r, htick, hsched,
    hnew₁, hnew₂, hready⟩ := oneTask_core
  obtain ⟨tr₀, h₀, hpast, hacts₀⟩ := hrun.interleaved
  rw [← hpast] at hcore
  have hu : Usage (past tr₀) s (.call (.osDelay 0)) := ⟨trivial, by simp [hr], by simp [hr]⟩
  obtain ⟨k₁, r₁, b, hbefore, -⟩ := hcore.effect hu (hcore.eq_caller hr)
  obtain ⟨-, rfl, rfl⟩ := Code.of_map_ret hbefore
  obtain ⟨k', a', f, h₁, ha₁, hcore₁⟩ :=
    h₀.ahead hcore hr hf rfl hu (.of_passive trivial rfl hno) hbefore
  obtain ⟨rfl, rfl⟩ := Prod.mk.inj (Option.some.inj (ha₁.symm.trans htick))
  have hr₁ := hcore₁.running_eq.trans hnew₁
  obtain ⟨k₂, a', r₂, h₂, ha₂, hcore₂⟩ := h₁.rest hcore₁ hr₁ (by simp) (by simp)
  obtain ⟨rfl, rfl⟩ := Prod.mk.inj (Option.some.inj (ha₂.symm.trans hsched))
  have hr₂ := hcore₂.running_eq.trans hnew₂
  -- The task has not been switched out.
  have hframe : Sys.callFrame ⟨k', update s.frame (.task 1) none, setUp s.live (.osDelay 0)⟩
      (.task 1) .schedule k₂ r₂ = update s.frame (.task 1) none := if_pos hr₂
  refine ⟨_, _, _, h₂, hcore₂, ?_, hr₂, ?_, fun t f => ?_, hlive, hready⟩
  · simp [hacts₀, hacts]
  · exact (congrFun hframe _).trans (update_self ..)
  · refine ne_of_eq_of_ne (congrFun hframe t) ?_
    rcases eq_or_ne t (.task 1) with rfl | hne
    · simp
    · simpa [hne] using hno t f

/-- In every state of every run in which ticks come into calls each task is in exactly one place,
and a tick that comes to a point of a call of the running task selects a task that has been created
and is ready, and leaves the task that it interrupts behind exactly one head, unless the call is
torn there. -/
theorem tick_at_any_point {tr : List (Interleaved × Slice)} {s : Interleaved}
    (h : InterleavedRun tr s) (hr : s.sys.running = some t) (hx : AtPoint s.sys t c x)
    (hu : s.sys.frame t = none → Usage (past tr) s.sys (.call c))
    (ho : CallbackUsage s.sys (.tick o)) (hd : Undisturbed ⟨x, s.sys.frame, s.sys.live⟩ (.tick o))
    (htorn : ¬ Torn c t x) :
    Placement s.sys ∧
      ∃ live, (live = s.sys.live ∨ live = setUp s.sys.live c) ∧ TickSafe live o t x := by
  obtain ⟨a, hcore⟩ := h.core
  exact ⟨hcore.in_place, hcore.pointSafe hr hx hu ho hd htorn⟩

/-- Behind the sleep of `oneTask_slept`, a tick may come where the task creates another one, of a
lower priority, and has marked that in its byte of the bitmap. -/
theorem tick_at_any_point_slept : ∃ tr s, InterleavedRun tr s ∧
    tr.map Prod.snd =
      .rest :: .ahead (.osDelay 0) passive :: (oneTask.map Move.act).reverse.map .act ∧
    AtPoint s.sys (.task 1) (.taskCreate (some (.task 2)) (some 0) (some 0) 7)
      (byteMarked 7 (s.sys.k.setPrio (.task 2) 7)) ∧ Placement s.sys ∧
      ∃ live, (live = s.sys.live ∨
          live = setUp s.sys.live (.taskCreate (some (.task 2)) (some 0) (some 0) 7)) ∧
        TickSafe live passive (.task 1) (byteMarked 7 (s.sys.k.setPrio (.task 2) 7)) := by
  obtain ⟨tr, s, a, hrun, hcore, hacts, hr, hf, hno, hlive, hready⟩ := oneTask_slept
  have hu : Usage (past tr) s.sys (.call (.taskCreate (some (.task 2)) (some 0) (some 0) 7)) :=
    ⟨⟨⟨2, rfl⟩, hlive, by decide⟩, by simp [hr], by simp [hr]⟩
  obtain ⟨k, r, hk⟩ := hcore.exec_running hr hf hu
  have hpoint := atPoint_taskCreate hf (by decide) hk
  refine ⟨tr, s, hrun, hacts, hpoint, tick_at_any_point hrun hr hpoint (fun _ => hu)
    (fun e i hi => by simp [passive] at hi) (fun v g hg => absurd hg (hno v g)) ?_⟩
  -- The creator is ready, and has a higher priority.
  rintro ⟨-, hnone⟩
  exact hnone 5 (by decide) ((hcore.sim.refines.someReady_iff (by decide)).mpr hready)

/-- Behind `oneTask`, a tick is not safe at two points: while the priority of the task goes to 9 and
the task is in no list, which it leaves the task in, and while the task creates another one of
priority 3 and has marked that, where it selects what is no task. -/
theorem tick_at_torn_points : ∃ tr s, InterleavedRun tr s ∧
    tr.map Prod.snd = (oneTask.map Move.act).reverse.map .act ∧
    s.sys.running = some (.task 1) ∧ s.sys.frame (.task 1) = none ∧
    Orderly (past tr) s.sys (.tick passive) ∧
    (Usage (past tr) s.sys (.call (.taskPrioChange (some (.task 1)) 9)) ∧
      ∃ x, AtPoint s.sys (.task 1) (.taskPrioChange (some (.task 1)) 9) x ∧
        Undisturbed ⟨x, s.sys.frame, s.sys.live⟩ (.tick passive) ∧
        ∀ live, live = s.sys.live ∨ live = setUp s.sys.live (.taskPrioChange (some (.task 1)) 9) →
          ¬ TickSafe live passive (.task 1) x) ∧
    Usage (past tr) s.sys (.call (.taskCreate (some (.task 2)) (some 0) (some 0) 3)) ∧
      ∃ x, AtPoint s.sys (.task 1) (.taskCreate (some (.task 2)) (some 0) (some 0) 3) x ∧
        Undisturbed ⟨x, s.sys.frame, s.sys.live⟩ (.tick passive) ∧
        ∀ live, live = s.sys.live ∨
            live = setUp s.sys.live (.taskCreate (some (.task 2)) (some 0) (some 0) 3) →
          ¬ TickSafe live passive (.task 1) x := by
  obtain ⟨tr, s, a, hrun, hcore, hacts, hr, hf, hno, hlive, hticks, hnone, hready, -⟩ :=
    oneTask_core
  obtain ⟨tr₀, h₀, hpast, hacts₀⟩ := hrun.interleaved
  rw [← hpast] at hcore
  have hlost : Usage (past tr₀) s (.call (.taskPrioChange (some (.task 1)) 9)) :=
    ⟨⟨hr, by decide⟩, by simp [hr], by simp [hr]⟩
  have hcreate : Usage (past tr₀) s (.call (.taskCreate (some (.task 2)) (some 0) (some 0) 3)) :=
    ⟨⟨⟨2, rfl⟩, hlive, by decide⟩, by simp [hr], by simp [hr]⟩
  have htick : Orderly (past tr₀) s (.tick passive) := .of_passive trivial rfl hno
  have hundisturbed : ∀ x : Kernel, Undisturbed ⟨x, s.frame, s.live⟩ (.tick passive) :=
    fun _ v g hg => absurd hg (hno v g)
  obtain ⟨k₁, hk₁, hpoint⟩ := hcore.prioChange_leaves hr hf hlost (by decide)
  obtain ⟨k, r, hk⟩ := hcore.exec_running hr hf hcreate
  refine ⟨tr₀, _, h₀, by rw [hacts₀, hacts], hr, hf, htick,
    ⟨hlost, k₁, hpoint, hundisturbed k₁, fun live heq hsafe => ?_⟩, hcreate, _,
    atPoint_taskCreate hf (by decide) hk, hundisturbed _, fun live heq hsafe => ?_⟩
  · -- The task is in no list.
    obtain ⟨k', a', f, ek, hafter⟩ := hcore.tick_without hr (by simp) hk₁ htick.callbacks
      htick.undisturbed
    obtain ⟨k'', f', ek', -, n, hn, -⟩ := hsafe
    obtain ⟨rfl, rfl⟩ := Prod.mk.inj (Option.some.inj (ek'.symm.trans ek))
    obtain rfl : live = s.live := heq.elim id id
    exact hafter.not_placed n hn
  · -- The head of the list has not been created.
    obtain ⟨k', ek, hnew⟩ := hcore.tick_head hr (p := 3) (q := 5) (by decide) hticks hnone
      (by decide) (by decide) hready (.task 2) passive
    obtain ⟨k'', f', ek', ⟨u, hu, hdead, -⟩, -⟩ := hsafe
    obtain ⟨rfl, rfl⟩ := Prod.mk.inj (Option.some.inj (ek'.symm.trans ek))
    obtain rfl := Option.some.inj (hnew.symm.trans hu)
    have hhead : s.live (.tcb (.prioQueue 3)) = false := by
      by_contra hne
      obtain ⟨n, hn⟩ := hcore.sim.wf.tasks.isTask (.prioQueue 3) (by simpa using hne)
      cases hn
    rcases heq with rfl | rfl
    · simp [hhead] at hdead
    · simp [setUp, Call.setsUp, hhead] at hdead

end Fos
