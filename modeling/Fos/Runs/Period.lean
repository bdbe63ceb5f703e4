import Fos.Runs.Control
import Fos.Runs.Expiry

/-!
# The period of a timer

`hardware_timer` tests whether a timer has expired before it counts it down, and a timer that it
starts again is not counted down in the same call. So a timer that is requested with `timeout = n`
and `period = CYCLE` calls back in every `n + 1`-st call of `hardware_timer`, and not in every
`n`-th one (`periodic_iff`).
-/

namespace Fos

open Links Function

/-- How many calls of `hardware_timer` have begun in a run. -/
def ticks (tr : Trace Kernel) : ℕ :=
  tr.countP fun e => match e.2 with | .tick _ => true | _ => false

/-- Of the `m` calls of `hardware_timer` after the `start`-th one, every `n`-th has called
`func(arg)` for the timer, once, and no other call has. -/
def OnPeriod (e : TickPtr) (func arg start m n : ℕ) (log : List TimerEvent) : Prop :=
  ∀ call, log.count (.callback call e func arg) =
    if start < call ∧ call ≤ start + m ∧ n ∣ call - start then 1 else 0

variable {hst : Hist} {s s' s₁ : Sys Kernel} {a a' : Abs} {act : Action} {e : TickPtr}
  {func arg start m n : ℕ} {log new : List TimerEvent} {t : TcbPtr}

theorem ticks_cons (ev : Sys Kernel × Action) (tr : Trace Kernel) :
    ticks (ev :: tr) = ticks tr + ticks [ev] := by
  simp [ticks, List.countP_cons]

/-- With one period, no call has been on time for the other one, until the shorter one is over. -/
theorem OnPeriod.iff_lt (h : OnPeriod e func arg start m (n + 1) log) (hn : 0 < n) :
    OnPeriod e func arg start m n log ↔ m < n := by
  constructor
  · intro hper
    by_contra hm
    have hlong := h (start + n)
    have hshort := hper (start + n)
    -- The `n`-th call is on time, but the timer does not call back in it.
    have hlate : ¬ n + 1 ∣ n := fun hd => absurd (Nat.le_of_dvd hn hd) (by omega)
    rw [Nat.add_sub_cancel_left, if_neg fun hc => hlate hc.2.2] at hlong
    rw [Nat.add_sub_cancel_left, if_pos ⟨by omega, by omega, dvd_refl n⟩, hlong] at hshort
    exact absurd hshort (by decide)
  · intro hm call
    have hnone : ∀ k, n ≤ k → ¬ (start < call ∧ call ≤ start + m ∧ k ∣ call - start) := by
      rintro k hk ⟨hlo, hhi, hd⟩
      have := Nat.le_of_dvd (by omega) hd
      omega
    rw [h call, if_neg (hnone (n + 1) (by omega)), if_neg (hnone n (by omega))]

/-- One more call, which calls back if it is the `n`-th one. -/
theorem OnPeriod.next (h : OnPeriod e func arg start m n log)
    (hnew : ∀ call, new.count (.callback call e func arg) =
      if n ∣ m + 1 ∧ call = start + m + 1 then 1 else 0) :
    OnPeriod e func arg start (m + 1) n (new ++ log) := by
  intro call
  rw [List.count_append, hnew, h call]
  by_cases hc : call = start + m + 1
  · have hnow : call - start = m + 1 := by omega
    have hold : ¬ (start < call ∧ call ≤ start + m ∧ n ∣ call - start) := by omega
    have hnew : (start < call ∧ call ≤ start + (m + 1) ∧ n ∣ call - start) ↔ n ∣ m + 1 := by
      rw [hnow]
      exact ⟨fun hd => hd.2.2, fun hd => ⟨by omega, by omega, hd⟩⟩
    rw [if_neg hold, Nat.add_zero]
    exact if_congr ((and_iff_left hc).trans hnew.symm) rfl rfl
  · have hle : call ≤ start + (m + 1) ↔ call ≤ start + m := by omega
    simp only [hc, and_false, if_false, Nat.zero_add, hle]

/-- A timer that has been requested with `timeout = n` and `period = CYCLE`. -/
structure Tick.Cyclic (func arg n : ℕ) (x : Tick) : Prop where
  style : x.style = .softwareTimer
  period : x.period = CYCLE
  callback : x.func = some func
  funcArg : x.funcArg = arg
  timeoutCopy : x.timeoutCopy = n

/-- It stays one when a pass comes to it. -/
theorem Tick.Cyclic.passed {x : Tick} (h : x.Cyclic func arg n) : x.passed.Cyclic func arg n := by
  unfold Tick.passed
  split_ifs <;> exact ⟨h.style, h.period, h.callback, h.funcArg, h.timeoutCopy⟩

/-- It is counted down, and started again when it has expired. -/
theorem Tick.Cyclic.passed_timeout {x : Tick} (h : x.Cyclic func arg n) :
    x.passed.timeout = if x.timeout = 0 then n else x.timeout - 1 := by
  unfold Tick.passed TIMEOUT
  split_ifs with ht hc
  · exact h.timeoutCopy
  · exact absurd ⟨h.style, h.period⟩ hc
  · rfl

/-- Its callback is noted when it has expired. -/
theorem Tick.Cyclic.count_noted {x : Tick} (h : x.Cyclic func arg n) (call call' : ℕ) :
    (x.noted call e).count (.callback call' e func arg) =
      if x.timeout = 0 ∧ call' = call then 1 else 0 := by
  unfold Tick.noted TIMEOUT
  by_cases ht : x.timeout = 0
  · by_cases hc : call' = call
    · simp [ht, hc, h.style, h.callback, h.funcArg]
    · simp [ht, hc, Ne.symm hc, h.style, h.callback]
  · simp [ht]

/-- What is noted at another entry. -/
theorem Tick.count_noted_of_ne {x : Tick} {call call' : ℕ} {e' : TickPtr} (hne : e' ≠ e) :
    (x.noted call e).count (.callback call' e' func arg) = 0 := by
  refine List.count_eq_zero.mpr fun hmem => ?_
  unfold Tick.noted at hmem
  rcases List.mem_append.mp hmem with h | h
  · split_ifs at h
    · cases hf : x.func with
      | none => simp [hf] at h
      | some f =>
        simp only [hf, Option.map_some, Option.toList_some, List.mem_singleton,
          TimerEvent.callback.injEq] at h
        exact hne h.2.1
    · exact absurd h List.not_mem_nil
  · simp at h

/-- A pass calls back once for a timer that has expired. -/
theorem count_passNotes {tick : TickPtr → Tick} {es : List TickPtr} {call call' : ℕ}
    (hn : es.Nodup) (he : e ∈ es) (h : (tick e).Cyclic func arg n) :
    (passNotes tick call es).count (.callback call' e func arg) =
      if (tick e).timeout = 0 ∧ call' = call then 1 else 0 := by
  induction es with
  | nil => exact absurd he List.not_mem_nil
  | cons e' es ih =>
    obtain ⟨hnot, hn⟩ := List.nodup_cons.mp hn
    rw [passNotes_cons, List.count_append]
    rcases List.mem_cons.mp he with rfl | he
    · have hrest : (passNotes tick call es).count (.callback call' e func arg) = 0 := by
        refine List.count_eq_zero.mpr fun hmem => ?_
        obtain ⟨e', he', hev⟩ := List.mem_flatMap.mp hmem
        have hne : e ≠ e' := fun heq => hnot (heq ▸ List.mem_reverse.mp he')
        exact absurd hev (List.count_eq_zero.mp (Tick.count_noted_of_ne hne))
      rw [hrest, h.count_noted, Nat.zero_add]
    · have hne : e ≠ e' := fun heq => hnot (heq ▸ he)
      rw [ih hn he, Tick.count_noted_of_ne hne, Nat.add_zero]

/-- `m` calls of `hardware_timer` after the request, the timer is queued, and has been counted down
from `n` in `n + 1` calls each time. -/
structure Paced (e : TickPtr) (func arg start m n : ℕ) (log : List TimerEvent) (a : Abs) :
    Prop where
  queued : e ∈ a.ticks
  cyclic : (a.tick e).Cyclic func arg n
  timeout : (a.tick e).timeout + m % (n + 1) = n
  fosTick : a.fosTick = start + m
  onPeriod : ∃ new, a.log = new ++ log ∧ OnPeriod e func arg start m (n + 1) new

/-- What leaves the timer as it is, and notes nothing about it. -/
theorem Paced.congr (h : Paced e func arg start m n log a) (hmem : e ∈ a'.ticks)
    (htick : a'.tick e = a.tick e) (hfos : a'.fosTick = a.fosTick) (hlog : a'.log = new ++ a.log)
    (hnew : ∀ call, .callback call e func arg ∉ new) : Paced e func arg start m n log a' where
  queued := hmem
  cyclic := htick ▸ h.cyclic
  timeout := htick ▸ h.timeout
  fosTick := hfos ▸ h.fosTick
  onPeriod := by
    obtain ⟨old, hold, hper⟩ := h.onPeriod
    refine ⟨new ++ old, by rw [hlog, hold, List.append_assoc], fun call => ?_⟩
    rw [List.count_append, List.count_eq_zero.mpr (hnew call), Nat.zero_add, hper call]

/-- One more call of `hardware_timer`. -/
theorem Paced.tick {live : Node → Bool} {f : Option TimerFrame}
    (h : Paced e func arg start m n log a) (w : WF live a)
    (ha : a.hardwareTimer passive = some (a', f)) :
    Paced e func arg start (m + 1) n log a' := by
  obtain ⟨hfos, seen, rest, hticks, hpasses⟩ := w.passes_hardwareTimer ha
  obtain ⟨hmem, htick⟩ := w.ticks_hardwareTimer ha e
  obtain rfl : f = none := (w.passed_hardwareTimer ha).1
  obtain rfl := hpasses.done rfl
  rw [List.append_nil] at hticks
  rw [if_pos h.queued] at htick
  have hstay : ¬ (a.tick e).Leaves := by
    simp [Tick.Leaves, h.cyclic.style, h.cyclic.period]
  have htime := h.timeout
  have hlt : m % (n + 1) < n + 1 := Nat.mod_lt _ (Nat.succ_pos n)
  -- The timer has expired when `n + 1` divides the number of calls, this one among them.
  have hexp : (a.tick e).timeout = 0 ↔ n + 1 ∣ m + 1 := by
    rw [Nat.dvd_iff_mod_eq_zero, Nat.succ_mod_succ_eq_zero_iff]
    omega
  have hnext : (m + 1) % (n + 1) = if (a.tick e).timeout = 0 then 0 else m % (n + 1) + 1 := by
    split_ifs with h0
    · exact Nat.dvd_iff_mod_eq_zero.mp (hexp.mp h0)
    · have hone : 1 % (n + 1) = 1 := Nat.mod_eq_of_lt (by omega)
      rw [Nat.add_mod_of_add_mod_lt (by omega), hone]
  refine ⟨hmem.mpr ⟨h.queued, hstay⟩, htick ▸ h.cyclic.passed, ?_, ?_, ?_⟩
  · rw [htick, h.cyclic.passed_timeout, hnext]
    split_ifs <;> omega
  · rw [hfos, h.fosTick, Nat.add_assoc]
  · obtain ⟨old, hold, hper⟩ := h.onPeriod
    refine ⟨(passNotes a.tick (a.fosTick + 1) seen ++ [.start (a.fosTick + 1)]) ++ old, ?_, ?_⟩
    · rw [hpasses.traversed.log]
      simp [passNotes, Abs.note, hold]
    · refine hper.next fun call => ?_
      have hn : seen.Nodup := hticks ▸ w.ticks.nodup
      rw [List.count_append, count_passNotes hn (hticks ▸ h.queued) h.cyclic, h.fosTick]
      simp [hexp]

/-- `Paced`, after one more step. -/
theorem Paced.step {tr : Trace Kernel} (h : Paced e func arg start m n log a)
    (hl : Lockstep s a act s' a') (hcore : Core (hist tr) s a) (hg : PassiveUsage tr s act)
    (hno : ∀ t f, s.frame t ≠ some (.timer f)) :
    Paced e func arg start (m + ticks [(s, act)]) n log a' := by
  have hcall : ∀ c r, act = .call c → a.exec c = some (a', r) →
      Paced e func arg start m n log a' := by
    rintro c r rfl ha
    obtain ⟨t, hnew⟩ := a.exists_caller
    have hframe := Abs.exec_frame hnew ha
    have hq : some e ≠ c.queues t := fun hq =>
      hcore.not_mem_of_queues hg.1 hnew hq.symm h.queued
    refine h.congr ?_ (hframe.tick e hq) hframe.fosTick hframe.log fun call => ?_
    · rw [hframe.ticks]
      exact List.mem_append_left _ h.queued
    · intro hmem
      -- A call notes no callback.
      unfold Call.notes at hmem
      split at hmem
      · simp at hmem
      · split_ifs at hmem <;> simp at hmem
      · simp at hmem
  cases hl with
  | main hr hk ha => exact hcall _ _ rfl ha
  | call hr hf hk ha hnew => exact hcall _ _ rfl ha
  | @tick t o k' a' f hr hf hk ha =>
    obtain rfl : o = passive := hg.2
    exact h.tick hcore.sim.wf ha
  | ret | start =>
    exact h.congr h.queued rfl rfl (List.nil_append _).symm fun _ => List.not_mem_nil
  | pass hr hf hk ha => exact absurd hf (hno _ _)

/-- The request starts the count. -/
theorem Paced.request (hnew : ∀ t', a.newTask = some t' → t' = t) (hn : 0 < n) {r : Ret}
    (ha : a.exec (.timerReq (some e) (some func) n CYCLE arg) = some (a', r)) :
    Paced e func arg a.fosTick 0 n a.log a' := by
  have hn : n ≠ 0 := Nat.ne_of_gt hn
  have hframe := Abs.exec_frame hnew ha
  have ha : some (a.timerReq (some e) (some func) n CYCLE arg, Ret.VOID) = some (a', r) := ha
  obtain ⟨rfl, -⟩ := Prod.mk.inj (Option.some.inj ha)
  have htick : (a.timerReq (some e) (some func) n CYCLE arg).tick e = { a.tick e with
      func := some func, timeout := n, period := CYCLE, timeoutCopy := n,
      style := .softwareTimer, funcArg := arg } := by
    simp [Abs.timerReq, hn, Abs.setTick, Abs.note, Abs.pushTick]
  refine ⟨?_, ?_, ?_, hframe.fosTick, [.request e CYCLE], ?_, fun call => ?_⟩
  · simp [Abs.timerReq, hn, Abs.setTick, Abs.note, Abs.pushTick]
  · rw [htick]
    exact ⟨rfl, rfl, rfl, rfl, rfl⟩
  · rw [htick, Nat.zero_mod]
    rfl
  · rw [hframe.log]
    simp [Call.notes, hn]
  · rw [List.count_cons_of_ne (by simp), List.count_nil, if_neg]
    omega

/-- Every run after a request. -/
theorem SysRun.counting {later earlier : Trace Kernel} (hn : 0 < n) (hrun : SysRun PassiveUsage
    (later ++ (s₁, .call (.timerReq (some e) (some func) n CYCLE arg)) :: earlier) s) :
    ∃ a, Core (hist (later ++ (s₁, .call (.timerReq (some e) (some func) n CYCLE arg)) :: earlier))
      s a ∧ Paced e func arg s₁.k.fosTick (ticks later) n s₁.k.log a := by
  induction later generalizing s with
  | nil =>
    cases hrun with
    | cons hr hg hs =>
      obtain ⟨a, hcore⟩ := (SysRun.orderly hr fun _ _ _ hg => hg).1.core fun _ _ _ hg => hg.2
      obtain ⟨a', hl, hcore'⟩ := SysRun.lockstep hr (fun _ _ _ hg => hg) hg hs hcore
      -- The request itself: no tick has come since.
      obtain ⟨t, hnew⟩ := a.exists_caller
      have hvars := hcore.sim.refines.vars
      have hcount : ∀ {r}, a.exec (.timerReq (some e) (some func) n CYCLE arg) = some (a', r) →
          Paced e func arg s₁.k.fosTick 0 n s₁.k.log a' := fun ha => by
        rw [← congrArg Vars.fosTick hvars, ← congrArg Vars.log hvars]
        exact Paced.request hnew hn ha
      refine ⟨a', hcore', ?_⟩
      cases hl with
      | main hr hk ha => exact hcount ha
      | call hr hf hk ha hnew' => exact hcount ha
  | cons ev later ih =>
    cases hrun with
    | cons hr hg hs =>
      obtain ⟨a, hcore, hcount⟩ := ih hr
      obtain ⟨a', hl, hcore'⟩ := SysRun.lockstep hr (fun _ _ _ hg => hg) hg hs hcore
      -- No pass is suspended, as every callback returns.
      have hno := (SysRun.orderly hr fun _ _ _ hg => hg).2
      refine ⟨a', hcore', ?_⟩
      rw [ticks_cons]
      exact hcount.step hl hcore hg hno

/-- In every run after a request with `timeout = n` and `period = CYCLE`, the timer calls back in
every `n + 1`-st call of `hardware_timer`. So it calls back in every `n`-th one exactly as long as
fewer than `n` have been made. -/
theorem periodic_iff {later earlier : Trace Kernel} (hn : 0 < n) (hrun : SysRun PassiveUsage
    (later ++ (s₁, .call (.timerReq (some e) (some func) n CYCLE arg)) :: earlier) s) :
    s.k.fosTick = s₁.k.fosTick + ticks later ∧ ∃ new, s.k.log = new ++ s₁.k.log ∧
      OnPeriod e func arg s₁.k.fosTick (ticks later) (n + 1) new ∧
        (OnPeriod e func arg s₁.k.fosTick (ticks later) n new ↔ ticks later < n) := by
  obtain ⟨a, hcore, hcount⟩ := SysRun.counting hn hrun
  have hvars := hcore.sim.refines.vars
  obtain ⟨new, hlog, hper⟩ := hcount.onPeriod
  refine ⟨?_, new, ?_, hper, hper.iff_lt hn⟩
  · rw [← congrArg Vars.fosTick hvars, hcount.fosTick]
  · rw [← congrArg Vars.log hvars, hlog]

/-- `main` requests a timer, and one tick comes. -/
def oneTick (n : ℕ) : List Move := [
  .call (.timerReq (some (.timer 0)) (some 9) n CYCLE 4), .start, .tick]

/-- The run of it. -/
theorem oneTick_run {n : ℕ} (hr : (replay (fun _ _ _ => true) (oneTick n) [] Sys.zero).isSome) :
    ∃ s₀ s₁ s₂ s, SysRun PassiveUsage ([(s₂, .tick passive), (s₁, .start)] ++
      [(s₀, .call (.timerReq (some (.timer 0)) (some 9) n CYCLE 4))]) s := by
  obtain ⟨tr, s, hrun, hacts⟩ := PassiveUsage.of_replay (oneTick n) hr
  obtain ⟨⟨s₂, _⟩, tr₂, rfl, rfl, hacts₂⟩ := List.map_eq_cons_iff.mp hacts
  obtain ⟨⟨s₁, _⟩, tr₁, rfl, rfl, hacts₁⟩ := List.map_eq_cons_iff.mp hacts₂
  obtain ⟨⟨s₀, _⟩, tr₀, rfl, rfl, hacts₀⟩ := List.map_eq_cons_iff.mp hacts₁
  obtain rfl := List.map_eq_nil_iff.mp hacts₀
  exact ⟨s₀, s₁, s₂, s, hrun⟩

/-- One tick is less than a period of three. -/
theorem periodic_oneTick : ∃ s₀ later s new, SysRun PassiveUsage
    (later ++ [(s₀, .call (.timerReq (some (.timer 0)) (some 9) 3 CYCLE 4))]) s ∧
      ticks later = 1 ∧ s.k.log = new ++ s₀.k.log ∧
        OnPeriod (.timer 0) 9 4 s₀.k.fosTick (ticks later) 3 new := by
  obtain ⟨s₀, s₁, s₂, s, hrun⟩ := oneTick_run (n := 3) (by decide)
  obtain ⟨-, new, hlog, -, hiff⟩ := periodic_iff (by decide) hrun
  exact ⟨s₀, _, s, new, hrun, rfl, hlog, hiff.mpr (show 1 < 3 by decide)⟩

/-- A timer with a period of one tick does not call back in the first one. -/
theorem not_periodic_oneTick : ∃ s₀ later s, SysRun PassiveUsage
    (later ++ [(s₀, .call (.timerReq (some (.timer 0)) (some 9) 1 CYCLE 4))]) s ∧
      ticks later = 1 ∧ ∀ new, s.k.log = new ++ s₀.k.log →
        ¬ OnPeriod (.timer 0) 9 4 s₀.k.fosTick (ticks later) 1 new := by
  obtain ⟨s₀, s₁, s₂, s, hrun⟩ := oneTick_run (n := 1) (by decide)
  obtain ⟨a, hcore, hcount⟩ := SysRun.counting (by decide) hrun
  obtain ⟨new, hlog, hper⟩ := hcount.onPeriod
  refine ⟨s₀, _, s, hrun, rfl, fun new' hlog' hper' => ?_⟩
  rw [hcore.sim.refines.vars, hlog'] at hlog
  obtain rfl := List.append_cancel_right hlog
  exact absurd ((hper.iff_lt (by decide)).mp hper') (show ¬ 1 < 1 by decide)

end Fos
