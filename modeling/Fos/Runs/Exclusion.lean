import Fos.Runs.Holding

/-!
# Mutual exclusion

`mutex_put` hands a mutex to the first task that waits for it by waking that task, and at the same
time sets `enable` to `1`. The waiter returns `TRUE` from `mutex_get` without setting `enable` back,
so that from then on it holds a mutex that is free. A mutex excludes for as long as no task goes on
inside a `mutex_get` that it waited in, and no longer (`exclusive_iff`).
-/

namespace Fos

open Function Runs

/-- At most one task holds each mutex, and `enable` is `0` while one does. -/
def Exclusive (tr : Trace Kernel) (s : Sys Kernel) : Prop :=
  ∀ m t, holds t m tr s = true →
    (s.k.mutex m).enable = 0 ∧ ∀ u, holds u m tr s = true → u = t

/-- The step lets a task that has waited inside `mutex_get` go on. -/
def ResumesGet (s : Sys Kernel) (act : Action) : Prop :=
  ∃ t m r o, s.running = some t ∧ s.frame t = some (.call (.mutexGet (some m)) r) ∧ act = .resume o

/-- What holds of the holders of mutexes in every run, whether or not they exclude each other. -/
structure Held (tr : Trace Kernel) (s : Sys Kernel) (a : Abs) : Prop where
  /-- Someone holds a mutex that is not free. -/
  holder : ∀ m, s.live (.mutex m) = true → (a.mutex m).enable = 0 → ∃ t, holds t m tr s = true
  /-- A mutex that is held has been set up. -/
  live : ∀ t m, holds t m tr s = true → s.live (.mutex m) = true
  /-- A task that waits for a mutex does not hold it, and its `mutex_get` returns `TRUE`. -/
  waits : ∀ t m r, s.frame t = some (.call (.mutexGet (some m)) r) →
    holds t m tr s = false ∧ r = .TRUE ∧ s.live (.mutex m) = true

variable {hst hst' : Hist} {tr : Trace Kernel} {s s' : Sys Kernel} {a a' : Abs} {act : Action}

/-- `Held`, after one more step. -/
theorem Held.step (h : Held tr s a) (hl : Lockstep s a act s' a') (hg : MutexUsage tr s act)
    (hstep : MutexStep tr s a act s' a') : Held ((s, act) :: tr) s' a' := by
  cases hstep with
  | init m hact hlive hm hp hh hframe =>
    -- The mutex that is set up is free, and nobody has held it.
    refine ⟨fun i hi he => ?_, fun t i ht => ?_, fun t i r ht => ?_⟩
    · rcases eq_or_ne i m with rfl | hne
      · simp [hm] at he
      · rw [hl.live_mutex (by simpa [hact] using hne.symm)] at hi
        obtain ⟨t, ht⟩ := h.holder i hi (by simpa [hm, hne] using he)
        exact ⟨t, by rw [hh, ht]⟩
    · rw [hh] at ht
      exact hl.live_mono (h.live t i ht)
    · obtain ⟨h₁, h₂, h₃⟩ := h.waits t i r (hframe t i r ht)
      exact ⟨by rw [hh, h₁], h₂, hl.live_mono h₃⟩
  -- The caller holds the mutex from here on.
  | take t m hr hf hact hlive hfree hm hp hframe hh =>
    refine ⟨fun i hi he => ?_, fun u i hu => ?_, fun u i r hu => ?_⟩
    -- Another mutex is as before, and the one that is taken has its new holder.
    · rcases eq_or_ne i m with rfl | hne
      · exact ⟨t, (hh t i).mpr (Or.inl ⟨rfl, rfl⟩)⟩
      · rw [hl.live_mutex (by simp [hact])] at hi
        obtain ⟨u, hu⟩ := h.holder i hi (by simpa [hm, hne] using he)
        exact ⟨u, (hh u i).mpr (Or.inr hu)⟩
    · rcases (hh u i).mp hu with ⟨-, rfl⟩ | hu
      · exact hl.live_mono hlive
      · exact hl.live_mono (h.live u i hu)
    · -- The task that takes the mutex is not inside a call.
      rw [hframe] at hu
      obtain ⟨h₁, h₂, h₃⟩ := h.waits u i r hu
      refine ⟨?_, h₂, hl.live_mono h₃⟩
      rw [Bool.eq_false_iff]
      intro hnew
      rcases (hh u i).mp hnew with ⟨rfl, -⟩ | hold
      · simp [hf] at hu
      · simp [h₁] at hold
  | wait t m hr hf hact hlive hheld hm hp hframe hh =>
    refine ⟨fun i hi he => ?_, fun u i hu => ?_, fun u i r hu => ?_⟩
    · rw [hl.live_mutex (by simp [hact])] at hi
      have he' : (a.mutex i).enable = 0 := by
        rcases eq_or_ne i m with rfl | hne
        · exact hheld
        · simpa [hm, hne] using he
      obtain ⟨u, hu⟩ := h.holder i hi he'
      exact ⟨u, by rw [hh, hu]⟩
    · rw [hh] at hu
      exact hl.live_mono (h.live u i hu)
    · rw [hh]
      rcases eq_or_ne u t with rfl | hne
      · -- A task only asks for a mutex that it does not hold.
        rw [hframe, update_self] at hu
        obtain ⟨hc, rfl⟩ := Frame.call.inj (Option.some.inj hu)
        obtain rfl : m = i := by simpa using hc
        exact ⟨hg.get u m (by simp [hact, hr]), rfl, hl.live_mono hlive⟩
      · rw [hframe, update_of_ne hne] at hu
        obtain ⟨h₁, h₂, h₃⟩ := h.waits u i r hu
        exact ⟨h₁, h₂, hl.live_mono h₃⟩
  -- The caller gives the mutex up, and holds no other.
  | put t m hr hf hact hlive hm hp hframe hh =>
    refine ⟨fun i hi he => ?_, fun u i hu => ?_, fun u i r hu => ?_⟩
    · rcases eq_or_ne i m with rfl | hne
      · simp [hm] at he
      · rw [hl.live_mutex (by simp [hact])] at hi
        obtain ⟨u, hu⟩ := h.holder i hi (by simpa [hm, hne] using he)
        exact ⟨u, (hh u i).mpr ⟨fun hui => hne hui.2, hu⟩⟩
    · exact hl.live_mono (h.live u i ((hh u i).mp hu).2)
    · obtain ⟨h₁, h₂, h₃⟩ := h.waits u i r (hframe u i r hu)
      refine ⟨?_, h₂, hl.live_mono h₃⟩
      rw [Bool.eq_false_iff]
      intro hnew
      simpa [h₁] using ((hh u i).mp hnew).2
  | ret t m r o hr hact hf ha hframe hh =>
    -- A `mutex_get` that has waited returns: the task counts as a holder though the mutex is as
    -- before.
    obtain ⟨-, -, hlive⟩ := h.waits t m r hf
    subst ha
    refine ⟨fun i hi he => ?_, fun u i hu => ?_, fun u i r' hu => ?_⟩
    · rw [hl.live_mutex (by simp [hact])] at hi
      obtain ⟨u, hu⟩ := h.holder i hi he
      exact ⟨u, (hh u i).mpr (Or.inr hu)⟩
    · rcases (hh u i).mp hu with ⟨-, rfl, -⟩ | hu
      · exact hl.live_mono hlive
      · exact hl.live_mono (h.live u i hu)
    · have hne : u ≠ t := by
        rintro rfl
        simp [hframe] at hu
      rw [hframe, update_of_ne hne] at hu
      obtain ⟨h₁, h₂, h₃⟩ := h.waits u i r' hu
      refine ⟨?_, h₂, hl.live_mono h₃⟩
      rw [Bool.eq_false_iff]
      intro hnew
      rcases (hh u i).mp hnew with ⟨hut, -⟩ | hold
      · exact hne hut
      · simp [h₁] at hold
  | other hm hp hlive hh hframe =>
    refine ⟨fun i hi he => ?_, fun t i ht => ?_, fun t i r ht => ?_⟩
    · obtain ⟨t, ht⟩ := h.holder i (hlive i ▸ hi) (hm ▸ he)
      exact ⟨t, by rw [hh, ht]⟩
    · rw [hh] at ht
      exact hl.live_mono (h.live t i ht)
    · obtain ⟨h₁, h₂, h₃⟩ := h.waits t i r (hframe t i r ht)
      exact ⟨by rw [hh, h₁], h₂, hl.live_mono h₃⟩

/-- `Held` holds in every state of every run. -/
theorem SysRun.held (h : SysRun MutexUsage tr s) : ∃ a, Core (hist tr) s a ∧ Held tr s a := by
  obtain ⟨hrun, -⟩ := h.orderly fun _ _ _ hg => ⟨hg.usage, hg.passive⟩
  refine hrun.invariant (fun _ _ _ hg => hg.2) (fun s k hinit _ _ => ?_) ?_
  · obtain ⟨-, hframe, hlive⟩ := hinit
    exact ⟨fun m hm => by simp [hlive] at hm, by simp [holds], by simp [hframe]⟩
  · intro tr s a act s' a' _ hcore hheld hg hl hcore'
    exact hheld.step hl hg.1 (hl.mutexStep hcore hcore' hg.1.usage)

/-- A step keeps mutual exclusion unless it lets a task go on that has waited. -/
theorem Held.exclusive_step (h : Held tr s a) (hcore : Core hst s a) (hcore' : Core hst' s' a')
    (hg : MutexUsage tr s act) (hstep : MutexStep tr s a act s' a') (hex : Exclusive tr s)
    (hno : ¬ ResumesGet s act) : Exclusive ((s, act) :: tr) s' := by
  have hk : s.k.mutex = a.mutex := hcore.sim.refines.mutex_eq
  have hk' : s'.k.mutex = a'.mutex := hcore'.sim.refines.mutex_eq
  -- Whoever held a mutex before still excludes the others, unless it was put.
  intro i u hu
  rw [hk']
  cases hstep with
  | init m hact hlive hm hp hh hframe =>
    rw [hh] at hu
    have hne : i ≠ m := by
      rintro rfl
      simp [h.live u i hu] at hlive
    obtain ⟨he, huniq⟩ := hex i u hu
    exact ⟨by rw [hm, update_of_ne hne, ← hk, he], fun v hv => huniq v (hh v i ▸ hv)⟩
  | take t m hr hf hact hlive hfree hm hp hframe hh =>
    rcases eq_or_ne i m with rfl | hne
    · -- A mutex that is free has no holder.
      have hnone : ∀ v, holds v i tr s ≠ true := fun v hv => hfree (hk ▸ (hex i v hv).1)
      have hself : ∀ v, holds v i ((s, act) :: tr) s' = true → v = t := fun v hv =>
        (((hh v i).mp hv).resolve_right (hnone v)).1
      exact ⟨by simp [hm], fun v hv => by rw [hself v hv, hself u hu]⟩
    · have hold : ∀ v, holds v i ((s, act) :: tr) s' = true → holds v i tr s = true := fun v hv =>
        ((hh v i).mp hv).resolve_left fun hvi => hne hvi.2
      obtain ⟨he, huniq⟩ := hex i u (hold u hu)
      exact ⟨by rw [hm, update_of_ne hne, ← hk, he], fun v hv => huniq v (hold v hv)⟩
  | wait t m hr hf hact hlive hheld hm hp hframe hh =>
    rw [hh] at hu
    obtain ⟨he, huniq⟩ := hex i u hu
    refine ⟨?_, fun v hv => huniq v (hh v i ▸ hv)⟩
    rcases eq_or_ne i m with rfl | hne
    · simpa [hm] using hheld
    · rw [hm, update_of_ne hne, ← hk, he]
  | put t m hr hf hact hlive hm hp hframe hh =>
    obtain ⟨hne, hold⟩ := (hh u i).mp hu
    obtain ⟨he, huniq⟩ := hex i u hold
    have hi : i ≠ m := by
      -- Of the mutex that is put, the task that puts it was the only holder.
      rintro rfl
      exact hne ⟨(huniq t (hg.put t i (by simp [hact, hr]))).symm, rfl⟩
    exact ⟨by rw [hm, update_of_ne hi, ← hk, he], fun v hv => huniq v ((hh v i).mp hv).2⟩
  | ret t m r o hr hact hf ha hframe hh => exact absurd ⟨t, m, r, o, hr, hf, hact⟩ hno
  | other hm hp hlive hh hframe =>
    rw [hh] at hu
    obtain ⟨he, huniq⟩ := hex i u hu
    exact ⟨by rw [hm, ← hk, he], fun v hv => huniq v (hh v i ▸ hv)⟩

/-- A task that has waited inside `mutex_get` and goes on breaks mutual exclusion. -/
theorem Held.not_exclusive_step (h : Held tr s a) (hcore : Core hst s a)
    (hs : s.step act = some s') (hres : ResumesGet s act) : ¬ Exclusive ((s, act) :: tr) s' := by
  obtain ⟨t, m, r, o, hr, hf, rfl⟩ := hres
  obtain ⟨hnot, rfl, hlive⟩ := h.waits t m r hf
  rw [Sys.step_resume_call hr hf] at hs
  obtain rfl := Option.some.inj hs
  intro hex
  -- The task holds the mutex, and nothing else has changed.
  have hself : holds t m ((s, .resume o) :: tr) { s with frame := update s.frame t none } = true :=
    holds_cons.mpr (Or.inl (returned_ret hr hf))
  obtain ⟨he, huniq⟩ := hex m t hself
  -- Who holds it already is another task.
  obtain ⟨u, hu⟩ := h.holder m hlive (hcore.sim.refines.mutex_eq ▸ he)
  obtain rfl := huniq u (holds_cons.mpr (Or.inr ⟨hu, by simp⟩))
  simp [hnot] at hu

/-- Mutual exclusion holds throughout a run exactly when no task that has waited inside `mutex_get`
goes on in it. -/
theorem exclusive_iff (h : SysRun MutexUsage tr s) :
    Always Exclusive tr s ↔ ∀ e ∈ tr, ¬ ResumesGet e.1 e.2 := by
  induction h with
  | nil => simp [Always, Exclusive, holds]
  | @cons tr s s' act hrun hg hs ih =>
    obtain ⟨a, hcore, hheld⟩ := SysRun.held hrun
    obtain ⟨a', hl, hcore'⟩ :=
      SysRun.lockstep hrun (fun _ _ _ hg => ⟨hg.usage, hg.passive⟩) hg hs hcore
    rw [Always, ih, List.forall_mem_cons]
    refine and_congr_left fun hall => ⟨fun hex hres => ?_, fun hno => ?_⟩
    · exact hheld.not_exclusive_step hcore hs hres hex
    · exact hheld.exclusive_step hcore hcore' hg (hl.mutexStep hcore hcore' hg.usage)
        (ih.mpr hall).last hno

/-- A mutex is handed over from `task 1` to `task 2`, which has waited for it, and then taken by
`task 1` while `task 2` sleeps. -/
def handOver : List Move := [
  .call (.taskCreate (some (.task 1)) (some 0) (some 0) 5),
  .call (.taskCreate (some (.task 2)) (some 0) (some 0) 5),
  .call (.mutexInit (some 0)),
  .start, .call .schedule,
  -- `task 1` takes the mutex and sleeps, and `task 2` waits.
  .call (.mutexGet (some 0)), .call (.osDelay 0), .call (.mutexGet (some 0)),
  -- `task 1` puts the mutex, and `task 2` goes on.
  .resume, .tick, .resume, .call (.mutexPut (some 0)), .resume,
  -- `task 2` sleeps, and `task 1` takes the mutex again.
  .call (.osDelay 0), .resume, .call (.mutexGet (some 0))]

/-- As long as `task 2` has not gone on, the mutex of `handOver` excludes. -/
theorem exclusive_handOver : ∃ tr s, SysRun MutexUsage tr s ∧
    tr.map Prod.snd = ((handOver.take 8).map Move.act).reverse ∧ Always Exclusive tr s := by
  have hreplay : (replay Move.mutexCheck (handOver.take 8) [] Sys.zero).isSome := by decide
  obtain ⟨⟨trA, sA⟩, hr⟩ := Option.isSome_iff_exists.mp hreplay
  obtain ⟨tr, s, a, hrun, -, -, -, hacts⟩ :=
    replay_run MutexUsage (fun _ _ _ _ _ _ hcore hs hu hm => .of_check hcore hs hu hm) hr
  refine ⟨tr, s, hrun, hacts, (exclusive_iff hrun).mpr fun e he hres => ?_⟩
  obtain ⟨_, _, _, o, -, -, hact⟩ := hres
  -- No task has gone on inside a call.
  have hmem := List.mem_map_of_mem (f := Prod.snd) he
  rw [hacts, hact] at hmem
  simp [handOver, Move.act] at hmem

/-- Two tasks hold one mutex. -/
theorem not_exclusive_handOver : ∃ tr s, SysRun MutexUsage tr s ∧
    tr.map Prod.snd = (handOver.map Move.act).reverse ∧
      holds (.task 1) 0 tr s = true ∧ holds (.task 2) 0 tr s = true ∧ ¬ Exclusive tr s := by
  have hreplay : (replay Move.mutexCheck handOver [] Sys.zero).map (fun r =>
      holds (.task 1) 0 r.1 r.2 && holds (.task 2) 0 r.1 r.2) = some true := by decide
  obtain ⟨⟨trA, sA⟩, hr, hh⟩ := Option.map_eq_some_iff.mp hreplay
  obtain ⟨tr, s, a, hrun, -, hs, rfl, hacts⟩ :=
    replay_run MutexUsage (fun _ _ _ _ _ _ hcore hs hu hm => .of_check hcore hs hu hm) hr
  rw [Bool.and_eq_true, hs.holds_eq, hs.holds_eq] at hh
  refine ⟨tr, s, hrun, hacts, hh.1, hh.2, fun hex => ?_⟩
  exact absurd ((hex 0 (.task 1) hh.1).2 (.task 2) hh.2) (by decide)

end Fos
