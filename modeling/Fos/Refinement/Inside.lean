import Fos.Refinement.System

/-!
# Inside a call

A call that calls `schedule` comes to it with its effect on the lists done and no task selected yet.
`Core.effect` is for this place what `Core.call` is for the return: the links represent the effect
of the call, and the invariant holds but for the running task, which has perhaps just put itself
where it waits. `Call.Blocks` says for which calls it has.
-/

namespace Fos

open Links Function

variable {hst : Hist} {s : Sys Kernel} {a : Abs} {c : Call} {t : TcbPtr}

/-- The call makes its caller wait or sleep. -/
def Call.Blocks (c : Call) (k : Kernel) : Prop :=
  match c with
  | .osDelay _ => True
  | .semGet (some i) => (k.sem i).count = 0
  | .mutexGet (some m) => (k.mutex m).enable = 0
  | .msgGet (some q) (some _) => isListLast k.heap (.msgHead q) = true
  | _ => False

/-- A call that is made as `CallUsage` says over the kernel is so over the abstract kernel. -/
theorem Core.callUsage_over (h : Core hst s a) (hu : CallUsage hst s s.running c) :
    CallUsage hst (s.over a) a.newTask c := by
  rw [← h.running_eq]
  match c with
  | .timerReq (some e) _ _ _ _ =>
    exact ⟨hu.1, fun hq => hu.2 ((h.sim.refines.queued_tick_iff e).mpr hq)⟩
  | .msgPut (some q) (some m) _ =>
    exact ⟨hu.1, fun q' hq' hm => hu.2 q' hq' ((h.sim.refines.queued_msg_iff hq' m).mpr hm)⟩
  | .taskCreate (some _) _ _ _ | .taskPrioChange (some _) _ | .semInit (some _) _ | .semGet (some _)
  | .semPut (some _) | .mutexInit (some _) | .mutexGet (some _) | .mutexPut (some _)
  | .msgQueueCreate (some _) _ | .msgGet (some _) _ => exact hu
  | .taskCreate none _ _ _ | .taskPrioChange none _ | .semInit none _ | .semGet none | .semPut none
  | .mutexInit none | .mutexGet none | .mutexPut none | .msgQueueCreate none _ | .msgGet none _
  | .timerReq none _ _ _ _ | .msgPut none _ _ | .msgPut (some _) none _ | .osDelay _ | .schedule =>
    trivial

/-- The effect of a call keeps the lists well formed. -/
theorem Core.wf_effect (h : Core hst s a) (hu : Usage hst s (.call c))
    (hnew : ∀ t', a.newTask = some t' → t' = t) : WF (setUp s.live c) (c.effect t a) := by
  obtain ⟨husage, hmain, hidle⟩ := hu
  rw [h.running_eq] at hmain hidle
  exact WF.effect (s := s.over a) h.sim.wf h.sim.ready (h.callUsage_over husage) hmain hidle
    h.copy_prio hnew

/-- The caller of a call that is not a set-up is ready, and is not the idle task. -/
theorem Core.caller (h : Core hst s a) (hu : Usage hst s (.call c))
    (hnew : ∀ t', a.newTask = some t' → t' = t) (hset : c.IsSetUp = false) (hne : c ≠ .schedule) :
    a.newTask = some t ∧ t ∈ a.tasks (.ready (a.prio t)) ∧ t ≠ idleTcb := by
  cases hr : a.newTask with
  | none => simp [hu.2.1 (h.running_eq.trans hr)] at hset
  | some t' =>
    obtain rfl := hnew t' hr
    exact ⟨rfl, h.sim.ready t' hr, fun e => hne (hu.2.2 (by rw [h.running_eq, hr, e]))⟩

/-- A call comes to its `schedule`, or to its return, in a state that represents its effect. -/
theorem Core.beforeSchedule (h : Core hst s a) (hu : Usage hst s (.call c))
    (hnew : ∀ t', a.newTask = some t' → t' = t) : ∃ k r b,
    s.k.beforeSchedule c = some (k, r, b) ∧ Refines (setUp s.live c) k (c.effect t a) := by
  have hcaller := h.caller hu hnew
  obtain ⟨href, w, -⟩ := h.sim
  obtain ⟨husage, hmain, hidle⟩ := hu
  -- A call without `schedule` does all it does.
  have hexec : ∀ {b : Abs × Ret}, a.exec c = some b → b.1 = c.effect t a →
      ∃ k r b, ((s.k.exec c).map fun r => (r.1, r.2, false)) = some (k, r, b) ∧
        Refines (setUp s.live c) k (c.effect t a) := by
    intro b hb heff
    obtain ⟨k, a', r, ek, ea, hsim⟩ := exec_sim h.sim husage hmain hidle h.copy_prio
    obtain rfl := Option.some.inj (ea.symm.trans hb)
    exact ⟨k, r, false, by rw [ek]; rfl, heff ▸ hsim.refines⟩
  cases c with
  | taskCreate | taskPrioChange | timerReq | semInit | mutexInit | msgQueueCreate | msgPut =>
    exact hexec rfl rfl
  | osDelay timeslice =>
    obtain ⟨hrun, ht, -⟩ := hcaller rfl (by simp)
    obtain ⟨k, e, hk⟩ := href.sleep w.tasks hrun ht timeslice
    exact ⟨k, .VOID, true, by simp [Kernel.beforeSchedule, e], hk⟩
  | semGet i =>
    cases i with
    | none => exact hexec rfl rfl
    | some i =>
      obtain ⟨hrun, ht, -⟩ := hcaller rfl (by simp)
      simp only [Kernel.beforeSchedule, Call.effect, href.sem_eq]
      by_cases hc : (a.sem i).count = 0
      · obtain ⟨k, e, hk⟩ := href.semWait w.tasks hrun ht husage
        rw [if_pos hc, if_pos hc]
        exact ⟨k, .TRUE, true, by rw [e]; rfl, hk⟩
      · rw [if_neg hc, if_neg hc]
        exact ⟨_, .TRUE, false, rfl, href.setSem i _⟩
  | semPut i =>
    cases i with
    | none => exact hexec rfl rfl
    | some i =>
      obtain ⟨k, e, hk⟩ := href.semRelease w.tasks husage
      exact ⟨k, .TRUE, true, by simp [Kernel.beforeSchedule, e], hk⟩
  | mutexGet m =>
    cases m with
    | none => exact ⟨s.k, .NO_MUTEX, false, rfl, href⟩
    | some m =>
      obtain ⟨hrun, ht, -⟩ := hcaller rfl (by simp)
      simp only [Kernel.beforeSchedule, Call.effect, href.mutex_eq]
      by_cases hc : (a.mutex m).enable = 0
      · obtain ⟨k, e, hk⟩ := href.mutexWait w.tasks hrun ht husage
        rw [if_pos hc, if_pos hc]
        exact ⟨k, .TRUE, true, by rw [e]; rfl, hk⟩
      · obtain ⟨k, e, hk⟩ := href.mutexTake w.tasks hrun ht m
        rw [if_neg hc, if_neg hc]
        exact ⟨k, .TRUE, false, by rw [e]; rfl, hk⟩
  | mutexPut m =>
    cases m with
    | none => exact ⟨s.k, .NO_MUTEX, false, rfl, href⟩
    | some m =>
      obtain ⟨hrun, ht, hne⟩ := hcaller rfl (by simp)
      obtain ⟨hlive, u, -, hget⟩ := husage
      obtain ⟨k, e, hk⟩ := href.mutexRelease w.tasks hrun ht hne (h.copy_prio u _ hget) hlive
      exact ⟨k, .TRUE, true, by simp [Kernel.beforeSchedule, e], hk⟩
  | msgGet q buffer =>
    cases q with
    | none => exact ⟨s.k, .FALSE, false, rfl, href⟩
    | some q =>
      cases buffer with
      | none => exact ⟨s.k, .FALSE, false, rfl, href⟩
      | some buf =>
        obtain ⟨hrun, ht, -⟩ := hcaller rfl (by simp)
        have hlast := href.isListLast_msgs husage
        simp only [Kernel.beforeSchedule, Call.effect]
        cases hl : a.msgs q with
        | nil =>
          obtain ⟨k, e, hk⟩ := href.msgWait w.tasks hrun ht husage
          rw [if_pos (hlast.mpr hl)]
          exact ⟨k, .EMPTY, true, by rw [e]; rfl, hk⟩
        | cons m ms =>
          obtain ⟨k, e, hk⟩ := href.msgTake w.msgs husage hl buf
          rw [if_neg fun e => by simp [hlast.mp e] at hl]
          exact ⟨k, .TRUE, false, by rw [e]; rfl, hk⟩
  | schedule => exact ⟨s.k, .VOID, true, rfl, href⟩

/-- `sem_put` leaves the running task ready. -/
theorem WF.runningReady_semRelease {live : Node → Bool} (w : WF live a) (hready : a.RunningReady)
    (i : ℕ) : (a.semRelease i).RunningReady := by
  unfold Abs.semRelease
  split_ifs
  · exact w.runningReady_wakeFirst hready (by simp)
  · exact hready
  · exact hready

/-- A task that waits or sleeps is not ready. -/
theorem WF.not_runningReady {live : Node → Bool} (w : WF live a) (hrun : a.newTask = some t)
    (h : (∃ q, t ∈ a.tasks q ∧ ∀ p, q ≠ .ready p) ∨ .delay t ∈ a.ticks) : ¬ a.RunningReady := by
  intro hready
  have ht := hready t hrun
  rcases h with ⟨q, hq, hne⟩ | hd
  · exact hne _ (w.tasks.apart _ _ t hq ht)
  · exact w.tasks.awake _ t ht hd

/-- Before its `schedule`, the caller is ready unless the call has made it wait. -/
theorem Core.runningReady_effect (h : Core hst s a) (hu : Usage hst s (.call c))
    (hnew : ∀ t', a.newTask = some t' → t' = t) :
    (c.effect t a).RunningReady ↔ ¬ c.Blocks s.k := by
  have hcaller := h.caller hu hnew
  have hwf := h.wf_effect hu hnew
  obtain ⟨href, w, hready⟩ := h.sim
  obtain ⟨husage, hmain, hidle⟩ := hu
  -- A call without `schedule` is its effect, and what runs is ready after every call.
  have hexec : ∀ {b : Abs × Ret}, a.exec c = some b → b.1 = c.effect t a →
      (c.effect t a).RunningReady := by
    intro b hb heff
    obtain ⟨k, a', r, ek, ea, hsim⟩ := exec_sim h.sim husage hmain hidle h.copy_prio
    obtain rfl := Option.some.inj (ea.symm.trans hb)
    exact heff ▸ hsim.ready
  cases c with
  | taskCreate | taskPrioChange | timerReq | semInit | mutexInit | msgQueueCreate | msgPut =>
    exact iff_of_true (hexec rfl rfl) id
  | osDelay timeslice =>
    obtain ⟨hrun, -, -⟩ := hcaller rfl (by simp)
    -- The caller sleeps in the tick queue.
    refine iff_of_false (hwf.not_runningReady hrun (Or.inr ?_)) (not_not.mpr trivial)
    exact List.mem_append_right _ (List.mem_singleton_self _)
  | semGet i =>
    cases i with
    | none => exact iff_of_true hready id
    | some i =>
      obtain ⟨hrun, -, -⟩ := hcaller rfl (by simp)
      simp only [Call.effect, Call.Blocks, href.sem_eq] at hwf ⊢
      by_cases hc : (a.sem i).count = 0
      · rw [if_pos hc] at hwf ⊢
        -- The caller waits for the semaphore.
        refine iff_of_false
          (hwf.not_runningReady hrun (Or.inl ⟨.sem i, ?_, by simp⟩)) (not_not.mpr hc)
        simp [Abs.semWait, Abs.block, Abs.pushTail]
      · rw [if_neg hc]
        exact iff_of_true hready hc
  | semPut i =>
    cases i with
    | none => exact iff_of_true hready id
    | some i => exact iff_of_true (w.runningReady_semRelease hready i) id
  | mutexGet m =>
    cases m with
    | none => exact iff_of_true hready id
    | some m =>
      obtain ⟨hrun, -, -⟩ := hcaller rfl (by simp)
      simp only [Call.effect, Call.Blocks, href.mutex_eq] at hwf ⊢
      by_cases hc : (a.mutex m).enable = 0
      · rw [if_pos hc] at hwf ⊢
        -- The caller waits for the mutex.
        refine iff_of_false (hwf.not_runningReady hrun (Or.inl ⟨.mutex m, ?_, by simp⟩))
          (not_not.mpr hc)
        simp [Abs.mutexWait, Abs.block, Abs.pushTail]
      · rw [if_neg hc]
        -- The caller only moves to the ready list of the mutex.
        exact iff_of_true (Abs.runningReady_reprio (by exact hrun)) hc
  | mutexPut m =>
    cases m with
    | none => exact iff_of_true hready id
    | some m =>
      obtain ⟨hrun, ht, hne⟩ := hcaller rfl (by simp)
      obtain ⟨-, u, -, hget⟩ := husage
      -- The caller is ready at its own priority again, and the task that is woken is another one.
      have hreprio := (w.setMutex m { a.mutex m with enable := 1 }).reprio (by exact ht) hne
        (h.copy_prio u m hget)
      exact iff_of_true (hreprio.runningReady_wakeFirst (Abs.runningReady_reprio (by exact hrun))
        (by simp)) id
  | msgGet q buffer =>
    cases q with
    | none => exact iff_of_true hready id
    | some q =>
      cases buffer with
      | none => exact iff_of_true hready id
      | some buf =>
        obtain ⟨hrun, -, -⟩ := hcaller rfl (by simp)
        have hlast := href.isListLast_msgs husage
        simp only [Call.effect, Call.Blocks, hlast] at hwf ⊢
        cases hl : a.msgs q with
        | nil =>
          rw [hl] at hwf
          refine iff_of_false (hwf.not_runningReady hrun (Or.inl ⟨.queue q, ?_, by simp⟩)) (by simp)
          simp [Abs.block, Abs.pushTail]
        | cons m ms => exact iff_of_true hready (by simp)
  | schedule => exact iff_of_true hready id

/-- What holds where a call comes to its `schedule`, or to its return: the invariant, whatever
becomes of the caller's frame. -/
theorem Core.effect (h : Core hst s a) (hu : Usage hst s (.call c))
    (hnew : ∀ t', a.newTask = some t' → t' = t) : ∃ k r b,
    s.k.beforeSchedule c = some (k, r, b) ∧
      Within ((s.running, .call c) :: hst) ⟨k, s.frame, setUp s.live c⟩ (c.effect t a) := by
  obtain ⟨k, r, b, e, href⟩ := h.beforeSchedule hu hnew
  exact ⟨k, r, b, e, h.within_call hnew hu.1 hu.2.1 ⟨href, h.wf_effect hu hnew⟩ rfl
    Call.effect_frame fun _ _ => id⟩

end Fos
