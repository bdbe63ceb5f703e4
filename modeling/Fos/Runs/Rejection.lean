import Fos.Refinement.Replay

/-!
# Rejected messages

`msg_put` releases the first task that waits for a message before it tests whether the queue is
full. A full queue may have such tasks: those that a put has not released yet. So a put that is
rejected leaves the kernel as it was exactly if no task waits at the queue (`put_rejected_iff`).
-/

namespace Fos

open Links Function

/-- No task waits at the queue that the call puts its message into. -/
def Unattended (s : Sys Kernel) (entry msg : Option ℕ) : Prop :=
  ∀ i m, entry = some i → msg = some m → ∀ t, ¬ Queued s.k.heap (.queue i) (.tcb t)

variable {hst : Hist} {s : Sys Kernel} {a : Abs} {entry msg : Option ℕ} {method : ℕ} {k' : Kernel}
  {r : Ret}

/-- A `msg_put` that is rejected where no task waits leaves the kernel as it was. -/
theorem Kernel.msgPut_rejected {k : Kernel} (h : k.msgPut entry msg method = some (k', r))
    (hr : r ≠ .TRUE) (hlast : ∀ i m, entry = some i → msg = some m →
      isListLast k.heap (.queue i) = true) : k' = k := by
  match entry, msg with
  | none, _ | some _, none => exact (Prod.mk.inj (Option.some.inj h)).1.symm
  | some i, some m =>
    rw [msgPut_eq] at h
    split_ifs at h
    · exact (Prod.mk.inj (Option.some.inj h)).1.symm
    · rw [msgRelease, if_neg (by simp [hlast i m rfl rfl]), Option.bind_some] at h
      unfold msgInsert at h
      split_ifs at h
      · exact (Prod.mk.inj (Option.some.inj h)).1.symm
      -- The message is accepted.
      · obtain ⟨heap, -, h⟩ := Option.bind_eq_some_iff.mp h
        exact absurd (Prod.mk.inj (Option.some.inj h)).2.symm hr
      · exact absurd (Prod.mk.inj (Option.some.inj h)).2.symm hr

/-- A `msg_put` that is rejected leaves the kernel as it was exactly if no task waits there. -/
theorem Core.rejected_iff (h : Core hst s a)
    (hu : Usage hst s (.call (.msgPut entry msg method)))
    (he : s.k.exec (.msgPut entry msg method) = some (k', r)) (hr : r ≠ .TRUE) :
    k' = s.k ↔ Unattended s entry msg := by
  constructor
  · rintro rfl i m rfl rfl t ht
    obtain ⟨husage, hmain, hidle⟩ := hu
    have hlive : s.live (.queue i) = true := husage.1
    have ht : t ∈ a.tasks (.queue i) :=
      (h.sim.refines.queued_task_iff (q := .queue i) hlive t).mp ht
    obtain ⟨u, us, hl⟩ := List.exists_cons_of_ne_nil (List.ne_nil_of_mem ht)
    obtain ⟨k₁, a', r₁, ek, ea, hsim⟩ := exec_sim h.sim husage hmain hidle h.copy_prio
    obtain ⟨rfl, rfl⟩ := Prod.mk.inj (Option.some.inj (ek.symm.trans he))
    -- The first task that waits has been released.
    have htasks : a'.tasks (.queue i) = us := by
      have heff : a.wakeFirst (.queue i) = a' := by
        have ha : a.msgPut (some i) (some m) method = (a', r₁) := Option.some.inj ea
        unfold Abs.msgPut at ha
        dsimp only at ha
        split_ifs at ha
        · exact (Prod.mk.inj ha).1
        · exact absurd (Prod.mk.inj ha).2.symm hr
      rw [← heff, Abs.wakeFirst_tasks _ (fun _ hu _ => rfl) (by simp), if_pos rfl, hl,
        List.tail_cons]
    have hrep := hsim.refines.rep (q := .queue i) hlive
    rw [htasks] at hrep
    have hsame := hrep.unique (h.sim.refines.rep (q := .queue i) hlive)
    rw [hl] at hsame
    exact absurd (congrArg List.length hsame) (by simp)
  · intro hun
    refine Kernel.msgPut_rejected he hr fun i m hi hm => ?_
    obtain ⟨rfl, rfl⟩ : entry = some i ∧ msg = some m := ⟨hi, hm⟩
    have hlive : s.live (.queue i) = true := hu.1.1
    refine (h.sim.refines.isListLast_iff (q := .queue i) hlive).mpr
      (List.eq_nil_iff_forall_not_mem.mpr fun t ht => ?_)
    exact hun i m rfl rfl t ((h.sim.refines.queued_task_iff (q := .queue i) hlive t).mpr ht)

/-- In every run, a `msg_put` that is rejected leaves the kernel as it was exactly if no task waits
at the queue. -/
theorem put_rejected_iff {tr : Trace Kernel}
    (hrun : SysRun (fun tr s act => Orderly (hist tr) s act) tr s)
    (ho : Orderly (hist tr) s (.call (.msgPut entry msg method)))
    (he : s.k.exec (.msgPut entry msg method) = some (k', r)) (hr : r = .FULL ∨ r = .FALSE) :
    k' = s.k ↔ Unattended s entry msg := by
  obtain ⟨a, hcore⟩ := hrun.core fun _ _ _ hg => hg
  refine hcore.rejected_iff ho.usage he ?_
  rcases hr with rfl | rfl <;> simp

/-- A queue is full, and no task waits at it. -/
def full : List Move := [
  .call (.taskCreate (some (.task 1)) (some 0) (some 0) 5),
  .call (.msgQueueCreate (some 0) 1),
  .start, .call .schedule, .call (.msgPut (some 0) (some 1) FIFO)]

/-- A `msg_put` into the full queue leaves the kernel as it was. -/
theorem put_rejected_full : ∃ tr s, SysRun (fun tr s act => Orderly (hist tr) s act) tr s ∧
    tr.map Prod.snd = (full.map Move.act).reverse ∧ Unattended s (some 0) (some 2) ∧
      s.k.exec (.msgPut (some 0) (some 2) FIFO) = some (s.k, .FULL) := by
  have hreplay : (replay (fun _ _ _ => true) full [] Sys.zero).map (fun r =>
      (r.2.live (.queue 0), r.2.k.tasks (.queue 0),
        (r.2.k.exec (.msgPut (some 0) (some 2) FIFO)).map Prod.snd,
        (Move.call (.msgPut (some 0) (some 2) FIFO)).check (hist r.1) r.2)) =
        some (true, [], some .FULL, true) := by decide
  obtain ⟨⟨trA, sA⟩, hr, hh⟩ := Option.map_eq_some_iff.mp hreplay
  obtain ⟨tr, s, a, hrun, hcore, rfl, hacts, hnext⟩ := replay_orderly Sys.zero_init hr
  simp only [Prod.mk.injEq] at hh
  obtain ⟨hlive, hwaits, hret, hcheck⟩ := hh
  have ho := hnext _ hcheck
  have hun : Unattended s (some 0) (some 2) := by
    rintro i m hi - t ht
    obtain rfl := Option.some.inj hi
    have := (hcore.sim.refines.queued_task_iff (q := .queue 0) hlive t).mp ht
    rw [show a.tasks (.queue 0) = [] from hwaits] at this
    exact absurd this List.not_mem_nil
  obtain ⟨k', a', r, ek, ea, -⟩ := exec_sim hcore.sim ho.usage.1 ho.usage.2.1 ho.usage.2.2
    hcore.copy_prio
  obtain rfl : r = .FULL := by
    rw [show (s.over a).k.exec _ = some (a', r) from ea] at hret
    exact Option.some.inj hret
  have hk := (put_rejected_iff hrun ho ek (Or.inl rfl)).mpr hun
  exact ⟨tr, s, hrun, hacts, hun, by rw [ek, hk]⟩

/-- Two tasks wait at a queue for one message, and a put has released the first of them. -/
def stillWaits : List Move := [
  .call (.taskCreate (some (.task 1)) (some 0) (some 0) 5),
  .call (.taskCreate (some (.task 2)) (some 0) (some 0) 6),
  .call (.taskCreate (some (.task 3)) (some 0) (some 0) 7),
  .call (.msgQueueCreate (some 0) 1),
  .start, .call .schedule,
  .call (.msgGet (some 0) (some 100)), .call (.msgGet (some 0) (some 200)),
  .call (.msgPut (some 0) (some 1) FIFO)]

/-- A `msg_put` into the full queue releases the second one. -/
theorem not_put_rejected_stillWaits : ∃ tr s k',
    SysRun (fun tr s act => Orderly (hist tr) s act) tr s ∧
      tr.map Prod.snd = (stillWaits.map Move.act).reverse ∧
        Orderly (hist tr) s (.call (.msgPut (some 0) (some 2) FIFO)) ∧
          s.k.exec (.msgPut (some 0) (some 2) FIFO) = some (k', .FULL) ∧
            Represents s.k.heap (.queue 0) [.tcb (.task 2)] ∧ Represents k'.heap (.queue 0) [] ∧
              k' ≠ s.k := by
  -- The run is computed on the abstract state, and carried over to the code.
  have hreplay : (replay (fun _ _ _ => true) stillWaits [] Sys.zero).map (fun r =>
      (r.2.live (.queue 0), r.2.k.tasks (.queue 0),
        (r.2.k.exec (.msgPut (some 0) (some 2) FIFO)).map (fun r =>
          decide (r.1.tasks (.queue 0) = [] ∧ r.2 = .FULL)),
        (Move.call (.msgPut (some 0) (some 2) FIFO)).check (hist r.1) r.2)) =
        some (true, [.task 2], some true, true) := by decide
  obtain ⟨⟨trA, sA⟩, hr, hh⟩ := Option.map_eq_some_iff.mp hreplay
  obtain ⟨tr, s, a, hrun, hcore, rfl, hacts, hnext⟩ := replay_orderly Sys.zero_init hr
  simp only [Prod.mk.injEq] at hh
  obtain ⟨hlive, hwaits, hret, hcheck⟩ := hh
  have ho := hnext _ hcheck
  obtain ⟨k', a', r, ek, ea, hsim⟩ := exec_sim hcore.sim ho.usage.1 ho.usage.2.1 ho.usage.2.2
    hcore.copy_prio
  rw [show (s.over a).k.exec _ = some (a', r) from ea, Option.map_some, Option.some.injEq,
    decide_eq_true_eq] at hret
  obtain ⟨hreleased, rfl⟩ := hret
  have hrep := hcore.sim.refines.rep (q := .queue 0) hlive
  have hrep' := hsim.refines.rep (q := .queue 0) hlive
  rw [show a.tasks (.queue 0) = _ from hwaits] at hrep
  rw [hreleased] at hrep'
  refine ⟨tr, s, k', hrun, hacts, ho, ek, hrep, hrep', ?_⟩
  rintro rfl
  exact absurd (hrep.unique hrep') (by simp)

end Fos
