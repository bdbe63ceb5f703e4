import Fos.Runs.Control

/-!
# Holding a mutex

A task holds a mutex from the return of its `mutex_get` to its `mutex_put` (`holds`). What one step
does to the mutexes and to the priorities of the tasks is said once, in `MutexStep`: a free mutex is
taken, a task is put to wait for a held one, a mutex is put back, a task that has waited returns, or
nothing of this happens.
-/

namespace Fos

open Function

/-- The task holds the mutex: a `mutex_get` has returned `TRUE` to it, and it has not called
`mutex_put` since. -/
def holds {κ : Type} [Machine κ] (t : TcbPtr) (m : ℕ) : Trace κ → Sys κ → Bool
  | [], _ => false
  | e :: tr, s => returned e.1 e.2 s = some (t, .mutexGet (some m), .TRUE) ||
      (holds t m tr e.1 && called e.1 e.2 ≠ some (t, .mutexPut (some m)))

/-- The system is used as the mutexes ask for: a task puts only a mutex that it holds, and gets only
one that it does not hold. Callbacks are passive. -/
structure MutexUsage (tr : Trace Kernel) (s : Sys Kernel) (act : Action) : Prop where
  usage : Usage (hist tr) s act
  passive : Passive act
  put : ∀ t m, called s act = some (t, .mutexPut (some m)) → holds t m tr s = true
  get : ∀ t m, called s act = some (t, .mutexGet (some m)) → holds t m tr s = false

variable {hst : Hist} {tr : Trace Kernel} {s s' : Sys Kernel} {trA : Trace Abs} {a a' : Abs}
  {act : Action} {t u : TcbPtr} {m : ℕ}

/-- Who holds a mutex after one more step. -/
theorem holds_cons : holds t m ((s, act) :: tr) s' = true ↔
    returned s act s' = some (t, .mutexGet (some m), .TRUE) ∨
      (holds t m tr s = true ∧ called s act ≠ some (t, .mutexPut (some m))) := by
  simp [holds]

/-- The same tasks hold the same mutexes in a run of the abstract kernel. -/
theorem Shadow.holds_eq (h : Shadow tr s trA a) : holds t m trA (s.over a) = holds t m tr s := by
  induction h with
  | nil => rfl
  | @cons tr s s' trA a a' act _ hrun hret ih =>
    have hcall : called (s.over a) act = called s act := by
      unfold called
      rw [hrun]
    rw [holds, holds, hret, ih, hcall]

/-- The task to which an action gives a priority that is not for a mutex, and the priority. -/
def Action.rebases : Action → Option (TcbPtr × ℕ)
  | .call c => c.rebases
  | _ => none

/-- The move is one that `MutexUsage` allows. -/
def Move.mutexCheck (tr : Trace Abs) (s : Sys Abs) (m : Move) : Bool :=
  match called s m.act with
  | some (t, .mutexPut (some i)) => holds t i tr s
  | some (t, .mutexGet (some i)) => !holds t i tr s
  | _ => true

/-- A move that passes the check is one that `MutexUsage` allows. -/
theorem MutexUsage.of_check {m : Move} (hcore : Core (hist tr) s a) (hs : Shadow tr s trA a)
    (hu : Usage (hist tr) s m.act) (hm : m.mutexCheck trA (s.over a) = true) :
    MutexUsage tr s m.act := by
  have hcall : called (s.over a) m.act = called s m.act := by
    unfold called
    rw [hcore.running_over]
  unfold Move.mutexCheck at hm
  rw [hcall] at hm
  refine ⟨hu, m.passive_act, fun t i h => ?_, fun t i h => ?_⟩
  · rw [← hs.holds_eq]
    simpa [h] using hm
  · rw [← hs.holds_eq]
    simpa [h] using hm

/-- What one step does to the mutexes, to their holders, and to the priorities. -/
inductive MutexStep (tr : Trace Kernel) (s : Sys Kernel) (a : Abs) (act : Action) (s' : Sys Kernel)
    (a' : Abs) : Prop
  /-- A new mutex is free. -/
  | init (m : ℕ) (hact : act = .call (.mutexInit (some m))) (hlive : s.live (.mutex m) = false)
      (hm : a'.mutex = update a.mutex m { a.mutex m with enable := 1 }) (hp : a'.prio = a.prio)
      (hh : ∀ u i, holds u i ((s, act) :: tr) s' = holds u i tr s)
      (hframe : ∀ u i r, s'.frame u = some (.call (.mutexGet (some i)) r) →
        s.frame u = some (.call (.mutexGet (some i)) r))
  /-- A task takes a free mutex, and is raised to the ceiling. -/
  | take (t : TcbPtr) (m : ℕ) (hr : s.running = some t) (hf : s.frame t = none)
      (hact : act = .call (.mutexGet (some m))) (hlive : s.live (.mutex m) = true)
      (hfree : (a.mutex m).enable ≠ 0)
      (hm : a'.mutex = update a.mutex m { a.mutex m with copyPrio := a.prio t, enable := 0 })
      (hp : a'.prio = update a.prio t PRIO_MUTEX) (hframe : s'.frame = s.frame)
      (hh : ∀ u i, holds u i ((s, act) :: tr) s' = true ↔
        (u = t ∧ i = m) ∨ holds u i tr s = true)
  /-- A task waits for a mutex that is held. -/
  | wait (t : TcbPtr) (m : ℕ) (hr : s.running = some t) (hf : s.frame t = none)
      (hact : act = .call (.mutexGet (some m))) (hlive : s.live (.mutex m) = true)
      (hheld : (a.mutex m).enable = 0)
      (hm : a'.mutex = update a.mutex m { a.mutex m with tcb := some t }) (hp : a'.prio = a.prio)
      (hframe : s'.frame = update s.frame t (some (.call (.mutexGet (some m)) .TRUE)))
      (hh : ∀ u i, holds u i ((s, act) :: tr) s' = holds u i tr s)
  /-- A task puts a mutex, and gets the priority that the mutex has kept. -/
  | put (t : TcbPtr) (m : ℕ) (hr : s.running = some t) (hf : s.frame t = none)
      (hact : act = .call (.mutexPut (some m))) (hlive : s.live (.mutex m) = true)
      (hm : a'.mutex = update a.mutex m { a.mutex m with enable := 1 })
      (hp : a'.prio = update a.prio t (a.mutex m).copyPrio)
      (hframe : ∀ u i r, s'.frame u = some (.call (.mutexGet (some i)) r) →
        s.frame u = some (.call (.mutexGet (some i)) r))
      (hh : ∀ u i, holds u i ((s, act) :: tr) s' = true ↔
        ¬ (u = t ∧ i = m) ∧ holds u i tr s = true)
  /-- A task that has waited for a mutex returns. -/
  | ret (t : TcbPtr) (m : ℕ) (r : Ret) (o : Oracle) (hr : s.running = some t)
    (hact : act = .resume o)
      (hf : s.frame t = some (.call (.mutexGet (some m)) r)) (ha : a' = a)
      (hframe : s'.frame = update s.frame t none)
      (hh : ∀ u i, holds u i ((s, act) :: tr) s' = true ↔
        (u = t ∧ i = m ∧ r = .TRUE) ∨ holds u i tr s = true)
  /-- Anything else; a task may be given another priority. -/
  | other (hm : a'.mutex = a.mutex)
      (hp : a'.prio = match act.rebases with
        | some (u, p) => update a.prio u p
        | none => a.prio)
      (hlive : ∀ i, s'.live (.mutex i) = s.live (.mutex i))
      (hh : ∀ u i, holds u i ((s, act) :: tr) s' = holds u i tr s)
      (hframe : ∀ u i r, s'.frame u = some (.call (.mutexGet (some i)) r) →
        s.frame u = some (.call (.mutexGet (some i)) r))

/-- No one takes or puts a mutex. -/
theorem holds_cons_of_ne (hret : ∀ t m r, returned s act s' ≠ some (t, .mutexGet (some m), r))
    (hcall : ∀ t m, called s act ≠ some (t, .mutexPut (some m))) (u : TcbPtr) (i : ℕ) :
    holds u i ((s, act) :: tr) s' = holds u i tr s := by
  rw [Bool.eq_iff_iff, holds_cons]
  simp [hret u i, hcall u i]

/-- No one takes or puts a mutex by another call. -/
theorem holds_cons_call {c : Call} (hget : ∀ m, c ≠ .mutexGet (some m))
    (hput : ∀ m, c ≠ .mutexPut (some m)) (u : TcbPtr) (i : ℕ) :
    holds u i ((s, .call c) :: tr) s' = holds u i tr s := by
  refine holds_cons_of_ne (fun t m r h => hget m (eq_of_returned h).2.symm) (fun t m h => ?_) u i
  rw [called_call, Option.map_eq_some_iff] at h
  obtain ⟨_, -, h⟩ := h
  exact hput m (Prod.mk.inj h).2

/-- A call that is not about a mutex. -/
theorem MutexStep.of_exec {c : Call} {r : Ret} (ha : a.exec c = some (a', r))
    (hu : CallUsage hst s s.running c) (hm : c.mutexArg = none) (hset : s'.live = setUp s.live c)
    (hframe : ∀ u i r, s'.frame u = some (.call (.mutexGet (some i)) r) →
      s.frame u = some (.call (.mutexGet (some i)) r)) : MutexStep tr s a (.call c) s' a' := by
  obtain ⟨t₀, hnew⟩ := a.exists_caller
  refine .other (funext fun m => (Abs.exec_frame hnew ha).mutex m (by simp [hm])) ?_
    (fun i => ?_) ?_
    hframe
  · exact Abs.exec_prio ha hm fun u p hc => by
      subst hc
      exact hu.2
  · rw [hset]
    exact setUp_of_ne fun heq => by simp [Call.eq_of_setsUp_mutex heq, Call.mutexArg] at hm
  · exact holds_cons_call (fun m hc => by simp [hc, Call.mutexArg] at hm)
      fun m hc => by simp [hc, Call.mutexArg] at hm

/-- What a new mutex is. -/
theorem MutexStep.of_mutexInit {r : Ret} (ha : a.exec (.mutexInit (some m)) = some (a', r))
    (hu : CallUsage hst s s.running (.mutexInit (some m)))
    (hframe : ∀ u i r, s'.frame u = some (.call (.mutexGet (some i)) r) →
      s.frame u = some (.call (.mutexGet (some i)) r)) :
    MutexStep tr s a (.call (.mutexInit (some m))) s' a' := by
  obtain ⟨t₀, hnew⟩ := a.exists_caller
  have hkeep := Abs.exec_frame hnew ha
  refine .init m rfl hu (funext fun m' => ?_)
    (funext fun u => hkeep.prio u (by simp [Call.prioArg]))
    (holds_cons_call (by simp) (by simp)) hframe
  rcases eq_or_ne m' m with rfl | hne
  · rw [update_self, Abs.exec_mutexInit ha]
  · rw [update_of_ne hne]
    exact hkeep.mutex m' (by simpa [Call.mutexArg] using hne)

/-- What a call of `mutex_get` or `mutex_put` by a task is. -/
theorem MutexStep.of_mutex_call {c : Call} {k' : Kernel} {r : Ret} (hcore : Core hst s a)
    {hst' : Hist} (hcore' : Core hst' ⟨k', s.callFrame t c k' r, setUp s.live c⟩ a')
    (hr : s.running = some t) (hf : s.frame t = none) (hk : s.k.exec c = some (k', r))
    (ha : a.exec c = some (a', r)) (hu : Usage hst s (.call c))
    (hc : c = .mutexGet (some m) ∨ c = .mutexPut (some m)) :
    MutexStep tr s a (.call c) ⟨k', s.callFrame t c k' r, setUp s.live c⟩ a' := by
  have hrun : a.newTask = some t := hcore.running_eq.symm.trans hr
  have hkeep := Abs.exec_frame (t := t) (fun t' ht' => Option.some.inj (ht'.symm.trans hrun)) ha
  have hnew : k'.newTask = a'.newTask := hcore'.sim.refines.newTask_eq
  -- Of the other mutexes nothing changes.
  have hmutex : ∀ x, a'.mutex m = x → a'.mutex = update a.mutex m x := by
    intro x hx
    funext m'
    rcases eq_or_ne m' m with rfl | hne
    · rw [update_self, hx]
    · rw [update_of_ne hne]
      exact hkeep.mutex m' (by rcases hc with rfl | rfl <;> simpa [Call.mutexArg] using hne)
  rcases hc with rfl | rfl
  · obtain rfl : r = .TRUE := Abs.exec_mutexGet_ret ha
    by_cases hheld : (a.mutex m).enable = 0
    · obtain ⟨hm, hp⟩ := Abs.exec_mutexGet_wait hrun ha hheld
      -- The caller waits, so that another task has been selected.
      have hother : k'.newTask ≠ some t := hnew ▸
        hcore.newTask_ne_of_waits (q := .mutex m) hcore' hu hrun ha
          (by simp [Call.waitsIn, hheld])
      have hleft : s.callFrame t (.mutexGet (some m)) k' .TRUE =
          update s.frame t (some (.call (.mutexGet (some m)) .TRUE)) := by
        unfold Sys.callFrame
        exact if_neg hother
      refine .wait t m hr hf rfl hu.1 hheld (hmutex _ hm) hp hleft
        (holds_cons_of_ne (fun u i r => ?_) (by simp [hr]))
      rw [returned_call hr hk]
      simp [hleft]
    · obtain ⟨hm, hp, hself⟩ := Abs.exec_mutexGet_take hrun ha hheld
      have hsame : s.callFrame t (.mutexGet (some m)) k' .TRUE = s.frame := by
        unfold Sys.callFrame
        exact if_pos (hnew.trans hself)
      refine .take t m hr hf rfl hu.1 hheld (hmutex _ hm) hp hsame fun u i => ?_
      rw [holds_cons, returned_call hr hk]
      simp [hsame, hf, hr, eq_comm (a := u), eq_comm (a := i)]
  · obtain ⟨hm, hp⟩ := Abs.exec_mutexPut hrun ha
    refine .put t m hr hf rfl hu.1.1 (hmutex _ hm) hp (fun u i r h => ?_) fun u i => ?_
    · exact (Sys.callFrame_cases hf h).resolve_right (by simp)
    · have hret : ∀ u i r, returned s (.call (.mutexPut (some m)))
          ⟨k', s.callFrame t (.mutexPut (some m)) k' r, setUp s.live (.mutexPut (some m))⟩ ≠
            some (u, .mutexGet (some i), r) :=
        fun u i r h => by simpa using (eq_of_returned h).2
      rw [holds_cons]
      simp only [called_call, hr, Option.map_some]
      constructor
      · rintro (h | ⟨hh, hne⟩)
        · simpa using (eq_of_returned h).2
        · refine ⟨?_, hh⟩
          rintro ⟨rfl, rfl⟩
          exact hne rfl
      · rintro ⟨hne, hh⟩
        refine Or.inr ⟨hh, fun heq => hne ?_⟩
        obtain ⟨hu, hi⟩ := by simpa using heq
        exact ⟨hu.symm, hi.symm⟩

/-- Every step is one of these. -/
theorem Lockstep.mutexStep (h : Lockstep s a act s' a') (hcore : Core hst s a)
    {hst' : Hist} (hcore' : Core hst' s' a') (hu : Usage hst s act) :
    MutexStep tr s a act s' a' := by
  cases h with
  | @main c k' _ r hr hk ha =>
    by_cases hm : c.mutexArg = none
    · exact .of_exec ha hu.1 hm rfl fun _ _ _ h => h
    · have hset := hu.2.1 hr
      cases c with
      | mutexInit m =>
        obtain ⟨m, rfl⟩ := Option.ne_none_iff_exists'.mp hm
        exact .of_mutexInit ha hu.1 fun _ _ _ h => h
      | mutexGet m => cases hset
      | mutexPut m => cases hset
      | _ => exact absurd rfl hm
  | @call t c k' _ r hr hf hk ha hnew =>
    -- The frame of a call that is not `mutex_get`.
    have hframe : (∀ m, c ≠ .mutexGet (some m)) → ∀ u i r',
        s.callFrame t c k' r u = some (.call (.mutexGet (some i)) r') →
          s.frame u = some (.call (.mutexGet (some i)) r') := fun hc u i r' h =>
      (Sys.callFrame_cases hf h).resolve_right fun h => hc i h.2.1.symm
    cases hc : c.mutexArg with
    | none => exact .of_exec ha hu.1 hc rfl (hframe fun m h => by simp [h, Call.mutexArg] at hc)
    | some m =>
      cases c with
      | mutexInit m' =>
        obtain rfl : m' = some m := hc
        exact .of_mutexInit ha hu.1 (hframe (by simp))
      | mutexGet m' =>
        obtain rfl : m' = some m := hc
        exact .of_mutex_call hcore hcore' hr hf hk ha hu (Or.inl rfl)
      | mutexPut m' =>
        obtain rfl : m' = some m := hc
        exact .of_mutex_call hcore hcore' hr hf hk ha hu (Or.inr rfl)
      | _ => cases hc
  | @tick t o k' _ f hr hf hk ha =>
    have hpass := (hcore.sim.wf.passFrom_hardwareTimer ha).1
    exact .other (by rw [hpass.vars]) (by rw [hpass.vars]; rfl) (fun _ => rfl)
      (holds_cons_of_ne (by simp) (by simp)) fun _ _ _ => Sys.frame_of_passFrame
  | @ret t o c r hr hf =>
    have hret : returned s (.resume o) ⟨s.k, update s.frame t none, s.live⟩ = some (t, c, r) :=
      returned_ret hr hf
    by_cases hc : ∃ m, c = .mutexGet (some m)
    · obtain ⟨m, rfl⟩ := hc
      refine .ret t m r o hr rfl hf rfl rfl fun u i => ?_
      rw [holds_cons, hret]
      simp [eq_comm (a := u), eq_comm (a := i)]
    · refine .other rfl rfl (fun _ => rfl) (holds_cons_of_ne (fun u i r' => ?_) (by simp))
        fun u i r' h => ?_
      · rw [hret]
        intro heq
        obtain ⟨-, rfl, -⟩ := by simpa using heq
        exact hc ⟨i, rfl⟩
      · exact Sys.frame_of_passFrame (f := none) h
  | @pass t o f k' _ f' hr hf hk ha =>
    obtain ⟨hn, hmem, -⟩ := hcore.timer t f hf
    have hpass := (hcore.sim.wf.passFrom_hardwareTimerResume hn hmem ha).1
    exact .other (by rw [hpass.vars]) (by rw [hpass.vars]; rfl) (fun _ => rfl)
      (holds_cons_of_ne (fun _ _ _ => by rw [returned_pass hr hf]; simp) (by simp))
      fun _ _ _ => Sys.frame_of_passFrame
  | start hr =>
    exact .other rfl rfl (fun _ => rfl) (holds_cons_of_ne (by simp) (by simp)) fun _ _ _ h => h

end Fos
