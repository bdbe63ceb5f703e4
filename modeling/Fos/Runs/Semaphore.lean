import Fos.Lib.Semaphore
import Fos.Runs.Control

/-!
# Semaphores

In every run with passive callbacks a semaphore is the counting semaphore of `Lib/Semaphore.lean`:
its `count` and the tasks that wait on it are those of a ledger that every `sem_get` and `sem_put`
is entered in (`Lockstep.ledger`). So its units are conserved and granted in order, and no `sem_get`
returns before it is granted (`sem_conserved`).
-/

namespace Fos

open Links Function Runs Counting

/-- The tasks to which a step grants a unit of the semaphore: the caller of a `sem_get` that finds
one, or the waiter that a `sem_put` dequeues. -/
def grants (i : ℕ) (s : Sys Kernel) (act : Action) : List TcbPtr :=
  match called s act with
  | some (t, .semGet (some j)) => if j = i ∧ (s.k.sem i).count ≠ 0 then [t] else []
  | some (_, .semPut (some j)) => if j = i then firstTask s.k (.sem i) else []
  | _ => []

/-- The tasks whose `sem_put` finds the largest count and no waiter. -/
def losses (i : ℕ) (s : Sys Kernel) (act : Action) : List TcbPtr :=
  match called s act with
  | some (t, .semPut (some j)) =>
    if j = i ∧ (s.k.sem i).count = U32_MAX ∧ isListLast s.k.heap (.sem i) = true then [t] else []
  | _ => []

/-- The units of the semaphore, which began with `n`, in a run so far. -/
structure Conserved (i n : ℕ) (tr : Trace Kernel) (s : Sys Kernel) : Prop where
  /-- While the count is positive, nobody waits. -/
  free : 0 < (s.k.sem i).count → Represents s.k.heap (.sem i) []
  /-- Every unit has been granted, is free, or has been lost. -/
  balance : (collect (grants i) tr).length + (s.k.sem i).count + (collect (losses i) tr).length =
    n + (collect (caller (.semPut (some i))) tr).length
  /-- The calls are granted in the order in which they were made, and the waiting tasks are next. -/
  fifo : ∃ ts, Represents s.k.heap (.sem i) (ts.map .tcb) ∧
    collect (caller (.semGet (some i))) tr = collect (grants i) tr ++ ts
  /-- No `sem_get` has returned before it was granted. -/
  granted : ∀ t, (returnees (.semGet (some i)) tr s).count t ≤ (collect (grants i) tr).count t

variable {hst hst' : Hist} {tr : Trace Kernel} {s s' : Sys Kernel} {a a' : Abs} {act : Action}
  {t : TcbPtr} {i n : ℕ} {r : Ret} {c : Call}

/-! ## What a call does to a semaphore -/

/-- What `sem_get` makes of the count. -/
theorem Abs.exec_semGet (h : a.exec (.semGet (some i)) = some (a', r)) :
    (a'.sem i).count = (a.sem i).count - 1 := by
  obtain ⟨t, hnew⟩ := a.exists_caller
  rw [(Abs.exec_effect hnew h).sem, Call.effect]
  split_ifs with hc
  · simp [Abs.semWait, Abs.block, Abs.pushTail, Abs.remove, Abs.setSem, hc]
  · simp [Abs.setSem]

/-- What `sem_put` makes of the count. -/
theorem Abs.exec_semPut (h : a.exec (.semPut (some i)) = some (a', r)) :
    (a'.sem i).count = if a.tasks (.sem i) = [] ∧ (a.sem i).count ≠ U32_MAX
      then (a.sem i).count + 1 else (a.sem i).count := by
  obtain ⟨t, hnew⟩ := a.exists_caller
  rw [(Abs.exec_effect hnew h).sem, Call.effect, Abs.semRelease]
  by_cases hw : a.tasks (.sem i) = []
  · by_cases hc : (a.sem i).count = U32_MAX
    · simp [hw, hc]
    · simp [hw, hc, Abs.setSem]
  · simp [hw]

/-- What `sem_init` makes of the count. -/
theorem Abs.exec_semInit (h : a.exec (.semInit (some i) n) = some (a', r)) :
    (a'.sem i).count = n := by
  obtain ⟨rfl, -⟩ := Prod.mk.inj (Option.some.inj h)
  simp [Abs.setSem]

/-- A call that waits in the list of a semaphore is about it. -/
theorem Call.semArg_of_waitsIn (h : c.waitsIn a = some (.sem i)) : c.semArg = some i := by
  unfold Call.waitsIn at h
  split at h
  · split_ifs at h
    simpa [Call.semArg] using h
  · split_ifs at h
    simp at h
  · split_ifs at h
    simp at h
  · simp at h

/-- A call that wakes a task of the list of a semaphore is about it. -/
theorem Call.semArg_of_wakesFrom (h : c.wakesFrom = some (.sem i)) : c.semArg = some i := by
  unfold Call.wakesFrom at h
  split at h <;> simp_all [Call.semArg]

/-- A call that waits in the list of a semaphore is `sem_get`. -/
theorem Call.eq_semGet (h : c.waitList = some (.sem i)) : c = .semGet (some i) := by
  unfold Call.waitList at h
  split at h <;> simp_all

/-- The calls that are about a semaphore. -/
theorem Call.of_semArg (h : c.semArg = some i) :
    (∃ n, c = .semInit (some i) n) ∨ c = .semGet (some i) ∨ c = .semPut (some i) := by
  unfold Call.semArg at h
  split at h <;> simp_all

/-! ## The ledger of a run -/

/-- What has been asked of a semaphore in a run. -/
def ledger (i : ℕ) (tr : Trace Kernel) (a : Abs) : Ledger TcbPtr where
  count := (a.sem i).count
  waiting := a.tasks (.sem i)
  gets := collect (caller (.semGet (some i))) tr
  granted := collect (grants i) tr
  puts := (collect (caller (.semPut (some i))) tr).length
  lost := (collect (losses i) tr).length

/-- What a step enters in the ledger when it is not about the semaphore: nothing. -/
theorem Lockstep.ledger_quiet (h : Lockstep s a act s' a') (hcore : Core hst s a)
    (hu : Usage hst s act) (hp : Passive act) (hno : ∀ t f, s.frame t ≠ some (.timer f))
    (hq : ∀ c, act = .call c → c.semArg ≠ some i) :
    ledger i ((s, act) :: tr) a' = ledger i tr a := by
  -- No task has made a call that the ledger is about.
  have hcalled : ∀ t c, called s act = some (t, c) → c.semArg ≠ some i := by
    intro t c hc
    cases act with
    | call c' =>
      rw [called_call] at hc
      obtain ⟨_, -, heq⟩ := Option.map_eq_some_iff.mp hc
      exact hq c (by rw [(Prod.mk.inj heq).2])
    | tick | resume | start => simp at hc
  have hcaller : ∀ c, c.semArg = some i → caller c s act = [] := by
    intro c hc
    unfold caller
    split
    · next t c' heq => exact if_neg fun h => hcalled t c' heq (by rw [h, hc])
    · rfl
  have hgrants : grants i s act = [] := by
    unfold grants
    split
    · next t j heq => exact if_neg fun h => hcalled _ _ heq (by rw [← h.1]; rfl)
    · next t j heq => exact if_neg fun h => hcalled _ _ heq (by rw [← h]; rfl)
    · rfl
  have hlosses : losses i s act = [] := by
    unfold losses
    split
    · next t j heq => exact if_neg fun h => hcalled _ _ heq (by rw [← h.1]; rfl)
    · rfl
  -- Nor has the semaphore changed.
  have hcall : ∀ {c r}, act = .call c → a.exec c = some (a', r) →
      a'.sem i = a.sem i ∧ a'.tasks (.sem i) = a.tasks (.sem i) := by
    rintro c r rfl ha
    obtain ⟨t, hnew⟩ := a.exists_caller
    have hne := hq c rfl
    refine ⟨(Abs.exec_frame hnew ha).sem i fun heq => hne heq.symm, ?_⟩
    rw [hcore.exec_tasks hu hnew ha (by simp), if_neg, if_neg]
    · exact fun hw => hne (Call.semArg_of_wakesFrom hw)
    · exact fun hw => hne (Call.semArg_of_waitsIn hw)
  have hsame : a'.sem i = a.sem i ∧ a'.tasks (.sem i) = a.tasks (.sem i) := by
    cases h with
    | main _ _ ha => exact hcall rfl ha
    | call _ _ _ ha _ => exact hcall rfl ha
    | tick _ _ _ ha =>
      obtain rfl : _ = passive := hp
      exact ⟨by rw [hcore.sim.wf.vars_hardwareTimer ha],
        hcore.sim.wf.tasks_hardwareTimer ha (by simp)⟩
    | ret | start => exact ⟨rfl, rfl⟩
    | pass _ hf _ _ => exact absurd hf (hno _ _)
  simp [ledger, hcaller (.semGet (some i)) rfl, hcaller (.semPut (some i)) rfl, hgrants, hlosses,
    hsame]

/-- A call of a semaphore is made by a task. -/
theorem Core.exec_of_lockstep (hl : Lockstep s a (.call c) s' a') (hu : Usage hst s (.call c))
    (hset : c.IsSetUp = false) : ∃ t r, s.running = some t ∧ a.exec c = some (a', r) := by
  cases hl with
  | main hr _ _ => simp [hu.2.1 hr] at hset
  | @call t _ _ _ r hr _ _ ha _ => exact ⟨t, r, hr, ha⟩

/-- `sem_init` sets the semaphore up. -/
theorem Lockstep.live_semInit (h : Lockstep s a (.call (.semInit (some i) n)) s' a') :
    s'.live (.sem i) = true := by
  cases h <;> simp [setUp, Call.setsUp]

/-- The ledger of a new semaphore. -/
theorem Lockstep.ledger_init (h : Lockstep s a (.call (.semInit (some i) n)) s' a')
    (hcore : Core hst s a) (hu : Usage hst s (.call (.semInit (some i) n)))
    (hblank : ledger i tr a = .new (a.sem i).count) :
    ledger i ((s, .call (.semInit (some i) n)) :: tr) a' = .new n := by
  obtain ⟨r, ha⟩ : ∃ r, a.exec (.semInit (some i) n) = some (a', r) := by
    cases h with
    | main _ _ ha | call _ _ _ ha _ => exact ⟨_, ha⟩
  obtain ⟨t, hnew⟩ := a.exists_caller
  have hcount := Abs.exec_semInit ha
  have htasks := hcore.exec_tasks (q := .sem i) hu hnew ha (by simp)
  obtain ⟨-, hw, hgets, hgranted, hputs, hlost⟩ := Ledger.mk.inj hblank
  cases hr : s.running <;>
    simp_all [Ledger.new, ledger, caller, grants, losses, Call.waitsIn, Call.wakesFrom]

/-- What a `sem_get` enters in the ledger. -/
theorem Lockstep.ledger_get (h : Lockstep s a (.call (.semGet (some i))) s' a')
    (hcore : Core hst s a) (hu : Usage hst s (.call (.semGet (some i)))) :
    ∃ t, ledger i ((s, .call (.semGet (some i))) :: tr) a' = (ledger i tr a).get t := by
  obtain ⟨t, r, hr, ha⟩ := Core.exec_of_lockstep h hu rfl
  have hnew : ∀ t', a.newTask = some t' → t' = t := fun t' ht' =>
    Option.some.inj ((hcore.running_eq.trans ht').symm.trans hr)
  have hcount := Abs.exec_semGet ha
  have htasks := hcore.exec_tasks (q := .sem i) hu hnew ha (by simp)
  have hsem : s.k.sem = a.sem := hcore.sim.refines.sem_eq
  refine ⟨t, ?_⟩
  by_cases hc : (a.sem i).count = 0
  · simp [Ledger.get, ledger, caller, grants, losses, hr, hsem, hc, hcount, htasks, Call.waitsIn]
  · simp [Ledger.get, ledger, caller, grants, losses, hr, hsem, hc, hcount, htasks, Call.waitsIn,
      Call.wakesFrom]

/-- What a `sem_put` enters in the ledger. -/
theorem Lockstep.ledger_put (h : Lockstep s a (.call (.semPut (some i))) s' a')
    (hcore : Core hst s a) (hu : Usage hst s (.call (.semPut (some i)))) :
    ledger i ((s, .call (.semPut (some i))) :: tr) a' = (ledger i tr a).put U32_MAX := by
  obtain ⟨t, r, hr, ha⟩ := Core.exec_of_lockstep h hu rfl
  have hnew : ∀ t', a.newTask = some t' → t' = t := fun t' ht' =>
    Option.some.inj ((hcore.running_eq.trans ht').symm.trans hr)
  have hlive : s.live (.sem i) = true := hu.1
  have hcount := Abs.exec_semPut ha
  have htasks := hcore.exec_tasks (q := .sem i) hu hnew ha (by simp)
  have hfirst := hcore.firstTask_eq (q := .sem i) hlive
  have hlast : isListLast s.k.heap (.sem i) = true ↔ a.tasks (.sem i) = [] :=
    hcore.sim.refines.isListLast_iff (q := .sem i) hlive
  have hsem : s.k.sem = a.sem := hcore.sim.refines.sem_eq
  cases hw : a.tasks (.sem i) with
  | cons u us =>
    simp [Ledger.put, ledger, caller, grants, losses, hr, hcount, htasks, hfirst, hlast, hw,
      Call.waitsIn, Call.wakesFrom]
  | nil =>
    by_cases hc : (a.sem i).count = U32_MAX
    · simp [Ledger.put, ledger, caller, grants, losses, hr, hsem, hcount, htasks, hfirst, hlast, hw,
        hc, Call.waitsIn, Call.wakesFrom]
    · simp [Ledger.put, ledger, caller, grants, losses, hr, hsem, hcount, htasks, hfirst, hlast, hw,
        hc, Call.waitsIn, Call.wakesFrom]

/-- The ledger of every semaphore that has been set up is balanced. -/
structure Kept (i : ℕ) (tr : Trace Kernel) (s : Sys Kernel) (a : Abs) : Prop where
  /-- The ledger of a semaphore that has been set up. -/
  balanced : ∀ n, .call (.semInit (some i) n) ∈ tr.map Prod.snd →
    s.live (.sem i) = true ∧ (ledger i tr a).Balanced U32_MAX n
  /-- Nothing has been asked of a semaphore that has not been set up. -/
  blank : s.live (.sem i) = false → ledger i tr a = .new (a.sem i).count

/-- `Kept`, after one more step. -/
theorem Kept.step (h : Kept i tr s a) (hl : Lockstep s a act s' a') (hcore : Core (hist tr) s a)
    (hg : PassiveUsage tr s act) (hno : ∀ t f, s.frame t ≠ some (.timer f)) :
    Kept i ((s, act) :: tr) s' a' := by
  have hmem : ∀ n, .call (.semInit (some i) n) ∈ ((s, act) :: tr).map Prod.snd →
      act = .call (.semInit (some i) n) ∨ .call (.semInit (some i) n) ∈ tr.map Prod.snd :=
    fun n hn => (List.mem_cons.mp hn).imp_left Eq.symm
  -- What is entered in the ledger of a semaphore that has been set up keeps its balance.
  have hgrow : (∀ n, act ≠ .call (.semInit (some i) n)) → s.live (.sem i) = true →
      (∀ n, (ledger i tr a).Balanced U32_MAX n →
        (ledger i ((s, act) :: tr) a').Balanced U32_MAX n) → Kept i ((s, act) :: tr) s' a' := by
    intro hact hlive hbalanced
    refine ⟨fun n hn => ?_, fun hdead => ?_⟩
    · obtain ⟨-, hb⟩ := h.balanced n ((hmem n hn).resolve_left (hact n))
      exact ⟨hl.live_mono hlive, hbalanced n hb⟩
    · simp [hl.live_mono hlive] at hdead
  by_cases hq : ∀ c, act = .call c → c.semArg ≠ some i
  · have hsame : ledger i ((s, act) :: tr) a' = ledger i tr a :=
      hl.ledger_quiet hcore hg.1 hg.2 hno hq
    refine ⟨fun n hn => ?_, fun hdead => ?_⟩
    · have hold := (hmem n hn).resolve_left fun heq => hq _ heq rfl
      rw [hsame]
      exact (h.balanced n hold).imp_left hl.live_mono
    · have hdead' : s.live (.sem i) = false := by
        rw [Bool.eq_false_iff]
        exact fun hlive => by simp [hl.live_mono hlive] at hdead
      have hcount : (a'.sem i).count = (a.sem i).count := congrArg Ledger.count hsame
      rw [hsame, h.blank hdead', hcount]
  · obtain ⟨c, rfl, hc⟩ : ∃ c, act = .call c ∧ c.semArg = some i := by
      by_contra hne
      exact hq fun c hact hc => hne ⟨c, hact, hc⟩
    rcases Call.of_semArg hc with ⟨n, rfl⟩ | rfl | rfl
    · -- A new semaphore has nothing in its ledger.
      have hdead : s.live (.sem i) = false := hg.1.1.1
      have hnew := hl.ledger_init hcore hg.1 (h.blank hdead)
      refine ⟨fun n' hn => ?_, fun hdead' => ?_⟩
      · rcases hmem n' hn with heq | hold
        · obtain rfl : n = n' := by simpa using heq
          exact ⟨hl.live_semInit, hnew ▸ .new hg.1.1.2⟩
        · simp [(h.balanced n' hold).1] at hdead
      · simp [hl.live_semInit] at hdead'
    · obtain ⟨t, hget⟩ := hl.ledger_get hcore hg.1
      exact hgrow (by simp) hg.1.1 fun n hb => hget ▸ hb.get t
    · exact hgrow (by simp) hg.1.1 fun n hb => hl.ledger_put hcore hg.1 ▸ hb.put

/-- The units of a semaphore are conserved, and granted in order, in every state of every run. -/
theorem sem_conserved (h : SysRun PassiveUsage tr s)
    (hinit : .call (.semInit (some i) n) ∈ tr.map Prod.snd) : Conserved i n tr s := by
  obtain ⟨a, hcore, hparked, hkept⟩ := h.passive (P := Kept i)
    (fun s k hinit _ _ => ⟨by simp, fun _ => rfl⟩)
    (fun tr s a act s' a' _ hcore _ hp hg hno hl _ => hp.step hl hcore hg hno)
  obtain ⟨hlive, hfifo, hbalance, hfree, -⟩ := hkept.balanced n hinit
  have hrep := hcore.sim.refines.rep (q := .sem i) hlive
  have hsem : s.k.sem = a.sem := hcore.sim.refines.sem_eq
  refine ⟨fun hpos => ?_, by rw [hsem]; exact hbalance, ⟨_, hrep, hfifo⟩, fun t => ?_⟩
  · have hnone : a.tasks (.sem i) = [] := hfree (by rw [hsem] at hpos; exact Nat.ne_of_gt hpos)
    rw [hnone] at hrep
    exact hrep
  · -- A task that still waits is inside its call.
    have hwaits : (a.tasks (.sem i)).count t ≤ (inside s t (.semGet (some i))).toNat := by
      by_cases hm : t ∈ a.tasks (.sem i)
      · obtain ⟨c, r, hf, hc⟩ := hparked.waits _ t (by simp) hm
        obtain rfl : c = .semGet (some i) := Call.eq_semGet hc
        rw [List.count_eq_one_of_mem (hcore.sim.wf.tasks.nodup _) hm]
        simp [inside, hf]
      · simp [List.count_eq_zero_of_not_mem hm]
    have hcount := h.callers_count t (.semGet (some i))
    rw [show collect (caller (.semGet (some i))) tr = collect (grants i) tr ++ a.tasks (.sem i) from
      hfifo, List.count_append] at hcount
    omega

/-- Three tasks share a semaphore of one unit: `task 1` takes it, `task 2` and `task 3` wait, and
`task 2` gets it when it is put. -/
def shared : List Move := [
  .call (.taskCreate (some (.task 1)) (some 0) (some 0) 5),
  .call (.taskCreate (some (.task 2)) (some 0) (some 0) 5),
  .call (.taskCreate (some (.task 3)) (some 0) (some 0) 5),
  .call (.semInit (some 0) 1),
  .start, .call .schedule,
  .call (.semGet (some 0)), .call .schedule, .call (.semGet (some 0)), .call (.semGet (some 0)),
  .resume, .call (.semPut (some 0)), .resume]

/-- The units of the semaphore of `shared` are conserved. -/
theorem sem_conserved_shared : ∃ tr s, SysRun PassiveUsage tr s ∧
    tr.map Prod.snd = (shared.map Move.act).reverse ∧ Conserved 0 1 tr s := by
  obtain ⟨tr, s, hrun, hacts⟩ := PassiveUsage.of_replay shared (by decide)
  exact ⟨tr, s, hrun, hacts, sem_conserved hrun (by rw [hacts]; simp [shared, Move.act])⟩

end Fos
