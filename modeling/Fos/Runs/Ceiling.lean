import Fos.Runs.Holding

/-!
# The priority ceiling

`mutex_get` raises a task that takes a free mutex to `PRIO_MUTEX`, and saves its priority in the
mutex. A task that has waited for the mutex is not raised, and nothing is saved for it. `mutex_put`
restores what the mutex has saved, whoever it was saved for and whatever else the task holds.
Holders are at the ceiling, and other tasks at their base priority, for as long as what `mutex_put`
finds saved is what the task is to have (`Restores`, `ceiling_of_restores`).
-/

namespace Fos

open Function Runs

/-- The base priority of a task: the one given by `task_create` or by the last `task_prio_change`.
`system_init` creates the idle task with 31. -/
def basePrio (t : TcbPtr) : Hist → ℕ
  | [] => 31
  | e :: h =>
    match e.2.rebases with
    | some (u, p) => if u = t then p else basePrio t h
    | none => basePrio t h

/-- The task is inside a call of `mutex_get` or `mutex_put`. -/
def InMutexCall (s : Sys Kernel) (t : TcbPtr) : Prop :=
  ∃ m r, s.frame t = some (.call (.mutexGet m) r) ∨ s.frame t = some (.call (.mutexPut m) r)

/-- Holders of mutexes are at the ceiling, and tasks that hold none at their base priority. -/
def Ceiling (tr : Trace Kernel) (s : Sys Kernel) : Prop :=
  ∀ t, s.live (.tcb t) = true →
    ((∃ m, holds t m tr s = true) → s.k.prio t = PRIO_MUTEX) ∧
    ((∀ m, holds t m tr s = false) → ¬ InMutexCall s t → s.k.prio t = basePrio t (hist tr))

/-- The system is used as the mutexes ask for: a task puts only a mutex that it holds, and base
priorities are below the ceiling. Callbacks are passive. -/
structure CeilingUsage (tr : Trace Kernel) (s : Sys Kernel) (act : Action) : Prop where
  usage : Usage (hist tr) s act
  passive : Passive act
  put : ∀ t m, called s act = some (t, .mutexPut (some m)) → holds t m tr s = true
  base : ∀ t p, act.rebases = some (t, p) → 1 < p ∧ p < SYSTEM_WORD

/-- What the mutex has saved is what the task is to have. -/
structure Restores (tr : Trace Kernel) (s : Sys Kernel) (act : Action) : Prop where
  /-- A task that has waited inside `mutex_get` goes on only when it is at the ceiling already. -/
  resumed : ∀ t m r o, act = .resume o → s.running = some t →
    s.frame t = some (.call (.mutexGet (some m)) r) → s.k.prio t = PRIO_MUTEX
  /-- A task that holds another mutex puts a mutex only when that has saved the ceiling. -/
  inner : ∀ t m, called s act = some (t, .mutexPut (some m)) →
    (∃ i, i ≠ m ∧ holds t i tr s = true) → (s.k.mutex m).copyPrio = PRIO_MUTEX
  /-- A task that holds no other mutex puts a mutex only when that has saved its base priority. -/
  outer : ∀ t m, called s act = some (t, .mutexPut (some m)) →
    (∀ i, i ≠ m → holds t i tr s = false) → (s.k.mutex m).copyPrio = basePrio t (hist tr)
  /-- A task changes its priority only when it holds no mutex. A `task_prio_change` that is refused
  changes nothing. -/
  change : ∀ t u p, called s act = some (t, .taskPrioChange (some u) p) → 0 < p →
    p ≤ SYSTEM_WORD → ∀ m, holds u m tr s = false

variable {hst hst' : Hist} {tr : Trace Kernel} {s s' : Sys Kernel} {a a' : Abs} {act : Action}

/-- The base priorities after one more step. -/
theorem basePrio_cons {t : TcbPtr} : basePrio t (hist ((s, act) :: tr)) = match act.rebases with
    | some (u, p) => if u = t then p else basePrio t (hist tr)
    | none => basePrio t (hist tr) := rfl

/-- What carries the ceiling through a run. -/
structure Raised (tr : Trace Kernel) (s : Sys Kernel) (a : Abs) : Prop where
  /-- A holder is at the ceiling. -/
  high : ∀ t m, holds t m tr s = true → a.prio t = PRIO_MUTEX
  /-- A task that holds no mutex is at its base priority, inside a call or not. -/
  base : ∀ t, s.live (.tcb t) = true → (∀ m, holds t m tr s = false) →
    a.prio t = basePrio t (hist tr)
  /-- A holder has been created. -/
  created : ∀ t m, holds t m tr s = true → s.live (.tcb t) = true

/-- A task that is there after a step was there before, or has just been created. -/
theorem Lockstep.live_tcb (h : Lockstep s a act s' a') {t : TcbPtr}
    (ht : s'.live (.tcb t) = true) : s.live (.tcb t) = true ∨
      ∃ f st p, act = .call (.taskCreate (some t) (some f) (some st) p) := by
  have hcall : ∀ c, act = .call c → setUp s.live c (.tcb t) = true → s.live (.tcb t) = true ∨
      ∃ f st p, act = .call (.taskCreate (some t) (some f) (some st) p) := by
    rintro c rfl hlive
    by_cases hc : c.setsUp = some (.tcb t)
    · obtain ⟨f, st, p, rfl⟩ := Call.eq_of_setsUp_tcb hc
      exact Or.inr ⟨f, st, p, rfl⟩
    · rw [setUp_of_ne hc] at hlive
      exact Or.inl hlive
  cases h with
  | main _ _ _ => exact hcall _ rfl ht
  | call _ _ _ _ _ => exact hcall _ rfl ht
  | tick | ret | pass | start => exact Or.inl ht

/-- A base priority is given by `task_create` or by `task_prio_change`. -/
theorem Action.eq_of_rebases {u : TcbPtr} {p : ℕ} (h : act.rebases = some (u, p)) :
    (∃ f st, act = .call (.taskCreate (some u) (some f) (some st) p)) ∨
      act = .call (.taskPrioChange (some u) p) := by
  unfold Action.rebases Call.rebases at h
  split at h
  · split at h
    · next f st _ =>
      obtain ⟨rfl, rfl⟩ := Prod.mk.inj (Option.some.inj h)
      exact Or.inl ⟨f, st, rfl⟩
    · split_ifs at h
      obtain ⟨rfl, rfl⟩ := Prod.mk.inj (Option.some.inj h)
      exact Or.inr rfl
    · simp at h
  · simp at h

/-- The base priority of a task that is given none stays. -/
theorem basePrio_of_ne {t : TcbPtr} (h : ∀ p, act.rebases ≠ some (t, p)) :
    basePrio t (hist ((s, act) :: tr)) = basePrio t (hist tr) := by
  rw [basePrio_cons]
  split
  · next u p heq => exact if_neg fun hu => h p (by rw [heq, hu])
  · rfl

/-- A task that is given no base priority was there before. -/
theorem Lockstep.live_tcb_of_ne (h : Lockstep s a act s' a') {t : TcbPtr}
    (hact : ∀ p, act.rebases ≠ some (t, p)) (ht : s'.live (.tcb t) = true) :
    s.live (.tcb t) = true := by
  rcases h.live_tcb ht with ht | ⟨f, st, p, rfl⟩
  · exact ht
  · exact absurd rfl (hact p)

/-- `Raised`, after one more step. -/
theorem Raised.step (h : Raised tr s a) (hcore : Core (hist tr) s a) (hl : Lockstep s a act s' a')
    (hg : CeilingUsage tr s act) (hr : Restores tr s act) (hstep : MutexStep tr s a act s' a') :
    Raised ((s, act) :: tr) s' a' := by
  have href := hcore.sim.refines
  -- What the step leaves as it is, of a task that is given no base priority.
  have hkeep : ∀ u, (∀ p, act.rebases ≠ some (u, p)) → a'.prio u = a.prio u →
      (∀ i, holds u i tr s = false) → s'.live (.tcb u) = true →
        a'.prio u = basePrio u (hist ((s, act) :: tr)) := fun u hu hp hno hlive => by
    rw [basePrio_of_ne hu, hp]
    exact h.base u (hl.live_tcb_of_ne hu hlive) hno
  cases hstep with
  | init m hact hlive hm hp hh hframe =>
    refine ⟨fun u i hu => hp ▸ h.high u i (hh u i ▸ hu), fun u hu hno => ?_,
      fun u i hu => hl.live_mono (h.created u i (hh u i ▸ hu))⟩
    exact hkeep u (by simp [hact, Action.rebases, Call.rebases]) (by rw [hp])
      (fun i => hh u i ▸ hno i) hu
  | wait t m hrun hf hact hlive hheld hm hp hframe hh =>
    refine ⟨fun u i hu => hp ▸ h.high u i (hh u i ▸ hu), fun u hu hno => ?_,
      fun u i hu => hl.live_mono (h.created u i (hh u i ▸ hu))⟩
    exact hkeep u (by simp [hact, Action.rebases, Call.rebases]) (by rw [hp])
      (fun i => hh u i ▸ hno i) hu
  | take t m hrun hf hact hlive hfree hm hp hframe hh =>
    refine ⟨fun u i hu => ?_, fun u hu hno => ?_, fun u i hu => ?_⟩
    · rcases eq_or_ne u t with rfl | hne
      · rw [hp, update_self]
      · rw [hp, update_of_ne hne]
        exact h.high u i (((hh u i).mp hu).resolve_left fun hut => hne hut.1)
    · have hne : u ≠ t := by
        rintro rfl
        simpa [hno m] using (hh u m).mpr (Or.inl ⟨rfl, rfl⟩)
      refine hkeep u (by simp [hact, Action.rebases, Call.rebases]) (by rw [hp, update_of_ne hne])
        (fun i => ?_) hu
      rw [Bool.eq_false_iff]
      intro hold
      simpa [hno i] using (hh u i).mpr (Or.inr hold)
    · rcases (hh u i).mp hu with ⟨rfl, -⟩ | hold
      · exact hl.live_mono (hcore.live_running hrun)
      · exact hl.live_mono (h.created u i hold)
  | put t m hrun hf hact hlive hm hp hframe hh =>
    have hcall : called s act = some (t, .mutexPut (some m)) := by simp [hact, hrun]
    refine ⟨fun u i hu => ?_, fun u hu hno => ?_, fun u i hu => ?_⟩
    · obtain ⟨hne, hold⟩ := (hh u i).mp hu
      rcases eq_or_ne u t with rfl | hut
      · -- The task holds another mutex, and so gets the ceiling back.
        rw [hp, update_self, ← href.mutex_eq]
        exact hr.inner u m hcall ⟨i, fun him => hne ⟨rfl, him⟩, hold⟩
      · rw [hp, update_of_ne hut]
        exact h.high u i hold
    · have hrebase : ∀ p, act.rebases ≠ some (u, p) := by
        simp [hact, Action.rebases, Call.rebases]
      have hnone : ∀ i, ¬ (u = t ∧ i = m) → holds u i tr s = false := fun i hne => by
        rw [Bool.eq_false_iff]
        intro hold
        simpa [hno i] using (hh u i).mpr ⟨hne, hold⟩
      rcases eq_or_ne u t with rfl | hut
      · -- The task holds nothing more, and so gets its base priority back.
        rw [hp, update_self, basePrio_of_ne hrebase, ← href.mutex_eq]
        exact hr.outer u m hcall fun i him => hnone i fun hi => him hi.2
      · exact hkeep u hrebase (by rw [hp, update_of_ne hut])
          (fun i => hnone i fun hi => hut hi.1) hu
    · exact hl.live_mono (h.created u i ((hh u i).mp hu).2)
  | ret t m r o hrun hact hf ha hframe hh =>
    subst ha
    refine ⟨fun u i hu => ?_, fun u hu hno => ?_, fun u i hu => ?_⟩
    · rcases (hh u i).mp hu with ⟨rfl, -⟩ | hold
      · rw [← href.prio_eq]
        exact hr.resumed u m r o hact hrun hf
      · exact h.high u i hold
    · refine hkeep u (by simp [hact, Action.rebases]) rfl (fun i => ?_) hu
      rw [Bool.eq_false_iff]
      intro hold
      simpa [hno i] using (hh u i).mpr (Or.inr hold)
    · rcases (hh u i).mp hu with ⟨rfl, -⟩ | hold
      · exact hl.live_mono (hcore.live_running hrun)
      · exact hl.live_mono (h.created u i hold)
  | other hm hp hlive hh hframe =>
    -- A task that is given a base priority holds no mutex.
    have hnone : ∀ u p, act.rebases = some (u, p) → ∀ i, holds u i tr s = false := by
      intro u p hact i
      rcases Action.eq_of_rebases hact with ⟨f, st, rfl⟩ | rfl
      · have hfresh : s.live (.tcb u) = false := hg.usage.1.2.1
        rw [Bool.eq_false_iff]
        intro hold
        simp [h.created u i hold] at hfresh
      · obtain ⟨hrun, -⟩ := hg.usage.1
        obtain ⟨hlow, hhigh⟩ := hg.base u p hact
        exact hr.change u u p (by simp [hrun]) (Nat.zero_lt_of_lt hlow) hhigh.le i
    have hprio : ∀ u, (∀ p, act.rebases ≠ some (u, p)) → a'.prio u = a.prio u := by
      intro u hu
      cases hact : act.rebases with
      | none => simp [hp, hact]
      | some x =>
        have hne : u ≠ x.1 := fun hux => hu x.2 (by rw [hact, hux])
        simp [hp, hact, hne]
    refine ⟨fun u i hu => ?_, fun u hu hno => ?_, fun u i hu => ?_⟩
    · rw [hh] at hu
      have hne : ∀ p, act.rebases ≠ some (u, p) := fun p hact => by
        simp [hnone u p hact i] at hu
      rw [hprio u hne]
      exact h.high u i hu
    · by_cases hact : ∃ p, act.rebases = some (u, p)
      · obtain ⟨p, hact⟩ := hact
        rw [hp, basePrio_cons, hact]
        simp
      · have hne : ∀ p, act.rebases ≠ some (u, p) := fun p hp => hact ⟨p, hp⟩
        exact hkeep u hne (hprio u hne) (fun i => hh u i ▸ hno i) hu
    · exact hl.live_mono (h.created u i (hh u i ▸ hu))

/-- `Raised` holds in every state of every run in which what the mutexes have saved is what the
tasks are to have. -/
theorem SysRun.raised
    (h : SysRun (fun tr s act => CeilingUsage tr s act ∧ Restores tr s act) tr s) :
    ∃ a, Core (hist tr) s a ∧ Raised tr s a := by
  obtain ⟨hrun, -⟩ := h.orderly fun _ _ _ hg => ⟨hg.1.usage, hg.1.passive⟩
  refine hrun.invariant (fun _ _ _ hg => hg.2) (fun s k hinit _ _ => ?_) ?_
  · refine ⟨by simp [holds], fun t ht _ => ?_, by simp [holds]⟩
    obtain ⟨-, -, hlive⟩ := hinit
    obtain rfl : t = idleTcb := by
      by_contra hne
      simp [hlive, hne] at ht
    simp [Abs.systemInit, Abs.pushTail, Abs.setPrio, basePrio, hist]
  · intro tr s a act s' a' _ hcore hraised hg hl hcore'
    exact hraised.step hcore hl hg.1.1 hg.1.2 (hl.mutexStep hcore hcore' hg.1.1.usage)

/-- Holders are at the ceiling, and other tasks at their base priority, in every state of every run
in which what the mutexes have saved is what the tasks are to have. -/
theorem ceiling_of_restores
    (h : SysRun (fun tr s act => CeilingUsage tr s act ∧ Restores tr s act) tr s) :
    Ceiling tr s := by
  obtain ⟨a, hcore, hraised⟩ := h.raised
  intro t ht
  rw [hcore.sim.refines.prio_eq]
  exact ⟨fun ⟨m, hm⟩ => hraised.high t m hm, fun hno _ => hraised.base t ht hno⟩

/-- The mutexes that have been asked for. -/
def asked (h : Hist) : List ℕ :=
  h.filterMap fun e => match e.2 with
    | .call (.mutexGet m) => m
    | _ => none

/-- Only a mutex that has been asked for is held. -/
theorem SysRun.mem_asked {guard : Trace Kernel → Sys Kernel → Action → Prop}
    (h : SysRun guard tr s)
    (hguard : ∀ tr s act, guard tr s act → Usage (hist tr) s act ∧ Passive act) {t : TcbPtr} {i : ℕ}
    (ht : holds t i tr s = true) : i ∈ asked (hist tr) := by
  obtain ⟨hrun, -⟩ := h.orderly hguard
  have hkeep : ∀ {tr : Trace Kernel} {s : Sys Kernel} {act : Action}, i ∈ asked (hist tr) →
      i ∈ asked (hist ((s, act) :: tr)) := by
    intro tr s act hi
    simp only [asked, hist, List.map_cons, List.filterMap_cons] at hi ⊢
    split
    · exact hi
    · exact List.mem_cons_of_mem _ hi
  -- A task that waits for a mutex has asked for it, too.
  let P (tr : Trace Kernel) (s : Sys Kernel) (_ : Abs) : Prop :=
    ∀ u, (holds u i tr s = true → i ∈ asked (hist tr)) ∧
      ∀ r, s.frame u = some (.call (.mutexGet (some i)) r) → i ∈ asked (hist tr)
  have hinv : ∃ a, Core (hist tr) s a ∧ P tr s a := by
    refine hrun.invariant (fun _ _ _ hg => hg.2) (fun s k hinit _ _ => ?_) ?_
    · exact fun u => ⟨by simp [holds], by simp [hinit.2.1]⟩
    · intro tr s a act s' a' _ hcore hp hg hl hcore' u
      have husage := (hguard _ _ _ hg.1).1
      cases hl.mutexStep hcore hcore' husage with
      | init m hact hlive hm hp' hh hframe =>
        exact ⟨fun hu => hkeep ((hp u).1 (hh u i ▸ hu)),
          fun r hu => hkeep ((hp u).2 r (hframe u i r hu))⟩
      | take t m hr hf hact hlive hfree hm hp' hframe hh =>
        refine ⟨fun hu => ?_, fun r hu => hkeep ((hp u).2 r (hframe ▸ hu))⟩
        rcases (hh u i).mp hu with ⟨-, rfl⟩ | hu
        · simp [asked, hist, hact]
        · exact hkeep ((hp u).1 hu)
      | wait t m hr hf hact hlive hheld hm hp' hframe hh =>
        refine ⟨fun hu => hkeep ((hp u).1 (hh u i ▸ hu)), fun r hu => ?_⟩
        rcases eq_or_ne u t with rfl | hne
        · obtain rfl : m = i := by
            rw [hframe, update_self] at hu
            simpa using (Frame.call.inj (Option.some.inj hu)).1
          simp [asked, hist, hact]
        · rw [hframe, update_of_ne hne] at hu
          exact hkeep ((hp u).2 r hu)
      | put t m hr hf hact hlive hm hp' hframe hh =>
        exact ⟨fun hu => hkeep ((hp u).1 ((hh u i).mp hu).2),
          fun r hu => hkeep ((hp u).2 r (hframe u i r hu))⟩
      | ret t m r o hr hact hf ha hframe hh =>
        refine ⟨fun hu => ?_, fun r' hu => ?_⟩
        · rcases (hh u i).mp hu with ⟨rfl, rfl, -⟩ | hu
          · exact hkeep ((hp u).2 r hf)
          · exact hkeep ((hp u).1 hu)
        · exact hkeep ((hp u).2 r' (Sys.frame_of_passFrame (f := none) (hframe ▸ hu)))
      | other hm hp' hlive hh hframe =>
        exact ⟨fun hu => hkeep ((hp u).1 (hh u i ▸ hu)),
          fun r hu => hkeep ((hp u).2 r (hframe u i r hu))⟩
  obtain ⟨a, -, hp⟩ := hinv
  exact (hp t).1 ht

/-! ## Two runs -/

/-- The move is one that `CeilingUsage` allows. -/
def Move.ceilingCheck (tr : Trace Abs) (s : Sys Abs) (m : Move) : Bool :=
  (match called s m.act with
    | some (t, .mutexPut (some i)) => holds t i tr s
    | _ => true) &&
  match m.act.rebases with
    | some (_, p) => 1 < p && p < SYSTEM_WORD
    | none => true

/-- The move is one that `Restores` allows; no task has waited, or changes its priority. -/
def Move.restoresCheck (tr : Trace Abs) (s : Sys Abs) (m : Move) : Bool :=
  (match called s m.act with
    | some (t, .mutexPut (some i)) => (s.k.mutex i).copyPrio =
        if (asked (hist tr)).any fun j => j ≠ i && holds t j tr s then PRIO_MUTEX
        else basePrio t (hist tr)
    | some (_, .taskPrioChange (some u) p) =>
      p = 0 || SYSTEM_WORD < p || !(asked (hist tr)).any fun j => holds u j tr s
    | _ => true) && m ≠ .resume

/-- The same call is made. -/
theorem Core.called_over (h : Core hst s a) : called (s.over a) act = called s act := by
  unfold called
  rw [h.running_over]

/-- A move that passes the check is one that `CeilingUsage` allows. -/
theorem CeilingUsage.of_check {m : Move} (hcore : Core (hist tr) s a) {trA : Trace Abs}
    (hs : Shadow tr s trA a) (hu : Usage (hist tr) s m.act)
    (hm : m.ceilingCheck trA (s.over a) = true) : CeilingUsage tr s m.act := by
  rw [Move.ceilingCheck, Bool.and_eq_true, hcore.called_over] at hm
  refine ⟨hu, m.passive_act, fun t i h => ?_, fun t p h => ?_⟩
  · rw [← hs.holds_eq]
    simpa [h] using hm.1
  · simpa [h] using hm.2

/-- A move that passes the check is one that `Restores` allows. -/
theorem Restores.of_check {m : Move} {guard : Trace Kernel → Sys Kernel → Action → Prop}
    (hrun : SysRun guard tr s)
    (hguard : ∀ tr s act, guard tr s act → Usage (hist tr) s act ∧ Passive act)
    (hcore : Core (hist tr) s a) {trA : Trace Abs} (hs : Shadow tr s trA a)
    (hm : m.restoresCheck trA (s.over a) = true) : Restores tr s m.act := by
  have hmutex : (s.over a).k.mutex = s.k.mutex := hcore.sim.refines.mutex_eq.symm
  simp only [Move.restoresCheck, Bool.and_eq_true, hcore.called_over, hs.hist_eq, hs.holds_eq,
    hmutex] at hm
  obtain ⟨hput, hres⟩ := hm
  refine ⟨fun t i r o h => ?_, fun t i h hex => ?_, fun t i h hno => ?_,
    fun t u p h hpos hle i => ?_⟩
  · cases m with
    | resume => simp at hres
    | call | tick | start => simp [Move.act] at h
  · obtain ⟨j, hj, hold⟩ := hex
    simp only [h, decide_eq_true_eq] at hput
    rw [hput, if_pos]
    rw [List.any_eq_true]
    exact ⟨j, hrun.mem_asked hguard hold, by simp [hj, hold]⟩
  · simp only [h, decide_eq_true_eq] at hput
    rw [hput, if_neg]
    rw [List.any_eq_true]
    rintro ⟨j, -, hj⟩
    rw [Bool.and_eq_true, decide_eq_true_eq] at hj
    simp [hno j hj.1] at hj
  · simp only [h, Bool.or_eq_true, decide_eq_true_eq, Bool.not_eq_true', List.any_eq_false] at hput
    rcases hput with (rfl | hlt) | hnone
    · exact absurd hpos (Nat.lt_irrefl 0)
    · exact absurd hle (Nat.not_le.mpr hlt)
    · exact Bool.eq_false_iff.mpr fun hold => hnone i (hrun.mem_asked hguard hold) hold

/-- A task takes two mutexes and puts the second one back first. -/
def inOrder : List Move := [
  .call (.taskCreate (some (.task 1)) (some 0) (some 0) 5),
  .call (.mutexInit (some 0)), .call (.mutexInit (some 1)),
  .start, .call .schedule,
  .call (.mutexGet (some 0)), .call (.mutexGet (some 1)), .call (.mutexPut (some 1))]

/-- The task that holds a mutex after `inOrder` is at the ceiling. -/
theorem ceiling_inOrder : ∃ tr s, SysRun CeilingUsage tr s ∧
    tr.map Prod.snd = (inOrder.map Move.act).reverse ∧ holds (.task 1) 0 tr s = true ∧
      Ceiling tr s := by
  have hreplay : (replay (fun tr s m => m.ceilingCheck tr s && m.restoresCheck tr s) inOrder []
      Sys.zero).map (fun r => holds (.task 1) 0 r.1 r.2) = some true := by decide
  obtain ⟨⟨trA, sA⟩, hr, hh⟩ := Option.map_eq_some_iff.mp hreplay
  obtain ⟨tr, s, a, hrun, -, hs, rfl, hacts⟩ :=
    replay_run (fun tr s act => CeilingUsage tr s act ∧ Restores tr s act)
      (fun _ _ _ _ _ hrun hcore hs hu hm => by
        rw [Bool.and_eq_true] at hm
        exact ⟨.of_check hcore hs hu hm.1,
          .of_check hrun (fun _ _ _ hg => ⟨hg.1.usage, hg.1.passive⟩) hcore hs hm.2⟩) hr
  rw [hs.holds_eq] at hh
  exact ⟨tr, s, Run.mono hrun fun _ _ _ _ hg => hg.1, hacts, hh, ceiling_of_restores hrun⟩

/-- A task takes two mutexes and puts the first one back first. -/
def outOfOrder : List Move := [
  .call (.taskCreate (some (.task 1)) (some 0) (some 0) 5),
  .call (.mutexInit (some 0)), .call (.mutexInit (some 1)),
  .start, .call .schedule,
  .call (.mutexGet (some 0)), .call (.mutexGet (some 1)), .call (.mutexPut (some 0))]

/-- The task that holds a mutex after `outOfOrder` is at its base priority. -/
theorem not_ceiling_outOfOrder : ∃ tr s, SysRun CeilingUsage tr s ∧
    tr.map Prod.snd = (outOfOrder.map Move.act).reverse ∧ holds (.task 1) 1 tr s = true ∧
      s.k.prio (.task 1) = 5 ∧ ¬ Ceiling tr s := by
  have hreplay : (replay Move.ceilingCheck outOfOrder [] Sys.zero).map (fun r =>
      (holds (.task 1) 1 r.1 r.2, r.2.live (.tcb (.task 1)), r.2.k.prio (.task 1))) =
        some (true, true, 5) := by decide
  obtain ⟨⟨trA, sA⟩, hr, hh⟩ := Option.map_eq_some_iff.mp hreplay
  obtain ⟨tr, s, a, hrun, hcore, hs, rfl, hacts⟩ :=
    replay_run CeilingUsage (fun _ _ _ _ _ _ hcore hs hu hm => .of_check hcore hs hu hm) hr
  obtain ⟨hhold, hh⟩ := Prod.mk.inj hh
  obtain ⟨hlive, hprio⟩ := Prod.mk.inj hh
  have hprio' : s.k.prio (.task 1) = 5 := by
    rw [hcore.sim.refines.prio_eq]
    exact hprio
  rw [hs.holds_eq] at hhold
  refine ⟨tr, s, hrun, hacts, hhold, hprio', fun hc => ?_⟩
  have := (hc (.task 1) hlive).1 ⟨1, hhold⟩
  rw [hprio'] at this
  exact absurd this (by decide)

end Fos
