import Fos.Refinement.System

/-!
# Replaying a run

A run of the kernel is replayed on the abstract kernel, which can be evaluated: `replay` makes the
moves one after the other, and checks before each that it is one that `Usage` allows. Whatever can
be replayed is a run of the kernel (`replay_run`), in whose states the abstract kernel is
represented. The ticks of a replay have passive callbacks.
-/

namespace Fos

open Function

/-- What happens next, when callbacks are passive. -/
inductive Move where
  | call (c : Call)
  | tick
  | resume
  | start
  deriving DecidableEq

/-- The action of a move. -/
def Move.act : Move → Action
  | .call c => .call c
  | .tick => .tick passive
  | .resume => .resume passive
  | .start => .start

/-- The callbacks of a move are passive. -/
theorem Move.passive_act (m : Move) : Passive m.act := by
  cases m <;> trivial

/-- The message has been put into a queue. -/
def hasPut (m : ℕ) (h : Hist) : Bool :=
  h.any fun e => match e.2 with
    | .call (.msgPut _ (some m') _) => m' = m
    | _ => false

/-- The call is one that `CallUsage` allows. A message is only put when it has never been put. -/
def Call.check (h : Hist) (s : Sys Abs) : Call → Bool
  | .taskCreate (some tcb) _ _ prio => (match tcb with | .task _ => true | _ => false) &&
      !s.live (.tcb tcb) && prio < SYSTEM_WORD
  | .taskPrioChange (some tcb) prio => s.running = some tcb && prio < SYSTEM_WORD
  | .timerReq (some e) _ _ _ _ => (match e with | .timer _ => true | _ => false) && e ∉ s.k.ticks
  | .semInit (some i) num => !s.live (.sem i) && num ≤ U32_MAX
  | .semGet (some i) | .semPut (some i) => s.live (.sem i)
  | .mutexInit (some m) => !s.live (.mutex m)
  | .mutexGet (some m) => s.live (.mutex m)
  | .mutexPut (some m) => s.live (.mutex m) &&
      match s.running with | some u => hasCalledGet u m h | none => false
  | .msgQueueCreate (some q) length => !s.live (.queue q) && length ≤ U32_MAX
  | .msgPut (some q) (some m) _ => s.live (.queue q) && !hasPut m h
  | .msgGet (some q) _ => s.live (.queue q)
  | _ => true

/-- The move is one that `Usage` allows. -/
def Move.check (h : Hist) (s : Sys Abs) : Move → Bool
  | .call c => c.check h s && (s.running.isSome || c.IsSetUp) &&
      (s.running ≠ some idleTcb || c = .schedule)
  | _ => true

/-- Make the moves, as long as they are allowed and `ok`. -/
def replay (ok : Trace Abs → Sys Abs → Move → Bool) :
    List Move → Trace Abs → Sys Abs → Option (Trace Abs × Sys Abs)
  | [], tr, s => some (tr, s)
  | m :: ms, tr, s =>
    if m.check (hist tr) s && ok tr s m then do
      let s' ← s.step m.act
      replay ok ms ((s, m.act) :: tr) s'
    else none

/-- A run over the abstract kernel goes with one over the kernel: in each step the same task runs,
takes the same action, and has the same call return to it. -/
inductive Shadow : Trace Kernel → Sys Kernel → Trace Abs → Abs → Prop where
  | nil {s : Sys Kernel} {a : Abs} : Shadow [] s [] a
  | cons {tr : Trace Kernel} {s s' : Sys Kernel} {trA : Trace Abs} {a a' : Abs} {act : Action}
      (h : Shadow tr s trA a) (hrun : (s.over a).running = s.running)
      (hret : returned (s.over a) act (s'.over a') = returned s act s') :
      Shadow ((s, act) :: tr) s' ((s.over a, act) :: trA) a'

variable {hst : Hist} {tr : Trace Kernel} {s s' : Sys Kernel} {trA : Trace Abs} {a a' : Abs}
  {act : Action}

/-- The histories are the same. -/
theorem Shadow.hist_eq (h : Shadow tr s trA a) : hist trA = hist tr := by
  induction h with
  | nil => rfl
  | cons _ hrun _ ih =>
    rw [hist, List.map_cons]
    exact congrArg₂ _ (congrArg (·, _) hrun) ih

@[simp] theorem Sys.over_k (s : Sys Kernel) (a : Abs) : (s.over a).k = a := rfl

@[simp] theorem Sys.over_frame (s : Sys Kernel) (a : Abs) : (s.over a).frame = s.frame := rfl

@[simp] theorem Sys.over_live (s : Sys Kernel) (a : Abs) : (s.over a).live = s.live := rfl

/-- The same task runs. -/
theorem Core.running_over (h : Core hst s a) : (s.over a).running = s.running := h.running_eq.symm

/-- A call that passes the check is one that `CallUsage` allows. -/
theorem Core.callUsage_of_check (h : Core hst s a) {c : Call}
    (hput : ∀ q m, m ∈ a.msgs q → hasPut m hst = true) (hc : c.check hst (s.over a) = true) :
    CallUsage hst s s.running c := by
  cases c with
  | taskCreate tcb func stack prio =>
    obtain _ | n | p := tcb
    · trivial
    · simp only [Call.check, Sys.over_live, Bool.and_eq_true, Bool.not_eq_true',
        decide_eq_true_eq] at hc
      -- Only the TCB of a task can be created.
      exact ⟨⟨n, rfl⟩, hc.1.2, hc.2⟩
    · simp [Call.check] at hc
  | taskPrioChange tcb prio =>
    cases tcb with
    | none => trivial
    | some t => simpa [Call.check, h.running_over, CallUsage] using hc
  | timerReq timer func timeout period arg =>
    obtain _ | e := timer
    · trivial
    cases e with
    | timer n =>
      simp only [Call.check, Sys.over_k, Bool.and_eq_true] at hc
      -- The check looks for the entry among the links, and the refinement says that it is not
      -- queued.
      have hn := of_decide_eq_true hc.2
      exact ⟨⟨n, rfl⟩, fun hq => hn ((h.sim.refines.queued_tick_iff _).mp hq)⟩
    | _ => simp [Call.check] at hc
  | semInit i num =>
    cases i with
    | none => trivial
    | some i => simpa [Call.check, CallUsage] using hc
  | semGet i | semPut i =>
    cases i with
    | none => trivial
    | some i => exact hc
  | mutexInit m =>
    cases m with
    | none => trivial
    | some m => simpa [Call.check, CallUsage] using hc
  | mutexGet m =>
    cases m with
    | none => trivial
    | some m => exact hc
  | mutexPut m =>
    cases m with
    | none => trivial
    | some m =>
      simp only [Call.check, h.running_over, Sys.over_live, Bool.and_eq_true] at hc
      refine ⟨hc.1, ?_⟩
      -- The holder is the task that runs.
      cases hr : s.running with
      | none => simp [hr] at hc
      | some u => exact ⟨u, rfl, by simpa [hr] using hc.2⟩
  | msgQueueCreate q length =>
    cases q with
    | none => trivial
    | some q => simpa [Call.check, CallUsage] using hc
  | msgPut q m method =>
    obtain _ | q := q
    · trivial
    obtain _ | m := m
    · trivial
    simp only [Call.check, Sys.over_live, Bool.and_eq_true, Bool.not_eq_true'] at hc
    refine ⟨hc.1, fun q' hq' hm => ?_⟩
    -- A message that is in a queue has been put, which the check excludes.
    rw [hput q' m ((h.sim.refines.queued_msg_iff hq' m).mp hm)] at hc
    simp at hc
  | msgGet q buffer =>
    cases q with
    | none => trivial
    | some q => exact hc
  | osDelay | schedule => trivial

/-- A move that passes the check is one that `Usage` allows. -/
theorem Core.usage_of_check (h : Core hst s a) {m : Move}
    (hput : ∀ q i, i ∈ a.msgs q → hasPut i hst = true) (hm : m.check hst (s.over a) = true) :
    Usage hst s m.act := by
  cases m with
  | call c =>
    simp only [Move.check, h.running_over, Bool.and_eq_true, Bool.or_eq_true,
      decide_eq_true_eq] at hm
    obtain ⟨⟨hc, hmain⟩, hidle⟩ := hm
    refine ⟨h.callUsage_of_check hput hc, fun hr => ?_, fun hr => hidle.resolve_left (absurd hr)⟩
    exact hmain.resolve_left (by simp [hr])
  | tick | resume | start => trivial

/-- Only messages that have been put are queued. -/
theorem Lockstep.put_of_queued (h : Lockstep s a act s' a') (hcore : Core hst s a)
    (hput : ∀ q m, m ∈ a.msgs q → hasPut m hst = true) {q m : ℕ}
    (hm : m ∈ a'.msgs q) : hasPut m ((s.running, act) :: hst) = true := by
  have hkeep : m ∈ a.msgs q → hasPut m ((s.running, act) :: hst) = true := fun hm => by
    rw [hasPut, List.any_cons, Bool.or_eq_true]
    exact Or.inr (hput q m hm)
  have hcall : ∀ {c : Call} {r : Ret}, act = .call c → a.exec c = some (a', r) →
      hasPut m ((s.running, act) :: hst) = true := by
    rintro c r rfl ha
    rcases Call.mem_msgsOf (Abs.exec_msgs ha q ▸ hm) with hm | ⟨q', method, rfl⟩
    · exact hkeep hm
    · simp [hasPut]
  cases h with
  | main _ _ ha => exact hcall rfl ha
  | call _ _ _ ha _ => exact hcall rfl ha
  | @tick _ o _ _ _ _ _ _ ha => 
    have := hcore.sim.wf.passFrom_hardwareTimer ha
    exact hkeep (this.1.msgs ▸ hm)
  | ret | start => exact hkeep hm
  | pass hr hf _ ha =>
    obtain ⟨hn, hmem, -⟩ := hcore.timer _ _ hf
    exact hkeep ((hcore.sim.wf.passFrom_hardwareTimerResume hn hmem ha).1.msgs ▸ hm)

/-- The kernel before it is started, with all its variables zero. -/
def Vars.zero : Vars where
  prio _ := 0
  tick _ := ⟨.softwareTimer, 0, none, none, 0, 0, 0⟩
  sem _ := ⟨0, none⟩
  mutex _ := ⟨0, 0, none⟩
  queue _ := ⟨0, 0⟩
  msg _ := ⟨0, 0⟩
  mem _ := 0
  newTask := none
  oldTask := none
  scheduleIsLock := false
  fosTick := 0
  log := []

/-- The start of a replay. -/
def Sys.zero : Sys Abs := ⟨Abs.systemInit Vars.zero, fun _ => none, liveInit⟩

/-- The start of a replay in which the messages and the memory are filled in. -/
def Sys.filled (msg : ℕ → Msg) (mem : ℕ → ℕ) : Sys Abs :=
  ⟨Abs.systemInit { Vars.zero with msg := msg, mem := mem }, fun _ => none, liveInit⟩

/-- The state of the abstract kernel is one at a start of the kernel, where no message is queued. -/
def Starts (s₀ : Sys Abs) : Prop :=
  ∃ s, Init s ∧ Core [] s s₀.k ∧ s₀ = s.over s₀.k ∧ ∀ q, s₀.k.msgs q = []

/-- The start of a replay is a start of the kernel. -/
theorem Sys.filled_init (msg : ℕ → Msg) (mem : ℕ → ℕ) : Starts (Sys.filled msg mem) := by
  let v : Vars := { Vars.zero with msg := msg, mem := mem }
  let k : Kernel := ⟨v, fun _ => ⟨tickHead, tickHead⟩, 0, fun _ => 0⟩
  have hz : k.Zeroed := ⟨rfl, fun _ => rfl, rfl, rfl, rfl⟩
  obtain ⟨k', hk, -⟩ := systemInit_sim hz
  exact ⟨⟨k', fun _ => none, liveInit⟩, ⟨⟨k, hz, hk⟩, fun _ => rfl, rfl⟩,
    Core.zeroed hz hk (fun _ => rfl) rfl, rfl, fun _ => rfl⟩

/-- The start of a replay is a start of the kernel. -/
theorem Sys.zero_init : Starts Sys.zero := Sys.filled_init Vars.zero.msg Vars.zero.mem

/-- What can be replayed is a run of the kernel, and a move that passes the check is one that
`Usage` allows next. -/
theorem replay_next (guard : Trace Kernel → Sys Kernel → Action → Prop)
    {ok : Trace Abs → Sys Abs → Move → Bool} {ms : List Move} {trA : Trace Abs} {s₀ sA : Sys Abs}
    (hstart : Starts s₀)
    (hguard : ∀ tr s a trA m, SysRun guard tr s → Core (hist tr) s a → Shadow tr s trA a →
      Usage (hist tr) s m.act → ok trA (s.over a) m = true → guard tr s m.act)
    (h : replay ok ms [] s₀ = some (trA, sA)) :
    ∃ tr s a, SysRun guard tr s ∧ Core (hist tr) s a ∧ Shadow tr s trA a ∧ sA = s.over a ∧
      tr.map Prod.snd = (ms.map Move.act).reverse ∧ (∀ t f, s.frame t ≠ some (.timer f)) ∧
        ∀ m : Move, m.check (hist trA) sA = true → Usage (hist tr) s m.act := by
  -- What holds of a replay so far.
  have hmain : ∀ (ms : List Move) tr s a trA₀, SysRun guard tr s → Core (hist tr) s a →
      Shadow tr s trA₀ a → (∀ t f, s.frame t ≠ some (.timer f)) →
      (∀ q m, m ∈ a.msgs q → hasPut m (hist tr) = true) →
      replay ok ms trA₀ (s.over a) = some (trA, sA) →
      ∃ tr' s a, SysRun guard tr' s ∧ Core (hist tr') s a ∧ Shadow tr' s trA a ∧ sA = s.over a ∧
        tr'.map Prod.snd = (ms.map Move.act).reverse ++ tr.map Prod.snd ∧
          (∀ t f, s.frame t ≠ some (.timer f)) ∧
            ∀ q m, m ∈ a.msgs q → hasPut m (hist tr') = true := by
    intro ms
    induction ms with
    | nil =>
      intro tr s a trA₀ hrun hcore hshadow hno hput h
      obtain ⟨rfl, rfl⟩ := Prod.mk.inj (Option.some.inj h)
      exact ⟨tr, s, a, hrun, hcore, hshadow, rfl, rfl, hno, hput⟩
    | cons m ms ih =>
      intro tr s a trA₀ hrun hcore hshadow hno hput h
      rw [replay] at h
      split_ifs at h with hcheck
      obtain ⟨sA', hstep, h⟩ := Option.bind_eq_some_iff.mp h
      rw [Bool.and_eq_true, hshadow.hist_eq] at hcheck
      have husage := hcore.usage_of_check hput hcheck.1
      have hpassive := m.passive_act
      have ho : Orderly (hist tr) s m.act := .of_passive husage hpassive hno
      have henabled : s.Enabled m.act := hcore.enabled_of_step_over hstep
      obtain ⟨s', a', hlock, hcore'⟩ := hcore.step ho henabled
      obtain rfl := Option.some.inj (hstep.symm.trans (hlock.step_over hcore.running_eq))
      have := ih _ s' a' _
        (.cons hrun (hguard _ _ _ _ _ hrun hcore hshadow husage hcheck.2) hlock.step)
        hcore' (.cons hshadow hcore.running_over (hlock.returned_eq hcore.running_eq))
        (hlock.noTimerFrame hcore hpassive hno) (fun q i hi => hlock.put_of_queued hcore hput hi) h
      simpa using this
  obtain ⟨s, hinit, hcore, hs, hempty⟩ := hstart
  rw [hs] at h
  obtain ⟨tr', s', a', hrun, hcore', hshadow, rfl, hacts, hno, hput⟩ :=
    hmain ms [] s _ [] (.nil hinit) hcore .nil (fun t f => by simp [hinit.2.1 t])
      (fun q m hm => by simp [hempty q] at hm) h
  refine ⟨tr', s', a', hrun, hcore', hshadow, rfl, by simpa using hacts, hno, fun m hm => ?_⟩
  rw [hshadow.hist_eq] at hm
  exact hcore'.usage_of_check hput hm

/-- What can be replayed is a run of the kernel. -/
theorem replay_run (guard : Trace Kernel → Sys Kernel → Action → Prop)
    {ok : Trace Abs → Sys Abs → Move → Bool} {ms : List Move} {trA : Trace Abs} {sA : Sys Abs}
    (hguard : ∀ tr s a trA m, SysRun guard tr s → Core (hist tr) s a → Shadow tr s trA a →
      Usage (hist tr) s m.act → ok trA (s.over a) m = true → guard tr s m.act)
    (h : replay ok ms [] Sys.zero = some (trA, sA)) :
    ∃ tr s a, SysRun guard tr s ∧ Core (hist tr) s a ∧ Shadow tr s trA a ∧ sA = s.over a ∧
      tr.map Prod.snd = (ms.map Move.act).reverse := by
  obtain ⟨tr, s, a, hrun, hcore, hshadow, hs, hacts, -⟩ := replay_next guard Sys.zero_init hguard h
  exact ⟨tr, s, a, hrun, hcore, hshadow, hs, hacts⟩

/-- What can be replayed is an orderly run, and a move that passes the check is orderly next. -/
theorem replay_orderly {ms : List Move} {trA : Trace Abs} {s₀ sA : Sys Abs} (hstart : Starts s₀)
    (h : replay (fun _ _ _ => true) ms [] s₀ = some (trA, sA)) :
    ∃ tr s a, SysRun (fun tr s act => Orderly (hist tr) s act) tr s ∧ Core (hist tr) s a ∧
      sA = s.over a ∧ tr.map Prod.snd = (ms.map Move.act).reverse ∧
        ∀ m : Move, m.check (hist trA) sA = true → Orderly (hist tr) s m.act := by
  obtain ⟨tr, s, a, hrun, hcore, -, rfl, hacts, hno, hnext⟩ :=
    replay_next (fun tr s act => Usage (hist tr) s act ∧ Passive act) hstart
      (fun _ _ _ _ m _ _ _ hu _ => ⟨hu, m.passive_act⟩) h
  obtain ⟨horderly, -⟩ := hrun.orderly fun _ _ _ hg => hg
  exact ⟨tr, s, a, Runs.Run.mono horderly fun _ _ _ _ hg => hg.2, hcore, rfl, hacts,
    fun m hm => .of_passive (hnext m hm) m.passive_act hno⟩

end Fos
