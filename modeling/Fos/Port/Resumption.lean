import Fos.Port.Contexts
import Fos.Port.Switches

/-!
# Tasks are resumed where they were left

The runs of the board. `timer_isr` ends on the stack that it was entered on, whatever
`find_high_ready_task` has selected, and `user_isr` does not store the stack pointer of the task
that it was entered on. As long as neither matters (`Recorded`), the processor and the kernel are in
step (`port_inStep`).
-/

namespace Fos

open Function Handover

/-! ## Runs of the board -/

/-- The calls that have been made in a run. -/
def Board.hist : List (Board × PortAction) → Hist
  | [] => []
  | (b, .call c _ _) :: tr => (b.k.newTask, .call c) :: hist tr
  | _ :: tr => hist tr

/-- How callers use the kernel's functions: calls as `Usage` says, semaphores that have been set up
in callbacks and interrupt handlers, and no suspended pass is disturbed. -/
def Board.Usage (hst : Hist) (b : Board) : PortAction → Prop
  | .call c _ _ => Fos.Usage hst b.toSys (.call c)
  | .timer o _ => CallbackUsage b.toSys (.tick o) ∧ Undisturbed b.toSys (.tick o)
  | .external puts _ => ∀ i ∈ puts, b.live (.sem i) = true
  | .resume o _ => CallbackUsage b.toSys (.resume o) ∧ Undisturbed b.toSys (.resume o) ∧
      ∀ r1 puts, b.cpu.pc = .userIsr r1 puts → ∀ i ∈ puts, b.live (.sem i) = true
  | .run .. | .leave _ | .start => True

/-- The board after `system_init`: `main` has the processor, and the idle task has its first
frame. -/
structure Board.Init (b : Board) : Prop where
  sys : Fos.Init b.toSys
  main : b.cpu.sp.task = none
  code : ∃ n, b.cpu.pc = .num n
  stackPtr : b.stackPtr idleTcb = ⟨some idleTcb, 0⟩
  frame : ∃ pTask arg taskExit, loadFrame (b.mem (some idleTcb)) 0 = stackInit pTask arg taskExit
  log : b.log = [.left (some idleTcb) (contextAt b.mem ⟨some idleTcb, 0⟩)]

/-- The runs of the board under a guard. -/
abbrev PortRun (guard : List (Board × PortAction) → Board → PortAction → Prop) :=
  Runs.Run Board.Init Board.step guard

/-- Where `timer_isr` ends, the task that it goes back to is the first one of the highest priority,
and where `user_isr` ends, the `stack_ptr` of the task that it was entered on points to its
frame. -/
def Board.Recorded (b : Board) : PortAction → Prop
  | .leave _ =>
    match b.cpu.pc with
    | .timerIsr _ _ => b.k.RunningFirst
    | .userIsr r1 _ => ∀ t, b.k.newTask = some t → b.stackPtr t = ⟨b.cpu.sp.task, r1⟩
    | .num _ => True
  | _ => True

/-- The guard of the runs in which handlers end as they should. -/
def Board.Guard (tr : List (Board × PortAction)) (b : Board) (act : PortAction) : Prop :=
  b.Usage (Board.hist tr) act ∧ b.Recorded act

/-! ## The kernel on the board -/

section Kernel

variable {hst : Hist} {s : Sys Kernel} {a : Abs} {k' : Kernel} {t : TcbPtr}

/-- Whatever is not a call of `mutex_get` need not be in the history. -/
theorem Core.of_cons {u : Option TcbPtr} {act : Action} (h : Core ((u, act) :: hst) s a)
    (hact : ∀ m, act ≠ .call (.mutexGet (some m))) : Core hst s a := by
  have hget := fun t m => hasCalledGet_cons_of_ne hst t u (hact m)
  exact ⟨h.sim, fun t m hm => h.get_live t m ((hget t m).trans hm),
    fun t m hm => h.copy_prio t m ((hget t m).trans hm),
    fun m hm hno => h.fresh m hm fun t => (hget t m).trans (hno t), h.timer, h.apart⟩

/-- The passes that are suspended are all that matters of the frames. -/
theorem Core.of_frame {frame frame' : TcbPtr → Option Frame} {live : Node → Bool}
    (h : Core hst ⟨k', frame, live⟩ a)
    (hsub : ∀ t f, frame' t = some (.timer f) → frame t = some (.timer f)) :
    Core hst ⟨k', frame', live⟩ a :=
  ⟨h.sim, h.get_live, h.copy_prio, h.fresh, fun t f ht => h.timer t f (hsub t f ht),
    fun t u f g ht hu => h.apart t u f g (hsub t f ht) (hsub u g hu)⟩

/-- A call keeps the invariant of the kernel. -/
theorem Core.exec (h : Core hst s a) {c : Call} {r : Ret} (hu : Usage hst s (.call c))
    (hfree : ∀ t, s.running = some t → s.frame t = none) (hk : s.k.exec c = some (k', r)) :
    ∃ a', a.exec c = some (a', r) ∧
      Core ((s.running, .call c) :: hst) ⟨k', s.frame, setUp s.live c⟩ a' := by
  obtain ⟨s', a', hlock, hcore⟩ := h.call hu hfree
  refine ⟨a', ?_⟩
  cases hlock with
  | main _ hk' ha =>
    obtain ⟨rfl, rfl⟩ := Prod.mk.inj (Option.some.inj (hk.symm.trans hk'))
    exact ⟨ha, hcore⟩
  | @call t _ _ _ r' hr hf hk' ha =>
    obtain ⟨rfl, rfl⟩ := Prod.mk.inj (Option.some.inj (hk.symm.trans hk'))
    refine ⟨ha, hcore.of_frame fun u f hu => ?_⟩
    unfold Sys.callFrame
    split_ifs
    · exact hu
    · have hne : u ≠ t := fun e => by simp [e, hf] at hu
      rw [update_of_ne hne]
      exact hu

/-- The rest of a suspended pass keeps the invariant of the kernel. -/
theorem Core.hardwareTimerResume (h : Core hst s a) {f : TimerFrame} {f' : Option TimerFrame}
    {o : Oracle} (hr : s.running = some t) (hf : s.frame t = some (.timer f))
    (ho : CallbackUsage s (.resume o)) (hd : Undisturbed s (.resume o))
    (hk : s.k.hardwareTimerResume f o = some (k', f')) :
    ∃ a', Core hst ⟨k', update s.frame t (f'.map .timer), s.live⟩ a' := by
  obtain ⟨s', a', hlock, hcore⟩ := h.resume hr hf ho hd
  refine ⟨a', ?_⟩
  cases hlock with
  | ret hr' hf' =>
    obtain rfl := Option.some.inj (hr.symm.trans hr')
    simp [hf] at hf'
  | pass hr' hf' hk' =>
    obtain rfl := Option.some.inj (hr.symm.trans hr')
    obtain rfl := Frame.timer.inj (Option.some.inj (hf.symm.trans hf'))
    obtain ⟨rfl, rfl⟩ := Prod.mk.inj (Option.some.inj (hk.symm.trans hk'))
    exact hcore.of_cons (by simp)

/-- The handlers of an external interrupt keep the invariant of the kernel. -/
theorem Core.runCallback (h : Core hst s a) {puts : List ℕ} {rest : Option (List ℕ)}
    (hlive : ∀ i ∈ puts, s.live (.sem i) = true) (hfree : s.frame t = none)
    (hk : s.k.runCallback puts = some (k', rest)) :
    ∃ a', Core hst ⟨k', s.frame, s.live⟩ a' := by
  obtain ⟨k₁, a', rest₁, hk₁, -, htidy, hready, hput, -, -⟩ := runCallback_sim puts h.sim.tidy hlive
  obtain ⟨rfl, rfl⟩ := Prod.mk.inj (Option.some.inj (hk.symm.trans hk₁))
  have hwithin : Within ((none, .start) :: hst)
      ⟨k', update s.frame t ((none : Option TimerFrame).map .timer), s.live⟩ a' :=
    h.within.passed (n := a.fosTick) htidy (by simp) (.of_putFrom [] hput) (by simp) (by simp)
  rw [Option.map_none, ← hfree, update_eq_self] at hwithin
  exact ⟨a', (hwithin.core (hready (Or.inl h.sim.ready))).of_cons (by simp)⟩

/-- `find_high_ready_task` keeps the invariant of the kernel. -/
theorem Core.findHighReadyTask (h : Core hst s a) (hr : s.running = some t)
    (hf : s.frame t = none) (hk : s.k.findHighReadyTask = some k') :
    ∃ a', Core hst ⟨k', s.frame, s.live⟩ a' := by
  have hlock : s.k.scheduleIsLock = false := by
    rw [← h.sim.wf.unlocked, h.sim.refines.vars]
  have hexec : s.k.exec .schedule = some (k', .VOID) := by
    simp only [Kernel.exec, Kernel.schedule, hlock]
    rw [Kernel.findHighReadyTask] at hk
    simp [hk]
  obtain ⟨a', -, hcore⟩ := h.exec (c := .schedule) ⟨trivial, fun hmain => by simp [hr] at hmain,
    fun _ => rfl⟩ (fun u hu => by rwa [← Option.some.inj (hr.symm.trans hu)]) hexec
  exact ⟨a', hcore.of_cons (by simp)⟩

end Kernel

/-! ## One step -/

/-- The invariant of the runs of the board. -/
structure BoardOk (hst : Hist) (b : Board) (a : Abs) : Prop where
  /-- The kernel is well formed. -/
  core : Core hst b.toSys a
  /-- The processor is on the stack of `new_task`, and all other tasks are suspended. -/
  stands : Stands b b.k.newTask

variable {hst : Hist} {b b' : Board} {a : Abs} {t : TcbPtr}

/-- The task that has the processor has been created. -/
theorem BoardOk.live (h : BoardOk hst b a) (u : TcbPtr) (hu : b.k.newTask = some u) :
    b.live (.tcb u) = true := h.core.live_running hu

/-- The task whose stack the processor is on is `new_task`. -/
theorem BoardOk.newTask_eq (h : BoardOk hst b a) (ht : b.cpu.sp.task = some t) :
    b.k.newTask = some t := h.stands.task.symm.trans ht

/-- Instructions of a task. -/
theorem BoardOk.run (h : BoardOk hst b a) {regs : Fin 32 → BitVec 32} {off : ℤ}
    {mem : ℤ → BitVec 32} (hs : b.step (.run regs off mem) = some b') : BoardOk hst b' a := by
  simp only [Board.step] at hs
  split at hs
  · next n hpc =>
    obtain rfl := Option.some.inj hs
    have hstands : Stands { b with
        cpu := ⟨fun i => .num (regs i), ⟨b.k.newTask, off⟩⟩
        mem := update b.mem b.k.newTask fun x => .num (mem x) } b.k.newTask :=
      h.stands.run h.live hpc rfl rfl
    refine ⟨h.core, ?_⟩
    rw [h.stands.task]
    exact hstands
  · cases hs

/-- A call. -/
theorem BoardOk.call (h : BoardOk hst b a) {c : Call} {arg taskExit : BitVec 32}
    (hu : Fos.Usage hst b.toSys (.call c)) (hs : b.step (.call c arg taskExit) = some b') :
    ∃ a' r, a.exec c = some (a', r) ∧ BoardOk ((b.k.newTask, .call c) :: hst) b' a' := by
  simp only [Board.step] at hs
  split at hs
  case h_2 => cases hs
  next n hpc =>
  obtain ⟨⟨k, r⟩, hk, hs⟩ := Option.bind_eq_some_iff.mp hs
  -- The task makes the call outside any pass.
  have hfree : ∀ t, b.k.newTask = some t → b.frame t = none := fun t ht => by
    have hframe := (h.stands.goes.of_code hpc).2
    rwa [ht] at hframe
  obtain ⟨a', ha, hcore⟩ := h.core.exec hu hfree hk
  have hfresh : ∀ u, c.setsUp = some (.tcb u) → b.live (.tcb u) = false := fun u hset => by
    obtain ⟨f, stack, prio, rfl⟩ := Call.eq_of_setsUp_tcb hset
    exact hu.1.2.1
  have hstands := h.stands.call h.live k hpc hfresh arg taskExit
  set b₁ : Board := { b.createStack c arg taskExit with k := k, live := setUp b.live c } with hb₁
  have hcore₁ : Core ((b.k.newTask, .call c) :: hst) b₁.toSys a' := by
    show Core _ ⟨k, (b.createStack c arg taskExit).frame, setUp b.live c⟩ a'
    rw [Board.createStack_toSys]
    exact hcore
  refine ⟨a', r, ha, ?_⟩
  dsimp only at hs
  split_ifs at hs with hsame
  · obtain rfl := Option.some.inj hs
    exact ⟨hcore₁, by rw [show b₁.k.newTask = b.k.newTask from hsame]; exact hstands⟩
  · -- The caller is a task, and gives the processor to the one that it has selected.
    obtain ⟨hne, hold⟩ := (Kernel.exec_switches hk).resolve_left hsame
    obtain ⟨u, hnew⟩ := Option.ne_none_iff_exists'.mp hne
    cases hr : b.k.newTask with
    | none => exact absurd (Kernel.exec_newTask_of_isSetUp (hu.2.1 hr) hk) hsame
    | some t =>
      rw [hr] at hstands hold
      have hcpu : b₁.cpu = b.cpu := b.createStack_cpu c arg taskExit
      have ht : b₁.live (.tcb t) = true := setUp_mono (h.live t hr)
      have hdisabled : Stands { b₁ with cpu := b₁.cpu.interruptDisable } (some t) :=
        hstands.setCpu (fun v hv => Option.some.inj hv ▸ ht) (hcpu ▸ hpc)
          (by simpa using hstands.task) (by rw [Context.interruptDisable_pc, hcpu, hpc])
      obtain ⟨b₂, hb₂, hstands₂, hsys⟩ :=
        hdisabled.taskSwitch ht hold hnew (hcore₁.live_running hnew)
      obtain rfl := Option.some.inj (hs.symm.trans hb₂)
      rw [← hr]
      refine ⟨hsys ▸ hcore₁, ?_⟩
      rw [hsys, show b₁.k.newTask = some u from hnew]
      exact hstands₂

/-- What the functions under a handler come to. -/
theorem BoardOk.underHandler {r1 : ℤ} (hh : Handles b t r1) (hlive : b.live (.tcb t) = true)
    (hrun : b.k.newTask = some t) {pc : Word} (hpc : UnderHandler r1 (b.frame t) pc) {cl : Clobber}
    {k : Kernel} (hswitch : b.k.Switches k) (hcore : Core hst ⟨k, b.frame, b.live⟩ a)
    (hs : b.underHandler r1 pc cl k = some b') : BoardOk hst b' a := by
  have hne : k.newTask ≠ none := by
    rcases hswitch with hsame | ⟨hne, -⟩
    · simp [hsame, hrun]
    · exact hne
  obtain ⟨u, hnew⟩ := Option.ne_none_iff_exists'.mp hne
  obtain ⟨b₁, hb₁, hstands, hsys⟩ :=
    hh.underHandler hlive hrun hpc hswitch hnew (hcore.live_running hnew)
  obtain rfl := Option.some.inj (hs.symm.trans hb₁)
  exact ⟨hsys ▸ hcore, by rw [hsys, hnew]; exact hstands⟩

/-- A timer interrupt. -/
theorem BoardOk.timer (h : BoardOk hst b a) {o : Oracle} {cl : Clobber}
    (ho : CallbackUsage b.toSys (.tick o)) (hd : Undisturbed b.toSys (.tick o))
    (hs : b.step (.timer o cl) = some b') :
    ∃ a' f, a.hardwareTimer o = some (a', f) ∧ BoardOk hst b' a' := by
  simp only [Board.step] at hs
  split at hs
  case h_2 => cases hs
  next n t hpc ht =>
  split_ifs at hs
  obtain ⟨⟨k, f⟩, hk, hs⟩ := Option.bind_eq_some_iff.mp hs
  have hrun := h.newTask_eq ht
  have hlive := h.live t hrun
  obtain ⟨k', a', f', hk', ha, hcore⟩ := h.core.within.tick t none ho hd
  obtain ⟨rfl, rfl⟩ := Prod.mk.inj (Option.some.inj (hk.symm.trans hk'))
  have hstands := h.stands
  rw [hrun] at hstands
  obtain ⟨hh, -⟩ := hstands.enter hlive hpc
  refine ⟨a', f, ha, BoardOk.underHandler (hh.setPass hlive f) hlive hrun ?_
    (Kernel.hardwareTimer_switches hk) (hcore.of_cons (by simp)) hs⟩
  simp only [Board.setPass, update_self]
  exact .timerIsr f

/-- An external interrupt. -/
theorem BoardOk.external (h : BoardOk hst b a) {puts : List ℕ} {cl : Clobber}
    (hputs : ∀ i ∈ puts, b.live (.sem i) = true)
    (hs : b.step (.external puts cl) = some b') : ∃ a', BoardOk hst b' a' := by
  simp only [Board.step] at hs
  split at hs
  case h_2 => cases hs
  next n t hpc ht =>
  split_ifs at hs
  obtain ⟨⟨k, rest⟩, hk, hs⟩ := Option.bind_eq_some_iff.mp hs
  have hrun := h.newTask_eq ht
  have hlive := h.live t hrun
  have hstands := h.stands
  rw [hrun] at hstands
  obtain ⟨hh, hframe⟩ := hstands.enter hlive hpc
  obtain ⟨a', hcore⟩ := h.core.runCallback hputs hframe hk
  have hframe' : b.storeContext.frame t = none := hframe
  refine ⟨a', BoardOk.underHandler hh hlive hrun ?_
    (Kernel.runCallback_suspends hk).switches hcore hs⟩
  rw [hframe']
  exact .userIsr _

/-- The functions under a handler go on. -/
theorem BoardOk.resume (h : BoardOk hst b a) {o : Oracle} {cl : Clobber}
    (hu : b.Usage hst (.resume o cl)) (hs : b.step (.resume o cl) = some b') :
    ∃ a', BoardOk hst b' a' := by
  obtain ⟨ho, hd, hputs⟩ := hu
  simp only [Board.step] at hs
  split at hs
  · next r1 f t hpc ht =>
    obtain ⟨⟨k, f'⟩, hk, hs⟩ := Option.bind_eq_some_iff.mp hs
    have hrun := h.newTask_eq ht
    have hlive := h.live t hrun
    have hstands := h.stands
    rw [hrun] at hstands
    obtain ⟨hh, hframe⟩ := hstands.handles hpc (.timerIsr (some f))
    obtain ⟨a', hcore⟩ := h.core.hardwareTimerResume hrun hframe ho hd hk
    refine ⟨a', BoardOk.underHandler (hh.setPass hlive f') hlive hrun ?_
      (Kernel.hardwareTimerResume_switches hk) hcore hs⟩
    simp only [Board.setPass, update_self]
    exact .timerIsr f'
  · next r1 i puts t hpc ht =>
    obtain ⟨⟨k, rest⟩, hk, hs⟩ := Option.bind_eq_some_iff.mp hs
    have hrun := h.newTask_eq ht
    have hstands := h.stands
    rw [hrun] at hstands
    obtain ⟨hh, hframe⟩ := hstands.handles hpc (.userIsr (i :: puts))
    obtain ⟨a', hcore⟩ := h.core.runCallback (hputs r1 _ hpc) hframe hk
    exact ⟨a', BoardOk.underHandler hh (h.live t hrun) hrun (hframe ▸ .userIsr _)
      (Kernel.runCallback_suspends hk).switches hcore hs⟩
  · cases hs

/-- The end of a handler. -/
theorem BoardOk.leave (h : BoardOk hst b a) {cl : Clobber} (hrec : b.Recorded (.leave cl))
    (hs : b.step (.leave cl) = some b') : ∃ a', BoardOk hst b' a' := by
  simp only [Board.step] at hs
  split at hs
  · next r1 t hpc ht =>
    obtain ⟨k, hk, hs⟩ := Option.bind_eq_some_iff.mp hs
    obtain rfl := Option.some.inj hs
    have hrun := h.newTask_eq ht
    have hstands := h.stands
    rw [hrun] at hstands
    obtain ⟨hh, hframe⟩ := hstands.handles hpc (.timerIsr none)
    obtain ⟨a', hcore⟩ := h.core.findHighReadyTask hrun hframe hk
    -- The task that `find_high_ready_task` selects is the one that the handler goes back to.
    have hsame : k.newTask = some t := by
      simp only [Board.Recorded, hpc] at hrec
      have hsel := (Kernel.findHighReadyTask_newTask hk).2.1 hrec
      rw [Kernel.newTask_of_selection hsel, hrun]
    refine ⟨a', hcore, ?_⟩
    show Stands _ k.newTask
    rw [hsame]
    exact hh.leave (h.live t hrun) hframe cl k
  · next r1 t hpc ht =>
    obtain ⟨k, hk, hs⟩ := Option.bind_eq_some_iff.mp hs
    obtain ⟨u, hnew, hs⟩ := Option.bind_eq_some_iff.mp hs
    obtain rfl := Option.some.inj hs
    have hrun := h.newTask_eq ht
    have hstands := h.stands
    rw [hrun] at hstands
    obtain ⟨hh, hframe⟩ := hstands.handles hpc (.userIsr [])
    obtain ⟨a', hcore⟩ := h.core.findHighReadyTask hrun hframe hk
    have hsp : b.stackPtr t = ⟨some t, r1⟩ := by
      simp only [Board.Recorded, hpc, ht] at hrec
      exact hrec t hrun
    refine ⟨a', hcore, ?_⟩
    show Stands _ k.newTask
    rw [hnew]
    exact hh.leave_to (h.live t hrun) hframe hsp cl k (hcore.live_running hnew)
  · cases hs

/-- The start of the idle task. -/
theorem BoardOk.start (h : BoardOk hst b a) (hs : b.step .start = some b') :
    BoardOk hst b' (a.startWhichTask idleTcb) := by
  simp only [Board.step] at hs
  split at hs
  · next hpc ht hr =>
    obtain rfl := Option.some.inj hs
    obtain ⟨s', a', hlock, hcore⟩ := h.core.start hr
    cases hlock
    refine ⟨hcore.of_cons (by simp), ?_⟩
    have hidle : b.live (.tcb idleTcb) = true :=
      h.core.sim.wf.tasks.live_of_mem _ _ h.core.sim.wf.tasks.idle
    have hothers := h.stands.others
    rw [hr] at hothers
    have hstarted : Others { b with k := b.k.startWhichTask idleTcb } none :=
      hothers.congr (by simp) rfl (fun _ _ => ⟨rfl, rfl, rfl, rfl⟩) hothers.exact
    exact hstarted.restore hidle
  · cases hs

/-! ## Runs -/

/-- The invariant holds at the start. -/
theorem Board.Init.ok (h : b.Init) {k : Kernel} (hz : k.Zeroed) (hk : k.systemInit = some b.k) :
    BoardOk [] b (Abs.systemInit k.toVars) := by
  obtain ⟨-, hframe, hlive⟩ := h.sys
  have hcore := Core.zeroed hz hk hframe hlive
  have hmain : b.k.newTask = none := hcore.running_eq.trans hz.newTask
  have htcb : ∀ u, b.live (.tcb u) = true ↔ u = idleTcb := fun u => by simp [hlive, update_apply]
  refine ⟨hcore, ?_⟩
  rw [hmain]
  obtain ⟨n, hpc⟩ := h.code
  obtain ⟨pTask, arg, taskExit, hfirst⟩ := h.frame
  refine ⟨h.main, ?_, fun u hu _ => ?_, fun u hu => ?_, ?_⟩
  · rw [h.log, pending_left_of_ne (by simp)]
    exact .code hpc
  · -- Only the idle task has been created.
    obtain rfl := (htcb u).mp hu
    refine ⟨by rw [h.stackPtr], [], ?_⟩
    rw [h.stackPtr, h.log, pending_left_self, hframe]
    refine ⟨rfl, .code (n := pTask) ?_⟩
    simp only [Context.pc, contextAt, hfirst]
    rfl
  · have hne : u ≠ idleTcb := fun e => by simp [(htcb u).mpr e] at hu
    refine ⟨?_, hframe u⟩
    rw [h.log, pending_left_of_ne (by simpa using hne)]
    rfl
  · rw [h.log]
    trivial

/-- The invariant holds in every state of every run in which handlers end as they should. -/
theorem PortRun.ok {guard : List (Board × PortAction) → Board → PortAction → Prop}
    {tr : List (Board × PortAction)} (h : PortRun guard tr b)
    (hguard : ∀ tr b act, guard tr b act → b.Usage (Board.hist tr) act ∧ b.Recorded act) :
    ∃ a, BoardOk (Board.hist tr) b a := by
  refine Runs.Run.invariant (I := fun tr b => ∃ a, BoardOk (Board.hist tr) b a) h
    (fun b hb => ?_) ?_
  · obtain ⟨⟨k, hz, hk⟩, -⟩ := hb.sys
    exact ⟨_, hb.ok hz hk⟩
  rintro tr b act b' - ⟨a, hok⟩ hg hs
  obtain ⟨hu, hrec⟩ := hguard tr b act hg
  cases act with
  | run regs off mem => exact ⟨a, hok.run hs⟩
  | call c arg taskExit =>
    obtain ⟨a', r, -, hok'⟩ := hok.call hu hs
    exact ⟨a', hok'⟩
  | timer o cl =>
    obtain ⟨a', f, -, hok'⟩ := hok.timer hu.1 hu.2 hs
    exact ⟨a', hok'⟩
  | external puts cl => exact hok.external hu hs
  | resume o cl => exact hok.resume hu hs
  | leave cl => exact hok.leave hrec hs
  | start => exact ⟨_, hok.start hs⟩

/-- As long as handlers end as they should, the processor and the kernel are in step: the task whose
code is executed is `new_task`, and every task goes on with the context that it was left in last. -/
theorem port_inStep {tr : List (Board × PortAction)} (h : PortRun Board.Guard tr b) :
    b.InStep := by
  obtain ⟨a, hok⟩ := h.ok fun _ _ _ hg => hg
  refine ⟨fun t ht => ?_, hok.stands.others.exact⟩
  rw [← hok.stands.task]
  exact ht.1

/-! ## Where handlers end otherwise -/

/-- `timer_isr` goes back to the task that it was entered on. -/
theorem BoardOk.executes_leave (h : BoardOk hst b a) {r1 : ℤ} (hpc : b.cpu.pc = .timerIsr r1 none)
    (ht : b.cpu.sp.task = some t) {cl : Clobber} (hs : b.step (.leave cl) = some b') :
    b'.Executes t := by
  simp only [Board.step, hpc, ht] at hs
  obtain ⟨k, -, hs⟩ := Option.bind_eq_some_iff.mp hs
  obtain rfl := Option.some.inj hs
  have hrun := h.newTask_eq ht
  have hstands := h.stands
  rw [hrun] at hstands
  obtain ⟨hh, -⟩ := hstands.handles hpc (.timerIsr none)
  exact ⟨rfl, (hh.runBelow (h.live t hrun) cl k).code⟩

/-- Where `find_high_ready_task` finds another task at the end of `timer_isr`, the handler goes back
to a task that is not `new_task`. -/
theorem BoardOk.not_inStep_leave (h : BoardOk hst b a) {r1 : ℤ} (hpc : b.cpu.pc = .timerIsr r1 none)
    (hfirst : ¬ b.k.RunningFirst) {cl : Clobber} (hs : b.step (.leave cl) = some b') :
    ¬ b'.InStep := by
  cases ht : b.cpu.sp.task with
  | none => simp [Board.step, hpc, ht] at hs
  | some t =>
    have hexec := h.executes_leave hpc ht hs
    simp only [Board.step, hpc, ht] at hs
    obtain ⟨k, hk, hs⟩ := Option.bind_eq_some_iff.mp hs
    obtain rfl := Option.some.inj hs
    intro hin
    exact (Kernel.findHighReadyTask_newTask hk).2.2 hfirst
      ((hin.newTask t hexec).trans (h.newTask_eq ht).symm)

/-- Where `user_isr` goes back to the task that it was entered on, and `stack_ptr` does not point to
its frame, the task does not go on with the context that it was interrupted in. -/
theorem BoardOk.not_inStep_leave_user (h : BoardOk hst b a) {r1 : ℤ}
    (hpc : b.cpu.pc = .userIsr r1 []) (ht : b.cpu.sp.task = some t)
    (htask : (b.stackPtr t).task = some t) (hsp : b.stackPtr t ≠ ⟨some t, r1⟩)
    (hfirst : b.k.RunningFirst) {cl : Clobber} (hs : b.step (.leave cl) = some b') :
    ¬ b'.InStep := by
  simp only [Board.step, hpc, ht] at hs
  obtain ⟨k, hk, hs⟩ := Option.bind_eq_some_iff.mp hs
  obtain ⟨u, hnew, hs⟩ := Option.bind_eq_some_iff.mp hs
  obtain rfl := Option.some.inj hs
  have hrun := h.newTask_eq ht
  have hstands := h.stands
  rw [hrun] at hstands
  obtain ⟨hh, -⟩ := hstands.handles hpc (.userIsr [])
  -- The same task is selected again.
  have hsel := Kernel.newTask_of_selection ((Kernel.findHighReadyTask_newTask hk).2.1 hfirst)
  obtain rfl : t = u := Option.some.inj (hrun.symm.trans (hsel.symm.trans hnew))
  intro hin
  have hbelow := hh.runBelow (h.live t hrun) cl k
  obtain ⟨hhead, -⟩ := exact_resumed.mp hin.exact
  have hpending : pending (b.runBelow r1 cl k).log (b.stackPtr t).task =
      [contextAt (b.runBelow r1 cl k).mem ⟨some t, r1⟩] := by
    rw [htask]
    exact hbelow.pending
  rw [hpending, List.head?_cons, Option.some.injEq] at hhead
  -- The stack pointer tells the two contexts apart.
  have hoff := congrArg (fun c => c.sp.off) hhead
  simp only [contextAt, add_left_inj] at hoff
  refine hsp ?_
  rw [← htask, hoff]

/-! ## A run -/

/-- A board on which `main` begins, with the kernel in the state `k`. -/
def Board.zero (k : Kernel) : Board where
  k := k
  frame _ := none
  live := liveInit
  cpu := ⟨fun _ => .num 0, ⟨none, 0⟩⟩
  mem := update (fun _ _ => .num 0) (some idleTcb)
    (storeFrame (fun _ => .num 0) 0 (stackInit 0 0 0))
  stackPtr t := ⟨some t, 0⟩
  log := [.left (some idleTcb) ⟨stackInit 0 0 0, ⟨some idleTcb, STK_FRAME_SIZE⟩⟩]

/-- What the functions under the handlers of the run below do to the processor. -/
def Clobber.zero : Clobber := ⟨fun _ => 0, 0, fun _ => 0⟩

theorem Board.contextAt_zero (k : Kernel) : contextAt (Board.zero k).mem ⟨some idleTcb, 0⟩ =
    ⟨stackInit 0 0 0, ⟨some idleTcb, STK_FRAME_SIZE⟩⟩ := by
  simp [contextAt, Board.zero]

/-- It is a start of the board. -/
theorem Board.zero_init {k₀ k : Kernel} (hz : k₀.Zeroed) (hk : k₀.systemInit = some k) :
    (Board.zero k).Init where
  sys := ⟨⟨k₀, hz, hk⟩, fun _ => rfl, rfl⟩
  main := rfl
  code := ⟨0, rfl⟩
  stackPtr := rfl
  frame := ⟨0, 0, 0, congrArg Context.regs (Board.contextAt_zero k)⟩
  log := by rw [Board.contextAt_zero]; rfl

/-- The idle task starts, with the context that its `stack_ptr` points to. -/
theorem PortRun.start {tr : List (Board × PortAction)} (hrun : PortRun Board.Guard tr b)
    (hok : BoardOk (Board.hist tr) b a) {n : BitVec 32} (hpc : b.cpu.pc = .num n)
    (hmain : b.k.newTask = none) :
    ∃ b', PortRun Board.Guard ((b, .start) :: tr) b' ∧
      BoardOk (Board.hist tr) b' (a.startWhichTask idleTcb) ∧
        b'.cpu = contextAt b.mem (b.stackPtr idleTcb) ∧ b'.mem = b.mem ∧
          b'.stackPtr = b.stackPtr ∧ b'.frame = b.frame := by
  have hmain' : b.cpu.sp.task = none := hok.stands.task.trans hmain
  set b' := Board.restoreContext { b with k := b.k.startWhichTask idleTcb } (b.stackPtr idleTcb)
    with hb'
  have hs : b.step .start = some b' := by
    simp only [Board.step, hpc, hmain', hmain, hb']
  exact ⟨b', .cons hrun ⟨trivial, trivial⟩ hs, hok.start hs, rfl, rfl, rfl, rfl⟩

/-- The timer interrupts a task, where no pass is suspended and callbacks make no kernel call. -/
theorem PortRun.timer {tr : List (Board × PortAction)} (hrun : PortRun Board.Guard tr b)
    (hok : BoardOk (Board.hist tr) b a) {n : BitVec 32} (hpc : b.cpu.pc = .num n)
    (ht : b.cpu.sp.task = some t) (hflag : b.cpu.flag SPR_SR_TEE = true)
    (hnopass : ∀ u f, b.frame u ≠ some (.timer f)) {a' : Abs}
    (ha : a.hardwareTimer passive = some (a', none)) (cl : Clobber) :
    ∃ k, b.k.Switches k ∧ k.newTask = a'.newTask ∧ ∀ b',
      (b.storeContext.setPass t none).underHandler b.storeContext.cpu.sp.off
        (.timerIsr b.storeContext.cpu.sp.off none) cl k = some b' →
      PortRun Board.Guard ((b, .timer passive cl) :: tr) b' ∧ BoardOk (Board.hist tr) b' a' := by
  have hu : Board.Guard tr b (.timer passive cl) :=
    ⟨⟨by simp [CallbackUsage, passive], fun u g hg => absurd hg (hnopass u g)⟩, trivial⟩
  obtain ⟨k, a₁, f, hk, ha₁, hcore⟩ := hok.core.within.tick t none hu.1.1 hu.1.2
  obtain ⟨rfl, rfl⟩ := Prod.mk.inj (Option.some.inj (ha.symm.trans ha₁))
  have hk' : b.storeContext.k.hardwareTimer passive = some (k, none) := hk
  refine ⟨k, Kernel.hardwareTimer_switches hk, hcore.running_eq, fun b' hb' => ?_⟩
  have hs : b.step (.timer passive cl) = some b' := by
    simp only [Board.step, hpc, ht, hflag, if_true, hk', Option.bind_eq_bind, Option.bind_some, hb']
  obtain ⟨a₂, f₂, ha₂, hok'⟩ := hok.timer hu.1.1 hu.1.2 hs
  obtain ⟨rfl, -⟩ := Prod.mk.inj (Option.some.inj (ha.symm.trans ha₂))
  exact ⟨.cons hrun hu hs, hok'⟩

/-- The timer interrupts a task, and `hardware_timer` switches to another one. -/
theorem PortRun.timer_switch {tr : List (Board × PortAction)} (hrun : PortRun Board.Guard tr b)
    (hok : BoardOk (Board.hist tr) b a) {n : BitVec 32} (hpc : b.cpu.pc = .num n)
    (ht : b.cpu.sp.task = some t) (hflag : b.cpu.flag SPR_SR_TEE = true)
    (hnopass : ∀ u f, b.frame u ≠ some (.timer f)) {a' : Abs}
    (ha : a.hardwareTimer passive = some (a', none)) {u : TcbPtr} (hnew : a'.newTask = some u)
    (hne : u ≠ t) (hu : (b.stackPtr u).task = some u) (cl : Clobber) :
    ∃ b' r1, PortRun Board.Guard ((b, .timer passive cl) :: tr) b' ∧
      BoardOk (Board.hist tr) b' a' ∧ b'.cpu = contextAt b.mem (b.stackPtr u) ∧
        (contextAt b'.mem (b'.stackPtr t)).pc = .timerIsr r1 none := by
  obtain ⟨k, hsw, hk, hstep⟩ := hrun.timer hok hpc ht hflag hnopass ha cl
  have hnew' : k.newTask = some u := hk.trans hnew
  have hold : b.k.newTask = some t := hok.newTask_eq ht
  have hother : k.newTask ≠ b.k.newTask := by
    rw [hnew', hold]
    simpa using hne
  obtain ⟨b', hb', hcpu, hleft⟩ := Board.underHandler_contexts (b := b.storeContext.setPass t none)
    ht ((hsw.resolve_left hother).2.trans hold) hnew' hother hne hu _ cl
  obtain ⟨hrun', hok'⟩ := hstep b' hb'
  refine ⟨b', _, hrun', hok', hcpu.trans ?_, hleft⟩
  have hmem : b.storeContext.mem (some u) = b.mem (some u) := by
    simp [Board.storeContext, ht, hne]
  show contextAt b.storeContext.mem (b.stackPtr u) = _
  rw [contextAt, contextAt, hu, hmem]

/-- `timer_isr` ends, and whether it ends as it should is told by the task that `schedule` of the
abstract kernel selects. -/
theorem BoardOk.exists_leave (h : BoardOk hst b a) {r1 : ℤ} (hpc : b.cpu.pc = .timerIsr r1 none)
    (ht : b.cpu.sp.task = some t) (cl : Clobber) {a₁ : Abs} (ha : a.schedule = some a₁) :
    ∃ b', b.step (.leave cl) = some b' ∧ (b.k.RunningFirst ↔ a₁.newTask = some t) := by
  obtain ⟨p, u, ts, hp, hl, hmin, hsched⟩ := h.core.sim.wf.schedule_eq
  obtain ⟨-, k', hfetch, href⟩ := h.core.sim.refines.fetch h.core.sim.wf.tasks hp hl hmin
  obtain rfl := Option.some.inj (ha.symm.trans hsched)
  have hk : b.k.findHighReadyTask = some k' := by simp [Kernel.findHighReadyTask, hfetch]
  have hrun := h.newTask_eq ht
  obtain ⟨-, hfirst, hother⟩ := Kernel.findHighReadyTask_newTask hk
  refine ⟨(b.runBelow r1 cl k').restoreContext ⟨some t, r1⟩,
    by simp only [Board.step, hpc, ht, hk, Option.bind_eq_bind, Option.bind_some], ?_⟩
  rw [← href.newTask_eq, ← hrun]
  exact ⟨fun hf => Kernel.newTask_of_selection (hfirst hf), fun hsame => by_contra (hother · hsame)⟩

/-- A task or `main` makes a call. -/
theorem PortRun.call {tr : List (Board × PortAction)} (hrun : PortRun Board.Guard tr b)
    (hok : BoardOk (Board.hist tr) b a) {n : BitVec 32} (hpc : b.cpu.pc = .num n) {c : Call}
    (hu : Fos.Usage (Board.hist tr) b.toSys (.call c)) {a' : Abs} {r : Ret}
    (ha : a.exec c = some (a', r)) (arg taskExit : BitVec 32) :
    ∃ k, b.k.Switches k ∧ k.newTask = a'.newTask ∧ ∀ b' b₁,
      b₁ = { b.createStack c arg taskExit with k := k, live := setUp b.live c } →
      (if k.newTask = b.k.newTask then some b₁
        else { b₁ with cpu := b₁.cpu.interruptDisable }.taskSwitch) = some b' →
      PortRun Board.Guard ((b, .call c arg taskExit) :: tr) b' ∧
        BoardOk ((b.k.newTask, .call c) :: Board.hist tr) b' a' := by
  have hfree : ∀ t, b.k.newTask = some t → b.frame t = none := fun t ht => by
    have hframe := (hok.stands.goes.of_code hpc).2
    rwa [ht] at hframe
  obtain ⟨s', a₁, hlock, hcore⟩ := hok.core.call hu hfree
  obtain ⟨k, r₁, hk⟩ : ∃ k r₁, b.k.exec c = some (k, r₁) := by
    cases hlock with
    | main _ hk _ => exact ⟨_, _, hk⟩
    | call _ _ hk _ _ => exact ⟨_, _, hk⟩
  obtain ⟨a₂, ha₂, hcore₂⟩ := hok.core.exec hu hfree hk
  obtain ⟨rfl, rfl⟩ := Prod.mk.inj (Option.some.inj (ha.symm.trans ha₂))
  refine ⟨k, Kernel.exec_switches hk, hcore₂.running_eq, fun b' b₁ hb₁ hb' => ?_⟩
  have hs : b.step (.call c arg taskExit) = some b' := by
    simp only [Board.step, hpc, hk, Option.bind_eq_bind, Option.bind_some]
    rw [← hb', hb₁]
  obtain ⟨a₃, r₃, ha₃, hok'⟩ := hok.call hu hs
  obtain ⟨rfl, -⟩ := Prod.mk.inj (Option.some.inj (ha.symm.trans ha₃))
  exact ⟨.cons hrun ⟨hu, trivial⟩ hs, hok'⟩

/-- `main` makes a call. -/
theorem PortRun.call_main {tr : List (Board × PortAction)} (hrun : PortRun Board.Guard tr b)
    (hok : BoardOk (Board.hist tr) b a) {n : BitVec 32} (hpc : b.cpu.pc = .num n)
    (hmain : b.k.newTask = none) {c : Call} (hu : Fos.Usage (Board.hist tr) b.toSys (.call c))
    {a' : Abs} {r : Ret} (ha : a.exec c = some (a', r)) (hnew : a'.newTask = none)
    (arg taskExit : BitVec 32) :
    ∃ k, k.newTask = none ∧ ∀ b',
      b' = { b.createStack c arg taskExit with k := k, live := setUp b.live c } →
      PortRun Board.Guard ((b, .call c arg taskExit) :: tr) b' ∧
        BoardOk ((b.k.newTask, .call c) :: Board.hist tr) b' a' := by
  obtain ⟨k, -, hk, hstep⟩ := hrun.call hok hpc hu ha arg taskExit
  have hmain' : k.newTask = none := hk.trans hnew
  exact ⟨k, hmain', fun b' hb' => hstep b' b' hb' (if_pos (hmain'.trans hmain.symm))⟩

/-- A task makes a call that creates no task, and switches to another one. -/
theorem PortRun.call_switch {tr : List (Board × PortAction)} (hrun : PortRun Board.Guard tr b)
    (hok : BoardOk (Board.hist tr) b a) {n : BitVec 32} (hpc : b.cpu.pc = .num n)
    (ht : b.cpu.sp.task = some t) {c : Call}
    (hu : Fos.Usage (Board.hist tr) b.toSys (.call c)) {a' : Abs} {r : Ret}
    (ha : a.exec c = some (a', r)) {u : TcbPtr} (hnew : a'.newTask = some u) (hne : u ≠ t)
    (hsp : (b.stackPtr u).task = some u) (arg taskExit : BitVec 32)
    (hstack : b.createStack c arg taskExit = b) :
    ∃ b', PortRun Board.Guard ((b, .call c arg taskExit) :: tr) b' ∧
      BoardOk ((b.k.newTask, .call c) :: Board.hist tr) b' a' ∧
        b'.cpu = contextAt b.mem (b.stackPtr u) := by
  obtain ⟨k, hsw, hk, hstep⟩ := hrun.call hok hpc hu ha arg taskExit
  have hnew' : k.newTask = some u := hk.trans hnew
  have hold : b.k.newTask = some t := hok.newTask_eq ht
  have hother : k.newTask ≠ b.k.newTask := by
    rw [hnew', hold]
    simpa using hne
  obtain ⟨b', hb', hcpu, -⟩ := Board.taskSwitch_contexts
    (b := { b with k := k, live := setUp b.live c, cpu := b.cpu.interruptDisable })
    (by simpa using ht) ((hsw.resolve_left hother).2.trans hold) hnew' hne hsp
  obtain ⟨hrun', hok'⟩ := hstep b' { b with k := k, live := setUp b.live c }
    (by rw [hstack]) ((if_neg hother).trans hb')
  exact ⟨b', hrun', hok', hcpu⟩

/-- There is a start of the board. -/
theorem Board.exists_zero : ∃ k, BoardOk [] (Board.zero k) (Abs.systemInit Vars.zero) ∧
    PortRun Board.Guard [] (Board.zero k) := by
  let k₀ : Kernel := ⟨Vars.zero, fun _ => ⟨tickHead, tickHead⟩, 0, fun _ => 0⟩
  have hz : k₀.Zeroed := ⟨rfl, fun _ => rfl, rfl, rfl, rfl⟩
  obtain ⟨k, hk, -⟩ := systemInit_sim hz
  have hinit := Board.zero_init hz hk
  exact ⟨k, hinit.ok hz hk, .nil hinit⟩

/-- `timer_isr` ends as it should. -/
theorem PortRun.leave {tr : List (Board × PortAction)} (hrun : PortRun Board.Guard tr b)
    (hok : BoardOk (Board.hist tr) b a) {r1 : ℤ} (hpc : b.cpu.pc = .timerIsr r1 none)
    (ht : b.cpu.sp.task = some t) (cl : Clobber) {a' : Abs} (ha : a.schedule = some a')
    (hnew : a'.newTask = some t) :
    ∃ b', PortRun Board.Guard ((b, .leave cl) :: tr) b' ∧ b'.Executes t := by
  obtain ⟨b', hs, hfirst⟩ := hok.exists_leave hpc ht cl ha
  have hrec : b.Recorded (.leave cl) := by
    simp only [Board.Recorded, hpc]
    exact hfirst.mpr hnew
  exact ⟨b', .cons hrun ⟨trivial, hrec⟩ hs, hok.executes_leave hpc ht hs⟩

/-- `main` creates a task, and the idle task starts. The timer interrupts the idle task, and
`hardware_timer` switches to the other one. That one sleeps, and the idle task goes on behind the
`l.sys` in `timer_isr`, and to where it was interrupted. -/
theorem port_inStep_twoTasks : ∃ tr b, PortRun Board.Guard tr b ∧
    tr.map Prod.snd = [.leave Clobber.zero, .call (.osDelay 2) 0 0, .timer passive Clobber.zero,
      .start, .call (.taskCreate (some (.task 1)) (some 0) (some 0) 5) 0 0] ∧
    (∃ b₁ ∈ tr.map Prod.fst, b₁.Executes (.task 1)) ∧ b.Executes idleTcb ∧ b.InStep := by
  obtain ⟨k, hok, hrun⟩ := Board.exists_zero
  let c : Call := .taskCreate (some (.task 1)) (some 0) (some 0) 5
  have htrace : ((Abs.systemInit Vars.zero).exec c).bind (fun r =>
      if r.1.newTask = none then
        ((r.1.startWhichTask idleTcb).hardwareTimer passive).bind fun r =>
          if r.2 = none ∧ r.1.newTask = some (.task 1) then
            (r.1.exec (.osDelay 2)).bind fun r =>
              if r.1.newTask = some idleTcb then r.1.schedule.map (·.newTask) else none
          else none
      else none) = some (some idleTcb) := by
    decide
  obtain ⟨⟨a₁, r₁⟩, hcreate, htrace⟩ := Option.bind_eq_some_iff.mp htrace
  split_ifs at htrace with hnew₁
  obtain ⟨⟨a₃, f⟩, htimer, htrace⟩ := Option.bind_eq_some_iff.mp htrace
  split_ifs at htrace with hf
  obtain ⟨rfl, hnew₃⟩ := hf
  obtain ⟨⟨a₄, r₄⟩, hdelay, htrace⟩ := Option.bind_eq_some_iff.mp htrace
  split_ifs at htrace with hnew₄
  obtain ⟨a₅, hsched, hnew₅⟩ := Option.map_eq_some_iff.mp htrace
  have hmain : (Board.zero k).k.newTask = none := hok.core.running_eq
  -- `main` creates the task.
  have hu : Fos.Usage [] (Board.zero k).toSys (.call c) :=
    ⟨⟨⟨1, rfl⟩, by simp [Board.zero, liveInit], by decide⟩, fun _ => rfl,
      fun hidle => absurd (hmain.symm.trans hidle) (by decide)⟩
  obtain ⟨k₁, hmain₁, hstep₁⟩ := hrun.call_main hok (n := 0) rfl hmain hu hcreate hnew₁ 0 0
  obtain ⟨hrun₁, hok₁⟩ := hstep₁ _ rfl
  -- The idle task starts.
  obtain ⟨b₂, hrun₂, hok₂, hcpu₂, hmem₂, hsp₂, hframe₂⟩ := hrun₁.start hok₁ (n := 0) rfl hmain₁
  have hidle : b₂.cpu = ⟨stackInit 0 0 0, ⟨some idleTcb, STK_FRAME_SIZE⟩⟩ :=
    hcpu₂.trans (Board.contextAt_zero k)
  -- `hardware_timer` switches to the other task.
  obtain ⟨b₃, r1, hrun₃, hok₃, hcpu₃, hleft₃⟩ := hrun₂.timer_switch hok₂ (n := 0) (t := idleTcb)
    (hidle ▸ rfl) (hidle ▸ rfl) (hidle ▸ rfl)
    (fun u f => by rw [hframe₂]; simp [Board.zero]) htimer hnew₃ (by decide)
    (by rw [hsp₂]; rfl) Clobber.zero
  have hpc₃ : b₃.cpu.pc = .num 0 := by
    rw [hcpu₃, hmem₂, hsp₂]
    rfl
  have ht₃ : b₃.cpu.sp.task = some (.task 1) := by
    rw [hcpu₃, hsp₂]
    rfl
  have hcaller : b₃.k.newTask = some (.task 1) := hok₃.newTask_eq ht₃
  have hlive₃ : b₃.live (.tcb idleTcb) = true :=
    hok₃.core.sim.wf.tasks.live_of_mem _ _ hok₃.core.sim.wf.tasks.idle
  have hidle₃ : (b₃.stackPtr idleTcb).task = some idleTcb :=
    (hok₃.stands.others.suspended idleTcb hlive₃ (by rw [hcaller]; decide)).task
  -- That one sleeps, and the idle task goes on in `timer_isr`.
  obtain ⟨b₄, hrun₄, hok₄, hcpu₄⟩ := hrun₃.call_switch hok₃ hpc₃ ht₃ (c := .osDelay 2)
    ⟨trivial, fun h => absurd (hcaller.symm.trans h) (by decide),
      fun h => absurd (hcaller.symm.trans h) (by decide)⟩ hdelay hnew₄ (by decide) hidle₃ 0 0 rfl
  obtain ⟨b₅, hrun₅, hexec₅⟩ := hrun₄.leave hok₄ (by rw [hcpu₄, hleft₃])
    (by rw [hcpu₄]; exact hidle₃) Clobber.zero hsched hnew₅
  exact ⟨_, b₅, hrun₅, rfl, ⟨b₃, by simp, ht₃, 0, hpc₃⟩, hexec₅, port_inStep hrun₅⟩

/-- A task of the same priority as the idle task is created, and the timer interrupts the idle task
when it has started. `hardware_timer` selects the idle task again, `find_high_ready_task` the other
one, and `timer_isr` goes back to the idle task. -/
theorem not_port_inStep_sharedPrio : ¬ ∀ tr b,
    PortRun (fun tr b act => b.Usage (Board.hist tr) act) tr b → b.InStep := by
  intro hall
  obtain ⟨k, hok, hrun⟩ := Board.exists_zero
  let c : Call := .taskCreate (some (.task 1)) (some 0) (some 0) 31
  have htrace : ((Abs.systemInit Vars.zero).exec c).bind (fun r =>
      if r.1.newTask = none then
        ((r.1.startWhichTask idleTcb).hardwareTimer passive).bind fun r =>
          if r.2 = none ∧ r.1.newTask = some idleTcb then r.1.schedule.map (·.newTask) else none
      else none) = some (some (.task 1)) := by
    decide
  obtain ⟨⟨a₁, r₁⟩, hcreate, htrace⟩ := Option.bind_eq_some_iff.mp htrace
  split_ifs at htrace with hnew₁
  obtain ⟨⟨a₃, f⟩, htimer, htrace⟩ := Option.bind_eq_some_iff.mp htrace
  split_ifs at htrace with hf
  obtain ⟨rfl, hnew₃⟩ := hf
  obtain ⟨a₄, hsched, hnew₄⟩ := Option.map_eq_some_iff.mp htrace
  have hmain : (Board.zero k).k.newTask = none := hok.core.running_eq
  -- `main` creates the other task.
  have hu : Fos.Usage [] (Board.zero k).toSys (.call c) :=
    ⟨⟨⟨1, rfl⟩, by simp [Board.zero, liveInit], by decide⟩, fun _ => rfl,
      fun hidle => absurd (hmain.symm.trans hidle) (by decide)⟩
  obtain ⟨k₁, hmain₁, hstep₁⟩ := hrun.call_main hok (n := 0) rfl hmain hu hcreate hnew₁ 0 0
  obtain ⟨hrun₁, hok₁⟩ := hstep₁ _ rfl
  -- The idle task starts.
  obtain ⟨b₂, hrun₂, hok₂, hcpu₂, -, -, hframe₂⟩ := hrun₁.start hok₁ (n := 0) rfl hmain₁
  have hidle : b₂.cpu = ⟨stackInit 0 0 0, ⟨some idleTcb, STK_FRAME_SIZE⟩⟩ :=
    hcpu₂.trans (Board.contextAt_zero k)
  have ht₂ : b₂.cpu.sp.task = some idleTcb := hidle ▸ rfl
  -- `hardware_timer` selects it again.
  obtain ⟨k₃, -, hk₃, hstep₃⟩ := hrun₂.timer hok₂ (n := 0) (hidle ▸ rfl) ht₂ (hidle ▸ rfl)
    (fun u f => by rw [hframe₂]; simp [Board.zero]) htimer Clobber.zero
  obtain ⟨hrun₃, hok₃⟩ := hstep₃ _ (if_pos ((hk₃.trans hnew₃).trans (hok₂.newTask_eq ht₂).symm))
  obtain ⟨b₄, hs, hfirst⟩ := hok₃.exists_leave rfl ht₂ Clobber.zero hsched
  have hnot : ¬ Kernel.RunningFirst _ := fun hf => by
    have heq := (hfirst.mp hf).symm.trans hnew₄
    simp at heq
  have hrun₄ : PortRun (fun tr b act => b.Usage (Board.hist tr) act)
      ((_, .leave Clobber.zero) :: _) b₄ :=
    .cons (Runs.Run.mono hrun₃ fun _ _ _ _ hg => hg.1) trivial hs
  exact hok₃.not_inStep_leave rfl hnot hs (hall _ b₄ hrun₄)

end Fos
