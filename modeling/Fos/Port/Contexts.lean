import Fos.Port.Or1ksim
import Fos.Refinement.System

/-!
# Where the contexts are

While a task executes its own code, every other task has the context that it was left in last in the
frame that its `stack_ptr` points to (`SwitchedOut`), and a task that was switched out inside an
interrupt handler has the context of its own code in the frame of that handler, above the other one
(`Goes`). `Stands` says all of this of a board on which a given task, or `main`, has the processor.
Every way in which `reset.S` moves a context has a lemma that says what it keeps of it.
-/

namespace Fos

open Function Handover

/-! ## Frames -/

variable {mem mem' : ℤ → Word} {r1 r1' : ℤ} {regs : Regs}

@[simp] theorem loadFrame_storeFrame (mem : ℤ → Word) (r1 : ℤ) (regs : Regs) :
    loadFrame (storeFrame mem r1 regs) r1 = regs := by
  funext i
  have hi : r1 ≤ r1 + i ∧ r1 + i < r1 + 32 := by omega
  rw [loadFrame, storeFrame, dif_pos hi]
  congr 1
  ext
  simp

/-- A frame is in the words above its address. -/
theorem loadFrame_congr (h : ∀ x, r1 ≤ x → mem' x = mem x) : loadFrame mem' r1 = loadFrame mem r1 :=
  funext fun i => h _ (by omega)

theorem storeFrame_of_ge (mem : ℤ → Word) (regs : Regs) {x : ℤ} (h : r1 + 32 ≤ x) :
    storeFrame mem r1 regs x = mem x := by
  rw [storeFrame, dif_neg (by omega)]

/-! ## The contexts of a task -/

/-- The program counter of functions under a handler whose frame is at `r1`. `frame` is what is left
of the pass that they are inside. -/
inductive UnderHandler (r1 : ℤ) : Option Frame → Word → Prop where
  | timerIsr (f : Option TimerFrame) : UnderHandler r1 (f.map .timer) (.timerIsr r1 f)
  | userIsr (puts : List ℕ) : UnderHandler r1 none (.userIsr r1 puts)

/-- A task on whose stack the processor is, or is to go on, with the context `c`, has the contexts
`rest` still to be resumed in: none in its own code, and in a handler the one in the handler's
frame. -/
inductive Goes (mem : Option TcbPtr → ℤ → Word) (t : Option TcbPtr) :
    Option Frame → Context → List Context → Prop where
  /-- The code of the task. -/
  | code {c : Context} {n : BitVec 32} (hpc : c.pc = .num n) : Goes mem t none c []
  /-- The functions under a handler. -/
  | handler {c : Context} {r1 : ℤ} {f : Option Frame} {n : BitVec 32}
      (hpc : UnderHandler r1 f c.pc) (hcode : (contextAt mem ⟨t, r1⟩).pc = .num n)
      (hle : c.sp.off ≤ r1) : Goes mem t f c [contextAt mem ⟨t, r1⟩]

/-- The words above the stack pointer are all that matters. -/
theorem Goes.congr {mem mem' : Option TcbPtr → ℤ → Word} {t : Option TcbPtr} {f : Option Frame}
    {c : Context} {rest : List Context} (h : Goes mem t f c rest)
    (hmem : ∀ x, c.sp.off ≤ x → mem' t x = mem t x) : Goes mem' t f c rest := by
  cases h with
  | code hpc => exact .code hpc
  | @handler _ r1 _ n hpc hcode hle =>
    have hsame : contextAt mem' ⟨t, r1⟩ = contextAt mem ⟨t, r1⟩ := by
      simp only [contextAt]
      rw [loadFrame_congr fun x hx => hmem x (hle.trans hx)]
    rw [← hsame] at hcode ⊢
    exact .handler hpc hcode hle

/-- The code of a task is inside no handler. -/
theorem Goes.of_code {mem : Option TcbPtr → ℤ → Word} {t : Option TcbPtr} {f : Option Frame}
    {c : Context} {rest : List Context} {n : BitVec 32} (h : Goes mem t f c rest)
    (hpc : c.pc = .num n) : rest = [] ∧ f = none := by
  cases h with
  | code => exact ⟨rfl, rfl⟩
  | handler hunder =>
    rw [hpc] at hunder
    cases hunder

/-- Functions under a handler go back to the code of the task. -/
theorem Goes.of_handler {mem : Option TcbPtr → ℤ → Word} {t : Option TcbPtr} {f : Option Frame}
    {c : Context} {rest : List Context} (h : Goes mem t f c rest) {r1 : ℤ} {f' : Option Frame}
    (hpc : UnderHandler r1 f' c.pc) :
    f = f' ∧ rest = [contextAt mem ⟨t, r1⟩] ∧ ∃ n, (contextAt mem ⟨t, r1⟩).pc = .num n := by
  cases h with
  | code hnum =>
    rw [hnum] at hpc
    cases hpc
  | handler hunder hcode =>
    generalize c.pc = pc at hpc hunder
    cases hpc <;> cases hunder <;> exact ⟨rfl, rfl, _, hcode⟩

variable {b b' : Board} {t u : TcbPtr}

/-- A task that does not have the processor: the frame that its `stack_ptr` points to holds the
context that it was left in last. -/
structure SwitchedOut (b : Board) (t : TcbPtr) : Prop where
  task : (b.stackPtr t).task = some t
  goes : ∃ rest, pending b.log (some t) = contextAt b.mem (b.stackPtr t) :: rest ∧
    Goes b.mem (some t) (b.frame t) (contextAt b.mem (b.stackPtr t)) rest

/-- Nothing of what matters to the task is different. -/
structure SameFor (b b' : Board) (t : TcbPtr) : Prop where
  mem : b'.mem (some t) = b.mem (some t)
  stackPtr : b'.stackPtr t = b.stackPtr t
  frame : b'.frame t = b.frame t
  pending : pending b'.log (some t) = pending b.log (some t)

theorem SwitchedOut.congr (h : SwitchedOut b t) (hsame : SameFor b b' t) : SwitchedOut b' t := by
  obtain ⟨htask, rest, hpending, hgoes⟩ := h
  have hcontext : contextAt b'.mem (b'.stackPtr t) = contextAt b.mem (b.stackPtr t) := by
    simp only [contextAt, hsame.stackPtr, htask, hsame.mem]
  refine ⟨by rw [hsame.stackPtr, htask], rest, by rw [hsame.pending, hpending, hcontext], ?_⟩
  rw [hcontext, hsame.frame]
  exact hgoes.congr fun x _ => by rw [hsame.mem]

/-! ## The contexts of all tasks -/

/-- All tasks but `t` are suspended. A task that has not been created was never left. -/
structure Others (b : Board) (t : Option TcbPtr) : Prop where
  suspended : ∀ u, b.live (.tcb u) = true → t ≠ some u → SwitchedOut b u
  fresh : ∀ u, b.live (.tcb u) = false → pending b.log (some u) = [] ∧ b.frame u = none
  exact : Exact b.log

/-- The processor is on the stack of `t`, and all other tasks are suspended. -/
structure Stands (b : Board) (t : Option TcbPtr) : Prop where
  task : b.cpu.sp.task = t
  goes : Goes b.mem t (t.bind b.frame) b.cpu (pending b.log t)
  others : Others b t

/-- What is done on the stack that the processor is on leaves the others suspended. -/
theorem Others.congr {t : Option TcbPtr} (h : Others b t)
    (ht : ∀ u, t = some u → b.live (.tcb u) = true) (hlive : b'.live = b.live)
    (hsame : ∀ u, t ≠ some u → SameFor b b' u) (hexact : Exact b'.log) : Others b' t where
  suspended u hu hne := (h.suspended u (hlive ▸ hu) hne).congr (hsame u hne)
  fresh u hu := by
    rw [hlive] at hu
    have hne : t ≠ some u := fun e => by simp [ht u e] at hu
    rw [(hsame u hne).pending, (hsame u hne).frame]
    exact h.fresh u hu
  exact := hexact

/-- What is done to the stack and the frames of a task leaves the others suspended. -/
theorem Others.congr_some (h : Others b (some t)) (ht : b.live (.tcb t) = true)
    (hlive : b'.live = b.live) (hsame : ∀ u, u ≠ t → SameFor b b' u) (hexact : Exact b'.log) :
    Others b' (some t) :=
  h.congr (fun _ e => Option.some.inj e ▸ ht) hlive (fun u hu => hsame u fun e => hu (e ▸ rfl))
    hexact

/-- Where the `stack_ptr` of a task points to the frame of the context that it was left in last, it
is suspended as well. -/
theorem Others.park (h : Others b (some t)) {sp : StackAddr} (hsp : b.stackPtr t = sp)
    (htask : sp.task = some t) {rest : List Context}
    (hpending : pending b.log (some t) = contextAt b.mem sp :: rest)
    (hgoes : Goes b.mem (some t) (b.frame t) (contextAt b.mem sp) rest) : Others b none := by
  refine ⟨fun u hu _ => ?_, h.fresh, h.exact⟩
  rcases eq_or_ne u t with rfl | hne
  · subst hsp
    exact ⟨htask, rest, hpending, hgoes⟩
  · exact h.suspended u hu (by simpa using hne.symm)

/-- A task is resumed with the context that it was left in last, from the frame that holds it. -/
theorem Others.resume (h : Others b (some t)) (ht : b.live (.tcb t) = true) {sp : StackAddr}
    (htask : sp.task = some t) {rest : List Context}
    (hpending : pending b.log (some t) = contextAt b.mem sp :: rest)
    (hgoes : Goes b.mem (some t) (b.frame t) (contextAt b.mem sp) rest) :
    Stands (b.restoreContext sp) (some t) := by
  have hlog : (b.restoreContext sp).log = .resumed (some t) (contextAt b.mem sp) :: b.log := by
    simp only [Board.restoreContext, htask]
  refine ⟨htask, ?_, h.congr_some ht rfl (fun u hu => ⟨rfl, rfl, rfl, ?_⟩) ?_⟩
  · rw [hlog, pending_resumed_self, hpending, List.tail_cons]
    exact hgoes
  · rw [hlog, pending_resumed_of_ne (by simpa using hu)]
  · rw [hlog, exact_resumed, hpending]
    exact ⟨rfl, h.exact⟩

/-- Where all tasks are suspended, any of them is resumed from the frame that its `stack_ptr` points
to. -/
theorem Others.restore (h : Others b none) (hu : b.live (.tcb u) = true) :
    Stands (b.restoreContext (b.stackPtr u)) (some u) := by
  obtain ⟨htask, rest, hpending, hgoes⟩ := h.suspended u hu (by simp)
  have hothers : Others b (some u) := ⟨fun v hv _ => h.suspended v hv (by simp), h.fresh, h.exact⟩
  exact hothers.resume hu htask hpending hgoes

/-! ## Exceptions -/

/-- The frame that an exception stores holds the context that it has interrupted. -/
theorem contextAt_storeContext (b : Board) :
    contextAt b.storeContext.mem b.storeContext.cpu.sp = b.cpu := by
  obtain ⟨k, ⟨regs, ⟨t, off⟩⟩, mem, stackPtr, log⟩ := b
  simp [contextAt, Board.storeContext]

/-- What an exception stores lies below the stack pointer. -/
theorem storeContext_mem_of_le (b : Board) {x : ℤ} (h : b.cpu.sp.off ≤ x) :
    b.storeContext.mem b.cpu.sp.task x = b.mem b.cpu.sp.task x := by
  simp only [Board.storeContext, update_self]
  exact storeFrame_of_ge _ _ (by simp only [STK_FRAME_SIZE]; omega)

/-- `task_switch` leaves one task in the context that it has, and another one goes on in that which
its `stack_ptr` points to. -/
theorem Board.taskSwitch_contexts (ht : b.cpu.sp.task = some t) (hold : b.k.oldTask = some t)
    (hnew : b.k.newTask = some u) (hne : u ≠ t) (hu : (b.stackPtr u).task = some u) :
    ∃ b', b.taskSwitch = some b' ∧ b'.cpu = contextAt b.mem (b.stackPtr u) ∧
      contextAt b'.mem (b'.stackPtr t) = b.cpu := by
  refine ⟨_, Board.taskSwitch_eq hold hnew, ?_, ?_⟩
  · simp [Board.restoreContext, Board.setStackPtr, Board.storeContext, contextAt, hne, hu, ht]
  · have hat : (b.storeContext.setStackPtr t b.storeContext.cpu.sp).stackPtr t =
        b.storeContext.cpu.sp := by simp [Board.setStackPtr]
    show contextAt b.storeContext.mem _ = _
    rw [← contextAt_storeContext b]
    exact congrArg _ hat

/-- An exception leaves the other tasks suspended. -/
theorem Stands.others_storeContext (h : Stands b (some t)) (ht : b.live (.tcb t) = true) :
    Others b.storeContext (some t) := by
  refine h.others.congr_some ht rfl (fun u hu => ⟨?_, rfl, rfl, ?_⟩) h.others.exact
  · simp [Board.storeContext, h.task, hu]
  · simp only [Board.storeContext, h.task]
    exact pending_left_of_ne (by simpa using hu)

/-- `task_switch` gives the processor from `old_task`, which has it, to `new_task`. -/
theorem Stands.taskSwitch (h : Stands b (some t)) (ht : b.live (.tcb t) = true)
    (hold : b.k.oldTask = some t) (hnew : b.k.newTask = some u) (hu : b.live (.tcb u) = true) :
    ∃ b', b.taskSwitch = some b' ∧ Stands b' (some u) ∧ b'.toSys = b.toSys := by
  set sp := b.storeContext.cpu.sp with hsp
  have hcpu : contextAt b.storeContext.mem sp = b.cpu := contextAt_storeContext b
  -- The task that is switched out is suspended where `task_switch` has stored its context.
  have hothers : Others (b.storeContext.setStackPtr t sp) (some t) :=
    (h.others_storeContext ht).congr_some ht rfl
      (fun v hv => ⟨rfl, by simp [Board.setStackPtr, hv], rfl, rfl⟩) h.others.exact
  have hpark : Others (b.storeContext.setStackPtr t sp) none := by
    have hat : (b.storeContext.setStackPtr t sp).stackPtr t = sp := by simp [Board.setStackPtr]
    have hpending : pending b.storeContext.log (some t) =
        contextAt b.storeContext.mem sp :: pending b.log (some t) := by
      rw [hcpu]
      simp only [Board.storeContext, h.task, pending_left_self]
    refine hothers.park hat h.task hpending ?_
    show Goes b.storeContext.mem (some t) (b.frame t) (contextAt b.storeContext.mem sp) _
    rw [hcpu]
    refine h.goes.congr fun x hx => ?_
    have hmem := storeContext_mem_of_le b hx
    rwa [h.task] at hmem
  exact ⟨_, Board.taskSwitch_eq hold hnew, hpark.restore hu, rfl⟩

/-! ## Handlers -/

/-- A handler with its frame at `r1` is entered on the stack of `t`. -/
structure Handles (b : Board) (t : TcbPtr) (r1 : ℤ) : Prop where
  task : b.cpu.sp.task = some t
  pending : pending b.log (some t) = [contextAt b.mem ⟨some t, r1⟩]
  code : ∃ n, (contextAt b.mem ⟨some t, r1⟩).pc = .num n
  others : Others b (some t)

/-- An interrupt enters its handler. -/
theorem Stands.enter (h : Stands b (some t)) (ht : b.live (.tcb t) = true) {n : BitVec 32}
    (hpc : b.cpu.pc = .num n) :
    Handles b.storeContext t b.storeContext.cpu.sp.off ∧ b.frame t = none := by
  have hcpu := contextAt_storeContext b
  have hsp : b.storeContext.cpu.sp = ⟨some t, b.storeContext.cpu.sp.off⟩ := by
    simp only [Board.storeContext, h.task]
  rw [hsp] at hcpu
  obtain ⟨hempty, hframe⟩ := h.goes.of_code hpc
  refine ⟨⟨h.task, ?_, ⟨n, by rw [hcpu, hpc]⟩, h.others_storeContext ht⟩, hframe⟩
  rw [hcpu, ← hempty]
  simp only [Board.storeContext, h.task, pending_left_self]

/-- Functions under a handler have been entered through it. -/
theorem Stands.handles (h : Stands b (some t)) {f : Option Frame} {pc : Word}
    (hpc : b.cpu.pc = pc) (hunder : UnderHandler r1 f pc) : Handles b t r1 ∧ b.frame t = f := by
  subst hpc
  obtain ⟨hframe, hpending, hcode⟩ := h.goes.of_handler hunder
  exact ⟨⟨h.task, hpending, hcode, h.others⟩, hframe⟩

/-- What is left of a pass is noted. -/
theorem Handles.setPass (h : Handles b t r1) (ht : b.live (.tcb t) = true)
    (f : Option TimerFrame) : Handles (b.setPass t f) t r1 :=
  ⟨h.task, h.pending, h.code, h.others.congr_some ht rfl
    (fun u hu => ⟨rfl, rfl, by simp [Board.setPass, hu], rfl⟩) h.others.exact⟩

/-- The functions under a handler leave the handler's frame. -/
theorem Handles.runBelow (h : Handles b t r1) (ht : b.live (.tcb t) = true) (cl : Clobber)
    (k : Kernel) : Handles (b.runBelow r1 cl k) t r1 := by
  have hframe : contextAt (b.runBelow r1 cl k).mem ⟨some t, r1⟩ = contextAt b.mem ⟨some t, r1⟩ := by
    have hload : loadFrame (fun x => if x < r1 then .num (cl.below x) else b.mem (some t) x) r1 =
        loadFrame (b.mem (some t)) r1 := loadFrame_congr fun x hx => if_neg (by omega)
    simp only [contextAt, Board.runBelow, h.task, update_self, hload]
  refine ⟨h.task, by rw [hframe]; exact h.pending, by rw [hframe]; exact h.code, ?_⟩
  exact h.others.congr_some ht rfl
    (fun u hu => ⟨by simp [Board.runBelow, h.task, hu], rfl, rfl, rfl⟩) h.others.exact

/-- The functions under a handler have the processor. -/
theorem Handles.stands (h : Handles b t r1) (ht : b.live (.tcb t) = true) {c : Context}
    (hsp : c.sp.task = some t) (hle : c.sp.off ≤ r1) (hpc : UnderHandler r1 (b.frame t) c.pc) :
    Stands { b with cpu := c } (some t) := by
  obtain ⟨n, hcode⟩ := h.code
  refine ⟨hsp, ?_, h.others.congr_some ht rfl (fun _ _ => ⟨rfl, rfl, rfl, rfl⟩) h.others.exact⟩
  show Goes b.mem (some t) (b.frame t) c (Handover.pending b.log (some t))
  rw [h.pending]
  exact .handler hpc hcode hle

/-- The functions under a handler return, or their `l.sys` gives the processor to the task that they
have selected. -/
theorem Handles.underHandler (h : Handles b t r1) (ht : b.live (.tcb t) = true)
    (hrun : b.k.newTask = some t) {pc : Word} (hpc : UnderHandler r1 (b.frame t) pc)
    {cl : Clobber} {k : Kernel}
    (hswitch : k.newTask = b.k.newTask ∨ k.newTask ≠ none ∧ k.oldTask = b.k.newTask)
    (hnew : k.newTask = some u) (hu : b.live (.tcb u) = true) :
    ∃ b', b.underHandler r1 pc cl k = some b' ∧ Stands b' (some u) ∧
      b'.toSys = ⟨k, b.frame, b.live⟩ := by
  have hbelow := h.runBelow ht cl k
  unfold Board.underHandler
  dsimp only
  split_ifs with hsame
  · obtain rfl : t = u := Option.some.inj ((hrun.symm.trans hsame.symm).trans hnew)
    exact ⟨_, rfl, hbelow.stands ht h.task le_rfl hpc, rfl⟩
  · -- The `l.sys` is executed further down on the stack.
    have hold := (hswitch.resolve_left hsame).2.trans hrun
    have hstands := hbelow.stands ht
      (c := ⟨update (update (fun i => .num (cl.regs i)) 1 b.cpu.interruptDisable.sr) 0 pc,
        ⟨b.cpu.sp.task, r1 - cl.depth⟩⟩) h.task (by simp) hpc
    exact hstands.taskSwitch ht hold hnew hu

/-- Where functions under a handler switch to another task, it goes on in the context that its
`stack_ptr` points to, and the frame at that of the task switched out is in the functions. -/
theorem Board.underHandler_contexts (ht : b.cpu.sp.task = some t) {k : Kernel}
    (hold : k.oldTask = some t) (hnew : k.newTask = some u) (hother : k.newTask ≠ b.k.newTask)
    (hne : u ≠ t) (hu : (b.stackPtr u).task = some u) (pc : Word) (cl : Clobber) :
    ∃ b', b.underHandler r1 pc cl k = some b' ∧ b'.cpu = contextAt b.mem (b.stackPtr u) ∧
      (contextAt b'.mem (b'.stackPtr t)).pc = pc := by
  set b₁ : Board := { b.runBelow r1 cl k with
    cpu := ⟨update (update (fun i => .num (cl.regs i)) 1 b.cpu.interruptDisable.sr) 0 pc,
      ⟨b.cpu.sp.task, r1 - cl.depth⟩⟩ } with hb₁
  obtain ⟨b', hb', hcpu, hleft⟩ := Board.taskSwitch_contexts (b := b₁) ht hold hnew hne hu
  have hmem : b₁.mem (some u) = b.mem (some u) := by simp [hb₁, Board.runBelow, ht, hne]
  refine ⟨b', (if_neg hother).trans hb', ?_, by rw [hleft]; rfl⟩
  rw [hcpu, contextAt, contextAt, show b₁.stackPtr u = b.stackPtr u from rfl, hu, hmem]

/-- `timer_isr` ends on the stack that it was entered on. -/
theorem Handles.leave (h : Handles b t r1) (ht : b.live (.tcb t) = true) (hframe : b.frame t = none)
    (cl : Clobber) (k : Kernel) :
    Stands ((b.runBelow r1 cl k).restoreContext ⟨some t, r1⟩) (some t) := by
  have hbelow := h.runBelow ht cl k
  obtain ⟨n, hcode⟩ := hbelow.code
  refine hbelow.others.resume ht rfl hbelow.pending ?_
  have hframe' : (b.runBelow r1 cl k).frame t = none := hframe
  rw [hframe']
  exact .code hcode

/-- Where `stack_ptr` points to the frame of `user_isr`, the handler gives the processor to any
task. -/
theorem Handles.leave_to (h : Handles b t r1) (ht : b.live (.tcb t) = true)
    (hframe : b.frame t = none) (hsp : b.stackPtr t = ⟨some t, r1⟩) (cl : Clobber) (k : Kernel)
    (hu : b.live (.tcb u) = true) :
    Stands ((b.runBelow r1 cl k).restoreContext (b.stackPtr u)) (some u) := by
  have hbelow := h.runBelow ht cl k
  obtain ⟨n, hcode⟩ := hbelow.code
  have hframe' : (b.runBelow r1 cl k).frame t = none := hframe
  have hpark : Others (b.runBelow r1 cl k) none := by
    refine hbelow.others.park hsp rfl hbelow.pending ?_
    rw [hframe']
    exact .code hcode
  exact hpark.restore hu

/-! ## The code of a task -/

/-- The processor changes, and with it the words on the stack that it is on. -/
theorem Stands.run {t : Option TcbPtr} (h : Stands b t)
    (ht : ∀ u, t = some u → b.live (.tcb u) = true) {n : BitVec 32} (hpc : b.cpu.pc = .num n)
    {c : Context} {mem : ℤ → Word} {n' : BitVec 32} (hsp : c.sp.task = t) (hpc' : c.pc = .num n') :
    Stands { b with cpu := c, mem := update b.mem t mem } t := by
  obtain ⟨hempty, hframe⟩ := h.goes.of_code hpc
  refine ⟨hsp, ?_, h.others.congr ht rfl (fun u hu => ⟨?_, rfl, rfl, rfl⟩) h.others.exact⟩
  · show Goes _ t (t.bind b.frame) c (pending b.log t)
    rw [hempty, hframe]
    exact .code hpc'
  · exact update_of_ne hu.symm _ _

/-- A call that creates no task moves no context. -/
theorem Stands.setSys {t : Option TcbPtr} (h : Stands b t) (k : Kernel) {live : Node → Bool}
    (hlive : ∀ u, live (.tcb u) = b.live (.tcb u)) :
    Stands { b with k := k, live := live } t := by
  refine ⟨h.task, h.goes, fun u hu hne => ?_, fun u hu => h.others.fresh u ((hlive u) ▸ hu),
    h.others.exact⟩
  exact (h.others.suspended u ((hlive u) ▸ hu) hne).congr ⟨rfl, rfl, rfl, rfl⟩

/-- The registers change. -/
theorem Stands.setCpu {t : Option TcbPtr} (h : Stands b t)
    (ht : ∀ u, t = some u → b.live (.tcb u) = true) {n : BitVec 32} (hpc : b.cpu.pc = .num n)
    {c : Context} {n' : BitVec 32} (hsp : c.sp.task = t) (hpc' : c.pc = .num n') :
    Stands { b with cpu := c } t := by
  have hrun := @Stands.run b t h ht n hpc c (b.mem t) n' hsp hpc'
  rwa [update_eq_self] at hrun

/-- A new task is suspended in the frame that `stack_init` makes. -/
theorem Stands.create {t : Option TcbPtr} (h : Stands b t)
    (ht : ∀ u, t = some u → b.live (.tcb u) = true) (k : Kernel) {n : BitVec 32}
    (hpc : b.cpu.pc = .num n) (hu : b.live (.tcb u) = false) {f stack prio : ℕ}
    {arg taskExit : BitVec 32} :
    Stands { b.createStack (.taskCreate (some u) (some f) (some stack) prio) arg taskExit with
      k := k, live := update b.live (.tcb u) true } t := by
  have hne : t ≠ some u := fun e => by simp [ht u e] at hu
  obtain ⟨hempty, hframe⟩ := h.goes.of_code hpc
  obtain ⟨hnew, hfree⟩ := h.others.fresh u hu
  set regs := stackInit (BitVec.ofNat 32 f) arg taskExit with hregs
  have hsame : ∀ v, v ≠ u → SameFor b
      { b.createStack (.taskCreate (some u) (some f) (some stack) prio) arg taskExit with
        k := k, live := update b.live (.tcb u) true } v := fun v hv =>
    ⟨update_of_ne (by simpa using hv) _ _, update_of_ne hv _ _, rfl,
      pending_left_of_ne (by simpa using hv)⟩
  refine ⟨h.task, ?_, fun v hv hvt => ?_, fun v hv => ?_, h.others.exact⟩
  · show Goes _ t (t.bind b.frame) b.cpu (pending (.left (some u) _ :: b.log) t)
    rw [pending_left_of_ne hne, hempty, hframe]
    exact .code hpc
  · rcases eq_or_ne v u with rfl | hvu
    · have hsp : (b.createStack (.taskCreate (some v) (some f) (some stack) prio) arg
          taskExit).stackPtr v = ⟨some v, 0⟩ := by simp [Board.createStack]
      have hcontext : contextAt (b.createStack (.taskCreate (some v) (some f) (some stack) prio) arg
          taskExit).mem ⟨some v, 0⟩ = ⟨regs, ⟨some v, STK_FRAME_SIZE⟩⟩ := by
        simp [contextAt, Board.createStack, hregs]
      refine ⟨by rw [hsp], [], ?_⟩
      dsimp only
      rw [hsp, hcontext]
      refine ⟨?_, ?_⟩
      · show pending (.left (some v) _ :: b.log) (some v) = _
        rw [pending_left_self, hnew]
      · show Goes _ (some v) (b.frame v) _ []
        rw [hfree]
        exact .code (n := BitVec.ofNat 32 f) rfl
    · refine (h.others.suspended v ?_ hvt).congr (hsame v hvu)
      simpa [hvu] using hv
  · have hvu : v ≠ u := fun e => by simp [e] at hv
    rw [(hsame v hvu).pending, (hsame v hvu).frame]
    exact h.others.fresh v (by simpa [hvu] using hv)

/-- A call, up to its return or its `l.sys`. -/
theorem Stands.call {t : Option TcbPtr} (h : Stands b t)
    (ht : ∀ u, t = some u → b.live (.tcb u) = true) (k : Kernel) {n : BitVec 32}
    (hpc : b.cpu.pc = .num n) {c : Call}
    (hc : ∀ u, c.setsUp = some (.tcb u) → b.live (.tcb u) = false) (arg taskExit : BitVec 32) :
    Stands { b.createStack c arg taskExit with k := k, live := setUp b.live c } t := by
  by_cases hset : ∃ u, c.setsUp = some (.tcb u)
  · obtain ⟨u, hset⟩ := hset
    obtain ⟨f, stack, prio, rfl⟩ := Call.eq_of_setsUp_tcb hset
    exact h.create ht k hpc (hc u hset)
  · have hsame : b.createStack c arg taskExit = b := by
      unfold Board.createStack
      split
      · exact absurd ⟨_, rfl⟩ hset
      · rfl
    rw [hsame]
    exact h.setSys k fun u => setUp_of_ne fun e => hset ⟨u, e⟩

end Fos
