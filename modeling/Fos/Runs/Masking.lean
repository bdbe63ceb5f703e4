import Fos.Code.Calls

/-!
# The interrupts are as they were

A function that masks interrupts puts the status register back on every path, whatever interrupts
and other tasks do in between, and wherever it blocks (`interrupts_restored`). `mem_free` does not
where it finds its address: it returns out of the loop, past `critical_section_exit`.
-/

namespace Fos

open Interrupts Prog

/-- The bits of the status register that enable interrupts. -/
def interruptState (sr : Sr) : Sr := sr &&& (SPR_SR_IEE ||| SPR_SR_TEE)

/-- Where the code ends, the interrupts are as they were at its entry exactly where `P` held there.
-/
def RestoredIff {σ α : Type} (m : Prog Sr σ α) (P : Cpu Sr σ → Prop) : Prop :=
  ∀ c a c', m c = some (.ok a, c') → (interruptState c'.sr = interruptState c.sr ↔ P c)

/-- The loop of `mem_free` finds the address, in the pool as it is once interrupts are masked. -/
def MemFinds (address : UInt32) (c : Cpu Sr MemState) : Prop :=
  ∃ sr c₁ mb, (disable : Prog Sr MemState Sr) c = some (.ok sr, c₁) ∧
    c₁.mem.memSearch address .head = some (some mb)

/-- `mem_free` finds the address, and interrupts were not masked before. -/
def LeftMasked (address : UInt32) (c : Cpu Sr MemState) : Prop :=
  Status.enabled c.sr = true ∧ MemFinds address c

namespace Code

/-! ## What does not mask interrupts -/

section Lists

variable {σ α : Type} [DecidableEq α] [Nodes σ α]

theorem listInit_restores (x : α) : Restores (listInit x : Prog Sr σ Unit) :=
  .bind (.write _) fun _ => .write _

theorem listInsert_restores (head node : α) : Restores (listInsert head node : Prog Sr σ Unit) :=
  .bind (.write _) fun _ => .bind (.write _) fun _ => .write _

theorem listInsertSpec_restores (head node : α) :
    Restores (listInsertSpec head node : Prog Sr σ Unit) :=
  .bind (.read _) fun _ => .ite (listInsert_restores head node) <|
    .bind (.write _) fun _ => .bind (.write _) fun _ => .bind (.write _) fun _ => .write _

theorem listDelete_restores (node : α) : Restores (listDelete node : Prog Sr σ Unit) :=
  .bind (.read _) fun _ => .ite (.write _) (.bind (.write _) fun _ => .write _)

theorem listInsertBehind_restores (head node : α) :
    Restores (listInsertBehind head node : Prog Sr σ Unit) := by
  refine .bind (.loop (fun list => ?_) head) fun list => listInsert_restores list node
  exact .bind (.read _) fun _ => .ite (.pure _) (.bind (.read _) fun _ => .pure _)

end Lists

theorem bitmapSet_restores (prio : ℕ) : Restores (bitmapSet prio) :=
  .bind (.inBounds _) fun _ => .bind (.write _) fun _ => .write _

theorem bitmapClear_restores (prio : ℕ) : Restores (bitmapClear prio) :=
  .bind (.inBounds _) fun _ => .bind (.write _) fun _ => .bind (.test _) fun _ =>
    .ite (.write _) (.pure ())

theorem prioListHead_restores (prio : ℕ) : Restores (prioListHead prio) :=
  .bind (.inBounds _) fun _ => .pure _

theorem osAssert_restores (tcb : Option TcbPtr) : Restores (osAssert tcb) := by
  cases tcb with
  | none => exact .stop _
  | some t => exact .pure t

theorem prioReadyQueueInsertTail_restores (tcb : Option TcbPtr) :
    Restores (prioReadyQueueInsertTail tcb) :=
  .bind (osAssert_restores tcb) fun _ => .bind (.read _) fun _ => .bind (bitmapSet_restores _)
    fun _ => .bind (.read _) fun _ => .bind (prioListHead_restores _) fun _ =>
      listInsertBehind_restores _ _

theorem prioReadyQueueInsertHead_restores (tcb : Option TcbPtr) :
    Restores (prioReadyQueueInsertHead tcb) :=
  .bind (osAssert_restores tcb) fun _ => .bind (.read _) fun _ => .bind (bitmapSet_restores _)
    fun _ => .bind (.read _) fun _ => .bind (prioListHead_restores _) fun _ =>
      listInsertSpec_restores _ _

theorem prioReadyQueueDelete_restores (tcb : Option TcbPtr) :
    Restores (prioReadyQueueDelete tcb) :=
  .bind (osAssert_restores tcb) fun _ => .bind (listDelete_restores _) fun _ => .bind (.read _)
    fun _ => .bind (prioListHead_restores _) fun _ => .bind (.read _) fun _ =>
      .ite (.bind (.read _) fun _ => bitmapClear_restores _) (.pure ())

/-! ## What does -/

/-- `schedule` restores the status register where it finds the lock, where it does not switch, and
where it does. -/
theorem schedule_restores : Restores schedule := by
  refine .bind (.read _) fun _ => .ite (.ret ()) (.disable fun sr => .last fun r => ?_)
  split_ifs
  · exact (Leaves.setSr sr).bind fun _ => .ret ()
  · exact .last fun _ => (Leaves.setSr sr).bind fun _ => .ret ()

theorem findHighReadyTask_restores : Restores findHighReadyTask :=
  .bind (.critical _) fun _ => .ret ()

theorem hardwareTimer_restores (callback : ℕ → ℕ → Prog Sr Kernel Unit) :
    Restores (hardwareTimer callback) :=
  .bind (.critical _) fun _ => .bind schedule_restores fun _ => .ret ()

/-- Every call does. -/
theorem call_restores (c : Call) : Restores (call c) := by
  cases c with
  | taskCreate tcb func stack prio =>
    match tcb, func, stack with
    | none, _, _ | some _, none, _ | some _, some _, none => exact .ret _
    | some t, some _, some _ =>
      exact .bind (.write _) fun _ => .bind (prioReadyQueueInsertTail_restores _) fun _ => .ret _
  | taskPrioChange tcb prio =>
    cases tcb with
    | none => exact .ret _
    | some t =>
      refine .ite (.ret _) (.bind (.test _) fun _ => .ite (.stop _) ?_)
      exact .bind (prioReadyQueueDelete_restores _) fun _ => .bind (.write _) fun _ =>
        .bind (prioReadyQueueInsertHead_restores _) fun _ => .ret _
  | osDelay timeslice =>
    exact .bind (.critical _) fun _ => .bind schedule_restores fun _ => .ret _
  | timerReq timer func timeout period arg =>
    match func, timer with
    | none, _ | some _, none => exact .ret _
    | some f, some e => exact .ite (.ret _) (.bind (.critical _) fun _ => .ret _)
  | semInit s num =>
    cases s with
    | none => exact .ret _
    | some s => exact .bind (.write _) fun _ => .bind (listInit_restores _) fun _ => .ret _
  | semGet s =>
    cases s with
    | none => exact .ret _
    | some s => exact .bind (.critical _) fun _ => .ret _
  | semPut s =>
    cases s with
    | none => exact .ret _
    | some s => exact .bind (.critical _) fun _ => .bind schedule_restores fun _ => .ret _
  | mutexInit m =>
    cases m with
    | none => exact .ret _
    | some m => exact .bind (listInit_restores _) fun _ => .bind (.write _) fun _ => .ret _
  | mutexGet m =>
    cases m with
    | none => exact .ret _
    | some m => exact .bind (.critical _) fun _ => .ret _
  | mutexPut m =>
    cases m with
    | none => exact .ret _
    | some m => exact .bind (.critical _) fun _ => .bind schedule_restores fun _ => .ret _
  | msgQueueCreate q length =>
    cases q with
    | none => exact .ret _
    | some q => exact .ite (.ret _) (.bind (.critical _) fun _ => .ret _)
  | msgPut q m method =>
    match q, m with
    | none, _ | some _, none => exact .ret _
    | some q, some m =>
      exact .bind (.test _) fun _ => .ite (.ret _) (.bind (.critical _) fun _ => .ret _)
  | msgGet q buffer =>
    match q, buffer with
    | none, _ | some _, none => exact .ret _
    | some q, some buf =>
      exact .bind (.critical _) fun r => .ite (.bind schedule_restores fun _ => .ret r) (.ret r)
  | schedule => exact .bind schedule_restores fun _ => .pure _

theorem memAlloca_restores (mb : ℕ) (size : UInt32) : Restores (memAlloca mb size) :=
  .bind (.critical _) fun _ => .ret _

/-! ## `mem_free` -/

/-- A round of the loop of `mem_free`, with interrupts masked. -/
theorem memStep_masked {address : UInt32} {tmp : MemNode} {c : Cpu Sr MemState}
    (h : Status.enabled c.sr = false) : memStep address tmp c =
      if Fos.isListLast c.mem.heap tmp then some (.ok (.inr false), c)
      else
        match (c.mem.heap tmp).next with
        | .head => some (.error .stuck, c)
        | .block mb =>
          if (c.mem.block mb).ptr = address then some (.ok (.inr true), { c with mem :=
            { c.mem with
              block := Function.update c.mem.block mb { c.mem.block mb with ifValid := 1 } } })
          else some (.ok (.inl (.block mb)), c) := by
  have hlast : (isListLast tmp : Prog Sr MemState Bool) c =
      some (.ok (Fos.isListLast c.mem.heap tmp), c) := read_masked h _
  -- Masked, every step of the body runs as in a function on the memory.
  unfold memStep
  rw [bind_of_ok hlast]
  split_ifs
  · rfl
  · rw [bind_of_ok (read_masked h _)]
    cases (c.mem.heap tmp).next with
    | head => rfl
    | block mb =>
      dsimp only
      rw [bind_of_ok (test_masked h _)]
      by_cases hptr : (c.mem.block mb).ptr = address
      · rw [if_pos (decide_eq_true hptr), if_pos hptr, bind_of_ok (write_masked h _)]
        rfl
      · rw [if_neg (by simp [hptr]), if_neg hptr]
        rfl

/-- The loop of `mem_free` ends where the search does. -/
theorem memLoop_spec {sr : Sr} (hsr : Status.enabled sr = false) (address : UInt32)
    (m : MemState) : Triple (fun c => c.sr = sr ∧ c.mem = m)
      (Prog.loop (memStep address) .head) fun r c => ∀ b, r = .ok b →
        c.sr = sr ∧ (b = true ↔ ∃ mb, m.memSearch address .head = some (some mb)) := by
  generalize hfound : m.memSearch address .head = found
  -- The invariant: from where the loop is, the search of the model still finds the same.
  have hloop : ∀ tmp, Triple
      (fun c => (c.sr = sr ∧ c.mem = m) ∧ m.memSearch address tmp = found)
      (Prog.loop (memStep address) tmp) fun r c => ∀ b, r = .ok b →
        c.sr = sr ∧ (b = true ↔ ∃ mb, found = some (some mb)) := by
    refine Triple.loop ?_
    rintro tmp c ⟨⟨rfl, rfl⟩, rfl⟩ r c' hr
    rw [memStep_masked hsr] at hr
    rw [MemState.memSearch_unfold]
    -- At the end of the list nothing has been found.
    split_ifs at hr ⊢ with hlast
    · obtain ⟨rfl, rfl⟩ := Prod.mk.inj (Option.some.inj hr)
      rintro b ⟨⟩
      simp
    -- The node behind is a block; where it is the head, the loop is stuck.
    · cases hnext : (c.mem.heap tmp).next with
      | head =>
        rw [hnext] at hr
        obtain ⟨rfl, -⟩ := Prod.mk.inj (Option.some.inj hr)
        intro b hb
        simp at hb
      | block mb =>
        rw [hnext] at hr
        dsimp only at hr ⊢
        split_ifs at hr ⊢ with hptr
        · obtain ⟨rfl, rfl⟩ := Prod.mk.inj (Option.some.inj hr)
          rintro b ⟨⟩
          simp
        · obtain ⟨rfl, rfl⟩ := Prod.mk.inj (Option.some.inj hr)
          exact ⟨⟨rfl, rfl⟩, rfl⟩
  exact (hloop .head).conseq (fun _ hc => ⟨hc, hfound⟩) fun _ _ h => h

/-- `mem_free` finds the address where its loop ends in it. -/
theorem memFinds_iff {address : UInt32} {c c₁ : Cpu Sr MemState}
    (h : (disable : Prog Sr MemState Sr) c = some (.ok c.sr, c₁)) :
    MemFinds address c ↔ ∃ mb, c₁.mem.memSearch address .head = some (some mb) := by
  constructor
  · rintro ⟨sr, c₂, mb, h₂, hmb⟩
    obtain ⟨-, rfl⟩ := Prod.mk.inj (Option.some.inj (h.symm.trans h₂))
    exact ⟨mb, hmb⟩
  · rintro ⟨mb, hmb⟩
    exact ⟨c.sr, c₁, mb, h, hmb⟩

/-- Interrupts that are masked are not what they were if some were enabled. -/
theorem interruptState_mask (sr : Sr) :
    interruptState (Status.mask sr) = interruptState sr ↔ Status.enabled sr = false := by
  have hmask : interruptState (Status.mask sr) = 0 := by
    have h : Status.enabled (Status.mask sr) = false := Status.enabled_mask sr
    simpa [Status.enabled, interruptState] using h
  rw [hmask]
  constructor
  · intro h
    simpa [Status.enabled, interruptState] using h.symm
  · intro h
    have h : sr &&& (SPR_SR_IEE ||| SPR_SR_TEE) = 0 := by simpa [Status.enabled] using h
    exact h.symm

/-- `mem_free` leaves interrupts masked exactly where it finds the address. -/
theorem memFree_restored_iff (address : UInt32) :
    RestoredIff (memFree address) fun c => ¬ LeftMasked address c := by
  intro c a c' hrun
  obtain ⟨c₁, h₁, hsr⟩ := disable_eq c
  unfold memFree at hrun
  rw [bind_of_ok h₁, bind_apply] at hrun
  show _ ↔ ¬ (Status.enabled c.sr = true ∧ MemFinds address c)
  rw [memFinds_iff h₁]
  split at hrun
  · simp at hrun
  · next b c₂ h₂ =>
    obtain ⟨hsr₂, hb⟩ := memLoop_spec (Status.enabled_mask c.sr) address c₁.mem c₁ ⟨hsr, rfl⟩ _ _ h₂
      b rfl
    rw [← hb]
    cases b with
    | true =>
      obtain ⟨-, rfl⟩ := Prod.mk.inj (Option.some.inj hrun)
      rw [Cpu.passed_sr, hsr₂, interruptState_mask]
      simp
    | false =>
      rw [if_neg (by simp), bind_of_ok (setSr_apply _ _)] at hrun
      obtain ⟨-, rfl⟩ := Prod.mk.inj (Option.some.inj hrun)
      rw [Cpu.passed_sr]
      simp
  · simp at hrun

/-- What restores the status register restores the interrupts. -/
theorem restoredIff_of_restores {σ α : Type} {m : Prog Sr σ α} (h : Restores m) :
    RestoredIff m fun _ => True :=
  fun c a c' hrun => iff_of_true (congrArg interruptState (h c.sr c rfl _ c' hrun a rfl)) trivial

end Code

/-- Every function that masks interrupts leaves them as they were, but for `mem_free`, which does so
exactly where it does not find the address or interrupts were masked before. -/
theorem interrupts_restored (c : Call) (callback : ℕ → ℕ → Prog Sr Kernel Unit) (mb : ℕ)
    (size address : UInt32) :
    (RestoredIff (Code.call c) fun _ => True) ∧
    (RestoredIff (Code.hardwareTimer callback) fun _ => True) ∧
    (RestoredIff Code.findHighReadyTask fun _ => True) ∧
    (RestoredIff (Code.memAlloca mb size) fun _ => True) ∧
    RestoredIff (Code.memFree address) fun c => ¬ LeftMasked address c :=
  ⟨Code.restoredIff_of_restores (Code.call_restores c),
    Code.restoredIff_of_restores (Code.hardwareTimer_restores callback),
    Code.restoredIff_of_restores Code.findHighReadyTask_restores,
    Code.restoredIff_of_restores (Code.memAlloca_restores mb size),
    Code.memFree_restored_iff address⟩

/-! ## Two pools -/

/-- A pool of ten blocks. -/
def MemState.tenBlocks : MemState :=
  ⟨⟨10, 10, 1000⟩, listInit (fun _ => ⟨.head, .head⟩) .head, fun _ => ⟨0, 0, 0⟩⟩

/-- A processor with interrupts enabled, on which nothing else runs. -/
def onCpu (m : MemState) : Cpu Sr MemState := ⟨m, SPR_SR_IEE ||| SPR_SR_TEE, fun _ => none, 0, []⟩

/-- `mem_free` where its loop ends in the first round. -/
theorem memFree_of_round (address : UInt32) (b : Bool) {c c₁ c₂ : Cpu Sr MemState}
    (h₁ : (disable : Prog Sr MemState Sr) c = some (.ok c.sr, c₁))
    (h₂ : Code.memStep address .head c₁ = some (.ok (.inr b), c₂)) :
    Code.memFree address c =
      (if b then ret .TRUE else do setSr c.sr; ret .FALSE : Prog Sr MemState Ret) c₂ := by
  unfold Code.memFree
  rw [bind_of_ok h₁, bind_of_ok (loop_of_inr h₂)]

/-- `mem_free` of an address that has not been allocated. -/
theorem interrupts_restored_notFound : ∃ c',
    Code.memFree 1000 (onCpu .tenBlocks) = some (.ok .FALSE, c') ∧
      interruptState c'.sr = interruptState (onCpu .tenBlocks).sr := by
  have hrun := memFree_of_round 1000 false (c := onCpu .tenBlocks) rfl rfl
  have hfinds : ¬ LeftMasked 1000 (onCpu .tenBlocks) := by
    rintro ⟨-, sr, c₁, mb, h₁, hmb⟩
    obtain ⟨-, rfl⟩ := Prod.mk.inj (Option.some.inj h₁)
    have hsearch : MemState.tenBlocks.memSearch 1000 .head = some none := by
      rw [MemState.memSearch_unfold, if_pos (by decide)]
    exact absurd (hsearch.symm.trans hmb) (by simp)
  obtain ⟨-, -, -, -, hfree⟩ := interrupts_restored .schedule (fun _ _ => ret ()) 0 9 1000
  exact ⟨_, hrun, (hfree _ _ _ hrun).mpr hfinds⟩

/-- The pool when `mem_alloca(9)` has been called. -/
def MemState.oneTaken : MemState :=
  ⟨⟨10, 9, 1090⟩, listInsert tenBlocks.heap .head (.block 0),
    Function.update tenBlocks.block 0 ⟨1000, 0, 1⟩⟩

/-- `mem_free` of the address that `mem_alloca` has given. -/
theorem not_interrupts_restored_free : MemState.tenBlocks.memAlloca 0 9 = some (.oneTaken, 1000) ∧
    ∃ c', Code.memFree 1000 (onCpu .oneTaken) = some (.ok .TRUE, c') ∧
      interruptState c'.sr ≠ interruptState (onCpu .oneTaken).sr := by
  have hrep : Links.Represents MemState.tenBlocks.heap .head [] := ⟨by decide, rfl⟩
  have hins : listInsertBehind MemState.tenBlocks.heap .head (.block 0) =
      some MemState.oneTaken.heap := listInsertBehind_eq hrep
  constructor
  · unfold MemState.memAlloca
    rw [if_neg (by decide)]
    dsimp only
    rw [if_pos (by decide), hins]
    rfl
  · have hrun := memFree_of_round 1000 true (c := onCpu .oneTaken) rfl rfl
    exact ⟨_, hrun, by decide⟩

end Fos
