import Fos.Code.Stages
import Fos.Refinement.Inside
import Fos.Port.Switches
import Fos.Refinement.Replay

/-!
# Calls are atomic

The code of a call, statement by statement, computes what the call of `System.lean` does in one step
(`code_refines`). A call that makes its changes with interrupts masked is passed by an interrupt
before its changes, behind them, or behind the `schedule` that follows, and nowhere else
(`call_atomic`).
-/

namespace Fos

open Links Function Interrupts

variable {P : Kernel → Prop} {k k₁ k₂ : Kernel} {r : Ret} {b : Bool} {c : Call}

namespace Code

/-- Where no task is selected, code comes to its end. -/
theorem selected_of_eq {α : Type} {a : α} (h : k₁.newTask = k.newTask) :
    selected k k₁ a = .ok a := if_pos h

/-- What selects no task may come first. -/
theorem selected_congr {α : Type} {a : α} (h : k₁.newTask = k.newTask) :
    selected k₁ k₂ a = selected k k₂ a := by
  unfold selected
  rw [h]

/-- What comes with a return value. -/
theorem of_map_ret {x : Option Kernel} {ret : Ret} {b' : Bool}
    (h : x.map (·, ret, b') = some (k₁, r, b)) : x = some k₁ ∧ ret = r ∧ b' = b := by
  obtain ⟨k', hk, heq⟩ := Option.map_eq_some_iff.mp h
  simp only [Prod.mk.injEq] at heq
  obtain ⟨rfl, rfl, rfl⟩ := heq
  exact ⟨hk, rfl, rfl⟩

/-- What returns without `schedule`. -/
theorem of_map_exec {x : Option (Kernel × Ret)}
    (h : (x.map fun r => (r.1, r.2, false)) = some (k₁, r, b)) : x = some (k₁, r) ∧ b = false := by
  obtain ⟨⟨k', r'⟩, hk, heq⟩ := Option.map_eq_some_iff.mp h
  simp only [Prod.mk.injEq] at heq
  obtain ⟨rfl, rfl, rfl⟩ := heq
  exact ⟨hk, rfl⟩

/-- `schedule` does not change what a call returns. -/
theorem callEnd_ret {r₁ : Ret} (h : Kernel.callEnd (k₁, r₁, b) = some (k₂, r)) : r₁ = r := by
  unfold Kernel.callEnd at h
  split_ifs at h
  · obtain ⟨k', -, heq⟩ := Option.map_eq_some_iff.mp h
    exact (Prod.mk.inj heq).2
  · exact (Prod.mk.inj (Option.some.inj h)).2

/-- A call that makes its changes with interrupts masked is passed before them, behind them, and
behind its `schedule`. -/
theorem call_course (hc : c.unmasked = false)
    (hbefore : k.beforeSchedule c = some (k₁, r, b))
    (hend : Kernel.callEnd (k₁, r, b) = some (k₂, r)) (h : P k) (h₁ : P k₁) (h₂ : P k₂) :
    Course P (call c) k (selected k k₂ r) k₂ := by
  have hsel := Kernel.beforeSchedule_selection hbefore
  have hnew : k₁.newTask = k.newTask := congrArg Prod.fst hsel
  -- A call that does not schedule is left behind its changes.
  have hret : b = false → k₂ = k₁ := by
    rintro rfl
    exact (Prod.mk.inj (Option.some.inj hend)).1.symm
  have hsched : b = true → k₁.schedule = some k₂ := by
    rintro rfl
    obtain ⟨k', hk', heq⟩ := Option.map_eq_some_iff.mp hend
    rw [hk', (Prod.mk.inj heq).1]
  -- A call that is refused.
  have hrefuse : ∀ {ret : Ret}, some (k, ret) = some (k₁, r) → b = false →
      Course P (Prog.ret ret : Prog Sr Kernel Ret) k (selected k k₂ r) k₂ := by
    intro ret hx hb
    obtain ⟨rfl, rfl⟩ := Prod.mk.inj (Option.some.inj hx)
    rw [hret hb, selected_of_eq rfl]
    exact .ret h ret
  cases c with
  | taskCreate tcb func stack prio =>
    obtain ⟨hx, hb⟩ := of_map_exec hbefore
    rcases tcb with - | t
    · exact hrefuse hx hb
    rcases func with - | f
    · exact hrefuse hx hb
    rcases stack with - | st
    · exact hrefuse hx hb
    · cases hc
  | taskPrioChange tcb prio =>
    obtain ⟨hx, hb⟩ := of_map_exec hbefore
    cases tcb with
    | none => exact hrefuse hx hb
    | some t => cases hc
  | semInit i num =>
    obtain ⟨hx, hb⟩ := of_map_exec (x := k.exec (.semInit i num)) hbefore
    cases i with
    | none => exact hrefuse hx hb
    | some i => cases hc
  | mutexInit m =>
    obtain ⟨hx, hb⟩ := of_map_exec (x := k.exec (.mutexInit m)) hbefore
    cases m with
    | none => exact hrefuse hx hb
    | some m => cases hc
  | osDelay timeslice =>
    obtain ⟨hx, rfl, hb⟩ := of_map_ret hbefore
    rw [← selected_congr hnew]
    exact osDelay_course hx (hsched hb.symm) h h₁ h₂
  | timerReq timer func timeout period arg =>
    obtain ⟨hx, hb⟩ := of_map_exec hbefore
    rcases timer with - | e
    · rcases func with - | f
      · exact hrefuse hx hb
      · exact hrefuse hx hb
    rcases func with - | f
    · exact hrefuse hx hb
    · by_cases h0 : timeout = 0
      · simp only [Kernel.exec, Kernel.timerReq, if_pos h0] at hx
        have hpass := hrefuse hx hb
        simpa only [call, timerReq, if_pos h0] using hpass
      · have hr : r = .VOID := by
          simp only [Kernel.exec, Kernel.timerReq, if_neg h0] at hx
          obtain ⟨k', -, hx⟩ := Option.bind_eq_some_iff.mp hx
          exact (Prod.mk.inj (Option.some.inj hx)).2.symm
        obtain rfl := hret hb
        rw [selected_of_eq hnew, hr]
        exact timerReq_course h0 hx h h₁
  | semGet i =>
    cases i with
    | none =>
      obtain ⟨hx, hb⟩ := of_map_exec (x := k.exec (.semGet none)) hbefore
      exact hrefuse hx hb
    | some i =>
      simp only [Kernel.beforeSchedule] at hbefore
      split_ifs at hbefore with hcount
      · obtain ⟨hx, rfl, hb⟩ := of_map_ret hbefore
        rw [← selected_congr hnew]
        exact semGet_wait_course hcount hx (hsched hb.symm) h h₂
      · simp only [Option.some.injEq, Prod.mk.injEq] at hbefore
        obtain ⟨rfl, rfl, hb⟩ := hbefore
        obtain rfl := hret hb.symm
        rw [selected_of_eq hnew]
        exact semGet_take_course hcount h h₁
  | semPut i =>
    cases i with
    | none =>
      obtain ⟨hx, hb⟩ := of_map_exec (x := k.exec (.semPut none)) hbefore
      exact hrefuse hx hb
    | some i =>
      obtain ⟨hx, rfl, hb⟩ := of_map_ret hbefore
      rw [← selected_congr hnew]
      exact semPut_course hx (hsched hb.symm) h h₁ h₂
  | mutexGet m =>
    cases m with
    | none =>
      obtain ⟨hx, hb⟩ := of_map_exec (x := k.exec (.mutexGet none)) hbefore
      exact hrefuse hx hb
    | some m =>
      simp only [Kernel.beforeSchedule] at hbefore
      split_ifs at hbefore with hheld
      · obtain ⟨hx, rfl, hb⟩ := of_map_ret hbefore
        rw [← selected_congr hnew]
        exact mutexGet_wait_course hheld hx (hsched hb.symm) h h₂
      · obtain ⟨hx, rfl, hb⟩ := of_map_ret hbefore
        obtain rfl := hret hb.symm
        rw [selected_of_eq hnew]
        exact mutexGet_take_course hheld hx h h₁
  | mutexPut m =>
    cases m with
    | none =>
      obtain ⟨hx, hb⟩ := of_map_exec (x := k.exec (.mutexPut none)) hbefore
      exact hrefuse hx hb
    | some m =>
      obtain ⟨hx, rfl, hb⟩ := of_map_ret hbefore
      rw [← selected_congr hnew]
      exact mutexPut_course hx (hsched hb.symm) h h₁ h₂
  | msgQueueCreate q length =>
    obtain ⟨hx, hb⟩ := of_map_exec (x := k.exec (.msgQueueCreate q length)) hbefore
    cases q with
    | none => exact hrefuse hx hb
    | some q =>
      by_cases h0 : length = 0
      · simp only [Kernel.exec, Kernel.msgQueueCreate, if_pos h0] at hx
        have hpass := hrefuse hx hb
        simpa only [call, msgQueueCreate, if_pos h0] using hpass
      · have hk : (k.msgQueueCreate (some q) length).1 = k₁ :=
          congrArg Prod.fst (Option.some.inj hx)
        have hr : (k.msgQueueCreate (some q) length).2 = r :=
          congrArg Prod.snd (Option.some.inj hx)
        have htrue : (k.msgQueueCreate (some q) length).2 = .TRUE := by
          simp only [Kernel.msgQueueCreate, if_neg h0]
        obtain rfl := hret hb
        rw [selected_of_eq hnew, ← hr, htrue, ← hk]
        exact msgQueueCreate_course h0 h (hk ▸ h₁)
  | msgPut q m method =>
    obtain ⟨hx, hb⟩ := of_map_exec hbefore
    rcases q with - | q
    · exact hrefuse hx hb
    rcases m with - | m
    · exact hrefuse hx hb
    · obtain rfl := hret hb
      rw [selected_of_eq hnew]
      exact msgPut_course hx h h₁
  | msgGet q buffer =>
    rcases q with - | q
    · obtain ⟨hx, hb⟩ := of_map_exec (x := k.exec (.msgGet none buffer)) hbefore
      exact hrefuse hx hb
    rcases buffer with - | buf
    · obtain ⟨hx, hb⟩ := of_map_exec (x := k.exec (.msgGet (some q) none)) hbefore
      exact hrefuse hx hb
    · simp only [Kernel.beforeSchedule] at hbefore
      split_ifs at hbefore with hempty
      · obtain ⟨hx, rfl, hb⟩ := of_map_ret hbefore
        rw [← selected_congr hnew]
        exact msgGet_wait_course hempty hx (hsched hb.symm) h h₁ h₂
      · obtain ⟨hx, rfl, hb⟩ := of_map_ret hbefore
        obtain rfl := hret hb.symm
        rw [selected_of_eq hnew]
        exact msgGet_take_course (by simpa using hempty) hx h h₁
  | schedule =>
    simp only [Kernel.beforeSchedule, Option.some.injEq, Prod.mk.injEq] at hbefore
    obtain ⟨rfl, rfl, hb⟩ := hbefore
    exact schedule_call_course (hsched hb.symm) h h₂

/-- A call that changes the memory with interrupts enabled computes what the call does too. -/
theorem unmasked_computes (hc : c.unmasked = true) (hk : k.exec c = some (k₂, r)) :
    Course (fun _ => True) (call c) k (.ok r) k₂ := by
  match c with
  | .taskCreate (some t) (some f) (some st) prio =>
    obtain ⟨k₁, hinsert, hk⟩ := Option.bind_eq_some_iff.mp hk
    obtain ⟨rfl, rfl⟩ := Prod.mk.inj (Option.some.inj hk)
    show Course _ (taskCreate (some t) (some f) (some st) prio) k _ k₁
    exact taskCreate_course hinsert trivial trivial trivial (fun _ _ _ _ _ => trivial) trivial
  | .taskPrioChange (some t) prio =>
    simp only [Kernel.exec, Kernel.taskPrioChange] at hk
    simp only [call, taskPrioChange]
    split_ifs at hk ⊢ with hlegal hnew
    · obtain ⟨rfl, rfl⟩ := Prod.mk.inj (Option.some.inj hk)
      exact .ret trivial _
    · obtain ⟨k₁, hdelete, hk⟩ := Option.bind_eq_some_iff.mp hk
      obtain ⟨k₃, hinsert, hk⟩ := Option.bind_eq_some_iff.mp hk
      obtain ⟨rfl, rfl⟩ := Prod.mk.inj (Option.some.inj hk)
      refine .bind (.test trivial _) ?_
      rw [if_neg (by simpa using hnew)]
      exact .bind (prioReadyQueueDelete_computes hdelete) (.bind (.write trivial _)
        (.bind (prioReadyQueueInsertHead_computes hinsert) (.ret trivial _)))
  | .semInit (some i) num =>
    have hx : k.semInit (some i) num = (k₂, r) := Option.some.inj hk
    obtain ⟨rfl, rfl⟩ := Prod.mk.inj hx
    exact semInit_course (k := k) trivial trivial trivial trivial
  | .mutexInit (some m) =>
    have hx : k.mutexInit (some m) = (k₂, r) := Option.some.inj hk
    obtain ⟨rfl, rfl⟩ := Prod.mk.inj hx
    exact mutexInit_course (k := k) trivial trivial trivial trivial

/-- The code of a call computes what the call does, and hands the processor over where the call
selects another task. -/
theorem call_computes (hk : k.exec c = some (k₂, r)) :
    Course (fun _ => True) (call c) k (selected k k₂ r) k₂ := by
  obtain ⟨⟨k₁, r₁, b⟩, hbefore, hend⟩ := Option.bind_eq_some_iff.mp (Kernel.exec_eq c k ▸ hk)
  by_cases hc : c.unmasked = true
  · have hb : b = false := by
      match c with
      | .taskCreate (some _) (some _) (some _) _ | .taskPrioChange (some _) _ =>
        exact (of_map_exec hbefore).2
      | .semInit (some i) num => exact (of_map_exec (x := k.exec (.semInit (some i) num)) hbefore).2
      | .mutexInit (some m) => exact (of_map_exec (x := k.exec (.mutexInit (some m))) hbefore).2
    obtain rfl : k₁ = k₂ := by
      rw [hb] at hend
      exact (Prod.mk.inj (Option.some.inj hend)).1
    rw [selected_of_eq (Kernel.newTask_of_selection (Kernel.beforeSchedule_selection hbefore))]
    exact unmasked_computes hc hk
  · obtain rfl := callEnd_ret hend
    exact call_course (by simpa using hc) hbefore hend trivial trivial trivial

end Code

/-- The processor where a call begins that nothing comes into. -/
def atEntry (k : Kernel) (sr : Sr) : Cpu Sr Kernel := ⟨k, sr, fun _ => none, 0, []⟩

/-- What code passes that begins there: it comes to its end, and each point passed is as `P`
says. -/
theorem course_atEntry {α : Type} {m : Prog Sr Kernel α} {e : Except Stop α}
    (h : Course P m k e k₂) (sr : Sr) : ∃ cpu, m (atEntry k sr) = some (e, cpu) ∧ cpu.mem = k₂ ∧
      (∀ a, e = .ok a → cpu.sr = sr) ∧ ∀ x ∈ cpu.points, P x := by
  obtain ⟨V, hwalk, hV⟩ := h
  obtain ⟨cpu, hcpu, hw⟩ := hwalk (atEntry k sr) (fun _ => rfl) rfl
  obtain ⟨new, hnew, hmem⟩ := hw.points
  refine ⟨cpu, hcpu, hw.mem, hw.sr, fun x hx => ?_⟩
  rw [hnew, atEntry, List.append_nil] at hx
  exact hV x ((hmem x).mp hx).2

/-! ## In a run -/

variable {tr : Trace Kernel} {s : Sys Kernel}

/-- A call that may be made is made. -/
theorem Core.exec_some {hst : Hist} {a : Abs} (h : Core hst s a) (hu : Usage hst s (.call c))
    (he : s.Enabled (.call c)) : ∃ k r, s.k.exec c = some (k, r) := by
  obtain ⟨s', a', hlock, -⟩ := h.call hu he
  cases hlock with
  | main _ ek | call _ _ ek => exact ⟨_, _, ek⟩

/-- A call that a run may make next is made. -/
theorem SysRun.exec_some (h : SysRun (fun tr s act => Orderly (hist tr) s act) tr s)
    (hu : Usage (hist tr) s (.call c)) (he : s.Enabled (.call c)) :
    ∃ k r, s.k.exec c = some (k, r) := by
  obtain ⟨a, hcore⟩ := h.core fun _ _ _ hg => hg
  exact hcore.exec_some hu he

/-- `main` creates a task, which then runs. -/
def oneTask : List Move := [
  .call (.taskCreate (some (.task 1)) (some 0) (some 0) 5), .start, .call .schedule]

/-- The run of `oneTask`: the task can sleep next, or create another one. -/
theorem oneTask_run : ∃ tr s a, SysRun (fun tr s act => Orderly (hist tr) s act) tr s ∧
    Core (hist tr) s a ∧ tr.map Prod.snd = (oneTask.map Move.act).reverse ∧
      s.running = some (.task 1) ∧ s.frame (.task 1) = none ∧ s.k.prio (.task 1) = 5 ∧
        Usage (hist tr) s (.call (.osDelay 3)) ∧
          Usage (hist tr) s (.call (.taskCreate (some (.task 2)) (some 0) (some 0) 7)) ∧
            Orderly (hist tr) s (.tick passive) := by
  have hreplay : (replay (fun _ _ _ => true) oneTask [] Sys.zero).map (fun r =>
      decide (r.2.k.newTask = some (.task 1) ∧ r.2.frame (.task 1) = none ∧
        r.2.k.prio (.task 1) = 5 ∧ (Move.call (.osDelay 3)).check (hist r.1) r.2 = true ∧
          (Move.call (.taskCreate (some (.task 2)) (some 0) (some 0) 7)).check (hist r.1) r.2 =
            true)) = some true := by decide
  obtain ⟨⟨trA, sA⟩, hr, hh⟩ := Option.map_eq_some_iff.mp hreplay
  obtain ⟨hnew, hframe, hprio, hdelay, hcreate⟩ := of_decide_eq_true hh
  obtain ⟨tr, s, a, hrun, hcore, rfl, hacts, hnext⟩ := replay_orderly Sys.zero_init hr
  refine ⟨tr, s, a, hrun, hcore, hacts, hcore.running_eq.trans hnew, hframe, ?_,
    (hnext _ hdelay).usage, (hnext _ hcreate).usage, hnext .tick rfl⟩
  rw [hcore.sim.refines.prio_eq]
  exact hprio

/-- In every state of every run, the code of a call that may be made there, uninterrupted, comes to
its end. It leaves the memory that the call leaves, and returns what the call returns unless the
call has selected another task: then it has handed the processor over. -/
theorem code_refines (h : SysRun (fun tr s act => Orderly (hist tr) s act) tr s)
    (hu : Usage (hist tr) s (.call c)) (he : s.Enabled (.call c)) (sr : Sr) :
    ∃ k r cpu, s.k.exec c = some (k, r) ∧ Code.call c (atEntry s.k sr) =
      some (if k.newTask = s.k.newTask then .ok r else .error .switched, cpu) ∧ cpu.mem = k ∧
        (k.newTask = s.k.newTask → cpu.sr = sr) := by
  obtain ⟨k, r, hk⟩ := h.exec_some hu he
  obtain ⟨cpu, hcpu, hmem, hsr, -⟩ := course_atEntry (Code.call_computes hk) sr
  exact ⟨k, r, cpu, hk, hcpu, hmem, fun hnew => hsr r (Code.selected_of_eq hnew)⟩

/-- The code of an `os_delay` hands the processor over, or returns. -/
theorem code_refines_oneTask : ∃ tr s, SysRun (fun tr s act => Orderly (hist tr) s act) tr s ∧
    tr.map Prod.snd = (oneTask.map Move.act).reverse ∧
    ∃ k r cpu, s.k.exec (.osDelay 3) = some (k, r) ∧ Code.call (.osDelay 3) (atEntry s.k 0x7) =
      some (if k.newTask = s.k.newTask then .ok r else .error .switched, cpu) ∧ cpu.mem = k := by
  obtain ⟨tr, s, a, hrun, -, hacts, hr, hf, -, hu, -⟩ := oneTask_run
  obtain ⟨k, r, cpu, hk, hcpu, hmem, -⟩ :=
    code_refines hrun hu (fun t ht => Option.some.inj (hr.symm.trans ht) ▸ hf) 0x7
  exact ⟨tr, s, hrun, hacts, k, r, cpu, hk, hcpu, hmem⟩

/-- In every state of every run, the code of a call that makes its changes with interrupts masked
is passed by an interrupt before them, behind them, or behind the `schedule` that follows. -/
theorem call_atomic (h : SysRun (fun tr s act => Orderly (hist tr) s act) tr s)
    (hu : Usage (hist tr) s (.call c)) (he : s.Enabled (.call c)) (hc : c.unmasked = false)
    (sr : Sr) : ∃ k₁ k₂ r b cpu, s.k.beforeSchedule c = some (k₁, r, b) ∧
      Kernel.callEnd (k₁, r, b) = some (k₂, r) ∧
        Code.call c (atEntry s.k sr) = some (Code.selected s.k k₂ r, cpu) ∧
          ∀ x ∈ cpu.points, x = s.k ∨ x = k₁ ∨ x = k₂ := by
  obtain ⟨k₂, r, hk⟩ := h.exec_some hu he
  obtain ⟨⟨k₁, r₁, b⟩, hbefore, hend⟩ := Option.bind_eq_some_iff.mp (Kernel.exec_eq c s.k ▸ hk)
  obtain rfl := Code.callEnd_ret hend
  obtain ⟨cpu, hcpu, -, -, hpoints⟩ := course_atEntry (Code.call_course (P := fun x =>
    x = s.k ∨ x = k₁ ∨ x = k₂) hc hbefore hend (.inl rfl) (.inr (.inl rfl)) (.inr (.inr rfl))) sr
  exact ⟨k₁, k₂, r₁, b, cpu, hbefore, hend, hcpu, hpoints⟩

/-- An `os_delay` is passed with the memory as one of the three. -/
theorem call_atomic_oneTask : ∃ tr s, SysRun (fun tr s act => Orderly (hist tr) s act) tr s ∧
    tr.map Prod.snd = (oneTask.map Move.act).reverse ∧
    ∃ k₁ k₂ r b cpu, s.k.beforeSchedule (.osDelay 3) = some (k₁, r, b) ∧
      Kernel.callEnd (k₁, r, b) = some (k₂, r) ∧
        Code.call (.osDelay 3) (atEntry s.k 0x7) = some (Code.selected s.k k₂ r, cpu) ∧
          ∀ x ∈ cpu.points, x = s.k ∨ x = k₁ ∨ x = k₂ := by
  obtain ⟨tr, s, a, hrun, -, hacts, hr, hf, -, hu, -⟩ := oneTask_run
  exact ⟨tr, s, hrun, hacts,
    call_atomic hrun hu (fun t ht => Option.some.inj (hr.symm.trans ht) ▸ hf) rfl 0x7⟩

end Fos
