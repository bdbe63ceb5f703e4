import Fos.Code.Masked

/-!
# The points of a call

A call that makes its changes with interrupts masked is passed by an interrupt before its changes,
behind them, and behind the `schedule` that selects its caller again. The four other calls change
the memory with interrupts enabled.
-/

namespace Fos

open Interrupts Links Function

/-- The call changes the memory with interrupts enabled. -/
def Call.unmasked : Call → Bool
  | .taskCreate (some _) (some _) (some _) _ | .taskPrioChange (some _) _ | .semInit (some _) _
  | .mutexInit (some _) => true
  | _ => false

namespace Code

variable {P : Kernel → Prop} {k k' k₁ k₂ : Kernel} {r : Ret}

/-- `prio_ready_queue_fetch` reports whether it has selected another task. -/
theorem noSched_iff (h : k.prioReadyQueueFetch = some (k', r)) :
    r = .NO_SCHED ↔ k'.newTask = k.newTask := by
  rw [Kernel.prioReadyQueueFetch_eq] at h
  obtain ⟨tmp, -, h⟩ := Option.bind_eq_some_iff.mp h
  obtain ⟨k₁, hrotate, h⟩ := Option.bind_eq_some_iff.mp h
  have hnew : k₁.newTask = k.newTask := by rw [Kernel.rotate_vars hrotate]
  split_ifs at h with hsame
  · obtain ⟨rfl, rfl⟩ := Prod.mk.inj (Option.some.inj h)
    exact iff_of_true rfl hnew
  · obtain ⟨rfl, rfl⟩ := Prod.mk.inj (Option.some.inj h)
    rw [hnew] at hsame
    exact iff_of_false (by simp) (Ne.symm hsame)

/-- How code ends that schedules: it comes to `a` where the same task is selected, and hands the
processor over where another one is. -/
def selected {α : Type} (k k' : Kernel) (a : α) : Except Stop α :=
  if k'.newTask = k.newTask then .ok a else .error .switched

/-- `schedule` hands the processor over where another task is selected. -/
theorem schedule_selects (hk : k.schedule = some k') (h : P k) (h' : P k') :
    Course P schedule k (selected k k' ()) k' := by
  unfold Kernel.schedule at hk
  split_ifs at hk with hlock
  · obtain rfl := Option.some.inj hk
    refine .bind (.read h _) ?_
    rw [if_pos hlock, selected, if_pos rfl]
    exact .ret h ()
  · obtain ⟨⟨k'', r⟩, hfetch, rfl⟩ := Option.map_eq_some_iff.mp hk
    have hschedule := schedule_course (by simpa using hlock) hfetch h h'
    unfold scheduleEnd at hschedule
    unfold selected
    simp only [noSched_iff hfetch] at hschedule
    exact hschedule

/-- The end of a call that schedules. -/
theorem scheduleRet_course (hk : k.schedule = some k') (h : P k) (h' : P k') (r : Ret) :
    Course P (do schedule; Prog.ret r) k (selected k k' r) k' := by
  have hschedule := schedule_selects hk h h'
  unfold selected at hschedule ⊢
  split_ifs at hschedule ⊢
  · exact .bind hschedule (.ret h' r)
  · exact hschedule.bind_error

/-- The end of a call that schedules with interrupts masked, in code that comes to `schedule`. -/
theorem criticalRet_course {body : Prog Sr Kernel Unit} (hk : k₁.schedule = some k₂) (h : P k)
    (h₂ : P k₂) (r : Ret)
    (hbody : ∀ e, Course (fun _ => True) schedule k₁ e k₂ → Course (fun _ => True) body k e k₂) :
    Course P (do Prog.critical body; Prog.ret r) k (selected k₁ k₂ r) k₂ := by
  have hcritical := Course.critical h (hbody _ (schedule_selects hk trivial trivial))
  unfold selected at hcritical ⊢
  split_ifs at hcritical ⊢
  · exact .bind hcritical (.ret h₂ r)
  · exact hcritical.bind_error

variable {s m q buf timeslice : ℕ}

theorem osDelay_course (hk : k.sleep timeslice = some k₁) (hs : k₁.schedule = some k₂) (h : P k)
    (h₁ : P k₁) (h₂ : P k₂) :
    Course P (osDelay timeslice) k (selected k₁ k₂ .VOID) k₂ :=
  .bind (.critical h (sleep_computes hk)) (scheduleRet_course hs h₁ h₂ .VOID)

theorem timerReq_course {e : TickPtr} {f timeout period arg : ℕ} (h0 : timeout ≠ 0)
    (hk : k.timerReq (some e) (some f) timeout period arg = some (k₁, r)) (h : P k) (h₁ : P k₁) :
    Course P (timerReq (some e) (some f) timeout period arg) k (.ok .VOID) k₁ := by
  unfold Kernel.timerReq at hk
  unfold timerReq
  dsimp only at hk ⊢
  rw [if_neg h0] at hk ⊢
  obtain ⟨k', hinsert, hk⟩ := Option.bind_eq_some_iff.mp hk
  obtain ⟨rfl, rfl⟩ := Prod.mk.inj (Option.some.inj hk)
  refine .bind (a := ()) (.critical (Q := fun _ => True) h ?_) (.ret h₁ _)
  refine .bind (.write trivial _) (.bind (.write trivial _) (.bind (.write trivial _) ?_))
  refine .bind (.write trivial _) (.bind (.write trivial _) (.bind (.write trivial _) ?_))
  refine .bind (.write trivial _) ?_
  -- The fields are written one by one, and the function writes them at once.
  simp only [setTick_setTick, setTick_self]
  exact tickQueueInsert_computes hinsert

theorem semGet_wait_course (hcount : (k.sem s).count = 0) (hk : k.semWait s = some k₁)
    (hs : k₁.schedule = some k₂) (h : P k) (h₂ : P k₂) :
    Course P (semGet (some s)) k (selected k₁ k₂ .TRUE) k₂ := by
  refine criticalRet_course hs h h₂ .TRUE fun e he => .bind (.test trivial _) ?_
  rw [if_pos (decide_eq_true hcount)]
  exact .bind (semWait_computes hk) he

theorem semGet_take_course (hcount : (k.sem s).count ≠ 0) (h : P k)
    (h₁ : P (k.setSem s { k.sem s with count := (k.sem s).count - 1 })) :
    Course P (semGet (some s)) k (.ok .TRUE)
      (k.setSem s { k.sem s with count := (k.sem s).count - 1 }) := by
  refine .bind (a := ()) (.critical (Q := fun _ => True) h (.bind (.test trivial _) ?_)) (.ret h₁ _)
  rw [if_neg (by simpa using hcount)]
  exact .write trivial _

theorem semPut_course (hk : k.semRelease s = some k₁) (hs : k₁.schedule = some k₂) (h : P k)
    (h₁ : P k₁) (h₂ : P k₂) :
    Course P (semPut (some s)) k (selected k₁ k₂ .TRUE) k₂ :=
  .bind (.critical h (semRelease_computes hk)) (scheduleRet_course hs h₁ h₂ .TRUE)

theorem mutexGet_wait_course (hheld : (k.mutex m).enable = 0) (hk : k.mutexWait m = some k₁)
    (hs : k₁.schedule = some k₂) (h : P k) (h₂ : P k₂) :
    Course P (mutexGet (some m)) k (selected k₁ k₂ .TRUE) k₂ := by
  refine criticalRet_course hs h h₂ .TRUE fun e he => .bind (.test trivial _) ?_
  rw [if_pos (decide_eq_true hheld)]
  exact .bind (mutexWait_computes hk) he

theorem mutexGet_take_course (hfree : (k.mutex m).enable ≠ 0) (hk : k.mutexTake m = some k₁)
    (h : P k) (h₁ : P k₁) : Course P (mutexGet (some m)) k (.ok .TRUE) k₁ := by
  refine .bind (a := ()) (.critical (Q := fun _ => True) h (.bind (.test trivial _) ?_)) (.ret h₁ _)
  rw [if_neg (by simpa using hfree)]
  exact mutexTake_computes hk

theorem mutexPut_course (hk : k.mutexRelease m = some k₁) (hs : k₁.schedule = some k₂) (h : P k)
    (h₁ : P k₁) (h₂ : P k₂) :
    Course P (mutexPut (some m)) k (selected k₁ k₂ .TRUE) k₂ :=
  .bind (.critical h (mutexRelease_computes hk)) (scheduleRet_course hs h₁ h₂ .TRUE)

theorem msgQueueCreate_course {length : ℕ} (h0 : length ≠ 0) (h : P k)
    (h₁ : P (k.msgQueueCreate (some q) length).1) :
    Course P (msgQueueCreate (some q) length) k (.ok .TRUE)
      (k.msgQueueCreate (some q) length).1 := by
  unfold Kernel.msgQueueCreate at h₁ ⊢
  unfold msgQueueCreate
  dsimp only at h₁ ⊢
  rw [if_neg h0] at h₁ ⊢
  rw [if_neg h0]
  refine .bind (a := ()) (.critical (Q := fun _ => True) h ?_) (.ret h₁ _)
  refine .bind (listInit_course trivial trivial) (.bind (listInit_course trivial trivial) ?_)
  refine .bind (.write trivial _) ?_
  have hwrite := Course.write (ρ := Sr) (P := fun _ : Kernel => True) (s := Kernel.setQueue
    { k with heap := Fos.listInit (Fos.listInit k.heap (.queue q)) (.msgHead q) } q
      { k.queue q with length := length }) trivial
    fun k => k.setQueue q { k.queue q with count := 0 }
  simpa [Kernel.setQueue, writeQueue] using hwrite

theorem msgPut_course {method : ℕ} (hk : k.msgPut (some q) (some m) method = some (k₁, r))
    (h : P k) (h₁ : P k₁) : Course P (msgPut (some q) (some m) method) k (.ok r) k₁ := by
  rw [Kernel.msgPut_eq] at hk
  refine .bind (.test h _) ?_
  simp only [decide_eq_true_eq]
  split_ifs at hk ⊢
  · obtain ⟨rfl, rfl⟩ := Prod.mk.inj (Option.some.inj hk)
    exact .ret h _
  · obtain ⟨k', hrelease, hk⟩ := Option.bind_eq_some_iff.mp hk
    exact .bind (.critical h (.bind (msgRelease_computes hrelease) (msgInsert_computes hk)))
      (.ret h₁ r)

theorem msgGet_wait_course (hempty : Fos.isListLast k.heap (.msgHead q) = true)
    (hk : k.msgWait q = some k₁)  (hs : k₁.schedule = some k₂) (h : P k) (h₁ : P k₁) (h₂ : P k₂) :
    Course P (msgGet (some q) (some buf)) k (selected k₁ k₂ .EMPTY) k₂ := by
  refine .bind (.critical h (?_ : Computes _ k .EMPTY k₁)) ?_
  · refine .bind (isListLast_course trivial _) ?_
    rw [if_pos hempty]
    exact .bind (msgWait_computes hk) (.pure _ _)
  · rw [if_pos rfl]
    exact scheduleRet_course hs h₁ h₂ .EMPTY

theorem msgGet_take_course (hne : Fos.isListLast k.heap (.msgHead q) = false)
    (hk : k.msgTake q buf = some k₁) (h : P k) (h₁ : P k₁) :
    Course P (msgGet (some q) (some buf)) k (.ok .TRUE) k₁ := by
  refine .bind (.critical h (?_ : Computes _ k .TRUE k₁)) ?_
  · refine .bind (isListLast_course trivial _) ?_
    rw [if_neg (by simp [hne])]
    exact .bind (msgTake_computes hk) (.pure _ _)
  · rw [if_neg (by simp)]
    exact .ret h₁ _

theorem schedule_call_course (hs : k.schedule = some k₂) (h : P k) (h₂ : P k₂) :
    Course P (call .schedule) k (selected k k₂ .VOID) k₂ := by
  have hschedule := schedule_selects hs h h₂
  unfold selected at hschedule ⊢
  split_ifs at hschedule ⊢
  · exact .bind hschedule (.pure _ _)
  · exact hschedule.bind_error

/-! ## With interrupts enabled -/

theorem semInit_course {num : ℕ} (h : P k) (h₁ : P (k.setSem s { k.sem s with count := num }))
    (h₂ : P { k.setSem s { k.sem s with count := num } with
      heap := k.heap.setNext (.sem s) (.sem s) })
    (h₃ : P (k.semInit (some s) num).1) :
    Course P (semInit (some s) num) k (.ok .TRUE) (k.semInit (some s) num).1 :=
  .bind (.write h _) (.bind (listInit_course h₁ h₂) (.ret h₃ _))

theorem mutexInit_course (h : P k)
    (h₁ : P { k with heap := k.heap.setNext (.mutex m) (.mutex m) })
    (h₂ : P { k with heap := Fos.listInit k.heap (.mutex m) }) (h₃ : P (k.mutexInit (some m)).1) :
    Course P (mutexInit (some m)) k (.ok .TRUE) (k.mutexInit (some m)).1 :=
  .bind (listInit_course h h₁) (.bind (.write h₂ _) (.ret h₃ _))

variable {t : TcbPtr} {prio : ℕ}

theorem taskCreate_course {f st : ℕ}
    (hk : (k.setPrio t (prio % 256)).prioReadyQueueInsertTail (some t) = some k') (h : P k)
    (h₁ : P (k.setPrio t (prio % 256)))
    (h₂ : P { k.setPrio t (prio % 256) with
      c := update k.c ((prio % 256) >>> 3)
        (k.c ((prio % 256) >>> 3) ||| 1#8 <<< (prio % 256 &&& 0x7)) })
    (hP : ∀ x : Kernel, x.toVars = (k.setPrio t (prio % 256)).toVars → x.y = k'.y → x.c = k'.c →
      (∀ n ≠ .tcb t, x.heap n = k.heap n) → P x) (h' : P k') :
    Course P (taskCreate (some t) (some f) (some st) prio) k (.ok .TRUE) k' := by
  have hprio : (k.setPrio t (prio % 256)).prio t = prio % 256 := by simp [Kernel.setPrio]
  refine .bind (.write h _) (.bind (prioReadyQueueInsertTail_course hk h₁ ?_ hP) (.ret h' _))
  rw [hprio]
  exact h₂

end Code

/-- The node before `x` does not lead to it. -/
def Unlinked (h : Heap Node) (x : Node) : Prop := (h (h x).prev).next ≠ x

/-- A node that is not the last one leaves its list with the first link that `list_delete`
writes. -/
theorem unlinked_setNext {h : Heap Node} {x : Node} (hlast : isListLast h x = false) :
    Unlinked (h.setNext (h x).prev (h x).next) x := by
  have hnext : (h x).next ≠ x := by simpa [isListLast] using hlast
  simpa [Unlinked] using hnext

/-- `list_delete` leaves the links of the node. -/
theorem listDelete_prev (h : Heap Node) (x : Node) : (listDelete h x x).prev = (h x).prev := by
  unfold listDelete
  split_ifs with hlast
  · simp
  · have hnext : x ≠ (h x).next := by simpa [isListLast, eq_comm] using hlast
    simp [hnext]

/-- `list_delete` takes the node out. -/
theorem unlinked_listDelete {h : Heap Node} {x : Node} (hprev : (h x).prev ≠ x) :
    Unlinked (listDelete h x) x := by
  unfold listDelete
  split_ifs with hlast
  · simpa [Unlinked] using hprev
  · have hnext : (h x).next ≠ x := by simpa [isListLast] using hlast
    simp [Unlinked, hprev.symm, hnext, hnext.symm]

namespace Code

variable {P : Kernel → Prop} {k k' k₁ k₂ : Kernel} {t : TcbPtr} {prio : ℕ}

/-- Once the running task has left its ready list, it is out until it is linked into the new one. -/
theorem taskPrioChange_course (hnew : k.newTask = some t)
    (hlegal : ¬ (prio < 1 ∨ SYSTEM_WORD < prio))
    (h₁ : k.prioReadyQueueDelete (some t) = some k₁)
    (h₂ : (k₁.setPrio t (prio % 256)).prioReadyQueueInsertHead (some t) = some k₂)
    (hprev : (k.heap (.tcb t)).prev ≠ .tcb t)
    (htask : readyHead (prio % 256) ≠ .tcb t)
    (hhead : (k₁.heap (readyHead (prio % 256))).next ≠ .tcb t) (h : P k) (h' : P k₂)
    (hP : ∀ x : Kernel, Unlinked x.heap (.tcb t) → P x) :
    Course P (taskPrioChange (some t) prio) k (.ok .TRUE) k₂ := by
  have hheap := Kernel.prioReadyQueueDelete_heap h₁
  have hout : Unlinked k₁.heap (.tcb t) := hheap ▸ unlinked_listDelete hprev
  have hprio : (k₁.setPrio t (prio % 256)).prio t = prio % 256 := by simp [Kernel.setPrio]
  unfold taskPrioChange
  dsimp only
  rw [if_neg hlegal]
  refine .bind (.test h _) ?_
  rw [if_neg (by simp [hnew])]
  refine .bind (prioReadyQueueDelete_course h₁ h ?_ ?_) (.bind (.write (hP k₁ hout) _)
    (.bind (prioReadyQueueInsertHead_course h₂ fun x hnext hx => hP x ?_) (.ret h' _)))
  · exact fun hlast => hP _ (unlinked_setNext hlast)
  · exact fun x hx => hP x (hx ▸ hheap ▸ hout)
  · -- Whatever is the node before: its `next` is as it was.
    have hself : (k₁.heap (.tcb t)).prev ≠ .tcb t := by rwa [hheap, listDelete_prev]
    have hsame : (k₁.setPrio t (prio % 256)).heap = k₁.heap := rfl
    rw [hprio, hsame] at hx
    rw [hsame] at hnext
    unfold Unlinked at hout ⊢
    rcases hx with hx | hx | hx
    · rw [hx, hnext _ hself]
      exact hout
    · rw [hx, hnext _ htask]
      exact hhead
    · exact absurd hx hhead

end Code

end Fos
