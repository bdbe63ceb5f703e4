import Fos.Runs.Lock

/-!
# The lock and the abstract kernel

Under the lock a call does what it does up to its `schedule`, and the state that it leaves is the
one that it leaves without the lock, with the lock held (`exec_scheduleLock`).
-/

namespace Fos

open Links Loops Function

namespace Kernel

variable {k : Kernel}

/-! ## Nothing but `schedule` reads the lock -/

section

variable {α β γ : Type} {F : γ → β}

/-- What does not read the lock first changes the state, and then goes on. -/
theorem bind_scheduleLock {o o' : Option Kernel} {f : Kernel → Option β} {g : Kernel → Option γ}
    (ho : o' = o.map scheduleLock) (h : ∀ k, f k.scheduleLock = (g k).map F) :
    o'.bind f = (o.bind g).map F := by
  cases o with
  | none => simp [ho]
  | some k => simpa [ho] using h k

/-- What does not read the lock first reads something else, and then goes on. -/
theorem read_scheduleLock {o : Option α} {f : α → Option β} {g : α → Option γ}
    (h : ∀ x, f x = (g x).map F) : o.bind f = (o.bind g).map F := by
  cases o with
  | none => rfl
  | some x => exact h x

end

theorem bitmapSet_scheduleLock (p : ℕ) :
    k.scheduleLock.bitmapSet p = (k.bitmapSet p).map scheduleLock := by
  unfold bitmapSet
  dsimp only
  split_ifs <;> rfl

theorem bitmapClear_scheduleLock (p : ℕ) :
    k.scheduleLock.bitmapClear p = (k.bitmapClear p).map scheduleLock := by
  unfold bitmapClear
  by_cases hb : p >>> 3 < 8
  · simp only [if_pos hb, apply_ite (Option.map scheduleLock)]
    rfl
  · simp only [if_neg hb]
    rfl

theorem prioReadyQueueInsertTail_scheduleLock (t : Option TcbPtr) :
    k.scheduleLock.prioReadyQueueInsertTail t =
      (k.prioReadyQueueInsertTail t).map scheduleLock :=
  read_scheduleLock fun _ => bind_scheduleLock (bitmapSet_scheduleLock _) fun _ =>
    read_scheduleLock fun _ => read_scheduleLock fun _ => rfl

theorem prioReadyQueueInsertHead_scheduleLock (t : Option TcbPtr) :
    k.scheduleLock.prioReadyQueueInsertHead t =
      (k.prioReadyQueueInsertHead t).map scheduleLock :=
  read_scheduleLock fun _ => bind_scheduleLock (bitmapSet_scheduleLock _) fun _ =>
    read_scheduleLock fun _ => rfl

theorem prioReadyQueueDelete_scheduleLock (t : Option TcbPtr) :
    k.scheduleLock.prioReadyQueueDelete t = (k.prioReadyQueueDelete t).map scheduleLock := by
  refine read_scheduleLock fun t => read_scheduleLock fun head => ?_
  rw [apply_ite (Option.map scheduleLock)]
  exact ite_congr rfl
    (fun _ => bitmapClear_scheduleLock (k := { k with heap := listDelete k.heap (.tcb t) }) _)
    fun _ => rfl

theorem tickQueueInsert_scheduleLock (e : TickPtr) :
    k.scheduleLock.tickQueueInsert e = (k.tickQueueInsert e).map scheduleLock :=
  read_scheduleLock fun _ => rfl

theorem sleep_scheduleLock (timeslice : ℕ) :
    k.scheduleLock.sleep timeslice = (k.sleep timeslice).map scheduleLock :=
  read_scheduleLock fun _ => bind_scheduleLock
    (prioReadyQueueDelete_scheduleLock (k := (k.setTick _ _).note _) _) fun _ =>
      tickQueueInsert_scheduleLock _

theorem semWait_scheduleLock (s : ℕ) :
    k.scheduleLock.semWait s = (k.semWait s).map scheduleLock :=
  bind_scheduleLock (prioReadyQueueDelete_scheduleLock (k := k.setSem s _) _) fun _ =>
    read_scheduleLock fun _ => read_scheduleLock fun _ => rfl

theorem semRelease_scheduleLock (s : ℕ) :
    k.scheduleLock.semRelease s = (k.semRelease s).map scheduleLock := by
  unfold semRelease
  rw [apply_ite (Option.map scheduleLock), apply_ite (Option.map scheduleLock)]
  exact ite_congr rfl
    (fun _ => read_scheduleLock fun t =>
      prioReadyQueueInsertHead_scheduleLock (k := k.semBlockQueueDelete t) _)
    fun _ => rfl

theorem mutexWait_scheduleLock (m : ℕ) :
    k.scheduleLock.mutexWait m = (k.mutexWait m).map scheduleLock :=
  bind_scheduleLock (prioReadyQueueDelete_scheduleLock (k := k.setMutex m _) _) fun _ =>
    read_scheduleLock fun _ => read_scheduleLock fun _ => rfl

theorem mutexTake_scheduleLock (m : ℕ) :
    k.scheduleLock.mutexTake m = (k.mutexTake m).map scheduleLock :=
  read_scheduleLock fun t => bind_scheduleLock
    (prioReadyQueueDelete_scheduleLock (k := k.setMutex m _) _) fun k => bind_scheduleLock
      (prioReadyQueueInsertHead_scheduleLock (k := k.setPrio t PRIO_MUTEX) _) fun _ => rfl

theorem mutexRelease_scheduleLock (m : ℕ) :
    k.scheduleLock.mutexRelease m = (k.mutexRelease m).map scheduleLock := by
  refine read_scheduleLock fun t => bind_scheduleLock
    (prioReadyQueueDelete_scheduleLock _) fun k => bind_scheduleLock
      (prioReadyQueueInsertHead_scheduleLock (k := k.setPrio t _) _) fun k => ?_
  dsimp only
  rw [apply_ite (Option.map scheduleLock)]
  exact ite_congr rfl
    (fun _ => read_scheduleLock fun u => prioReadyQueueInsertHead_scheduleLock
      (k := (k.setMutex m { k.mutex m with enable := 1 }).mutexBlockQueueDelete u) _)
    fun _ => rfl

theorem msgRelease_scheduleLock (q : ℕ) :
    k.scheduleLock.msgRelease q = (k.msgRelease q).map scheduleLock := by
  unfold msgRelease
  rw [apply_ite (Option.map scheduleLock)]
  exact ite_congr rfl
    (fun _ => read_scheduleLock fun t =>
      prioReadyQueueInsertHead_scheduleLock (k := k.msgBlockQueueDelete t) _)
    fun _ => rfl

theorem msgWait_scheduleLock (q : ℕ) :
    k.scheduleLock.msgWait q = (k.msgWait q).map scheduleLock :=
  bind_scheduleLock (prioReadyQueueDelete_scheduleLock _) fun _ =>
    read_scheduleLock fun _ => read_scheduleLock fun _ => rfl

theorem msgTake_scheduleLock (q buf : ℕ) :
    k.scheduleLock.msgTake q buf = (k.msgTake q buf).map scheduleLock := by
  refine read_scheduleLock fun msg => ?_
  dsimp only
  rw [apply_ite (Option.map scheduleLock)]
  rfl

/-- The same state, with the lock held. -/
def locked {β : Type} (r : Kernel × β) : Kernel × β := (r.1.scheduleLock, r.2)

theorem taskCreate_scheduleLock (tcb : Option TcbPtr) (func stack : Option ℕ) (prio : ℕ) :
    k.scheduleLock.taskCreate tcb func stack prio =
      (k.taskCreate tcb func stack prio).map locked := by
  unfold taskCreate
  split
  · next t _ _ =>
    exact bind_scheduleLock (prioReadyQueueInsertTail_scheduleLock (k := k.setPrio t _) _)
      fun _ => rfl
  · rfl

theorem taskPrioChange_scheduleLock (tcb : Option TcbPtr) (prio : ℕ) :
    k.scheduleLock.taskPrioChange tcb prio = (k.taskPrioChange tcb prio).map locked := by
  unfold taskPrioChange
  cases tcb with
  | none => rfl
  | some t =>
    dsimp only
    rw [apply_ite (Option.map locked), apply_ite (Option.map locked)]
    refine ite_congr rfl (fun _ => rfl) fun _ => ite_congr rfl (fun _ => rfl) fun _ => ?_
    exact bind_scheduleLock (prioReadyQueueDelete_scheduleLock _) fun k =>
      bind_scheduleLock (prioReadyQueueInsertHead_scheduleLock (k := k.setPrio t _) _) fun _ => rfl

theorem timerReq_scheduleLock (timer : Option TickPtr) (func : Option ℕ)
    (timeout period arg : ℕ) : k.scheduleLock.timerReq timer func timeout period arg =
      (k.timerReq timer func timeout period arg).map locked := by
  unfold timerReq
  split
  · rw [apply_ite (Option.map locked)]
    refine ite_congr rfl (fun _ => rfl) fun _ => ?_
    exact bind_scheduleLock (tickQueueInsert_scheduleLock (k := (k.setTick _ _).note _) _)
      fun _ => rfl
  · rfl

theorem msgPut_scheduleLock (q m : Option ℕ) (method : ℕ) :
    k.scheduleLock.msgPut q m method = (k.msgPut q m method).map locked := by
  obtain _ | q := q
  · rfl
  obtain _ | m := m
  · rfl
  rw [msgPut_eq, msgPut_eq, apply_ite (Option.map locked)]
  refine ite_congr rfl (fun _ => rfl) fun _ =>
    bind_scheduleLock (msgRelease_scheduleLock q) fun k => ?_
  unfold msgInsert
  rw [apply_ite (Option.map locked)]
  refine ite_congr rfl (fun _ => rfl) fun _ => ?_
  dsimp only
  rw [apply_ite (Option.map locked)]
  exact ite_congr rfl (fun _ => read_scheduleLock fun _ => rfl) fun _ => rfl

/-- No call reads the lock before its `schedule`. -/
theorem beforeSchedule_scheduleLock (c : Call) :
    k.scheduleLock.beforeSchedule c = (k.beforeSchedule c).map locked := by
  -- Up to `schedule`, or to the return of a call that has none.
  have hmap : ∀ {o o' : Option Kernel} {r : Ret × Bool}, o' = o.map scheduleLock →
      o'.map (·, r) = (o.map (·, r)).map locked := by
    rintro o _ r rfl
    cases o <;> rfl
  have hexec : ∀ {o o' : Option (Kernel × Ret)}, o' = o.map locked →
      (o'.map fun r => (r.1, r.2, false)) = (o.map fun r => (r.1, r.2, false)).map locked := by
    rintro o _ rfl
    cases o <;> rfl
  cases c with
  | taskCreate tcb func stack prio => exact hexec (taskCreate_scheduleLock ..)
  | taskPrioChange tcb prio => exact hexec (taskPrioChange_scheduleLock ..)
  | osDelay timeslice => exact hmap (sleep_scheduleLock _)
  | timerReq timer func timeout period arg => exact hexec (timerReq_scheduleLock ..)
  | semInit s num => cases s <;> rfl
  | semGet s =>
    cases s with
    | none => rfl
    | some s =>
      simp only [beforeSchedule, apply_ite (Option.map locked)]
      exact ite_congr rfl (fun _ => hmap (semWait_scheduleLock s)) fun _ => rfl
  | semPut s =>
    cases s with
    | none => rfl
    | some s => exact hmap (semRelease_scheduleLock s)
  | mutexInit m => cases m <;> rfl
  | mutexGet m =>
    cases m with
    | none => rfl
    | some m =>
      simp only [beforeSchedule, apply_ite (Option.map locked)]
      exact ite_congr rfl (fun _ => hmap (mutexWait_scheduleLock m))
        fun _ => hmap (mutexTake_scheduleLock m)
  | mutexPut m =>
    cases m with
    | none => rfl
    | some m => exact hmap (mutexRelease_scheduleLock m)
  | msgQueueCreate q length =>
    cases q with
    | none => rfl
    | some q =>
      have hcreate : k.scheduleLock.msgQueueCreate (some q) length =
          locked (k.msgQueueCreate (some q) length) := by
        unfold msgQueueCreate
        rw [apply_ite locked]
        rfl
      exact congrArg (fun r : Kernel × Ret => some (r.1, r.2, false)) hcreate
  | msgPut q m method => exact hexec (msgPut_scheduleLock q m method)
  | msgGet q buffer =>
    obtain _ | q := q
    · rfl
    obtain _ | buf := buffer
    · rfl
    simp only [beforeSchedule, apply_ite (Option.map locked)]
    exact ite_congr rfl (fun _ => hmap (msgWait_scheduleLock q))
      fun _ => hmap (msgTake_scheduleLock q buf)
  | schedule => rfl

/-- Under the lock, a call is what it does up to its `schedule`. -/
theorem exec_scheduleLock {c : Call} {k' : Kernel} {r : Ret} {b : Bool}
    (h : k.beforeSchedule c = some (k', r, b)) :
    k.scheduleLock.exec c = some (k'.scheduleLock, r) := by
  rw [exec_eq, beforeSchedule_scheduleLock, h]
  cases b <;> rfl

/-! ## The tick -/

/-- What the callback that puts the semaphores does under the lock, where no `schedule` selects. -/
def semReleases : List ℕ → Kernel → Option Kernel
  | [], k => some k
  | i :: puts, k => (k.semRelease i).bind (semReleases puts)

/-- Under the lock, a callback comes to its end. -/
theorem runCallback_scheduleLock (puts : List ℕ) :
    k.scheduleLock.runCallback puts =
      (k.semReleases puts).map fun k => (k.scheduleLock, none) := by
  induction puts generalizing k with
  | nil => rfl
  | cons i puts ih =>
    rw [runCallback, semReleases, semPut_eq, semRelease_scheduleLock]
    cases hk : k.semRelease i with
    | none => rfl
    | some k₁ =>
      have hnew : k₁.newTask = k.newTask := congrArg (fun s => s.1) (semRelease_selection hk)
      have hsame : k₁.scheduleLock.newTask = k.scheduleLock.newTask := hnew
      rw [Option.map_some, Option.bind_some, schedule_of_lock rfl]
      simp only [Option.bind_eq_bind, Option.bind_some, if_pos hsame]
      exact ih

theorem afterCallback_scheduleLock (e : TickPtr) :
    k.scheduleLock.afterCallback e = (k.afterCallback e).scheduleLock := by
  unfold afterCallback
  rw [apply_ite scheduleLock]
  rfl

/-- Under the lock, no callback is switched out. -/
theorem tickBody_scheduleLock (o : Oracle) (call : ℕ) (e : TickPtr) :
    k.scheduleLock.tickBody o call e =
      (tickBodyWith (fun e => semReleases (o e)) call e k).map fun k => (k.scheduleLock, none) := by
  unfold tickBody tickBodyWith
  dsimp only
  have hnote : k.scheduleLock.note (.visit call e (k.scheduleLock.tick e).timeout) =
      (k.note (.visit call e (k.tick e).timeout)).scheduleLock := rfl
  rw [hnote]
  -- The visit is noted in both; from here on the two differ in the lock only.
  generalize k.note (.visit call e (k.tick e).timeout) = k₀
  have htick : k₀.scheduleLock.tick = k₀.tick := rfl
  rw [htick, apply_ite (Option.map fun k : Kernel => (k.scheduleLock, none))]
  refine ite_congr rfl (fun _ => ?_) fun _ => rfl
  cases (k₀.tick e).style with
  | softwareTimer =>
    refine read_scheduleLock (o := (k₀.tick e).func) fun func => ?_
    -- The callback releases semaphores, which does not switch while the lock is set.
    have hnote : k₀.scheduleLock.note (.callback call e func (k₀.tick e).funcArg) =
        (k₀.note (.callback call e func (k₀.tick e).funcArg)).scheduleLock := rfl
    rw [hnote, runCallback_scheduleLock]
    cases semReleases (o e) (k₀.note (.callback call e func (k₀.tick e).funcArg)) with
    | none => rfl
    | some k₁ => exact congrArg (fun k : Kernel => some (k, none)) (afterCallback_scheduleLock e)
  | delay =>
    -- A task that wakes up is made ready, and that does not read the lock.
    have hdelete : k₀.scheduleLock.tickQueueDelete e = (k₀.tickQueueDelete e).scheduleLock := rfl
    have htick : (k₀.tickQueueDelete e).scheduleLock.tick = (k₀.tickQueueDelete e).tick := rfl
    dsimp only
    rw [hdelete, htick, prioReadyQueueInsertTail_scheduleLock]
    cases prioReadyQueueInsertTail (k₀.tickQueueDelete e) ((k₀.tickQueueDelete e).tick e).tcb <;>
      rfl
  | other => rfl

end Kernel

variable {live : Node → Bool} {k : Kernel} {a : Abs} {e : TickPtr} {hst : Hist} {s : Sys Kernel}

/-- A callback under the lock. -/
theorem Tidy.semReleases (h : Tidy live k a) (puts : List ℕ)
    (hlive : ∀ i ∈ puts, live (.sem i) = true) :
    ∃ k' a', k.semReleases puts = some k' ∧ Tidy live k' a' ∧
      (a.RunningReady → a'.RunningReady) ∧ a.PutFrom a' ∧ a'.newTask = a.newTask := by
  induction puts generalizing k a with
  | nil => exact ⟨k, a, rfl, h, id, .refl a, rfl⟩
  | cons i puts ih =>
    obtain ⟨k₁, ek, h₁⟩ := h.refines.semRelease h.wf.tasks (hlive i (by simp))
    have hnew : (a.semRelease i).newTask = a.newTask := by
      rw [← h₁.newTask_eq, ← h.refines.newTask_eq]
      exact congrArg (fun s => s.1) (Kernel.semRelease_selection ek)
    obtain ⟨k₂, a₂, ek₂, h₂, hready, hput, hnew₂⟩ :=
      ih ⟨h₁, h.wf.semRelease i⟩ fun j hj => hlive j (List.mem_cons_of_mem i hj)
    refine ⟨k₂, a₂, ?_, h₂, fun hr => hready (h.wf.runningReady_semRelease hr i),
      (a.putFrom_semRelease i).trans hput, hnew₂.trans hnew⟩
    rw [Kernel.semReleases, ek, Option.bind_some, ek₂]

/-- An entry that the loop of `hardware_timer` comes to under the lock. -/
theorem Tidy.lockedBody (o : Oracle) (ho : ∀ e, ∀ i ∈ o e, live (.sem i) = true) (call : ℕ)
    {es : List TickPtr} (h : Tidy live k a) (hready : a.RunningReady) (hsuf : e :: es <:+ a.ticks) :
    ∃ k' a', k.scheduleLock.tickBody o call e = some (k'.scheduleLock, none) ∧ Tidy live k' a' ∧
      a'.RunningReady ∧ Cursor k' a' (.tick e) es ∧ a.PassFrom [e] a' ∧
        a'.newTask = a.newTask := by
  have htick := h.refines.tick_eq
  rw [Kernel.tickBody_scheduleLock]
  unfold Kernel.tickBodyWith
  dsimp only
  -- The visit is noted, and nothing else has changed yet.
  have h₀ : Tidy live (k.note (.visit call e (k.tick e).timeout))
      (a.note (.visit call e (a.tick e).timeout)) := by
    rw [htick]
    exact ⟨h.refines.note _, h.wf.note _⟩
  have hpass₀ := Abs.PassFrom.note [e] a (.visit call e (a.tick e).timeout)
  have hready₀ : (a.note (.visit call e (a.tick e).timeout)).RunningReady := hready
  have hsuf₀ : e :: es <:+ (a.note (.visit call e (a.tick e).timeout)).ticks := hsuf
  have hnew₀ : (a.note (.visit call e (a.tick e).timeout)).newTask = a.newTask := rfl
  have htick₀ := h₀.refines.tick_eq
  generalize k.note (.visit call e (k.tick e).timeout) = k₀ at *
  generalize a.note (.visit call e (a.tick e).timeout) = a₀ at *
  rw [htick₀]
  have hmem₀ : e ∈ a₀.ticks := hsuf₀.subset (by simp)
  by_cases hzero : (a₀.tick e).timeout = TIMEOUT
  · rw [if_pos hzero]
    cases e with
    | tickQueue => exact absurd hmem₀ h₀.wf.ticks.head
    | delay t =>
      obtain ⟨k₁, a₁, e₁, e₁', h₁, hready₁, hc₁⟩ := h₀.wakeDelay hsuf₀
      have hk₁ : (k₀.tickQueueDelete (.delay t)).prioReadyQueueInsertTail
          ((k₀.tickQueueDelete (.delay t)).tick (.delay t)).tcb = some k₁ := e₁
      obtain rfl := Option.some.inj ((h₀.wf.wakeDelay_eq hmem₀).symm.trans e₁')
      rw [(h₀.wf.ticks.delay t hmem₀).2.2]
      dsimp only
      rw [hk₁]
      refine ⟨k₁, _, rfl, h₁, hready₁ hready₀, hc₁, hpass₀.trans ?_, hnew₀⟩
      exact .drop (by simp) (by simp) rfl rfl rfl
    | timer n =>
      obtain ⟨hstyle, hfunc⟩ := h₀.wf.ticks.timer n hmem₀
      obtain ⟨f, hf⟩ := Option.ne_none_iff_exists'.mp hfunc
      rw [hstyle]
      dsimp only
      have h₁ : Tidy live (k₀.note (.callback call (.timer n) f (a₀.tick (.timer n)).funcArg))
          (a₀.note (.callback call (.timer n) f (a₀.tick (.timer n)).funcArg)) :=
        ⟨h₀.refines.note _, h₀.wf.note _⟩
      obtain ⟨k₂, a₂, ek, h₂, hready₂, hput, hnew₂⟩ := h₁.semReleases _ (ho (.timer n))
      simp only [hf, Option.bind_eq_bind, Option.bind_some, ek]
      have hsuf₂ : .timer n :: es <:+ a₂.ticks := hput.ticks ▸ hsuf₀
      obtain ⟨h₃, hc₃⟩ := h₂.afterCallback hsuf₂
      refine ⟨_, _, rfl, h₃, (hready₂ hready₀).afterCallback _, hc₃, ?_, ?_⟩
      · exact hpass₀.trans ((Abs.PassFrom.note _ _ _).trans
          ((Abs.PassFrom.of_putFrom _ hput).trans (a₂.passFrom_afterCallback (by simp))))
      · have hafter : (a₂.afterCallback (.timer n)).newTask = a₂.newTask := by
          unfold Abs.afterCallback
          split_ifs <;> rfl
        exact hafter.trans (hnew₂.trans hnew₀)
  · rw [if_neg hzero]
    exact ⟨_, _, rfl, ⟨h₀.refines.setTick _ _, h₀.wf.setTimeout _ _⟩, hready₀,
      (h₀.refines.cursor_entry hsuf₀).congr rfl rfl, hpass₀.trans (.setTimeout _ _ _ _), hnew₀⟩

/-- The loop of `hardware_timer` under the lock. -/
theorem Tidy.lockedLoop (o : Oracle) (ho : ∀ e, ∀ i ∈ o e, live (.sem i) = true) (call : ℕ)
    {x : Node} (es : List TickPtr) (h : Tidy live k a) (hready : a.RunningReady)
    (hc : Cursor k a x es) :
    ∃ k' a', k.scheduleLock.tickLoop o call x = some (k'.scheduleLock, none) ∧ Tidy live k' a' ∧
      a'.RunningReady ∧ a.PassFrom es a' ∧ a'.newTask = a.newTask := by
  induction es generalizing k a x with
  | nil =>
    refine ⟨k, a, ?_, h, hready, .refl [] a, rfl⟩
    exact Kernel.tickLoop_of_last (hc.isListLast_iff.mpr rfl)
  | cons e es ih =>
    have hnext : (k.scheduleLock.heap x).next = .tick e := hc.next
    have hlast : ¬ isListLast k.scheduleLock.heap x = true :=
      fun hl => by simpa using hc.isListLast_iff.mp hl
    obtain ⟨k₁, a₁, ek, h₁, hready₁, hc₁, hpass₁, hnew₁⟩ := h.lockedBody o ho call hready hc.suffix
    obtain ⟨k₂, a₂, ek₂, h₂, hready₂, hpass₂, hnew₂⟩ := ih h₁ hready₁ hc₁
    refine ⟨k₂, a₂, ?_, h₂, hready₂, ?_, hnew₂.trans hnew₁⟩
    · rw [Kernel.tickLoop_eq, if_neg hlast, hnext, Node.tickEntry_tick, Option.bind_some, ek,
        Option.bind_some]
      exact ek₂
    · exact (hpass₁.mono (by simp)).trans (hpass₂.mono fun _ => List.mem_cons_of_mem e)

/-! ## Steps under the lock -/

/-- A tick under the lock: it comes to its end, and the same task runs. -/
theorem Core.tick_scheduleLock (h : Core hst s a) {o : Oracle} (t : TcbPtr) (u : Option TcbPtr)
    (ho : CallbackUsage s (.tick o)) (hd : Undisturbed s (.tick o)) :
    ∃ k' a', s.k.scheduleLock.hardwareTimer o = some (k'.scheduleLock, none) ∧
      Core ((u, .tick o) :: hst) ⟨k', update s.frame t none, s.live⟩ a' ∧
        a'.newTask = a.newTask := by
  have h₁ := h.sim.tidy.tickStart
  obtain ⟨k₂, a₂, ek, h₂, hready, hpass, hnew⟩ := h₁.lockedLoop o ho (s.k.fosTick + 1) a.ticks
    (by exact h.sim.ready) h₁.refines.cursor_head
  refine ⟨k₂, a₂, ?_, ?_, hnew⟩
  · have hloop : Kernel.tickLoop o (s.k.scheduleLock.fosTick + 1) tickHead
        (Kernel.note { s.k.scheduleLock with fosTick := s.k.scheduleLock.fosTick + 1 }
          (.start (s.k.scheduleLock.fosTick + 1))) = some (k₂.scheduleLock, none) := ek
    unfold Kernel.hardwareTimer
    simp only [Option.bind_eq_bind, hloop, Option.bind_some, Kernel.tickEnd]
    rw [Kernel.schedule_of_lock rfl, Option.map_some]
  · have hothers : ∀ v g, v ≠ t → s.frame v = some (.timer g) → g.entry ∈ a.ticks →
        (a.tick g.entry).period = CYCLE := by
      intro v g _ hg _
      rw [← h.sim.refines.tick_eq]
      exact hd v g hg
    exact (h.within.passed (f := none) (n := a.fosTick + 1) h₂ (by simp)
      ((Abs.PassFrom.note _ _ _).trans hpass) (by simp) hothers).core hready

/-- A call under the lock: it returns, the same task runs, and it is ready unless the call has made
it wait or sleep. -/
theorem Core.call_scheduleLock (h : Core hst s a) {c : Call} {t : TcbPtr}
    (hu : Usage hst s (.call c)) (hr : s.running = some t) :
    ∃ k' r, s.k.scheduleLock.exec c = some (k'.scheduleLock, r) ∧
      Within ((s.running, .call c) :: hst) ⟨k', s.frame, setUp s.live c⟩ (c.effect t a) ∧
        k'.newTask = some t ∧ ((c.effect t a).RunningReady ↔ ¬ c.Blocks s.k) := by
  have hnew := h.eq_caller hr
  obtain ⟨k', r, b, e, hwithin⟩ := h.effect hu hnew
  have hsel := Kernel.beforeSchedule_selection e
  exact ⟨k', r, Kernel.exec_scheduleLock e, hwithin, (congrArg (fun s => s.1) hsel).trans hr,
    h.runningReady_effect hu hnew⟩

end Fos
