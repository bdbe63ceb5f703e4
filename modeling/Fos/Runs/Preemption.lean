import Fos.Refinement.Marked
import Fos.Runs.Atomicity
import Fos.Runs.Placement

/-!
# A tick inside a call

A tick comes wherever interrupts are enabled. At every point of every call it selects a task that is
ready and leaves the task that it has interrupted in one list, except where a call is torn: in
`task_prio_change` while the caller is in no list, and in `task_create` while the bitmap marks an
empty list and no ready task has that priority or a higher one (`tick_inside_call`).
-/

namespace Fos

open Links Function Interrupts

variable {live : Node → Bool} {k k₁ k₂ x : Kernel} {a : Abs} {hst : Hist} {s : Sys Kernel}
  {t u : TcbPtr} {o : Oracle} {c : Call} {p q : ℕ}

/-- What a tick leaves that has interrupted `t`: a task is selected that is created and ready, and
`t` is behind one head. -/
structure TickLeaves (live : Node → Bool) (t : TcbPtr) (k : Kernel) : Prop where
  selected : ∃ u, k.newTask = some u ∧ live (.tcb u) = true ∧
    Queued k.heap (readyHead (k.prio u)) (.tcb u)
  placed : ∃! n, PlacedAt ⟨k, fun _ => none, live⟩ t n

/-- A tick that comes to the kernel `k`, in the task `t`. -/
def TickSafe (live : Node → Bool) (o : Oracle) (t : TcbPtr) (k : Kernel) : Prop :=
  ∃ k' f, k.hardwareTimer o = some (k', f) ∧ TickLeaves live t k'

/-- Where the invariant holds, whether or not the running task is ready. -/
theorem Within.tickSafe (h : Within hst s a) (hr : s.running = some u)
    (ht : s.live (.tcb t) = true) (ho : CallbackUsage s (.tick o)) (hd : Undisturbed s (.tick o)) :
    TickSafe s.live o t s.k := by
  obtain ⟨k', a', f, ek, -, hcore⟩ := h.tick t none ho hd
  have hin := hcore.in_place
  have hne : k'.newTask ≠ none := by
    rcases Kernel.hardwareTimer_switches ek with hsame | ⟨hne, -⟩
    · rw [hsame]
      exact fun hn => by simpa [hr] using (show s.running = none from hn)
    · exact hne
  obtain ⟨v, hv⟩ := Option.ne_none_iff_exists'.mp hne
  refine ⟨k', f, ek, ⟨v, hv, hcore.live_running hv, ?_⟩, hin.place t ht⟩
  obtain ⟨-, hq | ⟨heq, -⟩⟩ := hin.running v hv
  · exact hq
  · simp at heq

/-- A tick makes no difference between the bitmaps where one has a bit too many. -/
theorem Marked.tickSafe {y' : BitVec 8} {c' : ℕ → BitVec 8} (h : Marked p q k y' c') (hqp : q ≤ p)
    (hk : TickSafe live o t k) : TickSafe live o t (k.withBitmap y' c') := by
  obtain ⟨k', f, ek, hselected, hplaced⟩ := hk
  obtain ⟨y₁, c₁, e₁, -⟩ := h.hardwareTimer hqp ek
  exact ⟨_, f, e₁, hselected, hplaced⟩

/-! ## Objects that have not been set up -/

/-- The links of a node that is in no list do not matter. -/
theorem Refines.congr_free (h : Refines live k a) {n : Node} (hn : Free (IsHead live) a.seq n)
    {heap : Heap Node} (hh : ∀ m, m ≠ n → heap m = k.heap m) :
    Refines live { k with heap := heap } a :=
  ⟨h.vars, h.lists.congr_free hn hh, h.bits⟩

/-- The priority of a task that has not been created does not matter. -/
theorem WF.setPrio_dead (w : WF live a) (hu : live (.tcb u) = false) (p : ℕ) :
    WF live (a.setPrio u p) := by
  have hsame : ∀ v, live (.tcb v) = true → (a.setPrio u p).prio v = a.prio v := fun v hv =>
    update_of_ne (fun e => by simp [e, hu] at hv) _ _
  refine w.moved ?_ rfl rfl rfl rfl rfl
  obtain ⟨nodup, apart, isTask, live_of_mem, open_of_mem, ready_prio, prio_lt, placed, awake,
    idle⟩ := w.tasks
  exact ⟨nodup, apart, isTask, live_of_mem, open_of_mem,
    fun p' v hv => (hsame v (live_of_mem _ v hv)).trans (ready_prio p' v hv),
    fun v hv => (hsame v hv).symm ▸ prio_lt v hv, placed, awake, idle⟩

/-- A change that leaves the mutexes and the tick queue as they are. -/
theorem Within.congr {a' : Abs} (h : Within hst s a) (htidy : Tidy s.live x a')
    (hmutex : a'.mutex = a.mutex) (hticks : a'.ticks = a.ticks) (htick : a'.tick = a.tick) :
    Within hst ⟨x, s.frame, s.live⟩ a' where
  tidy := htidy
  get_live := h.get_live
  copy_prio u m hm := hmutex ▸ h.copy_prio u m hm
  fresh m hm hno := hmutex ▸ h.fresh m hm hno
  timer u f hf := hticks ▸ h.timer u f hf
  apart u v f g hf hg heq := htick ▸ h.apart u v f g hf hg heq

/-- A task is being created. -/
theorem Core.creating (h : Core hst s a) (hu : s.live (.tcb u) = false) (htask : ∃ n, u = .task n)
    (hvars : x.toVars = (s.k.setPrio u p).toVars) (hy : x.y = s.k.y) (hc : x.c = s.k.c)
    (hheap : ∀ n, n ≠ .tcb u → x.heap n = s.k.heap n) :
    Within hst ⟨x, s.frame, s.live⟩ (a.setPrio u p) := by
  have w := h.sim.wf
  have hfree : Free (IsHead s.live) (a.setPrio u p).seq (.tcb u) :=
    Refines.free_tcb _ (fun q hm => by simpa [hu] using w.tasks.live_of_mem q u hm) htask
  refine h.within.congr ⟨?_, w.setPrio_dead hu p⟩ rfl rfl rfl
  refine ((h.sim.refines.setPrio u p).congr_free hfree hheap).congr ?_ rfl hy hc rfl
  rw [hvars, (h.sim.refines.setPrio u p).vars]

/-- What a call sets up, and the kernel once it has written that but for the links. -/
def Call.settingUp (k : Kernel) : Call → Option (Node × Kernel)
  | .taskCreate (some tcb) (some _) (some _) prio => some (.tcb tcb, k.setPrio tcb (prio % 256))
  | .semInit (some s) num => some (.sem s, k.setSem s { k.sem s with count := num })
  | .mutexInit (some m) => some (.mutex m, k)
  | _ => none

/-- The kernel is `x` while the call writes what it sets up: only the links of that may differ. -/
def SettingUp (k : Kernel) (c : Call) (x : Kernel) : Prop :=
  ∃ n k₁ heap, c.settingUp k = some (n, k₁) ∧ x = { k₁ with heap := heap } ∧
    ∀ m ≠ n, heap m = k.heap m

/-- The same task runs. -/
theorem SettingUp.newTask (h : SettingUp k c x) : x.newTask = k.newTask := by
  obtain ⟨n, k₁, heap, hc, rfl, -⟩ := h
  match c with
  | .taskCreate (some _) (some _) (some _) _ | .semInit (some _) _ | .mutexInit (some _) =>
    obtain ⟨-, rfl⟩ := Prod.mk.inj (Option.some.inj hc)
    rfl

/-- The timers are as before. -/
theorem SettingUp.tick (h : SettingUp k c x) : x.tick = k.tick := by
  obtain ⟨n, k₁, heap, hc, rfl, -⟩ := h
  match c with
  | .taskCreate (some _) (some _) (some _) _ | .semInit (some _) _ | .mutexInit (some _) =>
    obtain ⟨-, rfl⟩ := Prod.mk.inj (Option.some.inj hc)
    rfl

/-- The head of a semaphore or a mutex that has not been set up is free. -/
theorem free_head {n : Node} (hn : ¬ IsHead live n) (ht : n.tcbEntry = none)
    (he : n.tickEntry = none) (hm : n.msgEntry = none) : Free (IsHead live) a.seq n :=
  ⟨hn, fun _ _ => not_mem_seq ht he hm⟩

/-- The invariant holds while a call writes what it sets up. -/
theorem Core.settingUp (h : Core hst s a) (hu : Usage hst s (.call c)) (hx : SettingUp s.k c x) :
    ∃ a', Within hst ⟨x, s.frame, s.live⟩ a' := by
  obtain ⟨n, k₁, heap, hc, rfl, hheap⟩ := hx
  have hcall := hu.1
  have href := h.sim.refines
  have w := h.sim.wf
  match c with
  | .taskCreate (some u) (some _) (some _) prio =>
    obtain ⟨rfl, rfl⟩ := Prod.mk.inj (Option.some.inj hc)
    exact ⟨_, h.creating hcall.2.1 hcall.1 rfl rfl rfl hheap⟩
  | .semInit (some i) num =>
    obtain ⟨rfl, rfl⟩ := Prod.mk.inj (Option.some.inj hc)
    have hdead : s.live (.sem i) = false := hcall.1
    exact ⟨_, h.within.congr ⟨(href.setSem i { s.k.sem i with count := num }).congr_free
      (free_head (by simp [IsHead, hdead]) rfl rfl rfl) hheap, w.setSem i _⟩ rfl rfl rfl⟩
  | .mutexInit (some m) =>
    obtain ⟨rfl, rfl⟩ := Prod.mk.inj (Option.some.inj hc)
    have hdead : s.live (.mutex m) = false := hcall
    exact ⟨_, h.within.congr ⟨href.congr_free
      (free_head (by simp [IsHead, hdead]) rfl rfl rfl) hheap, w⟩ rfl rfl rfl⟩

/-! ## Torn calls -/

/-- The call is torn in the task `t`: where the kernel is `x`, the caller of `task_prio_change` is
in no list, or the bit of the new priority is set and no task is ready that has it or a higher one.
-/
def Torn (c : Call) (t : TcbPtr) (x : Kernel) : Prop :=
  match c with
  | .taskPrioChange (some _) _ => Unlinked x.heap (.tcb t)
  | .taskCreate (some _) (some _) (some _) prio =>
    (x.c (prio >>> 3)).getLsbD (prio &&& 0x7) = true ∧ ∀ q ≤ prio, ¬ SomeReady x q
  | _ => False

/-- A tick that comes where the kernel is `x` is safe, unless the call is torn. What has been set up
is what was before the call, or what is behind it. -/
def PointSafe (s : Sys Kernel) (c : Call) (o : Oracle) (t : TcbPtr) (x : Kernel) : Prop :=
  Undisturbed ⟨x, s.frame, s.live⟩ (.tick o) → ¬ Torn c t x →
    ∃ live, (live = s.live ∨ live = setUp s.live c) ∧ TickSafe live o t x

/-- Where the invariant holds with what was set up before the call. -/
theorem Within.pointSafe (h : Within hst ⟨x, s.frame, s.live⟩ a) (hr : x.newTask = some u)
    (ht : s.live (.tcb t) = true) (ho : CallbackUsage s (.tick o)) : PointSafe s c o t x :=
  fun hd _ => ⟨s.live, .inl rfl, h.tickSafe hr ht ho hd⟩

/-- Where the invariant holds with what the call has set up. -/
theorem Within.pointSafe_setUp (h : Within hst ⟨x, s.frame, setUp s.live c⟩ a)
    (hr : x.newTask = some u) (ht : s.live (.tcb t) = true) (ho : CallbackUsage s (.tick o)) :
    PointSafe s c o t x :=
  fun hd _ => ⟨setUp s.live c, .inr rfl,
    h.tickSafe hr (setUp_mono ht) (fun e i hi => setUp_mono (ho e i hi)) hd⟩

/-- Behind a call. -/
theorem Core.after (h : Core hst s a) {r : Ret} (hu : Usage hst s (.call c))
    (hk : s.k.exec c = some (k₂, r)) :
    ∃ a', Within ((s.running, .call c) :: hst) ⟨k₂, s.frame, setUp s.live c⟩ a' := by
  obtain ⟨husage, hmain, hidle⟩ := hu
  obtain ⟨k', a', r', ek, ea, hsim⟩ := exec_sim h.sim husage hmain hidle h.copy_prio
  obtain ⟨rfl, rfl⟩ := Prod.mk.inj (Option.some.inj (hk.symm.trans ek))
  obtain ⟨t₀, hnew⟩ := a.exists_caller
  exact ⟨a', h.within_call hnew husage hmain hsim.tidy (Abs.exec_effect hnew ea).mutex
    (Abs.exec_frame hnew ea) fun _ _ => id⟩

/-- While a call writes what it sets up. -/
theorem Core.settingUp_pointSafe (h : Core hst s a) (hr : s.running = some t)
    (hu : Usage hst s (.call c)) (ho : CallbackUsage s (.tick o)) (hx : SettingUp s.k c x) :
    PointSafe s c o t x := by
  obtain ⟨a', hwithin⟩ := h.settingUp hu hx
  exact hwithin.pointSafe (hx.newTask.trans hr) (h.live_running hr) ho

/-- `task_create`, where it has set bits of the new priority. -/
theorem Core.creating_marked (h : Core hst s a) (hr : s.running = some t)
    (hu : s.live (.tcb u) = false) (htask : ∃ n, u = .task n) (hp : p < SYSTEM_WORD)
    (ho : CallbackUsage s (.tick o)) {f st : ℕ} (hvars : x.toVars = (s.k.setPrio u p).toVars)
    (hextra : Extra p s.k x.y x.c) (hset : (x.c (p >>> 3)).getLsbD (p &&& 0x7) = true)
    (hheap : ∀ n, n ≠ .tcb u → x.heap n = s.k.heap n) :
    PointSafe s (.taskCreate (some u) (some f) (some st) p) o t x := by
  intro hd hno
  -- What there is without these bits.
  let k₀ : Kernel := { x with y := s.k.y, c := s.k.c }
  have hwithin : Within hst ⟨k₀, s.frame, s.live⟩ (a.setPrio u p) :=
    h.creating hu htask hvars rfl rfl hheap
  obtain ⟨q, hqp, hq⟩ : ∃ q ≤ p, SomeReady x q := by
    by_contra hall
    exact hno ⟨hset, fun q hq hready => hall ⟨q, hq, hready⟩⟩
  have hbits := hwithin.tidy.refines.bitmap_agrees
  have hq32 : q < 32 := hqp.trans_lt hp
  have hbit := (hbits.bit q hq32).mpr hq
  have hbyte := (hbits.byte (q >>> 3) (by rw [shiftRight_three]; omega)).mpr
    ((ne_zero_iff_getLsbD _).mpr ⟨q &&& 0x7, by rw [and_seven]; omega, hbit⟩)
  have hmarked : Marked p q k₀ x.y x.c :=
    ⟨⟨hextra.bit_le, hextra.bit, hextra.byte_le, hextra.byte⟩, hbit, hbyte⟩
  have hrun : k₀.newTask = some t := by
    show x.newTask = _
    rw [hvars]
    exact hr
  exact ⟨s.live, .inl rfl,
    hmarked.tickSafe hqp (hwithin.tickSafe hrun (h.live_running hr) ho hd)⟩

open Code in
/-- The points of `task_create`. -/
theorem Core.taskCreate_points (h : Core hst s a) (hr : s.running = some t) {f st r : _}
    (hu : Usage hst s (.call (.taskCreate (some u) (some f) (some st) p)))
    (ho : CallbackUsage s (.tick o))
    (hk : s.k.exec (.taskCreate (some u) (some f) (some st) p) = some (k₂, r)) :
    Course (PointSafe s (.taskCreate (some u) (some f) (some st) p) o t)
      (taskCreate (some u) (some f) (some st) p) s.k (.ok .TRUE) k₂ := by
  obtain ⟨⟨htask, hdead, hp⟩, -⟩ := id hu
  have hp' : p < 32 := hp
  have hmod : p % 256 = p := Nat.mod_eq_of_lt (by omega)
  have ht := h.live_running hr
  obtain ⟨a', hafter⟩ := h.after hu hk
  obtain ⟨k', hinsert, hk⟩ := Option.bind_eq_some_iff.mp hk
  obtain ⟨rfl, -⟩ := Prod.mk.inj (Option.some.inj hk)
  have hnew : k'.newTask = some t := by
    rw [Kernel.prioReadyQueueInsertTail_vars hinsert]
    exact hr
  refine taskCreate_course hinsert (h.within.pointSafe hr ht ho) ?_ ?_
    (fun x hvars hy hc hheap => ?_) (hafter.pointSafe_setUp hnew ht ho)
  · exact h.settingUp_pointSafe hr hu ho ⟨_, _, _, rfl, rfl, fun _ _ => rfl⟩
  · rw [hmod]
    have hset : s.k.bitmapSet p = some { s.k with
        c := update s.k.c (p >>> 3) (s.k.c (p >>> 3) ||| 1#8 <<< (p &&& 0x7))
        y := s.k.y ||| 1#8 <<< (p >>> 3) } := if_pos (by rw [shiftRight_three]; omega)
    exact h.creating_marked hr hdead htask hp ho rfl (.of_byte p s.k)
      (BitSet.of_bitmapSet hset (.inl rfl)).bit fun _ _ => rfl
  · rw [hmod] at hvars hinsert
    obtain ⟨k₃, hset, hinsert⟩ := Option.bind_eq_some_iff.mp hinsert
    obtain ⟨head, -, hinsert⟩ := Option.bind_eq_some_iff.mp hinsert
    obtain ⟨heap, -, hinsert⟩ := Option.bind_eq_some_iff.mp hinsert
    obtain rfl := Option.some.inj hinsert
    have hprio : (s.k.setPrio u p).prio u = p := by simp [Kernel.setPrio]
    rw [hprio] at hset
    have hextra := Extra.of_bitmapSet hset
    refine h.creating_marked hr hdead htask hp ho hvars ?_ ?_ hheap
    · rw [hy, hc]
      exact ⟨hextra.bit_le, hextra.bit, hextra.byte_le, hextra.byte⟩
    · rw [hc]
      exact (BitSet.of_bitmapSet hset (.inl rfl)).bit

open Code in
/-- The points of `task_prio_change`. -/
theorem Core.taskPrioChange_points (h : Core hst s a) (hr : s.running = some t) {r : Ret}
    (hu : Usage hst s (.call (.taskPrioChange (some u) p))) (ho : CallbackUsage s (.tick o))
    (hk : s.k.exec (.taskPrioChange (some u) p) = some (k₂, r)) :
    Course (PointSafe s (.taskPrioChange (some u) p) o t)
      (taskPrioChange (some u) p) s.k (.ok r) k₂ := by
  obtain ⟨⟨hself, hp⟩, -⟩ := id hu
  obtain rfl : t = u := Option.some.inj (hr.symm.trans hself)
  have hp' : p < 32 := hp
  have hmod : p % 256 = p := Nat.mod_eq_of_lt (by omega)
  have ht := h.live_running hr
  have hsafe : PointSafe s (.taskPrioChange (some t) p) o t s.k := h.within.pointSafe hr ht ho
  obtain ⟨a', hafter⟩ := h.after hu hk
  simp only [Kernel.exec, Kernel.taskPrioChange] at hk
  by_cases hlegal : p < 1 ∨ SYSTEM_WORD < p
  · rw [if_pos hlegal] at hk
    obtain ⟨rfl, rfl⟩ := Prod.mk.inj (Option.some.inj hk)
    simp only [taskPrioChange, if_pos hlegal]
    exact .ret hsafe _
  · have hnew : s.k.newTask = some t := hr
    rw [if_neg hlegal, if_neg (by simp [hnew])] at hk
    obtain ⟨k₁, hdelete, hk⟩ := Option.bind_eq_some_iff.mp hk
    obtain ⟨k₃, hinsert, hk⟩ := Option.bind_eq_some_iff.mp hk
    obtain ⟨rfl, rfl⟩ := Prod.mk.inj (Option.some.inj hk)
    have hready : t ∈ a.tasks (.ready (a.prio t)) := h.sim.ready t (h.running_eq.symm.trans hr)
    have w := h.sim.wf.tasks
    obtain ⟨n, hn⟩ := w.isTask t ht
    -- The caller is behind another node, and not in its list once it is deleted.
    have hprev : (s.k.heap (.tcb t)).prev ≠ .tcb t :=
      (h.sim.refines.rep (w.open_of_mem _ _ hready)).prev_ne (by simpa using hready)
    obtain ⟨k₁', hk₁', href⟩ := h.sim.refines.prioReadyQueueDelete w hready
    obtain rfl := Option.some.inj (hdelete.symm.trans hk₁')
    have hhead : (k₁.heap (readyHead p)).next ≠ .tcb t := by
      refine (href.rep (q := .ready p) hp).next_ne ?_
      simp only [List.mem_cons, List.mem_map, Node.tcb.injEq, exists_eq_right, not_or]
      exact ⟨by simp [hn, TaskQueue.head], fun hm => (w.mem_erase.mp hm).1 rfl⟩
    have hnew' : k₃.newTask = some t := by
      rw [Kernel.prioReadyQueueInsertHead_vars hinsert]
      show k₁.newTask = _
      rw [Kernel.prioReadyQueueDelete_vars hdelete, hnew]
    exact taskPrioChange_course hnew hlegal hdelete hinsert hprev (by simp [hn])
      (hmod.symm ▸ hhead) hsafe (hafter.pointSafe_setUp hnew' ht ho) fun x hx _ htorn =>
        absurd hx htorn

/-! ## Every call -/

open Code in
/-- The points of `sem_init`. -/
theorem Core.semInit_points (h : Core hst s a) (hr : s.running = some t) {i num : ℕ}
    (hu : Usage hst s (.call (.semInit (some i) num))) (ho : CallbackUsage s (.tick o)) :
    Course (PointSafe s (.semInit (some i) num) o t) (semInit (some i) num) s.k (.ok .TRUE)
      (s.k.semInit (some i) num).1 := by
  have ht := h.live_running hr
  obtain ⟨a', hafter⟩ := h.after hu rfl
  refine semInit_course (h.within.pointSafe hr ht ho) ?_ ?_ (hafter.pointSafe_setUp hr ht ho)
  · exact h.settingUp_pointSafe hr hu ho ⟨_, _, _, rfl, rfl, fun _ _ => rfl⟩
  · refine h.settingUp_pointSafe hr hu ho ⟨_, _, _, rfl, rfl, fun n hn => ?_⟩
    simp [Heap.setNext, hn]

open Code in
/-- The points of `mutex_init`. -/
theorem Core.mutexInit_points (h : Core hst s a) (hr : s.running = some t) {m : ℕ}
    (hu : Usage hst s (.call (.mutexInit (some m)))) (ho : CallbackUsage s (.tick o)) :
    Course (PointSafe s (.mutexInit (some m)) o t) (mutexInit (some m)) s.k (.ok .TRUE)
      (s.k.mutexInit (some m)).1 := by
  have ht := h.live_running hr
  obtain ⟨a', hafter⟩ := h.after hu rfl
  refine mutexInit_course (h.within.pointSafe hr ht ho) ?_ ?_ (hafter.pointSafe_setUp hr ht ho)
  · refine h.settingUp_pointSafe hr hu ho ⟨_, _, _, rfl, rfl, fun n hn => ?_⟩
    simp [Heap.setNext, hn]
  · refine h.settingUp_pointSafe hr hu ho ⟨_, _, _, rfl, rfl, fun n hn => ?_⟩
    simp [listInit, Heap.setNext, Heap.setPrev, hn]

/-- The points of a call. -/
theorem Core.call_points (h : Core hst s a) (hr : s.running = some t) {r : Ret}
    (hu : Usage hst s (.call c)) (ho : CallbackUsage s (.tick o))
    (hk : s.k.exec c = some (k₂, r)) :
    ∃ e, Course (PointSafe s c o t) (Code.call c) s.k e k₂ := by
  have ht := h.live_running hr
  by_cases hc : c.unmasked = true
  · match c with
    | .taskCreate (some _) (some _) (some _) _ => exact ⟨_, h.taskCreate_points hr hu ho hk⟩
    | .taskPrioChange (some _) _ => exact ⟨_, h.taskPrioChange_points hr hu ho hk⟩
    | .semInit (some i) num =>
      have heq : s.k.semInit (some i) num = (k₂, r) := Option.some.inj hk
      exact ⟨_, heq ▸ h.semInit_points hr hu ho⟩
    | .mutexInit (some m) =>
      have heq : s.k.mutexInit (some m) = (k₂, r) := Option.some.inj hk
      exact ⟨_, heq ▸ h.mutexInit_points hr hu ho⟩
  · obtain ⟨a₂, hafter⟩ := h.after hu hk
    obtain ⟨k₁, r₁, b, hbefore, heffect⟩ := h.effect hu (h.eq_caller hr)
    rw [Kernel.exec_eq, hbefore, Option.bind_some] at hk
    obtain rfl := Code.callEnd_ret hk
    have hnew₁ : k₁.newTask = some t :=
      (Kernel.newTask_of_selection (Kernel.beforeSchedule_selection hbefore)).trans hr
    -- `schedule` selects some task.
    have hne : k₂.newTask ≠ none := by
      have hexec : s.k.exec c = some (k₂, r₁) := by rw [Kernel.exec_eq, hbefore]; exact hk
      rcases Kernel.exec_switches hexec with hsame | ⟨hne, -⟩
      · rw [hsame]
        exact fun hn => by simpa [hr] using (show s.running = none from hn)
      · exact hne
    obtain ⟨v, hv⟩ := Option.ne_none_iff_exists'.mp hne
    exact ⟨_, Code.call_course (by simpa using hc) hbefore hk (h.within.pointSafe hr ht ho)
      (heffect.pointSafe_setUp hnew₁ ht ho) (hafter.pointSafe_setUp hv ht ho)⟩

/-- A point of a call that the task `t` makes, where the kernel is `x` and interrupts are enabled:
in the code of the call, or in the return that is left of it when another task has been selected. -/
inductive AtPoint (s : Sys Kernel) (t : TcbPtr) (c : Call) : Kernel → Prop where
  | ahead {x : Kernel} {sr : Sr} {r : Except Stop Ret} {cpu : Cpu Sr Kernel}
    (hframe : s.frame t = none) (hcall : Code.call c (atEntry s.k sr) = some (r, cpu))
    (hx : x ∈ cpu.points) : AtPoint s t c x
  | behind {ret : Ret} (hframe : s.frame t = some (.call c ret)) : AtPoint s t c s.k

/-- What holds at every point that the code of a call passes. -/
theorem AtPoint.of_course {P : Kernel → Prop} {e : Except Stop Ret} (hx : AtPoint s t c x)
    (hf : s.frame t = none) (h : Course P (Code.call c) s.k e k₂) : P x := by
  cases hx with
  | ahead _ hcall hx =>
    obtain ⟨cpu', hcpu', -, -, hpoints⟩ := course_atEntry h _
    obtain ⟨-, rfl⟩ := Prod.mk.inj (Option.some.inj (hcall.symm.trans hcpu'))
    exact hpoints x hx
  | behind hframe => simp [hf] at hframe

/-- What is left of a switched-out call is its return. -/
theorem AtPoint.eq_of_frame (hx : AtPoint s t c x) (hf : s.frame t ≠ none) : x = s.k := by
  cases hx with
  | ahead hframe => exact absurd hframe hf
  | behind => rfl

/-- The running task makes a call that it may make. -/
theorem Core.exec_running (h : Core hst s a) (hr : s.running = some t) (hf : s.frame t = none)
    (hu : Usage hst s (.call c)) : ∃ k r, s.k.exec c = some (k, r) :=
  h.exec_some hu fun _ ht => Option.some.inj (hr.symm.trans ht) ▸ hf

/-- A tick is safe at every point of a call, unless the call is torn there. -/
theorem Core.pointSafe (h : Core hst s a) (hr : s.running = some t) (hx : AtPoint s t c x)
    (hu : s.frame t = none → Usage hst s (.call c)) (ho : CallbackUsage s (.tick o)) :
    PointSafe s c o t x := by
  by_cases hf : s.frame t = none
  · obtain ⟨k₂, r, hk⟩ := h.exec_running hr hf (hu hf)
    obtain ⟨e, hcourse⟩ := h.call_points hr (hu hf) ho hk
    exact hx.of_course hf hcourse
  · obtain rfl := hx.eq_of_frame hf
    exact h.within.pointSafe hr (h.live_running hr) ho

/-- In every state of every run, a tick that comes to a point of a call of the running task selects
a task that has been created and is ready, and leaves the task that it interrupts behind exactly one
head, unless the call is torn there. -/
theorem tick_inside_call {tr : Trace Kernel}
    (h : SysRun (fun tr s act => Orderly (hist tr) s act) tr s) (hr : s.running = some t)
    (hx : AtPoint s t c x) (hu : s.frame t = none → Usage (hist tr) s (.call c))
    (ho : CallbackUsage s (.tick o)) (hd : Undisturbed ⟨x, s.frame, s.live⟩ (.tick o))
    (htorn : ¬ Torn c t x) :
    ∃ live, (live = s.live ∨ live = setUp s.live c) ∧ TickSafe live o t x := by
  obtain ⟨a, hcore⟩ := h.core fun _ _ _ hg => hg
  exact hcore.pointSafe hr hx hu ho hd htorn

/-- The kernel with the bit of `p` in its byte of the bitmap, and `y` as it was. -/
def byteMarked (p : ℕ) (k : Kernel) : Kernel :=
  { k with c := update k.c (p >>> 3) (k.c (p >>> 3) ||| 1#8 <<< (p &&& 0x7)) }

open Code in
/-- `prio_ready_queue_insert_tail` passes a point between the two writes of `bitmap_set`. -/
theorem prioReadyQueueInsertTail_walk {k' : Kernel}
    (h : k.prioReadyQueueInsertTail (some t) = some k') :
    ∃ V, Walk V (prioReadyQueueInsertTail (some t)) k (.ok ()) k' ∧
      byteMarked (k.prio t) k ∈ V := by
  obtain ⟨k₁, hset, h⟩ := Option.bind_eq_some_iff.mp h
  obtain ⟨head, hhead, h⟩ := Option.bind_eq_some_iff.mp h
  obtain ⟨heap, hheap, h⟩ := Option.bind_eq_some_iff.mp h
  obtain rfl := Option.some.inj h
  obtain ⟨W, hrest, -⟩ : Computes (do
      let head ← prioListHead (← .read fun k => k.prio t)
      Code.listInsertBehind head (Node.tcb t)) k₁ () { k₁ with heap := heap } :=
    .bind (.read trivial _) (.bind (prioListHead_course hhead)
      (listInsertBehind_course hheap fun _ _ _ _ _ => trivial))
  unfold Kernel.bitmapSet at hset
  dsimp only at hset
  split_ifs at hset with hb
  obtain rfl := Option.some.inj hset
  have hmark : Walk (∅ ∪ ({k} ∪ {byteMarked (k.prio t) k})) (bitmapSet (k.prio t)) k (.ok ()) _ :=
    Walk.bind (.inBounds (decide_eq_true hb) k) (Walk.bind (.write _ k) (.write _ _))
  exact ⟨_, (Walk.pure t k).bind ((Walk.read _ k).bind (hmark.bind hrest)),
    .inr (.inr (.inl (.inr (.inr rfl))))⟩

open Code in
/-- So does `task_create`. -/
theorem atPoint_taskCreate (hf : s.frame t = none) {f st : ℕ} {r : Ret} (hp : p < SYSTEM_WORD)
    (hk : s.k.exec (.taskCreate (some u) (some f) (some st) p) = some (k₂, r)) :
    AtPoint s t (.taskCreate (some u) (some f) (some st) p) (byteMarked p (s.k.setPrio u p)) := by
  have hmod : p % 256 = p := Nat.mod_eq_of_lt (by simp only [SYSTEM_WORD] at hp; omega)
  have hprio : (s.k.setPrio u p).prio u = p := by simp [Kernel.setPrio]
  obtain ⟨k', hinsert, -⟩ := Option.bind_eq_some_iff.mp hk
  rw [hmod] at hinsert
  obtain ⟨V, hwalk, hmem⟩ := prioReadyQueueInsertTail_walk hinsert
  rw [hprio] at hmem
  have hcall : Walk ({s.k} ∪ (V ∪ {k'})) (call (.taskCreate (some u) (some f) (some st) p)) s.k
      (.ok .TRUE) k' := by
    show Walk _ (taskCreate (some u) (some f) (some st) p) s.k _ k'
    unfold taskCreate
    dsimp only
    rw [hmod]
    exact (Walk.write _ s.k).bind (hwalk.bind (Walk.ret _ _))
  obtain ⟨cpu, hcpu, hw⟩ := hcall (atEntry s.k SPR_SR_TEE) (fun _ => rfl) rfl
  obtain ⟨new, hpoints, hnew⟩ := hw.points
  refine .ahead hf hcpu ?_
  rw [hpoints]
  have henabled : Status.enabled SPR_SR_TEE = true := by decide
  exact List.mem_append_left _ ((hnew _).mpr ⟨henabled, .inr (.inl hmem)⟩)

/-- After `oneTask`, a tick may come where the task creates another one, of a lower priority, and
has marked that in its byte of the bitmap. -/
theorem tick_inside_call_byteMarked : ∃ tr s,
    SysRun (fun tr s act => Orderly (hist tr) s act) tr s ∧
    tr.map Prod.snd = (oneTask.map Move.act).reverse ∧
    AtPoint s (.task 1) (.taskCreate (some (.task 2)) (some 0) (some 0) 7)
      (byteMarked 7 (s.k.setPrio (.task 2) 7)) ∧
      ∃ live, (live = s.live ∨
          live = setUp s.live (.taskCreate (some (.task 2)) (some 0) (some 0) 7)) ∧
        TickSafe live passive (.task 1) (byteMarked 7 (s.k.setPrio (.task 2) 7)) := by
  obtain ⟨tr, s, a, hrun, hcore, hacts, hr, hf, hprio, -, hu, htick⟩ := oneTask_run
  obtain ⟨k, r, hk⟩ := hcore.exec_running hr hf hu
  have hpoint := atPoint_taskCreate hf (by decide) hk
  refine ⟨tr, s, hrun, hacts, hpoint, tick_inside_call hrun hr hpoint (fun _ => hu)
    htick.callbacks htick.undisturbed ?_⟩
  -- The creator is ready, and has a higher priority.
  rintro ⟨-, hnone⟩
  obtain ⟨-, hq | ⟨heq, -⟩⟩ := hcore.in_place.running _ hr
  · rw [hprio] at hq
    exact hnone 5 (by decide) ⟨_, hq⟩
  · simp at heq

end Fos
