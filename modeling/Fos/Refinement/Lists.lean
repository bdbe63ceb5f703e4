import Fos.Invariant
import Fos.Refinement.Bitmap

/-!
# The kernel's links and the abstract lists

`Refines` relates a state of the kernel to a state of the abstract one: the variables are the same,
the heads that have been set up represent the abstract lists, as a family in the sense of
`Lib/Links.lean`, and the bitmap marks the priorities whose ready list is not empty. The theorems
here say that the kernel's statements that move a node return, and that each refines the move of
the abstract kernel that it stands for.
-/

namespace Fos

open Links Function

/-- The heads that have been set up. -/
def IsHead (live : Node → Bool) : Node → Prop
  | .tcb (.prioQueue p) => p < SYSTEM_WORD
  | .tick .tickQueue => True
  | .sem s => live (.sem s) = true
  | .mutex m => live (.mutex m) = true
  | .queue q => live (.queue q) = true
  | .msgHead q => live (.queue q) = true
  | _ => False

/-- The kernel's state represents the abstract one. -/
structure Refines (live : Node → Bool) (k : Kernel) (a : Abs) : Prop where
  /-- The variables are the same. -/
  vars : a.toVars = k.toVars
  /-- The links represent the lists. -/
  lists : Family k.heap (IsHead live) a.seq
  /-- The bitmap agrees with the ready lists. -/
  bits : BitmapOk k.y k.c fun p => a.tasks (.ready p) ≠ []

/-! ## The nodes of the lists -/

theorem Node.tcb_injective : Injective Node.tcb := fun _ _ => Node.tcb.inj

theorem Node.tick_injective : Injective Node.tick := fun _ _ => Node.tick.inj

/-- The head of a list of tasks has been set up when the list has. -/
theorem isHead_head {live : Node → Bool} {q : TaskQueue} : IsHead live q.head ↔ q.Open live := by
  cases q <;> rfl

/-- The nodes of tasks are behind the heads of the lists of tasks only. -/
theorem mem_seq_tcb {v : Lists} {n : Node} {t : TcbPtr} :
    .tcb t ∈ v.seq n ↔ ∃ q : TaskQueue, n = q.head ∧ t ∈ v.tasks q := by
  constructor
  · intro h
    match n with
    | .tcb (.prioQueue p) => exact ⟨.ready p, rfl, by simpa [Lists.seq] using h⟩
    | .sem s => exact ⟨.sem s, rfl, by simpa [Lists.seq] using h⟩
    | .mutex m => exact ⟨.mutex m, rfl, by simpa [Lists.seq] using h⟩
    | .queue q => exact ⟨.queue q, rfl, by simpa [Lists.seq] using h⟩
    | .tick .tickQueue => simp [Lists.seq] at h
    | .msgHead q => simp [Lists.seq] at h
    | .tcb (.task _) | .tick (.delay _) | .tick (.timer _) | .msg _ => simp [Lists.seq] at h
  · rintro ⟨q, rfl, h⟩
    simpa using h

/-- The nodes of entries are behind the head of the tick queue only. -/
theorem mem_seq_tick {v : Lists} {n : Node} {e : TickPtr} :
    .tick e ∈ v.seq n ↔ n = tickHead ∧ e ∈ v.ticks := by
  match n with
  | .tcb (.prioQueue _) | .sem _ | .mutex _ | .queue _ | .msgHead _ => simp [Lists.seq]
  | .tick .tickQueue => simp [Lists.seq]
  | .tcb (.task _) | .tick (.delay _) | .tick (.timer _) | .msg _ => simp [Lists.seq]

/-- The nodes of messages are behind the heads of the lists of messages only. -/
theorem mem_seq_msg {v : Lists} {n : Node} {m : ℕ} :
    .msg m ∈ v.seq n ↔ ∃ q, n = .msgHead q ∧ m ∈ v.msgs q := by
  match n with
  | .tcb (.prioQueue _) | .sem _ | .mutex _ | .queue _ | .tick .tickQueue => simp [Lists.seq]
  | .msgHead q => simp [Lists.seq]
  | .tcb (.task _) | .tick (.delay _) | .tick (.timer _) | .msg _ => simp [Lists.seq]

/-- Taking a task out of all lists takes its node out of all sequences. -/
theorem seq_remove (a : Abs) (t : TcbPtr) (n : Node) :
    (a.remove t).seq n = (a.seq n).erase (.tcb t) := by
  have htick : ∀ l : List TickPtr, (l.map Node.tick).erase (.tcb t) = l.map Node.tick :=
    fun l => List.erase_of_not_mem (by simp)
  have hmsg : ∀ l : List ℕ, (l.map Node.msg).erase (.tcb t) = l.map Node.msg :=
    fun l => List.erase_of_not_mem (by simp)
  have htcb : ∀ l : List TcbPtr, (l.erase t).map Node.tcb = (l.map Node.tcb).erase (.tcb t) :=
    fun l => List.map_erase Node.tcb_injective l
  match n with
  | .tcb (.prioQueue _) | .sem _ | .mutex _ | .queue _ => exact htcb _
  | .tick .tickQueue => exact (htick _).symm
  | .msgHead _ => exact (hmsg _).symm
  | .tcb (.task _) | .tick (.delay _) | .tick (.timer _) | .msg _ => rfl

/-- Taking an entry out of the tick queue takes its node out of all sequences. -/
theorem seq_dropTick (a : Abs) (e : TickPtr) (n : Node) :
    (a.dropTick e).seq n = (a.seq n).erase (.tick e) := by
  have htcb : ∀ l : List TcbPtr, (l.map Node.tcb).erase (.tick e) = l.map Node.tcb :=
    fun l => List.erase_of_not_mem (by simp)
  have hmsg : ∀ l : List ℕ, (l.map Node.msg).erase (.tick e) = l.map Node.msg :=
    fun l => List.erase_of_not_mem (by simp)
  match n with
  | .tcb (.prioQueue _) | .sem _ | .mutex _ | .queue _ => exact (htcb _).symm
  | .tick .tickQueue => exact List.map_erase Node.tick_injective a.ticks
  | .msgHead _ => exact (hmsg _).symm
  | .tcb (.task _) | .tick (.delay _) | .tick (.timer _) | .msg _ => rfl

/-- Replacing a list of tasks replaces the sequence of its head. -/
theorem seq_update_tasks (v : Lists) (q : TaskQueue) (l : List TcbPtr) :
    ({ v with tasks := update v.tasks q l } : Lists).seq =
      update v.seq q.head (l.map .tcb) := by
  funext n
  rcases eq_or_ne n q.head with rfl | hn
  · simp
  · rw [update_of_ne hn]
    have hne : ∀ q' : TaskQueue, n = q'.head → update v.tasks q l q' = v.tasks q' :=
      fun q' hq' => update_of_ne (fun e => hn (by rw [hq', e])) _ _
    match n with
    | .tcb (.prioQueue p) => simp [Lists.seq, hne (.ready p) rfl]
    | .sem s => simp [Lists.seq, hne (.sem s) rfl]
    | .mutex m => simp [Lists.seq, hne (.mutex m) rfl]
    | .queue q => simp [Lists.seq, hne (.queue q) rfl]
    | .tick .tickQueue | .msgHead _ => rfl
    | .tcb (.task _) | .tick (.delay _) | .tick (.timer _) | .msg _ => rfl

/-- Replacing the tick queue replaces the sequence of its head. -/
theorem seq_update_ticks (v : Lists) (l : List TickPtr) :
    ({ v with ticks := l } : Lists).seq = update v.seq tickHead (l.map .tick) := by
  funext n
  match n with
  | .tick .tickQueue => simp [Lists.seq]
  | .tcb (.prioQueue _) | .sem _ | .mutex _ | .queue _ | .msgHead _ => rfl
  | .tcb (.task _) | .tick (.delay _) | .tick (.timer _) | .msg _ => rfl

/-- Replacing a list of messages replaces the sequence of its head. -/
theorem seq_update_msgs (v : Lists) (q : ℕ) (l : List ℕ) :
    ({ v with msgs := update v.msgs q l } : Lists).seq =
      update v.seq (.msgHead q) (l.map .msg) := by
  funext n
  match n with
  | .msgHead q' =>
    rcases eq_or_ne q' q with rfl | hq
    · simp [Lists.seq]
    · simp [Lists.seq, hq]
  | .tcb (.prioQueue _) | .sem _ | .mutex _ | .queue _ | .tick .tickQueue => rfl
  | .tcb (.task _) | .tick (.delay _) | .tick (.timer _) | .msg _ => rfl

/-! ## What the kernel reads -/

variable {live : Node → Bool} {k : Kernel} {a : Abs} {t : TcbPtr} {q : TaskQueue} {e : TickPtr}

/-- A list of tasks that has been set up is represented behind its head. -/
theorem Refines.rep (h : Refines live k a) (hq : q.Open live) :
    Represents k.heap q.head ((a.tasks q).map .tcb) := by
  simpa using h.lists.rep q.head (isHead_head.mpr hq)

/-- The tick queue is represented behind its head. -/
theorem Refines.rep_ticks (h : Refines live k a) :
    Represents k.heap tickHead (a.ticks.map .tick) :=
  h.lists.rep tickHead trivial

/-- The messages of a queue that has been set up are represented behind its head. -/
theorem Refines.rep_msgs (h : Refines live k a) {i : ℕ} (hi : live (.queue i) = true) :
    Represents k.heap (.msgHead i) ((a.msgs i).map .msg) :=
  h.lists.rep (.msgHead i) hi

/-- What is behind a head. -/
theorem Refines.queued_iff (h : Refines live k a) {n : Node} (hn : IsHead live n) (x : Node) :
    Queued k.heap n x ↔ x ∈ a.seq n :=
  ⟨fun ⟨_, hx, hm⟩ => hx.unique (h.lists.rep n hn) ▸ hm, fun hm => ⟨_, h.lists.rep n hn, hm⟩⟩

/-- The test of the source for an empty list of tasks. -/
theorem Refines.isListLast_iff (h : Refines live k a) (hq : q.Open live) :
    isListLast k.heap q.head = true ↔ a.tasks q = [] := by
  rw [Fos.isListLast_iff (h.rep hq), List.map_eq_nil_iff]

/-- The first node of a list of tasks. -/
theorem Refines.next_head (h : Refines live k a) (hq : q.Open live) {ts : List TcbPtr}
    (hl : a.tasks q = t :: ts) : (k.heap q.head).next = .tcb t := by
  have := (h.rep hq).chain.next_eq
  simpa [hl] using this

/-- The variables may change in step when the links and the lists do not. -/
theorem Refines.congr {k' : Kernel} {a' : Abs} (h : Refines live k a)
    (hv : a'.toVars = k'.toVars) (hheap : k'.heap = k.heap) (hy : k'.y = k.y) (hc : k'.c = k.c)
    (hl : a'.toLists = a.toLists) : Refines live k' a' where
  vars := hv
  lists := by rw [hheap, hl]; exact h.lists
  bits := by rw [hy, hc, hl]; exact h.bits

theorem Refines.prio_eq (h : Refines live k a) : k.prio = a.prio := by rw [h.vars]

theorem Refines.tick_eq (h : Refines live k a) : k.tick = a.tick := by rw [h.vars]

theorem Refines.sem_eq (h : Refines live k a) : k.sem = a.sem := by rw [h.vars]

theorem Refines.mutex_eq (h : Refines live k a) : k.mutex = a.mutex := by rw [h.vars]

theorem Refines.queue_eq (h : Refines live k a) : k.queue = a.queue := by rw [h.vars]

theorem Refines.msg_eq (h : Refines live k a) : k.msg = a.msg := by rw [h.vars]

theorem Refines.mem_eq (h : Refines live k a) : k.mem = a.mem := by rw [h.vars]

theorem Refines.newTask_eq (h : Refines live k a) : k.newTask = a.newTask := by rw [h.vars]

theorem Refines.setPrio (h : Refines live k a) (t : TcbPtr) (p : ℕ) :
    Refines live (k.setPrio t p) (a.setPrio t p) :=
  h.congr (by simp only [Kernel.setPrio, Abs.setPrio, h.vars]) rfl rfl rfl rfl

theorem Refines.setTick (h : Refines live k a) (e : TickPtr) (x : Tick) :
    Refines live (k.setTick e x) (a.setTick e x) :=
  h.congr (by simp only [Kernel.setTick, Abs.setTick, h.vars]) rfl rfl rfl rfl

theorem Refines.setSem (h : Refines live k a) (s : ℕ) (x : Sem) :
    Refines live (k.setSem s x) (a.setSem s x) :=
  h.congr (by simp only [Kernel.setSem, Abs.setSem, h.vars]) rfl rfl rfl rfl

theorem Refines.setMutex (h : Refines live k a) (m : ℕ) (x : Mutex) :
    Refines live (k.setMutex m x) (a.setMutex m x) :=
  h.congr (by simp only [Kernel.setMutex, Abs.setMutex, h.vars]) rfl rfl rfl rfl

theorem Refines.setQueue (h : Refines live k a) (q : ℕ) (x : Queue) :
    Refines live (k.setQueue q x) (a.setQueue q x) :=
  h.congr (by simp only [Kernel.setQueue, Abs.setQueue, h.vars]) rfl rfl rfl rfl

theorem Refines.setMem (h : Refines live k a) (mem : ℕ → ℕ) :
    Refines live (k.setMem mem) (a.setMem mem) :=
  h.congr (by simp only [Kernel.setMem, Abs.setMem, h.vars]) rfl rfl rfl rfl

theorem Refines.note (h : Refines live k a) (e : TimerEvent) :
    Refines live (k.note e) (a.note e) :=
  h.congr (by simp only [Kernel.note, Abs.note, h.vars]) rfl rfl rfl rfl

/-- A node that is in no list, of a task. -/
theorem Refines.free_tcb (live : Node → Bool) (h : ∀ q, t ∉ a.tasks q) (ht : ∃ n, t = .task n) :
    Free (IsHead live) a.seq (.tcb t) := by
  obtain ⟨n, rfl⟩ := ht
  refine ⟨fun hh => hh, fun b _ hm => ?_⟩
  obtain ⟨q, -, hq⟩ := mem_seq_tcb.mp hm
  exact h q hq

/-! ## Moves of tasks -/

/-- Appending the node of a task to a list of tasks. -/
theorem Refines.insertBehind (h : Refines live k a) (hq : q.Open live) (hfree : ∀ q, t ∉ a.tasks q)
    (ht : ∃ n, t = .task n) : ∃ heap, listInsertBehind k.heap q.head (.tcb t) = some heap ∧
      Family heap (IsHead live) (a.pushTail q t).seq := by
  refine ⟨_, listInsertBehind_eq (h.lists.rep q.head (isHead_head.mpr hq)), ?_⟩
  have := h.lists.append (isHead_head.mpr hq) (Refines.free_tcb live hfree ht)
  rw [show (a.pushTail q t).seq = _ from seq_update_tasks a.toLists q _]
  simpa using this

/-- Prepending the node of a task to a list of tasks. -/
theorem Refines.insertSpec (h : Refines live k a) (hq : q.Open live) (hfree : ∀ q, t ∉ a.tasks q)
    (ht : ∃ n, t = .task n) :
    Family (listInsertSpec k.heap q.head (.tcb t)) (IsHead live) (a.pushHead q t).seq := by
  have hne : .tcb t ≠ q.head := by
    obtain ⟨n, rfl⟩ := ht
    cases q <;> simp [TaskQueue.head]
  have := h.lists.prepend (isHead_head.mpr hq) (Refines.free_tcb live hfree ht)
  rw [listInsertSpec_eq hne, show (a.pushHead q t).seq = _ from seq_update_tasks a.toLists q _]
  simpa using this

/-- Deleting the node of a task from the list that it is in. -/
theorem Refines.delete (h : Refines live k a) (hq : q.Open live) (ht : t ∈ a.tasks q) :
    Family (listDelete k.heap (.tcb t)) (IsHead live) (a.remove t).seq := by
  have hm : .tcb t ∈ a.seq q.head := by simpa using ht
  rw [listDelete_eq (h.lists.rep q.head (isHead_head.mpr hq)) hm,
    show (a.remove t).seq = fun n => (a.seq n).erase (.tcb t) from funext (seq_remove a t)]
  exact h.lists.unlink (isHead_head.mpr hq) hm

/-- A waiting task leaves its list. -/
theorem Refines.deleteWaiter (h : Refines live k a)
    (hok : TasksOk live a.prio a.tasks a.ticks) (ht : t ∈ a.tasks q) (hq : ∀ p, q ≠ .ready p) :
    Refines live { k with heap := listDelete k.heap (.tcb t) } (a.remove t) where
  vars := h.vars
  lists := h.delete (hok.open_of_mem q t ht) ht
  bits := h.bits.congr fun p _ => by
    simp only [Abs.remove]
    rw [hok.erase_of_mem ht (hq p).symm]

/-- A running task joins a list of waiting ones. -/
theorem Refines.insertWaiter (h : Refines live k a) (hq : q.Open live)
    (hfree : ∀ q, t ∉ a.tasks q) (ht : ∃ n, t = .task n) (hr : ∀ p, q ≠ .ready p) :
    ∃ heap, listInsertBehind k.heap q.head (.tcb t) = some heap ∧
      Refines live { k with heap := heap } (a.pushTail q t) := by
  obtain ⟨heap, he, hf⟩ := h.insertBehind hq hfree ht
  refine ⟨heap, he, h.vars, hf, h.bits.congr fun p _ => ?_⟩
  simp only [Abs.pushTail]
  rw [update_of_ne (hr p).symm]

/-- `prio_ready_queue_insert_tail` of a task that is in no list. -/
theorem Refines.prioReadyQueueInsertTail (h : Refines live k a) (hfree : ∀ q, t ∉ a.tasks q)
    (ht : ∃ n, t = .task n) {p : ℕ} (hpt : a.prio t = p) (hp : p < SYSTEM_WORD) :
    ∃ k', k.prioReadyQueueInsertTail (some t) = some k' ∧
      Refines live k' (a.pushTail (.ready p) t) ∧
      ∀ e, k'.heap (.tick e) = k.heap (.tick e) := by
  have hprio : k.prio t = p := by rw [h.prio_eq, hpt]
  obtain ⟨k₁, e₁, v₁, heap₁, b₁⟩ := bitmapSet_spec h.bits hp
  obtain ⟨heap, he, hf⟩ := h.insertBehind (q := .ready p) hp hfree ht
  have hprio₁ : k₁.prio t = p := by rw [v₁, hprio]
  refine ⟨{ k₁ with heap := heap }, ?_, ⟨by rw [v₁, ← h.vars]; rfl, hf, ?_⟩, ?_⟩
  · have he' : listInsertBehind k₁.heap (readyHead p) (.tcb t) = some heap :=
      heap₁ ▸ he
    -- The code sets the bit first, and then links the node in.
    simp [Kernel.prioReadyQueueInsertTail, hprio, hprio₁, e₁, Kernel.prioListHead, hp, he']
  · refine b₁.congr fun p' _ => ?_
    simp only [Abs.pushTail, update_apply]
    split_ifs <;> simp_all
  · -- The links of the tick queue's entries are not among those that the insertion writes.
    intro e
    have hrep := h.rep (q := .ready p) hp
    have := he.symm.trans (listInsertBehind_eq hrep)
    rw [Option.some.injEq] at this
    have hlast := getLast_mem_cons (readyHead p)
      ((a.tasks (.ready p)).map Node.tcb)
    have hne : Node.tick e ≠ (readyHead p ::
        (a.tasks (.ready p)).map Node.tcb).getLast (List.cons_ne_nil _ _) := by
      rcases hlast with hl | hl
      · rw [hl]; simp
      · intro heq
        rw [← heq] at hl
        simp at hl
    rw [this]
    simp [Heap.linkLast, Heap.setNext, Heap.setPrev, TaskQueue.head, hne]

/-- `prio_ready_queue_insert_head` of a task that is in no list. -/
theorem Refines.prioReadyQueueInsertHead (h : Refines live k a) (hfree : ∀ q, t ∉ a.tasks q)
    (ht : ∃ n, t = .task n) {p : ℕ} (hpt : a.prio t = p) (hp : p < SYSTEM_WORD) :
    ∃ k', k.prioReadyQueueInsertHead (some t) = some k' ∧
      Refines live k' (a.pushHead (.ready p) t) := by
  have hprio : k.prio t = p := by rw [h.prio_eq, hpt]
  obtain ⟨k₁, e₁, v₁, heap₁, b₁⟩ := bitmapSet_spec h.bits hp
  have hf := h.insertSpec (q := .ready p) hp hfree ht
  have hprio₁ : k₁.prio t = p := by rw [v₁, hprio]
  refine ⟨{ k₁ with heap := listInsertSpec k.heap (readyHead p) (.tcb t) }, ?_,
    by rw [v₁, ← h.vars]; rfl, hf, ?_⟩
  · simp [Kernel.prioReadyQueueInsertHead, hprio, hprio₁, e₁, Kernel.prioListHead, hp, heap₁]
  · refine b₁.congr fun p' _ => ?_
    simp only [Abs.pushHead, update_apply]
    split_ifs <;> simp_all

/-- `prio_ready_queue_delete` of a ready task. -/
theorem Refines.prioReadyQueueDelete (h : Refines live k a)
    (hok : TasksOk live a.prio a.tasks a.ticks) (ht : t ∈ a.tasks (.ready (a.prio t))) :
    ∃ k', k.prioReadyQueueDelete (some t) = some k' ∧ Refines live k' (a.remove t) := by
  have hp : a.prio t < SYSTEM_WORD := hok.open_of_mem _ t ht
  have hprio : k.prio t = a.prio t := by rw [h.vars]
  have hf := h.delete (q := .ready (a.prio t)) hp ht
  have hlast : isListLast (listDelete k.heap (.tcb t)) (readyHead (a.prio t)) = true ↔
      (a.tasks (.ready (a.prio t))).erase t = [] := by
    have hrep := hf.rep (readyHead (a.prio t)) hp
    rw [Fos.isListLast_iff hrep]
    simp [Lists.seq, Abs.remove]
  have hothers : ∀ p, p ≠ a.prio t → (a.tasks (.ready p)).erase t = a.tasks (.ready p) :=
    fun p hne => hok.erase_of_mem ht (fun e => hne (TaskQueue.ready.inj e))
  by_cases hempty : (a.tasks (.ready (a.prio t))).erase t = []
  · -- The last ready task of its priority: the bit is cleared.
    obtain ⟨k', e', v', heap', b'⟩ := bitmapClear_spec
      (k := { k with heap := listDelete k.heap (.tcb t) }) h.bits hp
    refine ⟨k', ?_, by rw [v', ← h.vars]; rfl, by rw [heap']; exact hf, b'.congr fun p _ => ?_⟩
    · simp [Kernel.prioReadyQueueDelete, hprio, Kernel.prioListHead, hp, hlast.mpr hempty, e']
    · rcases eq_or_ne p (a.prio t) with rfl | hne
      · simp [Abs.remove, hempty]
      · simp [Abs.remove, hothers p hne, hne]
  · refine ⟨{ k with heap := listDelete k.heap (.tcb t) }, ?_, h.vars, hf, h.bits.congr ?_⟩
    · simp [Kernel.prioReadyQueueDelete, hprio, Kernel.prioListHead, hp,
        Bool.eq_false_iff.mpr (fun hl => hempty (hlast.mp hl))]
    · intro p _
      rcases eq_or_ne p (a.prio t) with rfl | hne
      · simp only [Abs.remove]
        exact iff_of_true hempty (List.ne_nil_of_mem ht)
      · simp [Abs.remove, hothers p hne]

/-! ## Moves of entries of the tick queue -/

/-- `tick_queue_insert` of an entry that is not queued. -/
theorem Refines.tickQueueInsert (h : Refines live k a) (he : e ∉ a.ticks) (hne : e ≠ .tickQueue) :
    ∃ k', k.tickQueueInsert e = some k' ∧ Refines live k' (a.pushTick e) := by
  have hfree : Free (IsHead live) a.seq (.tick e) := by
    refine ⟨fun hh => ?_, fun b _ hm => he (mem_seq_tick.mp hm).2⟩
    cases e <;> simp_all [IsHead]
  obtain ⟨heap, hi, hf⟩ : ∃ heap, listInsertBehind k.heap tickHead (.tick e) = some heap ∧
      Family heap (IsHead live) (a.pushTick e).seq := by
    refine ⟨_, listInsertBehind_eq h.rep_ticks, ?_⟩
    have := h.lists.append (a := tickHead) trivial hfree
    rw [show (a.pushTick e).seq = _ from seq_update_ticks a.toLists _]
    simpa [Lists.seq] using this
  exact ⟨{ k with heap := heap }, by simp [Kernel.tickQueueInsert, hi], h.vars, hf, h.bits⟩

/-- `tick_queue_delete` of an entry that is queued. -/
theorem Refines.tickQueueDelete (h : Refines live k a) (he : e ∈ a.ticks) :
    Refines live (k.tickQueueDelete e) (a.dropTick e) := by
  have hm : .tick e ∈ a.seq tickHead := mem_seq_tick.mpr ⟨rfl, he⟩
  refine ⟨h.vars, ?_, h.bits⟩
  rw [show (a.dropTick e).seq = fun n => (a.seq n).erase (.tick e) from funext (seq_dropTick a e)]
  rw [Kernel.tickQueueDelete, listDelete_eq (h.lists.rep tickHead trivial) hm]
  exact h.lists.unlink (a := tickHead) trivial hm

/-! ## Moves of messages -/

/-- The insertion of a message that is in no queue, with either method. -/
theorem Refines.msgInsert (h : Refines live k a) {i m : ℕ} (hi : live (.queue i) = true)
    (hm : ∀ q, m ∉ a.msgs q) :
    (∃ heap, listInsertBehind k.heap (.msgHead i) (.msg m) = some heap ∧
      Refines live { k with heap := heap } (a.setMsgs i (a.msgs i ++ [m]))) ∧
    Refines live { k with heap := listInsertSpec k.heap (.msgHead i) (.msg m) }
      (a.setMsgs i (m :: a.msgs i)) := by
  have hfree : Free (IsHead live) a.seq (.msg m) := by
    refine ⟨fun hh => hh, fun b _ hb => ?_⟩
    obtain ⟨q, -, hq⟩ := mem_seq_msg.mp hb
    exact hm q hq
  have hseq : ∀ l, (a.setMsgs i l).seq = update a.seq (.msgHead i) (l.map .msg) :=
    fun l => seq_update_msgs a.toLists i l
  refine ⟨⟨_, listInsertBehind_eq (h.rep_msgs hi), h.vars, ?_, h.bits⟩, h.vars, ?_, h.bits⟩
  · have := h.lists.append (a := .msgHead i) hi hfree
    rw [hseq]
    simpa [Lists.seq] using this
  · have := h.lists.prepend (a := .msgHead i) hi hfree
    rw [listInsertSpec_eq (by simp), hseq]
    simpa [Lists.seq] using this

/-- The deletion of the first message of a queue. -/
theorem Refines.msgDelete (h : Refines live k a) {i m : ℕ} {ms : List ℕ}
    (hi : live (.queue i) = true) (hl : a.msgs i = m :: ms) :
    Refines live { k with heap := listDelete k.heap (.msg m) } (a.setMsgs i ms) := by
  have hm : .msg m ∈ a.seq (.msgHead i) := mem_seq_msg.mpr ⟨i, rfl, by simp [hl]⟩
  refine ⟨h.vars, ?_, h.bits⟩
  rw [listDelete_eq (h.lists.rep (.msgHead i) hi) hm,
    show (a.setMsgs i ms).seq = _ from seq_update_msgs a.toLists i ms]
  refine (h.lists.unlink (a := .msgHead i) hi hm).congr fun b hb => ?_
  rcases eq_or_ne b (.msgHead i) with rfl | hne
  · simp [Lists.seq, hl]
  · rw [update_of_ne hne]
    exact (List.erase_of_not_mem fun hmb => hne (h.lists.apart _ _ _ hb hi hmb hm)).symm

/-! ## New heads -/

/-- The nodes in lists are fields of tasks, of ticks, and of messages. -/
theorem not_mem_seq {v : Lists} {n x : Node} (ht : n.tcbEntry = none) (he : n.tickEntry = none)
    (hm : n.msgEntry = none) : n ∉ v.seq x := by
  intro h
  cases x with
  | tcb t => cases t <;> simp [Lists.seq] at h; obtain ⟨_, -, rfl⟩ := h; simp at ht
  | tick e => cases e <;> simp [Lists.seq] at h; obtain ⟨_, -, rfl⟩ := h; simp at he
  | sem | mutex | queue => simp [Lists.seq] at h; obtain ⟨_, -, rfl⟩ := h; simp at ht
  | msgHead => simp [Lists.seq] at h; obtain ⟨_, -, rfl⟩ := h; simp at hm
  | msg => simp [Lists.seq] at h

/-- `list_init` of a head that has not been set up makes it the head of an empty list. -/
theorem family_listInit {heap : Heap Node} {H : Node → Prop} {v : Lists} {n : Node}
    (hf : Family heap H v.seq) (hn : ¬ H n) (ht : n.tcbEntry = none) (he : n.tickEntry = none)
    (hm : n.msgEntry = none) (hempty : v.seq n = []) :
    Family (listInit heap n) (fun x => x = n ∨ H x) v.seq :=
  hf.adopt ⟨hn, fun _ _ => not_mem_seq ht he hm⟩ hempty

end Fos
