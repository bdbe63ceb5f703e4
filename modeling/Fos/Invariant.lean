import Fos.Abstract

/-!
# The invariant of the abstract kernel

`WF` says what holds of the lists between any two statements that move a task: a task that has been
created is in exactly one list, the ready lists are sorted by priority, the entries of the tick
queue belong to sleeping tasks or to timers, and the messages of a queue are as many as its count.
Every move of a task has a lemma that says it keeps `TasksOk`, and all of them are cases of
`TasksOk.relocate`.
-/

namespace Fos

open Function

/-- The head of the list has been set up. -/
def TaskQueue.Open (live : Node → Bool) : TaskQueue → Prop
  | .ready p => p < SYSTEM_WORD
  | .sem s => live (.sem s) = true
  | .mutex m => live (.mutex m) = true
  | .queue q => live (.queue q) = true

/-- The lists of tasks. -/
structure TasksOk (live : Node → Bool) (prio : TcbPtr → ℕ) (tasks : TaskQueue → List TcbPtr)
    (ticks : List TickPtr) : Prop where
  /-- No task is twice in a list. -/
  nodup : ∀ q, (tasks q).Nodup
  /-- No task is in two lists. -/
  apart : ∀ q q' t, t ∈ tasks q → t ∈ tasks q' → q = q'
  /-- An entry of `task_prio_queue[]` is not a task. -/
  isTask : ∀ t, live (.tcb t) = true → ∃ n, t = .task n
  /-- Only tasks that have been created are in lists. -/
  live_of_mem : ∀ q t, t ∈ tasks q → live (.tcb t) = true
  /-- Only lists that have been set up have tasks. -/
  open_of_mem : ∀ q t, t ∈ tasks q → q.Open live
  /-- A ready task is in the list of its priority. -/
  ready_prio : ∀ p t, t ∈ tasks (.ready p) → prio t = p
  /-- Priorities are below `SYSTEM_WORD`. -/
  prio_lt : ∀ t, live (.tcb t) = true → prio t < SYSTEM_WORD
  /-- A task is in a list or sleeps. -/
  placed : ∀ t, live (.tcb t) = true → (∃ q, t ∈ tasks q) ∨ .delay t ∈ ticks
  /-- A task in a list does not sleep. -/
  awake : ∀ q t, t ∈ tasks q → .delay t ∉ ticks
  /-- The idle task is always ready. -/
  idle : idleTcb ∈ tasks (.ready 31)

/-- The tick queue. -/
structure TicksOk (live : Node → Bool) (tick : TickPtr → Tick) (ticks : List TickPtr) : Prop where
  /-- No entry is twice in it. -/
  nodup : ticks.Nodup
  /-- The `delay` of a task that sleeps. -/
  delay : ∀ t, .delay t ∈ ticks →
    live (.tcb t) = true ∧ (tick (.delay t)).tcb = some t ∧ (tick (.delay t)).style = .delay
  /-- A timer that `timer_req` has queued. -/
  timer : ∀ n, .timer n ∈ ticks →
    (tick (.timer n)).style = .softwareTimer ∧ (tick (.timer n)).func ≠ none
  /-- The head is not an entry. -/
  head : .tickQueue ∉ ticks

/-- The messages. -/
structure MsgsOk (live : Node → Bool) (queue : ℕ → Queue) (msgs : ℕ → List ℕ) : Prop where
  /-- No message is twice in a queue. -/
  nodup : ∀ q, (msgs q).Nodup
  /-- No message is in two queues. -/
  apart : ∀ q q' m, m ∈ msgs q → m ∈ msgs q' → q = q'
  /-- A queue that has not been set up has no message. -/
  closed : ∀ q, live (.queue q) = false → msgs q = []
  /-- `count` counts the messages. -/
  count : ∀ q, live (.queue q) = true → (queue q).count = (msgs q).length
  /-- There are never more than `length`. -/
  count_le : ∀ q, live (.queue q) = true → (queue q).count ≤ (queue q).length
  /-- `length` is a `U32`. -/
  length_le : ∀ q, live (.queue q) = true → (queue q).length ≤ U32_MAX

/-- The invariant of the lists. -/
structure WF (live : Node → Bool) (a : Abs) : Prop where
  tasks : TasksOk live a.prio a.tasks a.ticks
  ticks : TicksOk live a.tick a.ticks
  msgs : MsgsOk live a.queue a.msgs
  /-- The scheduler is not locked. -/
  unlocked : a.scheduleIsLock = false

/-- The running task is ready, as it is whenever no call is in the middle of moving it. -/
def Abs.RunningReady (a : Abs) : Prop :=
  ∀ t, a.newTask = some t → t ∈ a.tasks (.ready (a.prio t))

section Tasks

variable {live live' : Node → Bool} {prio prio' : TcbPtr → ℕ}
  {tasks tasks' : TaskQueue → List TcbPtr} {ticks ticks' : List TickPtr} {t u : TcbPtr}
  {q q' : TaskQueue}

/-- Move the task `t`, wherever it is, to the list `q`, and perhaps change its priority. -/
theorem TasksOk.relocate (h : TasksOk live prio tasks ticks) (t : TcbPtr) (q : TaskQueue)
    (hlive : ∀ u, live' (.tcb u) = true ↔ u = t ∨ live (.tcb u) = true)
    (hopen : ∀ q : TaskQueue, q.Open live → q.Open live') (ht : ∃ n, t = .task n)
    (hidle : t = idleTcb → q = .ready 31)
    (hmem : ∀ q' u, u ∈ tasks' q' ↔ (u = t ∧ q' = q) ∨ (u ≠ t ∧ u ∈ tasks q'))
    (hnd : ∀ q', (tasks' q').Nodup)
    (hticks : ∀ u, .delay u ∈ ticks' ↔ u ≠ t ∧ .delay u ∈ ticks)
    (hprio : ∀ u, u ≠ t → prio' u = prio u) (hq : q.Open live')
    (hready : ∀ p, q = .ready p → prio' t = p) (hlt : prio' t < SYSTEM_WORD) :
    TasksOk live' prio' tasks' ticks' where
  nodup := hnd
  apart q₁ q₂ u h₁ h₂ := by
    -- Either both places are the new one, or both are old ones; a task is not moved and left.
    rcases (hmem q₁ u).mp h₁ with ⟨hu, e₁⟩ | ⟨hu, m₁⟩
    · rcases (hmem q₂ u).mp h₂ with ⟨-, e₂⟩ | ⟨hu', -⟩
      · rw [e₁, e₂]
      · exact absurd hu hu'
    · rcases (hmem q₂ u).mp h₂ with ⟨hu', -⟩ | ⟨-, m₂⟩
      · exact absurd hu' hu
      · exact h.apart q₁ q₂ u m₁ m₂
  isTask u hu := by
    rcases (hlive u).mp hu with rfl | hu'
    · exact ht
    · exact h.isTask u hu'
  live_of_mem q' u hu := by
    rcases (hmem q' u).mp hu with ⟨e, -⟩ | ⟨-, hm⟩
    · exact (hlive u).mpr (Or.inl e)
    · exact (hlive u).mpr (Or.inr (h.live_of_mem q' u hm))
  open_of_mem q' u hu := by
    rcases (hmem q' u).mp hu with ⟨-, e⟩ | ⟨-, hm⟩
    · exact e ▸ hq
    · exact hopen q' (h.open_of_mem q' u hm)
  ready_prio p u hu := by
    rcases (hmem _ u).mp hu with ⟨e, eq⟩ | ⟨hne, hm⟩
    · rw [e]; exact hready p eq.symm
    · rw [hprio u hne]; exact h.ready_prio p u hm
  prio_lt u hu := by
    -- The task that is moved is in its new list; any other is where it was.
    rcases eq_or_ne u t with rfl | hne
    · exact hlt
    · rw [hprio u hne]
      exact h.prio_lt u (((hlive u).mp hu).resolve_left hne)
  placed u hu := by
    rcases eq_or_ne u t with rfl | hne
    · exact Or.inl ⟨q, (hmem q u).mpr (Or.inl ⟨rfl, rfl⟩)⟩
    · rcases h.placed u (((hlive u).mp hu).resolve_left hne) with ⟨q', hm⟩ | hm
      · exact Or.inl ⟨q', (hmem q' u).mpr (Or.inr ⟨hne, hm⟩)⟩
      · exact Or.inr ((hticks u).mpr ⟨hne, hm⟩)
  awake q' u hu hd := by
    obtain ⟨hne, hd'⟩ := (hticks u).mp hd
    rcases (hmem q' u).mp hu with ⟨e, -⟩ | ⟨-, hm⟩
    · exact hne e
    · exact h.awake q' u hm hd'
  idle := by
    rcases eq_or_ne idleTcb t with e | hne
    · exact (hmem _ _).mpr (Or.inl ⟨e, (hidle e.symm).symm⟩)
    · exact (hmem _ _).mpr (Or.inr ⟨hne, h.idle⟩)

/-- The members of a list once a task is taken out of all of them. -/
theorem TasksOk.mem_erase (h : TasksOk live prio tasks ticks) :
    u ∈ (tasks q).erase t ↔ u ≠ t ∧ u ∈ tasks q :=
  (h.nodup q).mem_erase_iff

/-- A list that a task is not in stays as it is when the task is taken out of all lists. -/
theorem TasksOk.erase_of_mem (h : TasksOk live prio tasks ticks) (ht : t ∈ tasks q) (hq : q' ≠ q) :
    (tasks q').erase t = tasks q' :=
  List.erase_of_not_mem fun hm => hq (h.apart q' q t hm ht)

/-- The tasks of a list after the moves `remove` and `pushTail`. -/
theorem TasksOk.mem_pushTail (h : TasksOk live prio tasks ticks) (q q' : TaskQueue)
    (t u : TcbPtr) :
    u ∈ update (fun q => (tasks q).erase t) q ((tasks q).erase t ++ [t]) q' ↔
      (u = t ∧ q' = q) ∨ (u ≠ t ∧ u ∈ tasks q') := by
  rcases eq_or_ne q' q with rfl | hq
  · simp only [update_self, List.mem_append, h.mem_erase, List.mem_singleton, and_true]
    tauto
  · simp [hq, h.mem_erase]

/-- The tasks of a list after the moves `remove` and `pushHead`. -/
theorem TasksOk.mem_pushHead (h : TasksOk live prio tasks ticks) (q q' : TaskQueue)
    (t u : TcbPtr) :
    u ∈ update (fun q => (tasks q).erase t) q (t :: (tasks q).erase t) q' ↔
      (u = t ∧ q' = q) ∨ (u ≠ t ∧ u ∈ tasks q') := by
  rcases eq_or_ne q' q with rfl | hq
  · simp [h.mem_erase]
  · simp [hq, h.mem_erase]

/-- The moves `remove` and `pushTail` put no task twice in a list. -/
theorem TasksOk.nodup_pushTail (h : TasksOk live prio tasks ticks) (q q' : TaskQueue)
    (t : TcbPtr) :
    (update (fun q => (tasks q).erase t) q ((tasks q).erase t ++ [t]) q').Nodup := by
  rcases eq_or_ne q' q with rfl | hq
  · rw [update_self, List.nodup_append]
    refine ⟨(h.nodup q').erase t, List.nodup_singleton t, ?_⟩
    rintro u hu v hv rfl
    exact (h.mem_erase.mp hu).1 (List.mem_singleton.mp hv)
  · rw [update_of_ne hq]
    exact (h.nodup q').erase t

/-- The moves `remove` and `pushHead` put no task twice in a list. -/
theorem TasksOk.nodup_pushHead (h : TasksOk live prio tasks ticks) (q q' : TaskQueue)
    (t : TcbPtr) :
    (update (fun q => (tasks q).erase t) q (t :: (tasks q).erase t) q').Nodup := by
  rcases eq_or_ne q' q with rfl | hq
  · rw [update_self, List.nodup_cons]
    exact ⟨fun hm => (h.mem_erase.mp hm).1 rfl, (h.nodup q').erase t⟩
  · rw [update_of_ne hq]
    exact (h.nodup q').erase t

/-- For a task that is in a list, the tick queue is not touched by a move. -/
theorem TasksOk.delay_mem_iff (h : TasksOk live prio tasks ticks) (ht : t ∈ tasks q)
    (u : TcbPtr) : .delay u ∈ ticks ↔ u ≠ t ∧ .delay u ∈ ticks :=
  ⟨fun hu => ⟨fun e => h.awake q t ht (e ▸ hu), hu⟩, And.right⟩

/-- For a task that has been created, the created tasks are not touched by a move. -/
theorem live_iff (ht : live (.tcb t) = true) (u : TcbPtr) :
    live (.tcb u) = true ↔ u = t ∨ live (.tcb u) = true :=
  ⟨Or.inr, fun h => h.elim (fun e => e ▸ ht) id⟩

end Tasks

section Moves

variable {live : Node → Bool} {a : Abs} {t : TcbPtr} {q : TaskQueue}

/-- The idle task is in no list but the ready list of priority 31. -/
theorem TasksOk.ne_idle (h : TasksOk live a.prio a.tasks a.ticks) (ht : t ∈ a.tasks q)
    (hq : q ≠ .ready 31) : t ≠ idleTcb :=
  fun e => hq (h.apart q _ t ht (e ▸ h.idle))

/-- `block` keeps the lists. -/
theorem TasksOk.block (h : TasksOk live a.prio a.tasks a.ticks) (q : TaskQueue)
    (ht : t ∈ a.tasks (.ready (a.prio t))) (hidle : t ≠ idleTcb) (hq : q.Open live)
    (hready : ∀ p, q = .ready p → a.prio t = p) :
    TasksOk live (a.block q t).prio (a.block q t).tasks (a.block q t).ticks := by
  have hl := h.live_of_mem _ t ht
  exact h.relocate t q (live_iff hl) (fun _ => id) (h.isTask t hl) (absurd · hidle)
    (fun q' u => h.mem_pushTail q q' t u) (fun q' => h.nodup_pushTail q q' t) (h.delay_mem_iff ht)
    (fun _ _ => rfl) hq hready (h.prio_lt t hl)

/-- `wake` keeps the lists. -/
theorem TasksOk.wake (h : TasksOk live a.prio a.tasks a.ticks) (ht : t ∈ a.tasks q)
    (hidle : t ≠ idleTcb) :
    TasksOk live (a.wake t).prio (a.wake t).tasks (a.wake t).ticks := by
  have hl := h.live_of_mem _ t ht
  exact h.relocate t (.ready (a.prio t)) (live_iff hl) (fun _ => id) (h.isTask t hl)
    (absurd · hidle) (fun q' u => h.mem_pushHead _ q' t u) (fun q' => h.nodup_pushHead _ q' t)
    (h.delay_mem_iff ht) (fun _ _ => rfl) (h.prio_lt t hl)
    (fun p e => TaskQueue.ready.inj e) (h.prio_lt t hl)

/-- `wakeFirst` keeps the lists. -/
theorem TasksOk.wakeFirst (h : TasksOk live a.prio a.tasks a.ticks) (hq : q ≠ .ready 31) :
    TasksOk live (a.wakeFirst q).prio (a.wakeFirst q).tasks (a.wakeFirst q).ticks := by
  unfold Abs.wakeFirst
  cases hl : a.tasks q with
  | nil => exact h
  | cons t ts =>
    have ht : t ∈ a.tasks q := by simp [hl]
    exact h.wake ht (h.ne_idle ht hq)

/-- `reprio` keeps the lists. -/
theorem TasksOk.reprio (h : TasksOk live a.prio a.tasks a.ticks) {p : ℕ}
    (ht : t ∈ a.tasks (.ready (a.prio t))) (hidle : t ≠ idleTcb) (hp : p < SYSTEM_WORD) :
    TasksOk live (a.reprio t p).prio (a.reprio t p).tasks (a.reprio t p).ticks := by
  have hl := h.live_of_mem _ t ht
  exact h.relocate t (.ready p) (live_iff hl) (fun _ => id) (h.isTask t hl) (absurd · hidle)
    (fun q' u => h.mem_pushHead _ q' t u) (fun q' => h.nodup_pushHead _ q' t) (h.delay_mem_iff ht)
    (fun u hu => update_of_ne hu _ _) hp
    (fun p' e => by simpa [Abs.reprio, Abs.pushHead, Abs.setPrio] using e)
    (by simpa [Abs.reprio, Abs.pushHead, Abs.setPrio] using hp)

/-- A task that falls asleep: it leaves its list, and its `delay` is an entry of the tick queue. -/
theorem TasksOk.sleep (h : TasksOk live a.prio a.tasks a.ticks) (ht : t ∈ a.tasks q)
    (hidle : t ≠ idleTcb) :
    TasksOk live a.prio (a.remove t).tasks (a.ticks ++ [.delay t]) where
  nodup q' := (h.nodup q').erase t
  apart q₁ q₂ u h₁ h₂ :=
    h.apart q₁ q₂ u (List.mem_of_mem_erase h₁) (List.mem_of_mem_erase h₂)
  isTask := h.isTask
  live_of_mem q' u hu := h.live_of_mem q' u (List.mem_of_mem_erase hu)
  open_of_mem q' u hu := h.open_of_mem q' u (List.mem_of_mem_erase hu)
  ready_prio p u hu := h.ready_prio p u (List.mem_of_mem_erase hu)
  prio_lt := h.prio_lt
  placed u hu := by
    rcases eq_or_ne u t with rfl | hne
    · exact Or.inr (by simp)
    · rcases h.placed u hu with ⟨q', hm⟩ | hm
      · exact Or.inl ⟨q', h.mem_erase.mpr ⟨hne, hm⟩⟩
      · exact Or.inr (by simp [hm])
  awake q' u hu hd := by
    obtain ⟨hne, hm⟩ := h.mem_erase.mp hu
    rcases List.mem_append.mp hd with hd | hd
    · exact h.awake q' u hm hd
    · exact hne (by simpa using hd)
  idle := h.mem_erase.mpr ⟨hidle.symm, h.idle⟩

/-- A sleeping task that wakes: its `delay` leaves the tick queue, and it is ready. -/
theorem TasksOk.wakeDelay (h : TasksOk live a.prio a.tasks a.ticks) (ht : live (.tcb t) = true)
    (hd : .delay t ∈ a.ticks) (hn : a.ticks.Nodup) :
    TasksOk live a.prio ((a.dropTick (.delay t)).pushTail (.ready (a.prio t)) t).tasks
      (a.ticks.erase (.delay t)) := by
  have hnot : ∀ q, t ∉ a.tasks q := fun q hm => h.awake q t hm hd
  have hsame : ∀ q, (a.tasks q).erase t = a.tasks q := fun q => List.erase_of_not_mem (hnot q)
  have hfun : (fun q => (a.tasks q).erase t) = a.tasks := funext hsame
  have hmem := fun q' u => h.mem_pushTail (.ready (a.prio t)) q' t u
  have hnd := fun q' => h.nodup_pushTail (.ready (a.prio t)) q' t
  rw [hfun, hsame] at hmem hnd
  refine h.relocate t (.ready (a.prio t)) (live_iff ht) (fun _ => id) (h.isTask t ht) ?_ hmem hnd
    (fun u => ?_) (fun _ _ => rfl) (h.prio_lt t ht) (fun p e => TaskQueue.ready.inj e)
    (h.prio_lt t ht)
  · intro e
    exact absurd (e ▸ h.idle) (hnot _)
  · rw [hn.mem_erase_iff]
    simp

/-- A new task is ready. -/
theorem TasksOk.create {p : ℕ} (h : TasksOk live a.prio a.tasks a.ticks)
    (ht : live (.tcb t) = false) (htask : ∃ n, t = .task n) (hp : p < SYSTEM_WORD)
    (hticks : .delay t ∉ a.ticks) (hidle : live (.tcb idleTcb) = true) :
    TasksOk (update live (.tcb t) true) (update a.prio t p)
      (a.pushTail (.ready p) t).tasks a.ticks := by
  have hnot : ∀ q, t ∉ a.tasks q := fun q hm => by simpa [ht] using h.live_of_mem q t hm
  have hsame : ∀ q, (a.tasks q).erase t = a.tasks q := fun q => List.erase_of_not_mem (hnot q)
  have hfun : (fun q => (a.tasks q).erase t) = a.tasks := funext hsame
  have hmem := fun q' u => h.mem_pushTail (.ready p) q' t u
  have hnd := fun q' => h.nodup_pushTail (.ready p) q' t
  rw [hfun, hsame] at hmem hnd
  refine h.relocate t (.ready p) (fun u => ?_) (fun q hq => ?_) htask ?_ hmem hnd (fun u => ?_)
    (fun u hu => update_of_ne hu _ _) hp (fun p' e => ?_) (by simpa using hp)
  · by_cases e : u = t
    · simp [e]
    · simp [e]
  · cases q <;> simpa [TaskQueue.Open, update_apply] using hq
  · rintro rfl
    simp [hidle] at ht
  · refine ⟨fun hu => ⟨?_, hu⟩, And.right⟩
    rintro rfl
    exact hticks hu
  · simpa using TaskQueue.ready.inj e

end Moves

end Fos
