import Fos.Kernel.PrioMap
import Fos.Lib.Runs
import Fos.Refinement.Replay

/-!
# The searches of the two builds

`bit_first_one_search` looks the highest priority up in a table, or scans `task_prio_map`, by the
value of `MAPTABLE`. From `prio_ready_queue_init` on, the two searches give the same in every run of
the queue operations, exactly while a bit is set (`searches_agree_iff`): both give the first task of
the highest priority that has one. When no task is ready, the scan gives `NULL`, but the table has
zero for zero, and the search gives what is behind the head of `task_prio_queue[0]`: the entry
itself. So the assertion of `prio_ready_queue_fetch` is never false with the table.
-/

namespace Fos

open Links Function Runs

/-- The ready queues of both builds, with the lists that they should be. -/
structure ReadySys where
  table : Kernel
  map : MapKernel
  /-- The tasks that are ready at each priority, in order. -/
  queues : ℕ → List ℕ

/-- An operation. -/
inductive ReadyOp where
  | insertTail (t : ℕ)
  | insertHead (t : ℕ)
  | delete (t : ℕ)
  /-- `tcb->prio = prio`, as in `task_create` and `task_prio_change`. -/
  | setPrio (t prio : ℕ)

/-- An operation of both builds. -/
def ReadySys.step (s : ReadySys) : ReadyOp → Option ReadySys
  | .insertTail t => do
    let table ← s.table.prioReadyQueueInsertTail (some (.task t))
    let map ← s.map.prioReadyQueueInsertTail (some (.task t))
    let p := s.table.prio (.task t)
    some ⟨table, map, update s.queues p (s.queues p ++ [t])⟩
  | .insertHead t => do
    let table ← s.table.prioReadyQueueInsertHead (some (.task t))
    let map ← s.map.prioReadyQueueInsertHead (some (.task t))
    let p := s.table.prio (.task t)
    some ⟨table, map, update s.queues p (t :: s.queues p)⟩
  | .delete t => do
    let table ← s.table.prioReadyQueueDelete (some (.task t))
    let map ← s.map.prioReadyQueueDelete (some (.task t))
    some ⟨table, map, fun p => (s.queues p).erase t⟩
  | .setPrio t prio =>
    some ⟨s.table.setPrio (.task t) prio,
      { s.map with toKernel := s.map.setPrio (.task t) prio }, s.queues⟩

/-- The queues after `prio_ready_queue_init`. The bitmap and the word are zero at the start. -/
def ReadyInit (s : ReadySys) : Prop :=
  ∃ k : Kernel, k.y = 0 ∧ (∀ b, k.c b = 0) ∧
    s = ⟨k.prioReadyQueueInit, MapKernel.prioReadyQueueInit ⟨k, 0⟩, fun _ => []⟩

/-- The runs of the queue operations, whatever the operations are. -/
abbrev ReadyRun := Run ReadyInit ReadySys.step fun _ _ _ => True

/-- A task that is inserted has a legal priority and is in no queue, one that is deleted is in its
queue, and the priority of a task that is in a queue is left alone. -/
def ReadyUsage (s : ReadySys) : ReadyOp → Prop
  | .insertTail t | .insertHead t => s.table.prio (.task t) < SYSTEM_WORD ∧ ∀ p, t ∉ s.queues p
  | .delete t => ∃ p, t ∈ s.queues p
  | .setPrio t _ => ∀ p, t ∉ s.queues p

/-- The first task of the highest priority that has one. -/
def ReadySys.first (s : ReadySys) : Option TcbPtr :=
  (List.range SYSTEM_WORD).findSome? fun p => (s.queues p).head?.map .task

/-- Both searches give the first task of the highest priority, or `NULL` if no task is ready, and
then the assertion of `prio_ready_queue_fetch` stops. -/
structure SearchesAgree (s : ReadySys) : Prop where
  table : s.table.bitFirstOneSearch.map some = some s.first
  map : s.map.bitFirstOneSearch s.map.taskPrioMap = some s.first
  assert : s.first = none →
    s.table.prioReadyQueueFetch = none ∧ s.map.prioReadyQueueFetch = none

variable {s s' : ReadySys} {tr : List (ReadySys × ReadyOp)} {op : ReadyOp} {t p i : ℕ}

/-! ## The bits of the word -/

/-- `bit_set` sets one bit. -/
theorem bitSet_getLsbD {num : BitVec 32} (hi : i < 32) :
    (bitSet num p).getLsbD i = true ↔ i = p ∨ num.getLsbD i = true := by
  rw [bitSet, BitVec.getLsbD_or, getLsbD_one_shiftLeft _ _ hi, Bool.or_eq_true,
    decide_eq_true_eq, or_comm]

/-- `bit_clear` clears one bit. -/
theorem bitClear_getLsbD {num : BitVec 32} (hi : i < 32) :
    (bitClear num p).getLsbD i = true ↔ i ≠ p ∧ num.getLsbD i = true := by
  rw [bitClear, BitVec.getLsbD_and, BitVec.getLsbD_not, getLsbD_one_shiftLeft _ _ hi,
    Bool.and_eq_true, and_comm]
  simp [hi]

/-! ## The two builds, operation by operation -/

/-- The two builds have the same links and priorities, and the bitmap of the one marks what the word
of the other marks. -/
structure SameReady (s : ReadySys) : Prop where
  heap : s.map.heap = s.table.heap
  prio : s.map.prio = s.table.prio
  bits : BitmapOk s.table.y s.table.c fun p => s.map.taskPrioMap.getLsbD p = true

/-- What an operation writes. -/
def ReadySys.write (s : ReadySys) (heap : Heap Node) (y : BitVec 8) (c : ℕ → BitVec 8)
    (word : BitVec 32) (queues : ℕ → List ℕ) : ReadySys :=
  ⟨{ s.table with heap := heap, y := y, c := c }, { s.map with heap := heap, taskPrioMap := word },
    queues⟩

/-- What is written has the same links and the same marks. -/
theorem SameReady.write {heap : Heap Node} {y : BitVec 8} {c : ℕ → BitVec 8} {word : BitVec 32}
    {queues : ℕ → List ℕ} (h : SameReady s)
    (hbits : BitmapOk y c fun p => word.getLsbD p = true) :
    SameReady (s.write heap y c word queues) :=
  ⟨rfl, h.prio, hbits⟩

/-- `bitmap_set` marks in the bitmap what `bit_set` marks in the word. -/
theorem bitmapSet_word {k : Kernel} {word : BitVec 32}
    (h : BitmapOk k.y k.c fun i => word.getLsbD i = true) (hp : p < SYSTEM_WORD) :
    ∃ y c, k.bitmapSet p = some { k with y := y, c := c } ∧
      BitmapOk y c fun i => (bitSet word p).getLsbD i = true := by
  obtain ⟨⟨v, heap, y, c⟩, he, hvars, hheap, hbits⟩ := bitmapSet_spec h hp
  obtain rfl := hvars
  obtain rfl := hheap
  exact ⟨y, c, he, hbits.congr fun i hi => bitSet_getLsbD hi⟩

/-- `bitmap_clear` clears in the bitmap what `bit_clear` clears in the word. -/
theorem bitmapClear_word {k : Kernel} {word : BitVec 32}
    (h : BitmapOk k.y k.c fun i => word.getLsbD i = true) (hp : p < SYSTEM_WORD) :
    ∃ y c, k.bitmapClear p = some { k with y := y, c := c } ∧
      BitmapOk y c fun i => (bitClear word p).getLsbD i = true := by
  obtain ⟨⟨v, heap, y, c⟩, he, hvars, hheap, hbits⟩ := bitmapClear_spec h hp
  obtain rfl := hvars
  obtain rfl := hheap
  exact ⟨y, c, he, hbits.congr fun i hi => bitClear_getLsbD hi⟩

/-- `prio_ready_queue_insert_tail`, in both builds. -/
theorem SameReady.step_insertTail (h : SameReady s) (hp : s.table.prio (.task t) = p)
    (hlt : p < SYSTEM_WORD) : ∃ y c,
      (BitmapOk y c fun i => (bitSet s.map.taskPrioMap p).getLsbD i = true) ∧
      s.step (.insertTail t) =
        (listInsertBehind s.table.heap (readyHead p) (.tcb (.task t))).map fun heap =>
          s.write heap y c (bitSet s.map.taskPrioMap p)
            (update s.queues p (s.queues p ++ [t])) := by
  obtain ⟨y, c, he, hbits⟩ := bitmapSet_word h.bits hlt
  refine ⟨y, c, hbits, ?_⟩
  rw [ReadySys.step, Kernel.prioReadyQueueInsertTail, MapKernel.prioReadyQueueInsertTail]
  simp only [Option.bind_eq_bind, Option.bind_some, hp, h.prio, h.heap, he, Kernel.prioListHead,
    if_pos hlt]
  cases listInsertBehind s.table.heap (readyHead p) (.tcb (.task t)) <;> rfl

/-- `prio_ready_queue_insert_head`, in both builds. -/
theorem SameReady.step_insertHead (h : SameReady s) (hp : s.table.prio (.task t) = p)
    (hlt : p < SYSTEM_WORD) : ∃ y c,
      (BitmapOk y c fun i => (bitSet s.map.taskPrioMap p).getLsbD i = true) ∧
      s.step (.insertHead t) =
        some (s.write (listInsertSpec s.table.heap (readyHead p) (.tcb (.task t))) y c
          (bitSet s.map.taskPrioMap p) (update s.queues p (t :: s.queues p))) := by
  obtain ⟨y, c, he, hbits⟩ := bitmapSet_word h.bits hlt
  refine ⟨y, c, hbits, ?_⟩
  rw [ReadySys.step, Kernel.prioReadyQueueInsertHead, MapKernel.prioReadyQueueInsertHead]
  simp only [Option.bind_eq_bind, Option.bind_some, hp, h.prio, h.heap, he, Kernel.prioListHead,
    if_pos hlt]
  rfl

/-- `prio_ready_queue_delete`, in both builds. The mark goes with the last task of the list. -/
theorem SameReady.step_delete (h : SameReady s) (hp : s.table.prio (.task t) = p)
    (hlt : p < SYSTEM_WORD) {heap : Heap Node}
    (hheap : heap = listDelete s.table.heap (.tcb (.task t))) : ∃ y c word,
      (BitmapOk y c fun i => word.getLsbD i = true) ∧
      word = (if isListLast heap (readyHead p) then bitClear s.map.taskPrioMap p
        else s.map.taskPrioMap) ∧
      s.step (.delete t) = some (s.write heap y c word fun p => (s.queues p).erase t) := by
  obtain ⟨y, c, he, hbits⟩ := bitmapClear_word (k := { s.table with heap := heap }) h.bits hlt
  by_cases hlast : isListLast heap (readyHead p) = true
  · refine ⟨y, c, _, hbits, (if_pos hlast).symm, ?_⟩
    rw [ReadySys.step, Kernel.prioReadyQueueDelete, MapKernel.prioReadyQueueDelete]
    simp only [Option.bind_eq_bind, Option.bind_some, hp, h.prio, h.heap, ← hheap,
      Kernel.prioListHead, if_pos hlt, if_pos hlast, he]
    rfl
  · refine ⟨s.table.y, s.table.c, _, h.bits, (if_neg hlast).symm, ?_⟩
    rw [ReadySys.step, Kernel.prioReadyQueueDelete, MapKernel.prioReadyQueueDelete]
    simp only [Option.bind_eq_bind, Option.bind_some, hp, h.prio, h.heap, ← hheap,
      Kernel.prioListHead, if_pos hlt, if_neg hlast]
    rfl

/-- An operation on a task whose priority is not legal does not return. -/
theorem ReadySys.step_of_ge (hp : SYSTEM_WORD ≤ s.table.prio (.task t)) :
    s.step (.insertTail t) = none ∧ s.step (.insertHead t) = none ∧ s.step (.delete t) = none := by
  have hnone : Kernel.prioListHead (s.table.prio (.task t)) = none := if_neg (Nat.not_lt.mpr hp)
  have hset : ∀ k', s.table.bitmapSet (s.table.prio (.task t)) = some k' →
      Kernel.prioListHead (k'.prio (.task t)) = none := by
    intro k' hk'
    rw [Kernel.bitmapSet_vars hk', hnone]
  refine ⟨?_, ?_, ?_⟩
  · rw [ReadySys.step, Kernel.prioReadyQueueInsertTail]
    cases hk : s.table.bitmapSet (s.table.prio (.task t)) with
    | none => simp [hk]
    | some k' => simp [hk, hset k' hk]
  · rw [ReadySys.step, Kernel.prioReadyQueueInsertHead]
    cases hk : s.table.bitmapSet (s.table.prio (.task t)) with
    | none => simp [hk]
    | some k' => simp [hk, hset k' hk]
  · rw [ReadySys.step, Kernel.prioReadyQueueDelete]
    simp [hnone]

/-- Every operation that returns keeps the two builds the same. -/
theorem SameReady.step (h : SameReady s) (hs : s.step op = some s') : SameReady s' := by
  -- With a priority of 32 or more both operations assert.
  have hcases : ∀ t, s.table.prio (.task t) < SYSTEM_WORD ∨ SYSTEM_WORD ≤ s.table.prio (.task t) :=
    fun t => Nat.lt_or_ge _ _
  cases op with
  | insertTail t =>
    rcases hcases t with hlt | hge
    · obtain ⟨y, c, hbits, he⟩ := h.step_insertTail rfl hlt
      obtain ⟨heap, -, rfl⟩ := Option.map_eq_some_iff.mp (he.symm.trans hs)
      exact h.write hbits
    · rw [(ReadySys.step_of_ge hge).1] at hs
      exact absurd hs.symm (Option.some_ne_none _)
  | insertHead t =>
    rcases hcases t with hlt | hge
    · obtain ⟨y, c, hbits, he⟩ := h.step_insertHead rfl hlt
      obtain rfl := Option.some.inj (he.symm.trans hs)
      exact h.write hbits
    · rw [(ReadySys.step_of_ge hge).2.1] at hs
      exact absurd hs.symm (Option.some_ne_none _)
  | delete t =>
    rcases hcases t with hlt | hge
    · obtain ⟨y, c, word, hbits, -, he⟩ := h.step_delete rfl hlt rfl
      obtain rfl := Option.some.inj (he.symm.trans hs)
      exact h.write hbits
    · rw [(ReadySys.step_of_ge hge).2.2] at hs
      exact absurd hs.symm (Option.some_ne_none _)
  | setPrio t prio =>
    obtain rfl := Option.some.inj hs
    exact ⟨h.heap, congrArg (update · _ _) h.prio, h.bits⟩

/-- The two builds are the same after `prio_ready_queue_init`. -/
theorem ReadyInit.same (h : ReadyInit s) : SameReady s := by
  obtain ⟨k, hy, hc, rfl⟩ := h
  have hy : k.prioReadyQueueInit.y = 0 := hy
  have hc : ∀ b, k.prioReadyQueueInit.c b = 0 := hc
  refine ⟨rfl, rfl, ?_, ?_, fun b _ _ => hc b⟩
  · simp [hc, MapKernel.prioReadyQueueInit]
  · simp [hy, hc]

/-- In every run the two builds are the same. -/
theorem ReadyRun.same (hrun : ReadyRun tr s) : SameReady s :=
  Run.invariant (I := fun _ s => SameReady s) hrun (fun _ => ReadyInit.same)
    fun _ _ _ _ _ h _ hs => h.step hs

/-! ## The queues -/

/-- The heads of the ready lists. -/
def IsReadyHead (n : Node) : Prop := ∃ p < SYSTEM_WORD, n = readyHead p

/-- The nodes behind a head. -/
def queueSeq (queues : ℕ → List ℕ) : Node → List Node
  | .tcb (.prioQueue p) => (queues p).map fun t => .tcb (.task t)
  | _ => []

theorem queueSeq_update (queues : ℕ → List ℕ) (p : ℕ) (ts : List ℕ) :
    queueSeq (update queues p ts) =
      update (queueSeq queues) (readyHead p) (ts.map fun t => .tcb (.task t)) := by
  funext n
  match n with
  | .tcb (.prioQueue q) =>
    rcases eq_or_ne q p with rfl | hq
    · simp [queueSeq]
    · simp [queueSeq, hq]
  | .tcb (.task _) | .tick _ | .sem _ | .mutex _ | .queue _ | .msgHead _ | .msg _ => simp [queueSeq]

theorem queueSeq_erase (queues : ℕ → List ℕ) (t : ℕ) :
    queueSeq (fun p => (queues p).erase t) =
      fun n => (queueSeq queues n).erase (.tcb (.task t)) := by
  have hinjective : Injective fun t => Node.tcb (.task t) := fun _ _ e =>
    TcbPtr.task.inj (Node.tcb.inj e)
  funext n
  match n with
  | .tcb (.prioQueue q) => exact List.map_erase hinjective _
  | .tcb (.task _) | .tick _ | .sem _ | .mutex _ | .queue _ | .msgHead _ | .msg _ => rfl

/-- The lists hold the queues, and the word marks those that are not empty. -/
structure ReadyQueues (s : ReadySys) : Prop where
  lists : Family s.table.heap IsReadyHead (queueSeq s.queues)
  marked : ∀ p < SYSTEM_WORD, s.map.taskPrioMap.getLsbD p = true ↔ s.queues p ≠ []
  /-- A task is in the queue of its priority. -/
  prio : ∀ p, ∀ t ∈ s.queues p, s.table.prio (.task t) = p ∧ p < SYSTEM_WORD

/-- The head of a legal priority represents its queue. -/
theorem ReadyQueues.rep (h : ReadyQueues s) (hp : p < SYSTEM_WORD) :
    Represents s.table.heap (readyHead p) ((s.queues p).map fun t => .tcb (.task t)) :=
  h.lists.rep (readyHead p) ⟨p, hp, rfl⟩

/-- A task in no queue may be linked in. -/
theorem queueSeq_free {queues : ℕ → List ℕ} (ht : ∀ p, t ∉ queues p) :
    Free IsReadyHead (queueSeq queues) (.tcb (.task t)) := by
  refine ⟨fun ⟨p, _, heq⟩ => TcbPtr.noConfusion (Node.tcb.inj heq), ?_⟩
  rintro _ ⟨p, -, rfl⟩ hmem
  obtain ⟨t', ht', heq⟩ := List.mem_map.mp hmem
  obtain rfl := TcbPtr.task.inj (Node.tcb.inj heq)
  exact ht p ht'

/-- The marks and the priorities after an insertion. -/
theorem ReadyQueues.insert (h : ReadyQueues s) (hp : s.table.prio (.task t) = p)
    (hlt : p < SYSTEM_WORD) {heap : Heap Node} {y : BitVec 8} {c : ℕ → BitVec 8} {ts : List ℕ}
    (hts : ∀ t', t' ∈ ts ↔ t' = t ∨ t' ∈ s.queues p)
    (hlists : Family heap IsReadyHead (queueSeq (update s.queues p ts))) :
    ReadyQueues (s.write heap y c (bitSet s.map.taskPrioMap p) (update s.queues p ts)) := by
  refine ⟨hlists, fun i hi => ?_, fun i t' ht' => ?_⟩
  · refine (bitSet_getLsbD hi).trans ?_
    show i = p ∨ _ ↔ update s.queues p ts i ≠ []
    by_cases hip : i = p
    · rw [hip, update_self]
      exact iff_of_true (Or.inl rfl) (List.ne_nil_of_mem ((hts t).mpr (Or.inl rfl)))
    · rw [update_of_ne hip, h.marked i hi, or_iff_right hip]
  · have ht' : t' ∈ update s.queues p ts i := ht'
    by_cases hip : i = p
    · rw [hip, update_self] at ht'
      rw [hip]
      rcases (hts t').mp ht' with rfl | hmem
      · exact ⟨hp, hlt⟩
      · exact h.prio p t' hmem
    · rw [update_of_ne hip] at ht'
      exact h.prio i t' ht'

/-- An operation that may be made, on the queues. -/
theorem ReadyQueues.step (h : ReadyQueues s) (hsame : SameReady s) (hu : ReadyUsage s op) :
    ∃ s', s.step op = some s' ∧ ReadyQueues s' := by
  cases op with
  | insertTail t =>
    obtain ⟨hlt, hnew⟩ := hu
    -- The table and the word make the same step, and the list is appended to.
    obtain ⟨y, c, -, he⟩ := hsame.step_insertTail rfl hlt
    rw [listInsertBehind_eq (h.rep hlt)] at he
    refine ⟨_, he, h.insert rfl hlt (fun t' => by simp [or_comm]) ?_⟩
    have happend := h.lists.append ⟨_, hlt, rfl⟩ (queueSeq_free hnew)
    rw [queueSeq_update, List.map_append]
    exact happend
  | insertHead t =>
    obtain ⟨hlt, hnew⟩ := hu
    obtain ⟨y, c, -, he⟩ := hsame.step_insertHead rfl hlt
    rw [listInsertSpec_eq fun e => TcbPtr.noConfusion (Node.tcb.inj e)] at he
    refine ⟨_, he, h.insert rfl hlt (fun t' => by simp) ?_⟩
    have hprepend := h.lists.prepend ⟨_, hlt, rfl⟩ (queueSeq_free hnew)
    rw [queueSeq_update, List.map_cons]
    exact hprepend
  | delete t =>
    obtain ⟨p, hmem⟩ := hu
    obtain ⟨hp, hlt⟩ := h.prio p t hmem
    have hnode : Node.tcb (.task t) ∈ queueSeq s.queues (readyHead p) := List.mem_map_of_mem hmem
    have hlists := h.lists.unlink ⟨p, hlt, rfl⟩ hnode
    rw [← listDelete_eq (h.rep hlt) hnode, ← queueSeq_erase] at hlists
    obtain ⟨y, c, word, -, hword, he⟩ := hsame.step_delete hp hlt rfl
    -- The bit is cleared exactly if the list that the task leaves is empty.
    have hlast : isListLast (listDelete s.table.heap (.tcb (.task t))) (readyHead p) = true ↔
        (s.queues p).erase t = [] :=
      (isListLast_iff (hlists.rep (readyHead p) ⟨p, hlt, rfl⟩)).trans List.map_eq_nil_iff
    refine ⟨_, he, hlists, fun i hi => ?_, fun i t' ht' => h.prio i t' (List.mem_of_mem_erase ht')⟩
    show word.getLsbD i = true ↔ (s.queues i).erase t ≠ []
    -- The task was in no other list.
    have hother : i ≠ p → (s.queues i).erase t = s.queues i := fun hip =>
      List.erase_of_not_mem fun hm => hip ((h.prio i t hm).1.symm.trans hp)
    rw [hword]
    by_cases hip : i = p
    · subst hip
      split_ifs with h0
      · rw [bitClear_getLsbD hi]
        exact iff_of_false (fun e => e.1 rfl) (not_not.mpr (hlast.mp h0))
      · rw [h.marked i hi]
        exact iff_of_true (List.ne_nil_of_mem hmem) (mt hlast.mpr h0)
    · rw [hother hip, ← h.marked i hi]
      split_ifs
      · rw [bitClear_getLsbD hi, and_iff_right hip]
      · rfl
  | setPrio t prio =>
    refine ⟨_, rfl, h.lists, h.marked, fun i t' ht' => ?_⟩
    -- Only a task that is in no queue is given a priority.
    have hne : t' ≠ t := fun e => hu i (e ▸ ht')
    have hold : (s.table.setPrio (.task t) prio).prio (.task t') = s.table.prio (.task t') :=
      update_of_ne (fun e => hne (TcbPtr.task.inj e)) _ _
    exact ⟨hold.trans (h.prio i t' ht').1, (h.prio i t' ht').2⟩

/-- The queues after `prio_ready_queue_init`. -/
theorem ReadyInit.queues (h : ReadyInit s) : ReadyQueues s := by
  obtain ⟨k, -, -, rfl⟩ := h
  refine ⟨(family_prioReadyQueueInit k.heap SYSTEM_WORD).congr ?_, ?_, by simp⟩
  · rintro _ ⟨p, -, rfl⟩
    rfl
  · simp [MapKernel.prioReadyQueueInit]

/-- The lists hold the queues in every run that takes tasks in and out in order. -/
theorem ReadyRun.queues (hrun : ReadyRun tr s) (hu : ∀ e ∈ tr, ReadyUsage e.1 e.2) :
    ReadyQueues s := by
  refine Run.invariant (I := fun tr s => (∀ e ∈ tr, ReadyUsage e.1 e.2) → ReadyQueues s) hrun
    (fun _ h _ => h.queues) (fun tr s op s' hrun ih _ hs hu => ?_) hu
  obtain ⟨hop, hu⟩ := List.forall_mem_cons.mp hu
  obtain ⟨s₁, hs₁, h₁⟩ := (ih hu).step (ReadyRun.same hrun) hop
  obtain rfl := Option.some.inj (hs₁.symm.trans hs)
  exact h₁

/-! ## The searches -/

/-- A word that is not zero has a lowest bit. -/
theorem exists_lowest_bit {word : BitVec 32} (h : word ≠ 0) :
    ∃ p < SYSTEM_WORD, word.getLsbD p = true := by
  by_contra hnone
  push Not at hnone
  exact h (BitVec.eq_of_getLsbD_eq fun i hi => by simpa using hnone i hi)

/-- While a bit is set, both searches give what is first behind the head of the lowest. -/
theorem SameReady.search (h : SameReady s) (hset : s.map.taskPrioMap ≠ 0) :
    ∃ p < SYSTEM_WORD, s.map.taskPrioMap.getLsbD p = true ∧
      (∀ i < p, s.map.taskPrioMap.getLsbD i = false) ∧
      s.table.bitFirstOneSearch = (s.table.heap (readyHead p)).next.tcbEntry ∧
      s.map.bitFirstOneSearch s.map.taskPrioMap =
        (s.table.heap (readyHead p)).next.tcbEntry.map some := by
  obtain ⟨i, hi, hbit⟩ := exists_lowest_bit hset
  obtain ⟨hlt, hp, hlow⟩ := bitmapGet_spec h.bits hi hbit
  have hlow : ∀ i < s.table.bitmapGet, s.map.taskPrioMap.getLsbD i = false :=
    fun i hi => Bool.eq_false_iff.mpr (hlow i hi)
  refine ⟨_, hlt, hp, hlow, ?_, ?_⟩
  · rw [Kernel.bitFirstOneSearch, Kernel.prioListHead, if_pos hlt]
    rfl
  · rw [MapKernel.bitFirstOneSearch,
      MapKernel.bitFirstOneSearchFrom_of_set hlt (Nat.zero_le _) hp hlow, h.heap]

/-- While no bit is set, the scan gives `NULL`. -/
theorem mapSearch_zero (hzero : s.map.taskPrioMap = 0) :
    s.map.bitFirstOneSearch s.map.taskPrioMap = some none :=
  MapKernel.bitFirstOneSearchFrom_of_clear (Nat.zero_le _) fun j _ => by simp [hzero]

/-- The two searches give the same exactly while a bit is set. -/
theorem SameReady.search_iff (h : SameReady s) :
    s.table.bitFirstOneSearch.map some = s.map.bitFirstOneSearch s.map.taskPrioMap ↔
      s.map.taskPrioMap ≠ 0 := by
  constructor
  · intro he hzero
    rw [mapSearch_zero hzero] at he
    obtain ⟨t, -, ht⟩ := Option.map_eq_some_iff.mp he
    exact Option.some_ne_none t ht
  · intro hset
    obtain ⟨p, -, -, -, htable, hmap⟩ := h.search hset
    rw [htable, hmap]

/-- The word is zero exactly if no task is ready. -/
theorem ReadyQueues.word_ne_zero_iff (h : ReadyQueues s) :
    s.map.taskPrioMap ≠ 0 ↔ ∃ p t, t ∈ s.queues p := by
  constructor
  · intro hset
    obtain ⟨p, hp, hbit⟩ := exists_lowest_bit hset
    obtain ⟨t, ht⟩ := List.exists_mem_of_ne_nil _ ((h.marked p hp).mp hbit)
    exact ⟨p, t, ht⟩
  · rintro ⟨p, t, ht⟩ hzero
    have hbit := (h.marked p (h.prio p t ht).2).mpr (List.ne_nil_of_mem ht)
    rw [hzero] at hbit
    simp at hbit

/-- The first task of the lowest priority that is marked is the first of all. -/
theorem ReadyQueues.first_eq (h : ReadyQueues s) (hlt : p < SYSTEM_WORD)
    (hp : s.map.taskPrioMap.getLsbD p = true)
    (hlow : ∀ i < p, s.map.taskPrioMap.getLsbD i = false) :
    ∃ t, s.first = some (.task t) ∧
      (s.table.heap (readyHead p)).next.tcbEntry = some (.task t) := by
  obtain ⟨t, ts, hq⟩ := List.exists_cons_of_ne_nil ((h.marked p hlt).mp hp)
  have hnext := (h.rep hlt).chain.next_eq
  rw [hq] at hnext
  have hempty : ∀ i ∈ List.range p, (s.queues i).head?.map TcbPtr.task = none := by
    intro i hi
    have hi := List.mem_range.mp hi
    have hnil : s.queues i = [] := by
      by_contra hne
      have hbit := (h.marked i (hi.trans hlt)).mpr hne
      rw [hlow i hi] at hbit
      exact Bool.false_ne_true hbit
    rw [hnil]
    rfl
  obtain ⟨n, hn⟩ := Nat.exists_eq_add_of_lt hlt
  refine ⟨t, ?_, by rw [hnext]; rfl⟩
  rw [ReadySys.first, hn, Nat.add_assoc, List.range_add, List.findSome?_append,
    List.findSome?_eq_none_iff.mpr hempty, Option.none_or, List.range_succ_eq_map, List.map_cons,
    List.findSome?_cons, Nat.add_zero, hq]
  rfl

/-- No task is ready exactly if there is no first one. -/
theorem ReadyQueues.first_eq_none (h : ∀ p, s.queues p = []) : s.first = none :=
  List.findSome?_eq_none_iff.mpr fun p _ => by rw [h p]; rfl

/-- The scan gives the first task of the highest priority, or `NULL`, in every run that takes tasks
in and out in order. -/
theorem ReadyQueues.mapSearch (h : ReadyQueues s) (hsame : SameReady s) :
    s.map.bitFirstOneSearch s.map.taskPrioMap = some s.first := by
  by_cases hzero : s.map.taskPrioMap = 0
  · have hnone : ∀ p, s.queues p = [] := by
      intro p
      by_contra hne
      obtain ⟨t, ht⟩ := List.exists_mem_of_ne_nil _ hne
      exact h.word_ne_zero_iff.mpr ⟨p, t, ht⟩ hzero
    rw [mapSearch_zero hzero, ReadyQueues.first_eq_none hnone]
  · obtain ⟨p, hlt, hp, hlow, -, hmap⟩ := hsame.search hzero
    obtain ⟨t, hfirst, hnext⟩ := h.first_eq hlt hp hlow
    rw [hmap, hnext, hfirst]
    rfl

/-- When no task is ready, the table gives the entry `task_prio_queue[0]`. -/
theorem ReadyQueues.tableSearch_empty (h : ReadyQueues s) (hsame : SameReady s)
    (hnone : ∀ p, s.queues p = []) : s.table.bitFirstOneSearch = some (.prioQueue 0) := by
  have hclear : ∀ p < SYSTEM_WORD, False ↔ s.map.taskPrioMap.getLsbD p = true := fun p hp =>
    iff_of_false id fun hbit => (h.marked p hp).mp hbit (hnone p)
  have hzero : BitmapOk (0 : BitVec 8) (fun _ => 0) fun _ => False :=
    ⟨by simp, by simp, fun _ _ _ => rfl⟩
  obtain ⟨hy, hc⟩ := hzero.unique (hsame.bits.congr hclear)
  have hget : s.table.bitmapGet = 0 := by
    rw [Kernel.bitmapGet, hy]
    show (0 * 8 + bitmap.getD (s.table.c 0).toNat 0) % 256 = 0
    rw [hc 0 (by decide)]
    rfl
  have hnext := (h.rep (p := 0) (by decide)).chain.next_eq
  rw [hnone 0] at hnext
  rw [Kernel.bitFirstOneSearch, hget, Kernel.prioListHead, if_pos (by decide)]
  show (s.table.heap (readyHead 0)).next.tcbEntry = _
  rw [hnext]
  rfl

/-- In every run the two searches give the same exactly while a bit of the word is set. Where tasks
are taken in and out in order, every operation returns, and both searches give the first task of the
highest priority or `NULL`, with the assertion that rests on it, exactly while a task is ready. -/
theorem searches_agree_iff (hrun : ReadyRun tr s) :
    (s.table.bitFirstOneSearch.map some = s.map.bitFirstOneSearch s.map.taskPrioMap ↔
      s.map.taskPrioMap ≠ 0) ∧
    ((∀ e ∈ tr, ReadyUsage e.1 e.2) →
      (∀ op, ReadyUsage s op → (s.step op).isSome) ∧
      (SearchesAgree s ↔ ∃ p t, t ∈ s.queues p)) := by
  have hsame := ReadyRun.same hrun
  refine ⟨hsame.search_iff, fun hu => ?_⟩
  have hqueues := ReadyRun.queues hrun hu
  have hmap := hqueues.mapSearch hsame
  refine ⟨fun op hop => ?_, ?_⟩
  · obtain ⟨s', hs', -⟩ := hqueues.step hsame hop
    exact Option.isSome_of_mem hs'
  · rw [← hqueues.word_ne_zero_iff]
    constructor
    · intro h
      exact hsame.search_iff.mp (h.table.trans h.map.symm)
    · intro hset
      obtain ⟨p, hlt, hp, hlow, -, -⟩ := hsame.search hset
      obtain ⟨t, hfirst, -⟩ := hqueues.first_eq hlt hp hlow
      refine ⟨(hsame.search_iff.mpr hset).trans hmap, hmap, fun hnone => ?_⟩
      exact absurd (hnone.symm.trans hfirst) (Option.some_ne_none _).symm

/-- A kernel in which everything is zero. -/
def zeroReady : ReadySys :=
  let k : Kernel := ⟨Vars.zero, fun _ => ⟨tickHead, tickHead⟩, 0, fun _ => 0⟩
  ⟨k.prioReadyQueueInit, MapKernel.prioReadyQueueInit ⟨k, 0⟩, fun _ => []⟩

theorem zeroReady_run : ReadyRun [] zeroReady := .nil ⟨_, rfl, fun _ => rfl, rfl⟩

/-- A run that takes tasks in and out in order. -/
structure ReadyUsageRun (tr : List (ReadySys × ReadyOp)) (s : ReadySys) : Prop where
  run : ReadyRun tr s
  usage : ∀ e ∈ tr, ReadyUsage e.1 e.2

/-- A task that is in no queue is given a priority. -/
theorem ReadyUsageRun.setPrio (h : ReadyUsageRun tr s) (ht : ∀ p, t ∉ s.queues p) (prio : ℕ) :
    ∃ s', ReadyUsageRun ((s, .setPrio t prio) :: tr) s' ∧
      s'.table.prio = update s.table.prio (.task t) prio ∧ s'.queues = s.queues :=
  ⟨_, ⟨.cons h.run trivial rfl, List.forall_mem_cons.mpr ⟨ht, h.usage⟩⟩, rfl, rfl⟩

/-- A task is inserted behind the others of its priority. -/
theorem ReadyUsageRun.insertTail (h : ReadyUsageRun tr s) (ht : ∀ q, t ∉ s.queues q)
    (hp : s.table.prio (.task t) = p) (hlt : p < SYSTEM_WORD) :
    ∃ s', ReadyUsageRun ((s, .insertTail t) :: tr) s' ∧ s'.table.prio = s.table.prio ∧
      s'.queues = update s.queues p (s.queues p ++ [t]) := by
  obtain ⟨y, c, -, he⟩ := (ReadyRun.same h.run).step_insertTail hp hlt
  rw [listInsertBehind_eq ((ReadyRun.queues h.run h.usage).rep hlt)] at he
  exact ⟨_, ⟨.cons h.run trivial he, List.forall_mem_cons.mpr ⟨⟨hp ▸ hlt, ht⟩, h.usage⟩⟩, rfl, rfl⟩

/-- Task 1 is given the priority 20 and task 2 the priority 3, whose bits are in different bytes of
the bitmap. Both are inserted, and both searches find task 2. -/
theorem searches_agree_twoTasks : ∃ tr s, ReadyRun tr s ∧
    tr.map Prod.snd = [.insertTail 2, .insertTail 1, .setPrio 2 3, .setPrio 1 20] ∧
    SearchesAgree s ∧ s.map.bitFirstOneSearch s.map.taskPrioMap = some (some (.task 2)) := by
  have h₀ : ReadyUsageRun [] zeroReady := ⟨zeroReady_run, by simp⟩
  obtain ⟨s₁, h₁, hprio₁, hq₁⟩ := h₀.setPrio (t := 1) (fun _ => List.not_mem_nil) 20
  obtain ⟨s₂, h₂, hprio₂, hq₂⟩ := h₁.setPrio (t := 2) (by simp [hq₁, zeroReady]) 3
  obtain ⟨s₃, h₃, hprio₃, hq₃⟩ := h₂.insertTail (t := 1) (p := 20) (by simp [hq₂, hq₁, zeroReady])
    (by rw [hprio₂, hprio₁]; rfl) (by decide)
  obtain ⟨s₄, h₄, -, hq₄⟩ := h₃.insertTail (t := 2) (p := 3)
    (fun q => by rw [hq₃, hq₂, hq₁]; by_cases hq : q = 20 <;> simp [hq, zeroReady])
    (by rw [hprio₃, hprio₂, hprio₁]; rfl) (by decide)
  have hqueues : s₄.queues = update (update (fun _ => []) 20 [1]) 3 [2] := by
    rw [hq₄, hq₃, hq₂, hq₁]
    rfl
  obtain ⟨-, hagree⟩ := (searches_agree_iff h₄.run).2 h₄.usage
  have hok := hagree.mpr ⟨3, 2, by simp [hqueues]⟩
  refine ⟨_, s₄, h₄.run, rfl, hok, hok.map.trans ?_⟩
  rw [ReadySys.first, hqueues]
  decide

/-- After `prio_ready_queue_init` no task is ready. The scan gives `NULL`, and the table an entry of
`task_prio_queue[]`. -/
theorem not_searches_agree_init : ReadyRun [] zeroReady ∧ (∀ p, zeroReady.queues p = []) ∧
    zeroReady.table.bitFirstOneSearch = some (.prioQueue 0) ∧
    zeroReady.map.bitFirstOneSearch zeroReady.map.taskPrioMap = some none ∧
    ¬ SearchesAgree zeroReady := by
  have hsame := ReadyRun.same zeroReady_run
  have hqueues := ReadyRun.queues zeroReady_run (by simp)
  have hnone : ∀ p, zeroReady.queues p = [] := fun _ => rfl
  have htable := hqueues.tableSearch_empty hsame hnone
  have hmap := hqueues.mapSearch hsame
  rw [ReadyQueues.first_eq_none hnone] at hmap
  refine ⟨zeroReady_run, hnone, htable, hmap, fun h => ?_⟩
  have heq := h.table.trans h.map.symm
  rw [htable, hmap] at heq
  exact absurd (Option.some.inj heq) (Option.some_ne_none _)

end Fos
