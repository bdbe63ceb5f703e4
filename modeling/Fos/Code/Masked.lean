import Fos.Code.Calls
import Fos.Lib.Walks
import Fos.Refinement.Bitmap

/-!
# What the code computes

Where nothing comes in, the code of `Code/PrioSched.lean` and `Code/Calls.lean` computes the
functions of `Fos.Kernel`, up to the trap in which `schedule` hands the processor over. What an
update of the ready queues leaves between its statements is told by a hypothesis on every memory
that it passes, since `task_create` and `task_prio_change` make theirs with interrupts enabled.
-/

namespace Fos.Code

open Interrupts Links Function

variable {P : Kernel → Prop} {k k' : Kernel} {t : TcbPtr} {head node : Node} {p : ℕ}

/-! ## `list.c` -/

theorem links_course (h : P k) (f : Heap Node → Heap Node) :
    Course P (links f : Prog Sr Kernel Unit) k (.ok ()) { k with heap := f k.heap } := .write h _

theorem isListLast_course (h : P k) (head : Node) :
    Course P (isListLast head : Prog Sr Kernel Bool) k (.ok (Fos.isListLast k.heap head)) k :=
  .read h _

theorem listInit_course (h : P k) (h₁ : P { k with heap := k.heap.setNext head head }) :
    Course P (listInit head : Prog Sr Kernel Unit) k (.ok ())
      { k with heap := Fos.listInit k.heap head } :=
  (links_course h _).bind (links_course h₁ _)

theorem listInsert_course (h : P k) (h₁ : P { k with heap := k.heap.setNext node node })
    (h₂ : P { k with heap := (k.heap.setNext node node).setPrev node head }) :
    Course P (listInsert head node : Prog Sr Kernel Unit) k (.ok ())
      { k with heap := Fos.listInsert k.heap head node } :=
  (links_course h _).bind ((links_course h₁ _).bind (links_course h₂ _))

/-- The loop of `list_insert_behind` only reads. -/
theorem listEnd_course (h : P k) {last : Node} (hlast : Fos.listEnd k.heap head = some last) :
    Course P (Prog.loop listStep head : Prog Sr Kernel Node) k (.ok last) k := by
  refine Loops.repeatUntil_induct
    (P := fun b last => Course P (Prog.loop listStep b : Prog Sr Kernel Node) k (.ok last) k)
    ?_ ?_ hlast
  · intro b last hround
    split_ifs at hround with hb
    · obtain rfl := Sum.inr.inj (Option.some.inj hround)
      refine .loop_last ((isListLast_course h b).bind ?_)
      rw [if_pos hb]
      exact .pure _ k
    · cases hround
  · intro b b' hround last ih
    split_ifs at hround with hb
    · cases hround
    · obtain rfl := Sum.inl.inj (Option.some.inj hround)
      refine .loop_round ((isListLast_course h b).bind ?_) ih
      rw [if_neg hb]
      exact (Course.read h _).bind (.pure _ k)

/-- What a list is while a node is linked in behind its last one: only the links of the node have
been written. -/
theorem listInsertBehind_course {heap : Heap Node}
    (h : Fos.listInsertBehind k.heap head node = some heap)
    (hP : ∀ x : Kernel, x.toVars = k.toVars → x.y = k.y → x.c = k.c →
      (∀ n ≠ node, x.heap n = k.heap n) → P x) :
    Course P (listInsertBehind head node : Prog Sr Kernel Unit) k (.ok ())
      { k with heap := heap } := by
  obtain ⟨last, hlast, heq⟩ := Option.bind_eq_some_iff.mp h
  obtain rfl := Option.some.inj heq
  have hk : P k := hP k rfl rfl rfl fun _ _ => rfl
  refine (listEnd_course hk hlast).bind (listInsert_course hk ?_ ?_)
  · exact hP _ rfl rfl rfl fun n hn => by simp [Heap.setNext, hn]
  · exact hP _ rfl rfl rfl fun n hn => by simp [Heap.setNext, Heap.setPrev, hn]

/-- What a list is while a node is linked in behind its head: the `next` of no other node has been
written. -/
theorem listInsertSpec_course
    (hP : ∀ x : Kernel, x.toVars = k.toVars → x.y = k.y → x.c = k.c →
      (∀ n ≠ node, (x.heap n).next = (k.heap n).next) →
      ((x.heap node).prev = (k.heap node).prev ∨ (x.heap node).prev = head ∨
        (k.heap head).next = node) → P x) :
    Course P (listInsertSpec head node : Prog Sr Kernel Unit) k (.ok ())
      { k with heap := Fos.listInsertSpec k.heap head node } := by
  have hk : P k := hP k rfl rfl rfl (fun _ _ => rfl) (Or.inl rfl)
  unfold listInsertSpec Fos.listInsertSpec
  refine (isListLast_course hk head).bind ?_
  split_ifs with hlast
  · refine listInsert_course hk (hP _ rfl rfl rfl ?_ ?_) (hP _ rfl rfl rfl ?_ ?_)
    · exact fun n hn => by simp [hn]
    · exact Or.inl (by simp)
    · exact fun n hn => by simp [hn]
    · exact Or.inr (Or.inl (by simp))
  · refine (links_course hk _).bind ((links_course ?_ _).bind ((links_course ?_ _).bind
      (links_course ?_ _)))
    · exact hP _ rfl rfl rfl (fun n hn => by simp [hn]) (Or.inl (by simp))
    · exact hP _ rfl rfl rfl (fun n hn => by simp [hn]) (Or.inr (Or.inl (by simp)))
    · refine hP _ rfl rfl rfl (fun n hn => by simp [hn]) ?_
      by_cases hfirst : (k.heap head).next = node
      · exact Or.inr (Or.inr hfirst)
      · refine Or.inr (Or.inl ?_)
        by_cases hhead : head = node <;> simp [hhead, Ne.symm hfirst]

/-- `list_delete` writes the `next` of the node before first. -/
theorem listDelete_course (h : P k) (h₁ : Fos.isListLast k.heap node = false →
      P { k with heap := k.heap.setNext (k.heap node).prev (k.heap node).next }) :
    Course P (listDelete node : Prog Sr Kernel Unit) k (.ok ())
      { k with heap := Fos.listDelete k.heap node } := by
  unfold listDelete Fos.listDelete
  refine (isListLast_course h node).bind ?_
  split_ifs with hlast
  · exact links_course h _
  · exact (links_course h _).bind (links_course (h₁ (Bool.eq_false_iff.mpr hlast)) _)

/-! ## `prio_sched.c` -/

theorem bitmapSet_course (hset : k.bitmapSet p = some k') (h : P k)
    (h₁ : P { k with c := update k.c (p >>> 3) (k.c (p >>> 3) ||| 1#8 <<< (p &&& 0x7)) }) :
    Course P (bitmapSet p) k (.ok ()) k' := by
  unfold Kernel.bitmapSet at hset
  dsimp only at hset
  split_ifs at hset with hb
  obtain rfl := Option.some.inj hset
  exact (Course.inBounds (decide_eq_true hb) k).bind ((Course.write h _).bind (.write h₁ _))

theorem bitmapClear_course (hclear : k.bitmapClear p = some k') (h : P k)
    (h₁ : P { k with c := update k.c (p >>> 3) (k.c (p >>> 3) &&& ~~~(1#8 <<< (p &&& 0x7))) }) :
    Course P (bitmapClear p) k (.ok ()) k' := by
  unfold Kernel.bitmapClear at hclear
  dsimp only at hclear
  split_ifs at hclear with hb hz
  · obtain rfl := Option.some.inj hclear
    refine (Course.inBounds (decide_eq_true hb) k).bind ((Course.write h _).bind
      ((Course.test h₁ _).bind ?_))
    rw [if_pos (decide_eq_true hz)]
    exact .write h₁ _
  · obtain rfl := Option.some.inj hclear
    refine (Course.inBounds (decide_eq_true hb) k).bind ((Course.write h _).bind
      ((Course.test h₁ _).bind ?_))
    rw [if_neg (by simpa using hz)]
    exact .pure () _

theorem prioListHead_course (hhead : Kernel.prioListHead p = some head) :
    Course P (prioListHead p) k (.ok head) k := by
  unfold Kernel.prioListHead at hhead
  split_ifs at hhead with hp
  obtain rfl := Option.some.inj hhead
  exact (Course.inBounds (decide_eq_true hp) k).bind (.pure _ k)

theorem bitmapGet_course (h : P k) : Course P bitmapGet k (.ok k.bitmapGet) k :=
  (Course.read h _).bind ((Course.inBounds (decide_eq_true (bitmap_lt_eight k.y)) k).bind
    ((Course.read h _).bind (.pure _ k)))

theorem bitFirstOneSearch_course (h : P k) (ht : k.bitFirstOneSearch = some t) :
    Course P bitFirstOneSearch k (.ok t) k := by
  obtain ⟨head, hhead, ht⟩ := Option.bind_eq_some_iff.mp ht
  exact (bitmapGet_course h).bind ((prioListHead_course hhead).bind (.readSome h ht))

/-- The states that `prio_ready_queue_insert_tail` passes: as it is, with one of the two bits set,
and with both of them while the node is being linked in. -/
theorem prioReadyQueueInsertTail_course (hk : k.prioReadyQueueInsertTail (some t) = some k')
    (h : P k) (h₁ : P { k with
      c := update k.c (k.prio t >>> 3) (k.c (k.prio t >>> 3) ||| 1#8 <<< (k.prio t &&& 0x7)) })
    (hP : ∀ x : Kernel, x.toVars = k.toVars → x.y = k'.y → x.c = k'.c →
      (∀ n ≠ .tcb t, x.heap n = k.heap n) → P x) :
    Course P (prioReadyQueueInsertTail (some t)) k (.ok ()) k' := by
  obtain ⟨k₁, hset, hk⟩ := Option.bind_eq_some_iff.mp hk
  obtain ⟨head, hhead, hk⟩ := Option.bind_eq_some_iff.mp hk
  obtain ⟨heap, hheap, hk⟩ := Option.bind_eq_some_iff.mp hk
  obtain rfl := Option.some.inj hk
  have hvars := Kernel.bitmapSet_vars hset
  have hsame := Kernel.bitmapSet_heap hset
  have hk₁ : P k₁ := hP k₁ hvars rfl rfl fun n _ => by rw [hsame]
  refine .bind (.pure t k) (.bind (.read h _) (.bind (bitmapSet_course hset h h₁) ?_))
  refine .bind (.read hk₁ _) (.bind (prioListHead_course hhead) ?_)
  refine listInsertBehind_course hheap fun x hx hy hc hlinks => ?_
  exact hP x (hx.trans hvars) hy hc fun n hn => by rw [hlinks n hn, hsame]

/-- The states that `prio_ready_queue_insert_head` passes: the `next` of no other node has been
written. -/
theorem prioReadyQueueInsertHead_course (hk : k.prioReadyQueueInsertHead (some t) = some k')
    (hP : ∀ x : Kernel, (∀ n ≠ .tcb t, (x.heap n).next = (k.heap n).next) →
      ((x.heap (.tcb t)).prev = (k.heap (.tcb t)).prev ∨
        (x.heap (.tcb t)).prev = readyHead (k.prio t) ∨
          (k.heap (readyHead (k.prio t))).next = .tcb t) → P x) :
    Course P (prioReadyQueueInsertHead (some t)) k (.ok ()) k' := by
  obtain ⟨k₁, hset, hk⟩ := Option.bind_eq_some_iff.mp hk
  obtain ⟨head, hhead, hk⟩ := Option.bind_eq_some_iff.mp hk
  obtain rfl := Option.some.inj hk
  have hvars := Kernel.bitmapSet_vars hset
  have hsame := Kernel.bitmapSet_heap hset
  obtain rfl : head = readyHead (k.prio t) := by
    rw [hvars] at hhead
    unfold Kernel.prioListHead at hhead
    split_ifs at hhead
    exact (Option.some.inj hhead).symm
  have hheap : ∀ x : Kernel, x.heap = k.heap → P x := fun x hx => by
    exact hP x (fun n _ => by rw [hx]) (Or.inl (by rw [hx]))
  refine .bind (.pure t k) (.bind (.read (hheap k rfl) _) ?_)
  refine .bind (bitmapSet_course hset (hheap k rfl) (hheap _ rfl)) ?_
  refine .bind (.read (hheap k₁ hsame) _) (.bind (prioListHead_course hhead) ?_)
  refine listInsertSpec_course ?_
  rintro x - - - hnext hprev
  rw [hsame] at hnext hprev
  exact hP x hnext hprev

/-- The states that `prio_ready_queue_delete` passes: as it is, while the node is being unlinked,
and when it has been. -/
theorem prioReadyQueueDelete_course (hk : k.prioReadyQueueDelete (some t) = some k') (h : P k)
    (h₁ : Fos.isListLast k.heap (.tcb t) = false →
      P { k with heap := k.heap.setNext (k.heap (.tcb t)).prev (k.heap (.tcb t)).next })
    (hP : ∀ x : Kernel, x.heap = Fos.listDelete k.heap (.tcb t) → P x) :
    Course P (prioReadyQueueDelete (some t)) k (.ok ()) k' := by
  obtain ⟨head, hhead, hk⟩ := Option.bind_eq_some_iff.mp hk
  have hdeleted : P { k with heap := Fos.listDelete k.heap (.tcb t) } := hP _ rfl
  refine .bind (.pure t k) (.bind (listDelete_course h h₁) (.bind (.read hdeleted _) ?_))
  refine .bind (prioListHead_course hhead) (.bind (isListLast_course hdeleted head) ?_)
  split_ifs at hk ⊢ with hlast
  · exact (Course.read hdeleted _).bind (bitmapClear_course hk hdeleted (hP _ rfl))
  · obtain rfl := Option.some.inj hk
    exact .pure () _

/-! ## With interrupts masked

What the functions pass does not matter there.
-/

variable {tcb : Option TcbPtr} {r : Ret}

theorem prioReadyQueueInsertTail_computes (h : k.prioReadyQueueInsertTail tcb = some k') :
    Computes (prioReadyQueueInsertTail tcb) k () k' := by
  cases tcb with
  | none => cases h
  | some t => exact prioReadyQueueInsertTail_course h trivial trivial fun _ _ _ _ _ => trivial

theorem prioReadyQueueInsertHead_computes (h : k.prioReadyQueueInsertHead tcb = some k') :
    Computes (prioReadyQueueInsertHead tcb) k () k' := by
  cases tcb with
  | none => cases h
  | some t => exact prioReadyQueueInsertHead_course h fun _ _ _ => trivial

theorem prioReadyQueueDelete_computes (h : k.prioReadyQueueDelete tcb = some k') :
    Computes (prioReadyQueueDelete tcb) k () k' := by
  cases tcb with
  | none => cases h
  | some t => exact prioReadyQueueDelete_course h trivial (fun _ => trivial) fun _ _ => trivial

theorem rotate_computes (h : k.rotate t = some k') : Computes (rotate t) k () k' := by
  unfold Kernel.rotate at h
  refine .bind (isListLast_course trivial _) ?_
  split_ifs at h ⊢
  · obtain rfl := Option.some.inj h
    exact .pure () _
  · obtain ⟨k₁, h₁, h⟩ := Option.bind_eq_some_iff.mp h
    exact .bind (prioReadyQueueDelete_computes h₁) (prioReadyQueueInsertTail_computes h)

theorem prioReadyQueueFetch_computes (h : k.prioReadyQueueFetch = some (k', r)) :
    Computes prioReadyQueueFetch k r k' := by
  rw [Kernel.prioReadyQueueFetch_eq] at h
  obtain ⟨tmp, htmp, h⟩ := Option.bind_eq_some_iff.mp h
  obtain ⟨k₁, h₁, h⟩ := Option.bind_eq_some_iff.mp h
  refine .bind (bitFirstOneSearch_course trivial htmp) (.bind (rotate_computes h₁)
    (.bind (.test trivial _) ?_))
  simp only [decide_eq_true_eq]
  split_ifs at h ⊢
  · obtain ⟨rfl, rfl⟩ := Prod.mk.inj (Option.some.inj h)
    exact .ret trivial _
  · obtain ⟨rfl, rfl⟩ := Prod.mk.inj (Option.some.inj h)
    exact .bind (.write trivial _) (.bind (.write trivial _) (.ret trivial _))

/-- How `schedule` ends: it returns, or the processor is handed over. -/
def scheduleEnd (r : Ret) : Except Stop Unit := if r = .NO_SCHED then .ok () else .error .switched

theorem schedule_course (hlock : k.scheduleIsLock = false)
    (hk : k.prioReadyQueueFetch = some (k', r)) (h : P k) (h' : P k') :
    Course P schedule k (scheduleEnd r) k' := by
  refine .bind (.read h _) ?_
  rw [if_neg (by simp [hlock])]
  unfold scheduleEnd
  split_ifs with hr
  · refine .restored (f := fun _ => .ret ()) h (prioReadyQueueFetch_computes hk) (fun sr => ?_)
      (.ret h' ())
    rw [if_pos hr]
  · obtain ⟨V, hfetch, -⟩ := prioReadyQueueFetch_computes hk
    refine .disable_error (V := V ∪ {k'}) h fun sr => hfetch.bind ?_
    rw [if_neg hr]
    exact (Walk.switch k').bind_error

/-! ## The calls, up to their `schedule` -/

theorem setTick_setTick (k : Kernel) (e : TickPtr) (x y : Tick) :
    (k.setTick e x).setTick e y = k.setTick e y := by
  unfold Kernel.setTick
  rw [update_idem]

theorem setTick_self (k : Kernel) (e : TickPtr) (x : Tick) : (k.setTick e x).tick e = x := by
  simp [Kernel.setTick]

theorem tickQueueInsert_computes {e : TickPtr} (h : k.tickQueueInsert e = some k') :
    Computes (tickQueueInsert e) k () k' := by
  obtain ⟨heap, hheap, h⟩ := Option.bind_eq_some_iff.mp h
  obtain rfl := Option.some.inj h
  exact listInsertBehind_course hheap fun _ _ _ _ _ => trivial

theorem sleep_computes {timeslice : ℕ} (h : k.sleep timeslice = some k') :
    Computes (sleep timeslice) k () k' := by
  obtain ⟨tcb, hnew, h⟩ := Option.bind_eq_some_iff.mp h
  obtain ⟨k₁, hdelete, h⟩ := Option.bind_eq_some_iff.mp h
  refine .bind (.readSome trivial hnew) ?_
  refine .bind (.write trivial _) (.bind (.write trivial _) (.bind (.write trivial _) ?_))
  refine .bind (.write trivial _) (.bind (.write trivial _) (.bind (.read trivial _) ?_))
  -- The fields are written one by one, and the function writes them at once.
  simp only [setTick_setTick, setTick_self, hnew]
  exact .bind (prioReadyQueueDelete_computes hdelete) (tickQueueInsert_computes h)

/-- `sem_block_queue_insert`, and its equals for mutexes and queues. -/
theorem blockQueueInsert_computes {f : Kernel → Option TcbPtr} {heap : Heap Node}
    (ht : f k = some t) (h : Fos.listInsertBehind k.heap head (.tcb t) = some heap) :
    Computes (do
      let tcb ← Prog.readSome f
      listInsertBehind head (Node.tcb tcb)) k () { k with heap := heap } :=
  .bind (.readSome trivial ht) (listInsertBehind_course h fun _ _ _ _ _ => trivial)

theorem semWait_computes {s : ℕ} (h : k.semWait s = some k') : Computes (semWait s) k () k' := by
  obtain ⟨k₁, hdelete, h⟩ := Option.bind_eq_some_iff.mp h
  obtain ⟨t, ht, h⟩ := Option.bind_eq_some_iff.mp h
  obtain ⟨heap, hheap, h⟩ := Option.bind_eq_some_iff.mp h
  obtain rfl := Option.some.inj h
  exact .bind (.write trivial _) (.bind (.read trivial _)
    (.bind (prioReadyQueueDelete_computes hdelete) (blockQueueInsert_computes ht hheap)))

/-- The first task that waits becomes ready. -/
theorem wakeFirst_computes
    (h : Kernel.prioReadyQueueInsertHead { k with heap := Fos.listDelete k.heap (.tcb t) }
      (some t) = some k') (ht : (k.heap head).next.tcbEntry = some t) :
    Computes (do
      let tcb ← Prog.readSome fun k : Kernel => (k.heap head).next.tcbEntry
      listDelete (Node.tcb tcb)
      prioReadyQueueInsertHead tcb) k () k' :=
  .bind (.readSome trivial ht) (.bind (listDelete_course trivial fun _ => trivial)
    (prioReadyQueueInsertHead_computes h))

theorem semRelease_computes {s : ℕ} (h : k.semRelease s = some k') :
    Computes (semRelease s) k () k' := by
  unfold Kernel.semRelease at h
  refine .bind (isListLast_course trivial _) ?_
  split_ifs at h ⊢ with hlast hfull
  · obtain rfl := Option.some.inj h
    refine .bind (.test trivial _) ?_
    rw [if_pos (decide_eq_true hfull)]
    exact .write trivial _
  · obtain rfl := Option.some.inj h
    refine .bind (.test trivial _) ?_
    rw [if_neg fun e => hfull (of_decide_eq_true e)]
    exact .pure () _
  · obtain ⟨t, ht, h⟩ := Option.bind_eq_some_iff.mp h
    exact wakeFirst_computes h ht

theorem mutexWait_computes {m : ℕ} (h : k.mutexWait m = some k') :
    Computes (mutexWait m) k () k' := by
  obtain ⟨k₁, hdelete, h⟩ := Option.bind_eq_some_iff.mp h
  obtain ⟨t, ht, h⟩ := Option.bind_eq_some_iff.mp h
  obtain ⟨heap, hheap, h⟩ := Option.bind_eq_some_iff.mp h
  obtain rfl := Option.some.inj h
  exact .bind (.write trivial _) (.bind (.read trivial _)
    (.bind (prioReadyQueueDelete_computes hdelete) (blockQueueInsert_computes ht hheap)))

theorem mutexTake_computes {m : ℕ} (h : k.mutexTake m = some k') :
    Computes (mutexTake m) k () k' := by
  obtain ⟨t, hnew, h⟩ := Option.bind_eq_some_iff.mp h
  obtain ⟨k₁, hdelete, h⟩ := Option.bind_eq_some_iff.mp h
  obtain ⟨k₂, hinsert, h⟩ := Option.bind_eq_some_iff.mp h
  obtain rfl := Option.some.inj h
  exact .bind (.readSome trivial hnew) (.bind (.write trivial _)
    (.bind (prioReadyQueueDelete_computes hdelete) (.bind (.write trivial _)
      (.bind (prioReadyQueueInsertHead_computes hinsert) (.write trivial _)))))

theorem mutexRelease_computes {m : ℕ} (h : k.mutexRelease m = some k') :
    Computes (mutexRelease m) k () k' := by
  obtain ⟨t, hnew, h⟩ := Option.bind_eq_some_iff.mp h
  obtain ⟨k₁, hdelete, h⟩ := Option.bind_eq_some_iff.mp h
  obtain ⟨k₂, hinsert, h⟩ := Option.bind_eq_some_iff.mp h
  refine .bind (.readSome trivial hnew) (.bind (prioReadyQueueDelete_computes hdelete)
    (.bind (.write trivial _) (.bind (prioReadyQueueInsertHead_computes hinsert)
      (.bind (.write trivial _) (.bind (isListLast_course trivial _) ?_)))))
  dsimp only at h ⊢
  split_ifs at h ⊢ with hlast
  · obtain rfl := Option.some.inj h
    exact .pure () _
  · obtain ⟨u, hu, h⟩ := Option.bind_eq_some_iff.mp h
    exact wakeFirst_computes h hu

theorem msgRelease_computes {q : ℕ} (h : k.msgRelease q = some k') :
    Computes (msgRelease q) k () k' := by
  unfold Kernel.msgRelease at h
  refine .bind (isListLast_course trivial _) ?_
  split_ifs at h ⊢ with hlast
  · obtain rfl := Option.some.inj h
    exact .pure () _
  · obtain ⟨t, ht, h⟩ := Option.bind_eq_some_iff.mp h
    exact wakeFirst_computes h ht

theorem msgInsert_computes {q m method : ℕ} (h : k.msgInsert q m method = some (k', r)) :
    Computes (msgInsert q m method) k r k' := by
  unfold Kernel.msgInsert at h
  refine .bind (.test trivial _) ?_
  simp only [decide_eq_true_eq]
  split_ifs at h ⊢ with hfull hfifo
  · obtain ⟨rfl, rfl⟩ := Prod.mk.inj (Option.some.inj h)
    exact .pure _ _
  · obtain ⟨heap, hheap, h⟩ := Option.bind_eq_some_iff.mp h
    obtain ⟨rfl, rfl⟩ := Prod.mk.inj (Option.some.inj h)
    exact .bind (.write trivial _)
      (.bind (listInsertBehind_course hheap fun _ _ _ _ _ => trivial) (.pure _ _))
  · obtain ⟨rfl, rfl⟩ := Prod.mk.inj (Option.some.inj h)
    exact .bind (.write trivial _)
      (.bind (listInsertSpec_course fun _ _ _ _ _ _ => trivial) (.pure _ _))

theorem msgWait_computes {q : ℕ} (h : k.msgWait q = some k') : Computes (msgWait q) k () k' := by
  obtain ⟨k₁, hdelete, h⟩ := Option.bind_eq_some_iff.mp h
  obtain ⟨t, ht, h⟩ := Option.bind_eq_some_iff.mp h
  obtain ⟨heap, hheap, h⟩ := Option.bind_eq_some_iff.mp h
  obtain rfl := Option.some.inj h
  exact .bind (.read trivial _)
    (.bind (prioReadyQueueDelete_computes hdelete) (blockQueueInsert_computes ht hheap))

theorem msgTake_computes {q buf : ℕ} (h : k.msgTake q buf = some k') :
    Computes (msgTake q buf) k () k' := by
  obtain ⟨m, hm, h⟩ := Option.bind_eq_some_iff.mp h
  refine .bind (.readSome trivial hm) (.bind (.write trivial _) (.bind (.read trivial _)
    (.bind (listDelete_course trivial fun _ => trivial) (.bind (.test trivial _) ?_))))
  dsimp only at h
  simp only [decide_eq_true_eq]
  split_ifs at h ⊢ with hcount
  · obtain rfl := Option.some.inj h
    exact .write trivial _
  · obtain rfl := Option.some.inj h
    exact .pure () _

end Fos.Code
