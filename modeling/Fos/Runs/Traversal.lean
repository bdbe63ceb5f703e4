import Fos.Runs.Control

/-!
# One call of `hardware_timer`

A call of `hardware_timer` on any well-formed tick queue, whose entries may be one-shot timers,
timers with period `CYCLE`, and sleeping tasks, in any order and with any `timeout`s. The loop takes
entries out of the queue that it is running through, and goes on from a node that it has unlinked.
It comes to every entry once all the same, and leaves the others as they were
(`hardware_timer_once`).
-/

namespace Fos

open Links Function

/-- The entry that a call of `hardware_timer` has come to. -/
def TimerEvent.visited : TimerEvent → Option TickPtr
  | .visit _ e _ => some e
  | _ => none

/-- The callback that has been called, and its argument. -/
def TimerEvent.called : TimerEvent → Option (TickPtr × Option ℕ × ℕ)
  | .callback _ e func arg => some (e, some func, arg)
  | _ => none

/-- The timer has expired. -/
def Tick.Fires (x : Tick) : Prop := x.timeout = TIMEOUT ∧ x.style = .softwareTimer

instance (x : Tick) : Decidable x.Fires := by unfold Tick.Fires; infer_instance

/-- The tick queue has the entries `es` and is well formed, and so are the ready lists. -/
structure TickQueueOk (k : Kernel) (es : List TickPtr) (tasks : ℕ → List TcbPtr) : Prop where
  /-- The links of the tick queue. -/
  ticks : Represents k.heap tickHead (es.map .tick)
  /-- A software timer has a callback. A delay has a task, which is not ready. -/
  entry : ∀ e ∈ es, ((k.tick e).style = .softwareTimer ∧ (k.tick e).func ≠ none) ∨
    (k.tick e).style = .delay ∧ ∃ n, (k.tick e).tcb = some (.task n) ∧
      k.prio (.task n) < SYSTEM_WORD ∧ ∀ p, .task n ∉ tasks p
  /-- No two delays have the same task. -/
  distinct : ∀ e ∈ es, ∀ e' ∈ es, (k.tick e).style = .delay → (k.tick e').style = .delay →
    (k.tick e).tcb = (k.tick e').tcb → e = e'
  /-- The links of the ready lists. -/
  ready : ∀ p < SYSTEM_WORD, Represents k.heap (readyHead p) ((tasks p).map .tcb)
  /-- No task is in two ready lists. -/
  apart : ∀ p < SYSTEM_WORD, ∀ q < SYSTEM_WORD, ∀ t ∈ tasks p, t ∈ tasks q → p = q
  /-- Only tasks are ready. -/
  isTask : ∀ p < SYSTEM_WORD, ∀ t ∈ tasks p, ∃ n, t = .task n
  /-- The bitmap agrees with the ready lists. -/
  bits : BitmapOk k.y k.c fun p => tasks p ≠ []

/-- What the loop of a call of `hardware_timer` does. -/
structure TraversedOnce (k : Kernel) (es : List TickPtr) (tasks : ℕ → List TcbPtr) (k' : Kernel) :
    Prop where
  /-- It comes to every entry once, in the order of the queue, and calls the callback of every timer
  that has expired once. -/
  log : ∃ new : List TimerEvent, k'.log = new.reverse ++ .start (k.fosTick + 1) :: k.log ∧
    new.filterMap TimerEvent.visited = es ∧ new.filterMap TimerEvent.called =
      (es.filter fun e => (k.tick e).Fires).map fun e => (e, (k.tick e).func, (k.tick e).funcArg)
  /-- An entry that has time left is counted down by one. -/
  counted : ∀ e ∈ es, (k.tick e).timeout ≠ TIMEOUT →
    k'.tick e = { k.tick e with timeout := (k.tick e).timeout - 1 }
  /-- An expired timer with period `CYCLE` is started again. -/
  reloaded : ∀ e ∈ es, (k.tick e).Fires → (k.tick e).period = CYCLE →
    k'.tick e = { k.tick e with timeout := (k.tick e).timeoutCopy }
  /-- Nothing else is counted down. -/
  kept : ∀ e, e ∉ es ∨ (k.tick e).Leaves → k'.tick e = k.tick e
  /-- The expired one-shot timers and delays have left the queue, and no others. -/
  ticks : Represents k'.heap tickHead ((es.filter fun e => ¬ (k.tick e).Leaves).map .tick)
  /-- The tasks of the expired delays are behind the others in the ready lists of their priorities,
  in the order of the queue. -/
  ready : ∀ p < SYSTEM_WORD, Represents k'.heap (readyHead p)
    ((tasks p ++ (es.filterMap fun e => (k.tick e).woken).filter (k.prio · = p)).map .tcb)
  /-- The bitmap agrees with the ready lists. -/
  bits : BitmapOk k'.y k'.c fun p =>
    tasks p ++ (es.filterMap fun e => (k.tick e).woken).filter (k.prio · = p) ≠ []
  /-- Of the variables, the `TICK`s, the log and `fos_tick` may have changed. -/
  vars : k'.toVars = { k.toVars with tick := k'.tick, log := k'.log, fosTick := k.fosTick + 1 }

variable {live : Node → Bool} {k k' : Kernel} {a a' : Abs} {e : TickPtr} {es : List TickPtr}
  {tasks : ℕ → List TcbPtr}

/-! ## The loop -/

/-- What the loop needs of the entries that are still to come. -/
structure Entries (a : Abs) (es : List TickPtr) : Prop where
  entry : ∀ e ∈ es, ((a.tick e).style = .softwareTimer ∧ (a.tick e).func ≠ none) ∨
    (a.tick e).style = .delay ∧ ∃ n, (a.tick e).tcb = some (.task n) ∧
      a.prio (.task n) < SYSTEM_WORD ∧ ∀ q, .task n ∉ a.tasks q
  distinct : ∀ e ∈ es, ∀ e' ∈ es, (a.tick e).style = .delay → (a.tick e').style = .delay →
    (a.tick e).tcb = (a.tick e').tcb → e = e'

/-- The other entries are as they were after the first one, which may have woken its task. -/
theorem Entries.tail (h : Entries a (e :: es)) (hn : e ∉ es) (hprio : a'.prio = a.prio)
    (htick : ∀ e' ∈ es, a'.tick e' = a.tick e')
    (htasks : ∀ q t, t ∈ a'.tasks q → t ∈ a.tasks q ∨
      (a.tick e).style = .delay ∧ (a.tick e).tcb = some t) : Entries a' es where
  entry e' he' := by
    rw [htick e' he', hprio]
    refine (h.entry e' (List.mem_cons_of_mem _ he')).imp_right ?_
    rintro ⟨hstyle, n, htcb, hlt, hfree⟩
    refine ⟨hstyle, n, htcb, hlt, fun q hm => ?_⟩
    rcases htasks q _ hm with hold | ⟨hstyle', htcb'⟩
    · exact hfree q hold
    · exact hn (h.distinct e (by simp) e' (List.mem_cons_of_mem _ he') hstyle' hstyle
        (htcb'.trans htcb.symm) ▸ he')
  distinct e₁ h₁ e₂ h₂ := by
    rw [htick e₁ h₁, htick e₂ h₂]
    exact h.distinct e₁ (List.mem_cons_of_mem _ h₁) e₂ (List.mem_cons_of_mem _ h₂)

/-- The loop of `hardware_timer`, with passive callbacks, is the pass over the entries behind the
cursor. -/
theorem tickLoop_entries (call : ℕ) {x : Node} (es : List TickPtr) (h : Refines live k a)
    (hc : Cursor k a x es) (hn : a.ticks.Nodup) (he : Entries a es) :
    ∃ k' a', k.tickLoop passive call x = some (k', none) ∧
      a.pass passive call es = some (a', none) ∧ Refines live k' a' := by
  induction es generalizing k a x with
  | nil =>
    have hlast : isListLast k.heap x = true := by simp [isListLast, hc.next]
    exact ⟨k, a, Kernel.tickLoop_of_last hlast, rfl, h⟩
  | cons e es ih =>
    have hnext : (k.heap x).next = .tick e := hc.next
    have hlast : ¬ isListLast k.heap x = true := by
      simp only [isListLast, hnext, decide_eq_true_eq]
      exact fun heq => hc.not_mem (by simp [heq])
    have hnotin : e ∉ es := (List.nodup_cons.mp (hn.sublist hc.suffix.sublist)).1
    rw [Kernel.tickLoop_passive hlast hnext, Kernel.tickBodyWith, Abs.pass]
    dsimp only
    -- The visit is noted, and nothing else has changed yet.
    have h₀ : Refines live (k.note (.visit call e (k.tick e).timeout))
        (a.note (.visit call e (a.tick e).timeout)) := h.tick_eq ▸ h.note _
    have he₀ : Entries (a.note (.visit call e (a.tick e).timeout)) (e :: es) :=
      ⟨he.entry, he.distinct⟩
    have hsuf₀ : e :: es <:+ (a.note (.visit call e (a.tick e).timeout)).ticks := hc.suffix
    have hn₀ : (a.note (.visit call e (a.tick e).timeout)).ticks.Nodup := hn
    generalize k.note (.visit call e (k.tick e).timeout) = k₀ at *
    generalize a.note (.visit call e (a.tick e).timeout) = a₀ at *
    have hmem₀ : e ∈ a₀.ticks := hsuf₀.subset (by simp)
    rw [h₀.tick_eq]
    by_cases hzero : (a₀.tick e).timeout = TIMEOUT
    · rw [if_pos hzero, if_pos hzero]
      rcases he₀.entry e (by simp) with ⟨hstyle, hfunc⟩ | ⟨hstyle, n, htcb, hlt, hfree⟩
      · obtain ⟨f, hf⟩ := Option.ne_none_iff_exists'.mp hfunc
        simp only [hstyle, hf, Option.bind_eq_bind, Option.bind_some, passive, Abs.runCallback]
        have h₁ := h₀.note (.callback call e f (a₀.tick e).funcArg)
        have hsuf₁ : e :: es <:+ (a₀.note (.callback call e f (a₀.tick e).funcArg)).ticks := hsuf₀
        unfold Kernel.afterCallback Abs.afterCallback
        rw [h₁.tick_eq]
        -- The timer is started again, or it leaves the queue.
        by_cases hcycle : ((a₀.note (.callback call e f (a₀.tick e).funcArg)).tick e).period = CYCLE
        · rw [if_pos hcycle, if_pos hcycle]
          refine ih (h₁.setTick _ _) ((h₁.cursor_entry hsuf₁).congr rfl rfl) hn₀ ?_
          exact he₀.tail hnotin rfl
            (fun e' he' => update_of_ne (ne_of_mem_of_not_mem he' hnotin) _ _)
            fun q t hm => Or.inl hm
        · rw [if_neg hcycle, if_neg hcycle]
          exact ih (h₁.tickQueueDelete hmem₀) (h₁.cursor_deleted hsuf₁ hn₀) (hn₀.erase e)
            (he₀.tail hnotin rfl (fun _ _ => rfl) fun q t hm => Or.inl hm)
      · obtain ⟨k₁, hk₁, h₁, hheap⟩ := (h₀.tickQueueDelete hmem₀).prioReadyQueueInsertTail hfree
          ⟨n, rfl⟩ rfl hlt
        have htcb' : ((k₀.tickQueueDelete e).tick e).tcb = some (.task n) := by
          rw [← htcb, ← h₀.tick_eq]
          rfl
        simp only [hstyle, htcb', hk₁, Abs.wakeDelay, htcb, Option.bind_eq_bind, Option.bind_some]
        refine ih h₁ ((h₀.cursor_deleted hsuf₀ hn₀).congr (by rw [hheap]) rfl) (hn₀.erase e) ?_
        refine he₀.tail hnotin rfl (fun _ _ => rfl) fun q t hm => ?_
        rcases eq_or_ne q (.ready (a₀.prio (.task n))) with rfl | hq
        · have hm' : t ∈ a₀.tasks (.ready (a₀.prio (.task n))) ++ [.task n] := by
            simpa [Abs.pushTail, Abs.dropTick] using hm
          rcases List.mem_append.mp hm' with hold | hnew
          · exact Or.inl hold
          · exact Or.inr ⟨hstyle, by rw [htcb, List.mem_singleton.mp hnew]⟩
        · exact Or.inl (by simpa [Abs.pushTail, Abs.dropTick, hq] using hm)
    · rw [if_neg hzero, if_neg hzero]
      refine ih (h₀.setTick _ _) ((h₀.cursor_entry hsuf₀).congr rfl rfl) hn₀ ?_
      exact he₀.tail hnotin rfl (fun e' he' => update_of_ne (ne_of_mem_of_not_mem he' hnotin) _ _)
        fun q t hm => Or.inl hm

/-! ## The whole call -/

/-- The tick queue and the ready lists, without the other lists. -/
def Kernel.over (k : Kernel) (es : List TickPtr) (tasks : ℕ → List TcbPtr) : Abs :=
  ⟨k.toVars, ⟨fun q => match q with | .ready p => tasks p | _ => [], es, fun _ => []⟩⟩

/-- The lists of a well formed tick queue. -/
theorem TickQueueOk.refines (h : TickQueueOk k es tasks) :
    Refines (fun _ => false) k (k.over es tasks) where
  vars := rfl
  lists := by
    refine ⟨fun n hn => ?_, fun n n' x hn hn' hx hx' => ?_, fun n x hn hx hx' => ?_⟩
    · match n with
      | .tcb (.prioQueue p) => exact h.ready p hn
      | .tick .tickQueue => exact h.ticks
    -- Two lists of ready tasks share no task, and a tick entry is no task.
    · match n, n' with
      | .tcb (.prioQueue p), .tcb (.prioQueue q) =>
        obtain ⟨t, ht, rfl⟩ := List.mem_map.mp hx
        obtain ⟨t', ht', heq⟩ := List.mem_map.mp hx'
        rw [h.apart p hn q hn' t ht (Node.tcb.inj heq ▸ ht')]
      | .tcb (.prioQueue p), .tick .tickQueue =>
        obtain ⟨t, -, rfl⟩ := List.mem_map.mp hx
        obtain ⟨e, -, heq⟩ := List.mem_map.mp hx'
        cases heq
      | .tick .tickQueue, .tcb (.prioQueue p) =>
        obtain ⟨e, -, rfl⟩ := List.mem_map.mp hx
        obtain ⟨t, -, heq⟩ := List.mem_map.mp hx'
        cases heq
      | .tick .tickQueue, .tick .tickQueue => rfl
    · match n with
      | .tcb (.prioQueue p) =>
        obtain ⟨t, ht, rfl⟩ := List.mem_map.mp hx
        obtain ⟨i, rfl⟩ := h.isTask p hn t ht
        exact hx'
      | .tick .tickQueue =>
        obtain ⟨e, he, rfl⟩ := List.mem_map.mp hx
        -- The head of the tick queue is not an entry of it.
        match e with
        | .tickQueue => exact (List.nodup_cons.mp h.ticks.nodup).1 hx
  bits := h.bits

/-- The visits of a pass are to its entries, in order. -/
theorem visited_noted (tick : TickPtr → Tick) (call : ℕ) (es : List TickPtr) :
    (es.flatMap fun e => ((tick e).noted call e).reverse).filterMap TimerEvent.visited = es := by
  induction es with
  | nil => rfl
  | cons e es ih =>
    rw [List.flatMap_cons, List.filterMap_append, ih]
    have hone : ((tick e).noted call e).reverse.filterMap TimerEvent.visited = [e] := by
      unfold Tick.noted
      cases (tick e).func <;> split_ifs <;> rfl
    rw [hone]
    rfl

/-- The callback of an entry is called when it is an expired timer. -/
theorem Tick.called_noted (x : Tick) (call : ℕ) (e : TickPtr)
    (hfunc : x.style = .softwareTimer → x.func ≠ none) :
    (x.noted call e).reverse.filterMap TimerEvent.called =
      if x.Fires then [(e, x.func, x.funcArg)] else [] := by
  by_cases hfires : x.Fires
  · obtain ⟨f, hf⟩ := Option.ne_none_iff_exists'.mp (hfunc hfires.2)
    have hexpired : x.timeout = TIMEOUT ∧ x.style = .softwareTimer := hfires
    rw [Tick.noted, if_pos hexpired, if_pos hfires, hf]
    rfl
  · have hexpired : ¬ (x.timeout = TIMEOUT ∧ x.style = .softwareTimer) := hfires
    rw [Tick.noted, if_neg hexpired, if_neg hfires]
    rfl

/-- The callbacks of a pass are those of the expired timers among its entries, in order. -/
theorem called_noted (tick : TickPtr → Tick) (call : ℕ) {es : List TickPtr}
    (hfunc : ∀ e ∈ es, (tick e).style = .softwareTimer → (tick e).func ≠ none) :
    (es.flatMap fun e => ((tick e).noted call e).reverse).filterMap TimerEvent.called =
      (es.filter fun e => (tick e).Fires).map fun e => (e, (tick e).func, (tick e).funcArg) := by
  induction es with
  | nil => rfl
  | cons e es ih =>
    rw [List.flatMap_cons, List.filterMap_append,
      ih fun e' he' => hfunc e' (List.mem_cons_of_mem _ he'), List.filter_cons,
      (tick e).called_noted call e (hfunc e (by simp))]
    by_cases hfires : (tick e).Fires <;> simp [hfires]

/-- A call of `hardware_timer` with passive callbacks, on any well-formed tick queue, ends, and
comes to every entry once. -/
theorem hardware_timer_once (h : TickQueueOk k es tasks) : ∃ k',
    k.passiveLoop = some (k', none) ∧
      k.hardwareTimer passive = k'.schedule.map (·, none) ∧ TraversedOnce k es tasks k' := by
  -- The state in which the loop starts: the tick has been counted, and the start noted.
  have hcount : Refines (fun _ => false) { k with fosTick := k.fosTick + 1 }
      { k.over es tasks with fosTick := k.fosTick + 1 } := h.refines.congr rfl rfl rfl rfl rfl
  have hstart : Refines (fun _ => false)
      (Kernel.note { k with fosTick := k.fosTick + 1 } (.start (k.fosTick + 1)))
      (Abs.note { k.over es tasks with fosTick := k.fosTick + 1 } (.start (k.fosTick + 1))) :=
    hcount.note _
  -- The tasks that sleep are in no list of waiting tasks, of which there are none here.
  have hn : es.Nodup := List.Nodup.of_map _ (List.nodup_cons.mp h.ticks.nodup).2
  have hentries : Entries
      (Abs.note { k.over es tasks with fosTick := k.fosTick + 1 } (.start (k.fosTick + 1))) es := by
    refine ⟨fun e he => (h.entry e he).imp_right ?_, h.distinct⟩
    rintro ⟨hstyle, n, htcb, hlt, hfree⟩
    refine ⟨hstyle, n, htcb, hlt, fun q => ?_⟩
    cases q with
    | ready p => exact hfree p
    | sem | mutex | queue => exact List.not_mem_nil
  obtain ⟨k', a', hk, ha, href⟩ := tickLoop_entries (k.fosTick + 1) es hstart hstart.cursor_head hn
    hentries
  obtain ⟨-, hpassed⟩ := Abs.passed_pass hn hn ha
  obtain ⟨seen, rest, hl, htrav, hdone, -⟩ := Abs.traversed_pass hn hn ha
  obtain rfl : es = seen := by simpa [hdone rfl] using hl
  refine ⟨k', hk, ?_, ?_⟩
  · show k.passiveLoop.bind Kernel.tickEnd = _
    rw [show k.passiveLoop = some (k', none) from hk]
    rfl
  -- What the pass leaves, entry by entry and list by list.
  have htick : ∀ e, k'.tick e = if e ∈ es then (k.tick e).passed else k.tick e := fun e => by
    rw [href.tick_eq]
    exact hpassed.tick e
  have hready : ∀ p, a'.tasks (.ready p) =
      tasks p ++ (es.filterMap fun e => (k.tick e).woken).filter (k.prio · = p) := hpassed.ready
  refine ⟨?_, fun e he hne => ?_, fun e he hfires hcycle => ?_, fun e he => ?_, ?_,
    fun p hp => ?_, ?_, ?_⟩
  -- The events in order: every entry is visited once, and a timer that fires is called in its
  -- turn.
  · refine ⟨es.flatMap fun e => ((k.tick e).noted (k.fosTick + 1) e).reverse, ?_,
      visited_noted _ _ _, called_noted _ _ fun e he hs => ?_⟩
    · have hlog : k'.log = a'.log := by rw [href.vars]
      rw [hlog, htrav.log, List.reverse_flatMap]
      simp only [Function.comp_def, List.reverse_reverse]
      rfl
    · exact ((h.entry e he).resolve_right fun hd => by simp [hs] at hd).2
  · rw [htick e, if_pos he, Tick.passed, if_neg hne]
  · rw [htick e, if_pos he, Tick.passed, if_pos hfires.1, if_pos ⟨hfires.2, hcycle⟩]
  · rw [htick e]
    rcases he with he | hl
    · rw [if_neg he]
    · -- An entry that leaves the queue is left as it is.
      have hnot : ¬ ((k.tick e).style = .softwareTimer ∧ (k.tick e).period = CYCLE) := by
        rintro ⟨hstyle, hcycle⟩
        rcases hl.2 with hd | ⟨-, hne⟩
        · simp [hstyle] at hd
        · exact hne hcycle
      rw [Tick.passed, if_pos hl.1, if_neg hnot, ite_self]
  -- The tick queue keeps what does not leave it, in order.
  · have hticks : a'.ticks = es.filter fun e => ¬ (e ∈ es ∧ (k.tick e).Leaves) := hpassed.ticks
    have hsame : (es.filter fun e => ¬ (e ∈ es ∧ (k.tick e).Leaves)) =
        es.filter fun e => ¬ (k.tick e).Leaves := List.filter_congr fun e he => by simp [he]
    exact (hticks.trans hsame) ▸ href.rep_ticks
  · rw [← hready p]
    exact href.rep (q := .ready p) hp
  · exact href.bits.congr fun p _ => by rw [hready p]
  · have hvars := hpassed.vars
    rw [href.vars] at hvars
    exact hvars

/-! ## The tick queues of the running system -/

/-- The tick queue of every reachable state is well formed. -/
theorem Core.tickQueueOk {hst : Hist} {s : Sys Kernel} (h : Core hst s a) :
    TickQueueOk s.k a.ticks fun p => a.tasks (.ready p) := by
  obtain ⟨href, w, -⟩ := h.sim
  have htasks := w.tasks
  refine ⟨href.rep_ticks, fun e he => ?_, fun e he e' he' hs hs' heq => ?_,
    fun p hp => href.rep (q := .ready p) hp,
    fun p _ q _ t ht ht' => TaskQueue.ready.inj (htasks.apart _ _ t ht ht'),
    fun p _ t ht => htasks.isTask t (htasks.live_of_mem _ t ht), href.bits⟩
  · rw [href.tick_eq, href.prio_eq]
    match e with
    | .tickQueue => exact absurd he w.ticks.head
    | .timer n => exact Or.inl (w.ticks.timer n he)
    | .delay t =>
      obtain ⟨hlive, htcb, hfree⟩ := w.sleeping he
      obtain ⟨n, rfl⟩ := htasks.isTask t hlive
      exact Or.inr ⟨(w.ticks.delay _ he).2.2, n, htcb, htasks.prio_lt _ hlive, fun p => hfree _⟩
  · rw [href.tick_eq] at hs hs' heq
    -- An entry whose style is `DELAY` is the `delay` of its task.
    have hdelay : ∀ e ∈ a.ticks, (a.tick e).style = .delay → ∃ t, e = .delay t ∧
        (a.tick e).tcb = some t := by
      rintro e he hs
      match e with
      | .tickQueue => exact absurd he w.ticks.head
      | .timer n => simp [(w.ticks.timer n he).1] at hs
      | .delay t => exact ⟨t, rfl, (w.ticks.delay t he).2.1⟩
    obtain ⟨t, rfl, ht⟩ := hdelay e he hs
    obtain ⟨t', rfl, ht'⟩ := hdelay e' he' hs'
    rw [ht, ht', Option.some_inj] at heq
    rw [heq]

/-- `timer 0` with period `CYCLE`, the one-shot `timer 1`, and the `delay` of `task 1` are in the
tick queue, and none has time left. -/
def allExpired : List Move := [
  .call (.taskCreate (some (.task 1)) (some 0) (some 0) 5),
  .call (.timerReq (some (.timer 0)) (some 0) 1 CYCLE 0),
  .call (.timerReq (some (.timer 1)) (some 0) 1 0 0),
  .start, .tick, .call (.osDelay 0)]

/-- The next tick after `allExpired` comes to the three entries. -/
theorem hardware_timer_once_allExpired : ∃ tr s k' tasks, SysRun PassiveUsage tr s ∧
    tr.map Prod.snd = (allExpired.map Move.act).reverse ∧
    (∀ e ∈ [TickPtr.timer 0, .timer 1, .delay (.task 1)], (s.k.tick e).timeout = TIMEOUT) ∧
    s.k.passiveLoop = some (k', none) ∧
    TraversedOnce s.k [.timer 0, .timer 1, .delay (.task 1)] tasks k' := by
  have hsome : ((replay (fun _ _ _ => true) allExpired [] Sys.zero).map fun r =>
      decide (r.2.k.ticks = [.timer 0, .timer 1, .delay (.task 1)] ∧
        ∀ e ∈ r.2.k.ticks, (r.2.k.tick e).timeout = TIMEOUT)) = some true := by decide
  obtain ⟨⟨trA, sA⟩, hreplay, hdec⟩ := Option.map_eq_some_iff.mp hsome
  obtain ⟨tr, s, a, hrun, hcore, -, rfl, hacts⟩ := replay_run PassiveUsage
    (fun _ _ _ _ m _ _ _ hu _ => ⟨hu, m.passive_act⟩) hreplay
  obtain ⟨hticks, hzero⟩ := of_decide_eq_true hdec
  have hok := hcore.tickQueueOk
  rw [show a.ticks = _ from hticks] at hok
  obtain ⟨k', hk, -, honce⟩ := hardware_timer_once hok
  refine ⟨tr, s, k', _, hrun, hacts, fun e he => ?_, hk, honce⟩
  rw [hcore.sim.refines.tick_eq]
  exact hzero e (hticks ▸ he)

end Fos
