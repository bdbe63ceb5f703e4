import Fos.Effect

/-!
# What a pass over the tick queue does

A callback only moves tasks, changes semaphores, and selects (`Abs.PutFrom`). A pass does the same,
counts entries down, and takes entries out of the tick queue (`Abs.PassFrom`): of the entries that
are still to come it takes out those that have expired, and it never takes out a timer with period
`CYCLE`.
-/

namespace Fos

open Function

variable {a a' b : Abs} {e : TickPtr} {es : List TickPtr} {o : Oracle} {call : ℕ}

/-- `a'` comes from `a` by steps that only move tasks, change semaphores, and select. -/
structure Abs.PutFrom (a a' : Abs) : Prop where
  /-- Of the variables, the semaphores and the selected tasks may change. -/
  vars : a'.toVars = { a.toVars with
    sem := a'.sem, newTask := a'.newTask, oldTask := a'.oldTask }
  /-- The tick queue stays. -/
  ticks : a'.ticks = a.ticks
  /-- The messages stay. -/
  msgs : a'.msgs = a.msgs

namespace Abs.PutFrom

theorem refl (a : Abs) : a.PutFrom a := ⟨rfl, rfl, rfl⟩

theorem trans (h : a.PutFrom b) (h' : b.PutFrom a') : a.PutFrom a' :=
  ⟨by rw [h'.vars, h.vars], h'.ticks.trans h.ticks, h'.msgs.trans h.msgs⟩

theorem tick (h : a.PutFrom a') : a'.tick = a.tick := by rw [h.vars]

theorem log (h : a.PutFrom a') : a'.log = a.log := by rw [h.vars]

end Abs.PutFrom

/-- What `sem_put` changes before it schedules. -/
theorem Abs.putFrom_semRelease (i : ℕ) : a.PutFrom (a.semRelease i) := by
  unfold Abs.semRelease Abs.wakeFirst
  split_ifs
  · split <;> exact ⟨rfl, rfl, rfl⟩
  · exact ⟨rfl, rfl, rfl⟩
  · exact .refl a

/-- What `sem_put` changes. -/
theorem Abs.putFrom_semPut {i : Option ℕ} {r : Ret} (h : a.semPut i = some (a', r)) :
    a.PutFrom a' := by
  cases i with
  | none =>
    obtain ⟨rfl, -⟩ := Prod.mk.inj (Option.some.inj h)
    exact .refl a
  | some s =>
    refine (a.putFrom_semRelease s).trans ?_
    rcases Abs.selected_of_schedule h with rfl | ⟨p, u, -, rfl⟩
    · exact .refl _
    · exact ⟨by simp [Abs.select_vars], by simp, by simp⟩

/-- What a callback changes, and what it has still to do when it is switched out. -/
theorem Abs.putFrom_runCallback {puts : List ℕ} {rest : Option (List ℕ)}
    (h : a.runCallback puts = some (a', rest)) :
    a.PutFrom a' ∧ ∀ l, rest = some l → ∀ i ∈ l, i ∈ puts := by
  induction puts generalizing a with
  | nil =>
    obtain ⟨rfl, rfl⟩ := Prod.mk.inj (Option.some.inj h)
    exact ⟨.refl a, by simp⟩
  | cons i puts ih =>
    obtain ⟨⟨b, r⟩, hput, h⟩ := Option.bind_eq_some_iff.mp h
    have hb := Abs.putFrom_semPut hput
    dsimp only at h
    split_ifs at h with hnew
    · obtain ⟨hrun, hrest⟩ := ih h
      exact ⟨hb.trans hrun, fun l hl j hj => List.mem_cons_of_mem i (hrest l hl j hj)⟩
    · obtain ⟨rfl, rfl⟩ := Prod.mk.inj (Option.some.inj h)
      refine ⟨hb, fun l hl j hj => ?_⟩
      rw [Option.some.injEq] at hl
      exact List.mem_cons_of_mem i (hl ▸ hj)

/-- `a'` comes from `a` by a pass over the entries `es`. -/
structure Abs.PassFrom (es : List TickPtr) (a a' : Abs) : Prop where
  /-- Of the variables, the ticks, the semaphores, the selected tasks, and the log may change. -/
  vars : a'.toVars = { a.toVars with
    tick := a'.tick, sem := a'.sem, newTask := a'.newTask, oldTask := a'.oldTask, log := a'.log }
  /-- The messages stay. -/
  msgs : a'.msgs = a.msgs
  /-- Of a tick, the `timeout` may change. -/
  tick : ∀ e, ∃ n, a'.tick e = { a.tick e with timeout := n }
  /-- No entry enters the tick queue. -/
  subset : ∀ e ∈ a'.ticks, e ∈ a.ticks
  /-- Only entries of `es` leave it. -/
  mem_of_not_mem : ∀ e ∈ a.ticks, e ∉ es → e ∈ a'.ticks
  /-- Timers with period `CYCLE` do not leave it. -/
  mem_of_cycle : ∀ n, .timer n ∈ a.ticks → (a.tick (.timer n)).period = CYCLE → .timer n ∈ a'.ticks

namespace Abs.PassFrom

theorem refl (es : List TickPtr) (a : Abs) : a.PassFrom es a :=
  ⟨rfl, rfl, fun e => ⟨(a.tick e).timeout, rfl⟩, fun _ => id, fun _ he _ => he, fun _ he _ => he⟩

/-- Of a tick, the `period` stays. -/
theorem period (h : a.PassFrom es a') (e : TickPtr) : (a'.tick e).period = (a.tick e).period := by
  obtain ⟨n, hn⟩ := h.tick e
  rw [hn]

/-- Of a tick, the `style` stays. -/
theorem style (h : a.PassFrom es a') (e : TickPtr) : (a'.tick e).style = (a.tick e).style := by
  obtain ⟨n, hn⟩ := h.tick e
  rw [hn]

theorem mono {es' : List TickPtr} (h : a.PassFrom es a') (hes : ∀ e ∈ es, e ∈ es') :
    a.PassFrom es' a' :=
  { h with mem_of_not_mem := fun e he hne => h.mem_of_not_mem e he fun hm => hne (hes e hm) }

theorem trans (h : a.PassFrom es b) (h' : b.PassFrom es a') : a.PassFrom es a' where
  vars := by rw [h'.vars, h.vars]
  msgs := h'.msgs.trans h.msgs
  tick e := by
    obtain ⟨n, hn⟩ := h.tick e
    obtain ⟨n', hn'⟩ := h'.tick e
    exact ⟨n', by rw [hn', hn]⟩
  subset e he := h.subset e (h'.subset e he)
  mem_of_not_mem e he hne := h'.mem_of_not_mem e (h.mem_of_not_mem e he hne) hne
  mem_of_cycle n hn hc := h'.mem_of_cycle n (h.mem_of_cycle n hn hc) (by rw [h.period, hc])

theorem of_putFrom (es : List TickPtr) (h : a.PutFrom a') : a.PassFrom es a' where
  vars := by rw [h.vars]
  msgs := h.msgs
  tick e := ⟨(a.tick e).timeout, by rw [h.tick]⟩
  subset e he := h.ticks ▸ he
  mem_of_not_mem e he _ := h.ticks.symm ▸ he
  mem_of_cycle n hn _ := h.ticks.symm ▸ hn

theorem note (es : List TickPtr) (a : Abs) (ev : TimerEvent) : a.PassFrom es (a.note ev) where
  vars := rfl
  msgs := rfl
  tick e := ⟨(a.tick e).timeout, rfl⟩
  subset _ he := he
  mem_of_not_mem _ he _ := he
  mem_of_cycle _ hn _ := hn

/-- A new `timeout`. -/
theorem setTimeout (es : List TickPtr) (a : Abs) (e : TickPtr) (n : ℕ) :
    a.PassFrom es (a.setTick e { a.tick e with timeout := n }) where
  vars := rfl
  msgs := rfl
  tick e' := by
    rcases eq_or_ne e' e with rfl | hne
    · exact ⟨n, by simp [Abs.setTick]⟩
    · exact ⟨(a.tick e').timeout, by simp [Abs.setTick, hne]⟩
  subset _ he := he
  mem_of_not_mem _ he _ := he
  mem_of_cycle _ hn _ := hn

/-- An entry that leaves the tick queue. -/
theorem drop (he : e ∈ es) (hc : ∀ n, e = .timer n → (a.tick e).period ≠ CYCLE)
    (hticks : b.ticks = a.ticks.erase e) (hmsgs : b.msgs = a.msgs) (hvars : b.toVars = a.toVars) :
    a.PassFrom es b where
  vars := by rw [hvars]
  msgs := hmsgs
  tick e' := ⟨(a.tick e').timeout, by rw [hvars]⟩
  subset e' he' := List.mem_of_mem_erase (hticks ▸ he')
  mem_of_not_mem e' he' hne := by
    rw [hticks]
    refine (List.mem_erase_of_ne fun heq => hne ?_).mpr he'
    rwa [heq]
  mem_of_cycle n hn hcycle := by
    rw [hticks]
    refine (List.mem_erase_of_ne fun heq => ?_).mpr hn
    exact hc n heq.symm (heq ▸ hcycle)

end Abs.PassFrom

/-- What happens to a timer when its callback has returned. -/
theorem Abs.passFrom_afterCallback (a : Abs) (he : e ∈ es) : a.PassFrom es (a.afterCallback e) := by
  unfold Abs.afterCallback
  split_ifs with hc
  · exact .setTimeout es a e _
  · exact .drop he (fun _ _ => hc) rfl rfl rfl

/-- Where a pass over the entries `es` is suspended: at a timer of them that stays queued. -/
structure TimerFrame.At (g : TimerFrame) (o : Oracle) (es : List TickPtr) (a a' : Abs) : Prop where
  mem : g.entry ∈ es
  style : (a.tick g.entry).style = .softwareTimer
  queued : g.entry ∈ a.ticks → g.entry ∈ a'.ticks
  puts : ∀ i ∈ g.puts, i ∈ o g.entry

/-- One entry of a pass, and the rest of it. -/
theorem TimerFrame.At.cons {g : TimerFrame} (h : g.At o es b a') (hb : a.PassFrom [e] b)
    (he : e ∉ es) : g.At o (e :: es) a a' where
  mem := List.mem_cons_of_mem e h.mem
  style := by rw [← hb.style, h.style]
  queued hq := h.queued (hb.mem_of_not_mem _ hq fun hm => he (List.mem_singleton.mp hm ▸ h.mem))
  puts := h.puts

/-- What a pass does, and where it is suspended. -/
theorem Abs.passFrom_pass {f : Option TimerFrame} (hn : es.Nodup)
    (hstyle : ∀ n, .timer n ∈ es → (a.tick (.timer n)).style = .softwareTimer)
    (h : a.pass o call es = some (a', f)) :
    a.PassFrom es a' ∧ ∀ g, f = some g → g.At o es a a' := by
  induction es generalizing a with
  | nil =>
    obtain ⟨rfl, rfl⟩ := Prod.mk.inj (Option.some.inj h)
    exact ⟨.refl [] a, by simp⟩
  | cons e es ih =>
    obtain ⟨he, hn⟩ := List.nodup_cons.mp hn
    -- One entry is done, and the pass goes on.
    have hrest : ∀ b, a.PassFrom [e] b → b.pass o call es = some (a', f) →
        a.PassFrom (e :: es) a' ∧ ∀ g, f = some g → g.At o (e :: es) a a' := by
      intro b hb hpass
      obtain ⟨hes, hat⟩ := ih hn (fun n hn => by
        rw [hb.style, hstyle n (List.mem_cons_of_mem e hn)]) hpass
      exact ⟨(hb.mono (by simp)).trans (hes.mono fun _ => List.mem_cons_of_mem e),
        fun g hg => (hat g hg).cons hb he⟩
    have hvisit := Abs.PassFrom.note [e] a (.visit call e (a.tick e).timeout)
    have hstyle₀ := hvisit.style e
    have hticks₀ : (a.note (.visit call e (a.tick e).timeout)).ticks = a.ticks := rfl
    rw [Abs.pass] at h
    dsimp only at h
    generalize a.note (.visit call e (a.tick e).timeout) = a₀ at *
    split_ifs at h with hzero
    · split at h
      · -- An expired timer.
        next htimer =>
        obtain ⟨func, -, h⟩ := Option.bind_eq_some_iff.mp h
        obtain ⟨⟨b, rest⟩, hrun, h⟩ := Option.bind_eq_some_iff.mp h
        obtain ⟨hput, hputs⟩ := Abs.putFrom_runCallback hrun
        have hb : a.PassFrom [e] b :=
          hvisit.trans ((Abs.PassFrom.note [e] a₀ _).trans (.of_putFrom _ hput))
        cases rest with
        | some puts =>
          obtain ⟨rfl, rfl⟩ := Prod.mk.inj (Option.some.inj h)
          refine ⟨hb.mono (by simp), fun g hg => ?_⟩
          obtain rfl := Option.some.inj hg
          exact ⟨by simp, hstyle₀ ▸ htimer, fun hq => by rwa [hput.ticks, ← hticks₀] at *,
            hputs puts rfl⟩
        | none => exact hrest _ (hb.trans (b.passFrom_afterCallback (by simp))) h
      · -- A sleeping task.
        next hdelay =>
        obtain ⟨b, hwake, h⟩ := Option.bind_eq_some_iff.mp h
        obtain ⟨t, -, hb⟩ := Option.bind_eq_some_iff.mp hwake
        refine hrest b (hvisit.trans (.drop (e := e) (by simp) ?_ ?_ ?_ ?_)) h
        · rintro n rfl
          rw [hstyle₀, hstyle n (by simp)] at hdelay
          exact absurd hdelay (by simp)
        all_goals rw [← Option.some.inj hb]; rfl
      · exact hrest _ hvisit h
    · exact hrest _ (hvisit.trans (.setTimeout _ _ _ _)) h

/-! ## Passive callbacks -/

/-- What a pass makes of a tick when its callback is passive. -/
def Tick.passed (x : Tick) : Tick :=
  if x.timeout = TIMEOUT then
    if x.style = .softwareTimer ∧ x.period = CYCLE then { x with timeout := x.timeoutCopy } else x
  else { x with timeout := x.timeout - 1 }

/-- A pass takes the entry out of the tick queue when its callback is passive. -/
def Tick.Leaves (x : Tick) : Prop :=
  x.timeout = TIMEOUT ∧ (x.style = .delay ∨ x.style = .softwareTimer ∧ x.period ≠ CYCLE)

instance (x : Tick) : Decidable x.Leaves := by unfold Tick.Leaves; infer_instance

/-- The task that a pass wakes at the entry. -/
def Tick.woken (x : Tick) : Option TcbPtr :=
  if x.timeout = TIMEOUT ∧ x.style = .delay then x.tcb else none

/-- `a'` comes from `a` by a pass over the entries `es` whose callbacks are passive. -/
structure Abs.Passed (es : List TickPtr) (a a' : Abs) : Prop where
  /-- Of the variables, the ticks and the log may change. -/
  vars : a'.toVars = { a.toVars with tick := a'.tick, log := a'.log }
  /-- The messages stay. -/
  msgs : a'.msgs = a.msgs
  /-- Every entry of the pass is counted down or started again. -/
  tick : ∀ e, a'.tick e = if e ∈ es then (a.tick e).passed else a.tick e
  /-- The entries that have expired leave the tick queue. -/
  ticks : a'.ticks = a.ticks.filter fun e => ¬ (e ∈ es ∧ (a.tick e).Leaves)
  /-- The tasks that wake go behind the ready ones, in the order of the pass. -/
  ready : ∀ p, a'.tasks (.ready p) =
    a.tasks (.ready p) ++ (es.filterMap fun e => (a.tick e).woken).filter (a.prio · = p)
  /-- The tasks that wait go on waiting. -/
  waiting : ∀ q, (∀ p, q ≠ .ready p) → a'.tasks q = a.tasks q

/-- One entry of a pass, and the rest of it. -/
theorem Abs.Passed.cons (hb : a.Passed [e] b) (he : e ∉ es) (h : b.Passed es a') :
    a.Passed (e :: es) a' := by
  have hsame : ∀ e' ∈ es, b.tick e' = a.tick e' := fun e' he' => by
    have hne : e' ∉ [e] := fun hm => by
      rw [List.mem_singleton.mp hm] at he'
      exact he he'
    rw [hb.tick, if_neg hne]
  have hprio : b.prio = a.prio := by rw [hb.vars]
  refine ⟨by rw [h.vars, hb.vars], h.msgs.trans hb.msgs, fun e' => ?_, ?_, fun p => ?_,
    fun q hq => (h.waiting q hq).trans (hb.waiting q hq)⟩
  · rw [h.tick, hb.tick]
    by_cases he' : e' = e
    · subst he'
      simp [he]
    · simp [he']
  · rw [h.ticks, hb.ticks, List.filter_filter]
    refine List.filter_congr fun e' _ => ?_
    by_cases hes : e' ∈ es
    · have hne : e' ≠ e := fun heq => he (heq ▸ hes)
      simp [hes, hne, hsame e' hes]
    · simp [hes]
  · have hwoken : es.filterMap (fun e' => (b.tick e').woken) =
        es.filterMap fun e' => (a.tick e').woken :=
      List.filterMap_congr fun e' he' => by rw [hsame e' he']
    rw [h.ready, hb.ready, hprio, hwoken, List.append_assoc, ← List.filter_append,
      ← List.filterMap_append, List.singleton_append]

/-- One entry of a pass. -/
theorem Abs.Passed.single (hn : a.ticks.Nodup)
    (hvars : b.toVars = { a.toVars with tick := update a.tick e (a.tick e).passed, log := b.log })
    (hmsgs : b.msgs = a.msgs)
    (hticks : b.ticks = if (a.tick e).Leaves then a.ticks.erase e else a.ticks)
    (htasks : b.tasks = match (a.tick e).woken with
      | some t => update a.tasks (.ready (a.prio t)) (a.tasks (.ready (a.prio t)) ++ [t])
      | none => a.tasks) : a.Passed [e] b where
  vars := by rw [hvars]
  msgs := hmsgs
  tick e' := by
    rw [hvars]
    by_cases he : e' = e
    · subst he
      simp
    · simp [he]
  ticks := by
    rw [hticks]
    split_ifs with hl
    -- An entry that leaves is erased, which is what the filter does without repetition.
    · rw [hn.erase_eq_filter]
      refine List.filter_congr fun e' _ => ?_
      by_cases he : e' = e
      · simp [he, hl]
      · simp [he]
    · rw [List.filter_eq_self.mpr]
      intro e' _
      by_cases he : e' = e
      · simp [he, hl]
      · simp [he]
  ready p := by
    rw [htasks]
    cases hw : (a.tick e).woken with
    | none => simp [hw]
    | some t =>
      -- The task that wakes up goes to the list of its priority only.
      by_cases hp : a.prio t = p
      · subst hp
        simp [hw]
      · have hne : TaskQueue.ready p ≠ .ready (a.prio t) := fun h => hp (TaskQueue.ready.inj h).symm
        simp [hw, hp, hne]
  waiting q hq := by
    rw [htasks]
    split
    · exact update_of_ne (hq _) _ _
    · rfl

/-- What a pass does when its callbacks are passive: it comes to its end. -/
theorem Abs.passed_pass {f : Option TimerFrame} (hn : es.Nodup) (hticks : a.ticks.Nodup)
    (h : a.pass passive call es = some (a', f)) : f = none ∧ a.Passed es a' := by
  induction es generalizing a with
  | nil =>
    obtain ⟨rfl, rfl⟩ := Prod.mk.inj (Option.some.inj h)
    exact ⟨rfl, rfl, rfl, by simp, by simp, by simp, by simp⟩
  | cons e es ih =>
    obtain ⟨he, hn⟩ := List.nodup_cons.mp hn
    -- One entry is done, and the pass goes on.
    have hrest : ∀ b, a.Passed [e] b → b.pass passive call es = some (a', f) →
        f = none ∧ a.Passed (e :: es) a' := by
      intro b hb hpass
      obtain ⟨hf, hes⟩ := ih hn (by rw [hb.ticks]; exact hticks.filter _) hpass
      exact ⟨hf, hb.cons he hes⟩
    rw [Abs.pass] at h
    dsimp only at h
    split_ifs at h with hzero
    · have hzero' : (a.tick e).timeout = TIMEOUT := hzero
      split at h
      · -- An expired timer, which is started again or leaves.
        next htimer =>
        have htimer' : (a.tick e).style = .softwareTimer := htimer
        obtain ⟨func, -, h⟩ := Option.bind_eq_some_iff.mp h
        refine hrest _ ?_ h
        by_cases hcycle : (a.tick e).period = CYCLE
        · refine .single hticks ?_ ?_ ?_ ?_ <;>
            simp [Abs.afterCallback, Abs.note, Abs.setTick, Tick.passed, Tick.Leaves, Tick.woken,
              hzero', htimer', hcycle]
        · refine .single hticks ?_ ?_ ?_ ?_ <;>
            simp [Abs.afterCallback, Abs.note, Abs.dropTick, Tick.passed, Tick.Leaves, Tick.woken,
              hzero', htimer', hcycle]
      · -- A sleeping task.
        next hdelay =>
        have hdelay' : (a.tick e).style = .delay := hdelay
        obtain ⟨b, hwake, h⟩ := Option.bind_eq_some_iff.mp h
        obtain ⟨t, ht, hb⟩ := Option.bind_eq_some_iff.mp hwake
        have ht' : (a.tick e).tcb = some t := ht
        refine hrest b ?_ h
        rw [← Option.some.inj hb]
        refine .single hticks ?_ ?_ ?_ ?_ <;>
          simp [Abs.note, Abs.dropTick, Abs.pushTail, Tick.passed, Tick.Leaves, Tick.woken, hzero',
            hdelay', ht']
      · next hother =>
        have hother' : (a.tick e).style = .other := hother
        refine hrest _ ?_ h
        refine .single hticks ?_ ?_ ?_ ?_ <;>
          simp [Abs.note, Tick.passed, Tick.Leaves, Tick.woken, hzero', hother']
    · have hzero' : (a.tick e).timeout ≠ TIMEOUT := hzero
      refine hrest _ ?_ h
      refine .single hticks ?_ ?_ ?_ ?_ <;>
        simp [Abs.countDown, Abs.setTick, Abs.note, Tick.passed, Tick.Leaves, Tick.woken, hzero']

/-! ## What a pass notes -/

/-- What a pass notes at an entry, the latest first. -/
def Tick.noted (x : Tick) (call : ℕ) (e : TickPtr) : List TimerEvent :=
  (if x.timeout = TIMEOUT ∧ x.style = .softwareTimer then
    (x.func.map fun func => .callback call e func x.funcArg).toList else []) ++
    [.visit call e x.timeout]

/-- A pass is suspended at the entry. -/
def SuspendedAt (f : Option TimerFrame) (e : TickPtr) : Prop := ∃ g, f = some g ∧ g.entry = e

instance (f : Option TimerFrame) (e : TickPtr) : Decidable (SuspendedAt f e) :=
  match f with
  | some g => decidable_of_iff (g.entry = e) (by simp [SuspendedAt])
  | none => isFalse (by simp [SuspendedAt])

@[simp] theorem not_suspendedAt_none : ¬ SuspendedAt none e := by simp [SuspendedAt]

@[simp] theorem suspendedAt_some {g : TimerFrame} : SuspendedAt (some g) e ↔ g.entry = e := by
  simp [SuspendedAt]

/-- `a'` comes from `a` by the visits of a pass to the entries `es`, after which it is over or
suspended. -/
structure Abs.Traversed (call : ℕ) (es : List TickPtr) (f : Option TimerFrame) (a a' : Abs) :
    Prop where
  /-- What has been noted. -/
  log : a'.log = (es.reverse.flatMap fun e => (a.tick e).noted call e) ++ a.log
  /-- Every entry is counted down or started again, unless the pass is suspended there. -/
  tick : ∀ e, a'.tick e =
    if e ∈ es ∧ ¬ SuspendedAt f e then (a.tick e).passed else a.tick e
  /-- The entries that have expired leave the tick queue, unless the pass is suspended there. -/
  ticks : a'.ticks =
    a.ticks.filter fun e => ¬ ((e ∈ es ∧ ¬ SuspendedAt f e) ∧ (a.tick e).Leaves)

/-- One entry of a pass, and the rest of it. -/
theorem Abs.Traversed.cons {f : Option TimerFrame} (hb : a.Traversed call [e] none b) (he : e ∉ es)
    (hf : ¬ SuspendedAt f e) (h : b.Traversed call es f a') : a.Traversed call (e :: es) f a' := by
  have hsame : ∀ e' ≠ e, b.tick e' = a.tick e' := fun e' hne => by
    rw [hb.tick, if_neg]
    simpa using hne
  refine ⟨?_, fun e' => ?_, ?_⟩
  · have hnoted : (es.reverse.flatMap fun e' => (b.tick e').noted call e') =
        es.reverse.flatMap fun e' => (a.tick e').noted call e' := by
      refine List.flatMap_congr fun e' he' => ?_
      rw [hsame e' fun heq => he (heq ▸ List.mem_reverse.mp he')]
    rw [h.log, hb.log, hnoted]
    simp
  · rcases eq_or_ne e' e with rfl | hne
    · rw [h.tick, if_neg (fun hm => he hm.1), hb.tick]
      simp [hf]
    · rw [h.tick, hsame e' hne]
      simp [hne]
  · rw [h.ticks, hb.ticks, List.filter_filter]
    refine List.filter_congr fun e' _ => ?_
    rcases eq_or_ne e' e with rfl | hne
    · simp [he, hf]
    · simp [hne, hsame e' hne]

/-- One entry of a pass, which goes on. -/
theorem Abs.Traversed.single (hn : a.ticks.Nodup) (hlog : b.log = (a.tick e).noted call e ++ a.log)
    (htick : b.tick = update a.tick e (a.tick e).passed)
    (hticks : b.ticks = if (a.tick e).Leaves then a.ticks.erase e else a.ticks) :
    a.Traversed call [e] none b where
  log := by simpa using hlog
  tick e' := by
    rw [htick]
    rcases eq_or_ne e' e with rfl | hne
    · simp
    · simp [hne]
  ticks := by
    rw [hticks]
    split_ifs with hl
    · rw [hn.erase_eq_filter]
      refine List.filter_congr fun e' _ => ?_
      rcases eq_or_ne e' e with rfl | hne
      · simp [hl]
      · simp [hne]
    · rw [List.filter_eq_self.mpr]
      intro e' _
      rcases eq_or_ne e' e with rfl | hne
      · simp [hl]
      · simp [hne]

/-- What a pass visits, and where it is suspended: at the last entry that it has come to, which is a
timer that has expired. -/
theorem Abs.traversed_pass {f : Option TimerFrame} (hn : es.Nodup) (hticks : a.ticks.Nodup)
    (h : a.pass o call es = some (a', f)) :
    ∃ seen rest, es = seen ++ rest ∧ a.Traversed call seen f a' ∧ (f = none → rest = []) ∧
      ∀ g, f = some g → g.call = call ∧ (∃ l, seen = l ++ [g.entry]) ∧
        (a.tick g.entry).timeout = TIMEOUT ∧ (a.tick g.entry).style = .softwareTimer := by
  induction es generalizing a with
  | nil =>
    obtain ⟨rfl, rfl⟩ := Prod.mk.inj (Option.some.inj h)
    exact ⟨[], [], rfl, ⟨by simp, by simp, by simp⟩, fun _ => rfl, by simp⟩
  | cons e es ih =>
    obtain ⟨he, hn⟩ := List.nodup_cons.mp hn
    -- One entry is done, and the pass goes on.
    have hrest : ∀ b, a.Traversed call [e] none b → b.pass o call es = some (a', f) →
        ∃ seen rest, e :: es = seen ++ rest ∧ a.Traversed call seen f a' ∧ (f = none → rest = []) ∧
          ∀ g, f = some g → g.call = call ∧ (∃ l, seen = l ++ [g.entry]) ∧
            (a.tick g.entry).timeout = TIMEOUT ∧ (a.tick g.entry).style = .softwareTimer := by
      intro b hb hpass
      obtain ⟨seen, rest, rfl, hseen, hdone, hat⟩ :=
        ih hn (by rw [hb.ticks]; exact hticks.filter _) hpass
      have heseen : e ∉ seen := fun hm => he (List.mem_append_left _ hm)
      have hne : ∀ g, f = some g → g.entry ≠ e := fun g hg heq => by
        obtain ⟨-, ⟨l, hl⟩, -⟩ := hat g hg
        exact heseen (heq ▸ by simp [hl])
      refine ⟨e :: seen, rest, rfl, hb.cons heseen (fun ⟨g, hg, heq⟩ => hne g hg heq) hseen, hdone,
        fun g hg => ?_⟩
      obtain ⟨hcall, ⟨l, hl⟩, hzero, hstyle⟩ := hat g hg
      rw [hb.tick, if_neg (by simpa using hne g hg)] at hzero hstyle
      exact ⟨hcall, ⟨e :: l, by rw [hl]; rfl⟩, hzero, hstyle⟩
    rw [Abs.pass] at h
    dsimp only at h
    split_ifs at h with hzero
    · have hzero' : (a.tick e).timeout = TIMEOUT := hzero
      split at h
      · -- An expired timer: its callback suspends the pass, or it is started again or leaves.
        next htimer =>
        have htimer' : (a.tick e).style = .softwareTimer := htimer
        obtain ⟨func, hfunc, h⟩ := Option.bind_eq_some_iff.mp h
        have hfunc' : (a.tick e).func = some func := hfunc
        obtain ⟨⟨b, left⟩, hrun, h⟩ := Option.bind_eq_some_iff.mp h
        obtain ⟨hput, -⟩ := Abs.putFrom_runCallback hrun
        have hlog : b.log = (a.tick e).noted call e ++ a.log := by
          rw [hput.log]
          simp [Abs.note, Tick.noted, hzero', htimer', hfunc']
        have htick : b.tick = a.tick := hput.tick
        have hbticks : b.ticks = a.ticks := hput.ticks
        cases left with
        | some puts =>
          obtain ⟨rfl, rfl⟩ := Prod.mk.inj (Option.some.inj h)
          refine ⟨[e], es, rfl, ⟨by simpa using hlog, fun e' => ?_, ?_⟩, by simp, fun g hg => ?_⟩
          · rw [htick]
            by_cases he' : e = e' <;> simp [he', eq_comm]
          · rw [hbticks, List.filter_eq_self.mpr]
            intro e' _
            by_cases he' : e = e' <;> simp [he', eq_comm]
          · obtain rfl := Option.some.inj hg
            exact ⟨rfl, ⟨[], rfl⟩, hzero', htimer'⟩
        | none =>
          refine hrest _ ?_ h
          by_cases hcycle : (a.tick e).period = CYCLE
          · refine .single hticks ?_ ?_ ?_ <;>
              simp [Abs.afterCallback, Abs.setTick, Tick.passed, Tick.Leaves, hlog, htick, hbticks,
                hzero', htimer', hcycle]
          · refine .single hticks ?_ ?_ ?_ <;>
              simp [Abs.afterCallback, Abs.dropTick, Tick.passed, Tick.Leaves, hlog, htick, hbticks,
                hzero', htimer', hcycle]
      · -- A sleeping task.
        next hdelay =>
        have hdelay' : (a.tick e).style = .delay := hdelay
        obtain ⟨b, hwake, h⟩ := Option.bind_eq_some_iff.mp h
        obtain ⟨t, -, hb⟩ := Option.bind_eq_some_iff.mp hwake
        refine hrest b ?_ h
        rw [← Option.some.inj hb]
        refine .single hticks ?_ ?_ ?_ <;>
          simp [Abs.note, Abs.dropTick, Abs.pushTail, Tick.passed, Tick.Leaves, Tick.noted, hzero',
            hdelay']
      · next hother =>
        have hother' : (a.tick e).style = .other := hother
        refine hrest _ ?_ h
        refine .single hticks ?_ ?_ ?_ <;>
          simp [Abs.note, Tick.passed, Tick.Leaves, Tick.noted, hzero', hother']
    · have hzero' : (a.tick e).timeout ≠ TIMEOUT := hzero
      refine hrest _ ?_ h
      refine .single hticks ?_ ?_ ?_ <;>
        simp [Abs.countDown, Abs.setTick, Abs.note, Tick.passed, Tick.Leaves, Tick.noted, hzero']

end Fos
