import Fos.Runs.Control

/-!
# Timers whose callbacks wake tasks

A callback of a timer may put a semaphore and so switch the task that the tick has interrupted out,
in the middle of the pass over the tick queue. The pass goes on when that task is selected again,
and until then the expired timer is still queued, with a `timeout` of zero. A tick in between comes
to it a second time. As long as no pass has ahead of it a one-shot timer in whose callback another
pass is suspended, every expiry is processed once: a one-shot timer calls back at most once for each
`timer_req`, and each `hardware_timer` comes to every entry once (`processed_once`).
-/

namespace Fos

open Links Function Runs

/-! ## What the timer functions have noted -/

/-- The event puts the entry into the tick queue. -/
def TimerEvent.queues (e : TickPtr) : TimerEvent → Bool
  | .request e' _ | .sleep e' => e' = e
  | _ => false

/-- The event is a visit of the `call`-th call of `hardware_timer` to the entry. -/
def TimerEvent.visits (call : ℕ) (e : TickPtr) : TimerEvent → Bool
  | .visit call' e' _ => call' = call && e' = e
  | _ => false

/-- The event is a visit of any call to the entry. -/
def TimerEvent.comesTo (e : TickPtr) : TimerEvent → Bool
  | .visit _ e' _ => e' = e
  | _ => false

/-- The event is a call of the entry's callback. -/
def TimerEvent.fires (e : TickPtr) : TimerEvent → Bool
  | .callback _ e' _ _ => e' = e
  | _ => false

/-- What has been noted since the entry was last put into the tick queue. -/
def since (e : TickPtr) (log : List TimerEvent) : List TimerEvent :=
  log.takeWhile fun ev => !ev.queues e

/-- How often the `call`-th call of `hardware_timer` has come to the entry. -/
def visits (call : ℕ) (e : TickPtr) (log : List TimerEvent) : ℕ :=
  log.countP (TimerEvent.visits call e)

/-- How often the entry's callback has been called. -/
def callbacks (e : TickPtr) (log : List TimerEvent) : ℕ := log.countP (TimerEvent.fires e)

/-- The `period` of the last `timer_req` for the entry. -/
def requested (e : TickPtr) : List TimerEvent → Option ℕ
  | [] => none
  | .request e' period :: log => if e' = e then some period else requested e log
  | _ :: log => requested e log

/-- The running task goes on in a pass that is suspended in the callback of the entry. -/
def Continues (s : Sys Kernel) (act : Action) (e : TickPtr) : Prop :=
  ∃ o t g, act = .resume o ∧ s.running = some t ∧ s.frame t = some (.timer g) ∧ g.entry = e

/-- Every expiry of a timer is processed once. -/
structure ProcessedOnce (tr : Trace Kernel) (s : Sys Kernel) : Prop where
  /-- A `timer_req` with a period other than `CYCLE` has led to at most one callback. -/
  once : ∀ e p, requested e s.k.log = some p → p ≠ CYCLE → callbacks e (since e s.k.log) ≤ 1
  /-- No call of `hardware_timer` has come twice to an entry. -/
  visits_le : ∀ call e, visits call e (since e s.k.log) ≤ 1
  /-- A call that has come to its end has come to every entry that has been queued since before it
  began. -/
  visited : ∀ call e, .start call ∈ since e s.k.log →
    (∀ t g, s.frame t = some (.timer g) → g.call ≠ call) → Queued s.k.heap tickHead (.tick e) →
    visits call e (since e s.k.log) = 1
  /-- In the last step, only entries that had expired have left the tick queue. -/
  expired : ∀ s₀ act tr₀, tr = (s₀, act) :: tr₀ → ∀ e, Queued s₀.k.heap tickHead (.tick e) →
    ¬ Queued s.k.heap tickHead (.tick e) → (s₀.k.tick e).timeout = TIMEOUT
  /-- In the last step, an entry that had not expired was counted down by one for each visit of a
  call to it, unless its own callback has gone on. -/
  counted : ∀ s₀ act tr₀, tr = (s₀, act) :: tr₀ → ∀ e, Queued s₀.k.heap tickHead (.tick e) →
    (s₀.k.tick e).timeout ≠ TIMEOUT → ¬ Continues s₀ act e →
    ∃ new, s.k.log = new ++ s₀.k.log ∧
      (s.k.tick e).timeout + new.countP (TimerEvent.comesTo e) = (s₀.k.tick e).timeout

/-- Callers and callbacks use the kernel's functions as they ask for. -/
def TimerUsage (tr : Trace Kernel) (s : Sys Kernel) (act : Action) : Prop :=
  Usage (hist tr) s act ∧ CallbackUsage s act

variable {hst hst' : Hist} {tr : Trace Kernel} {s s' : Sys Kernel} {a a' b : Abs} {act : Action}
  {t u : TcbPtr} {e e' : TickPtr} {call call' : ℕ} {log new : List TimerEvent} {c : Call} {r : Ret}

theorem since_cons_self {ev : TimerEvent} (h : ev.queues e = true) : since e (ev :: log) = [] := by
  simp [since, h]

/-- What is noted without the entry being queued anew adds to what has been noted since. -/
theorem since_append (h : ∀ ev ∈ new, ev.queues e = false) :
    since e (new ++ log) = new ++ since e log := by
  rw [since, List.takeWhile_append_of_pos fun ev hev => by simp [h ev hev]]
  rfl

theorem visits_append : visits call e (new ++ log) = visits call e new + visits call e log :=
  List.countP_append

theorem callbacks_append : callbacks e (new ++ log) = callbacks e new + callbacks e log :=
  List.countP_append

/-! ## What a pass notes -/

/-- A pass queues nothing. -/
theorem Tick.queues_of_mem_noted {x : Tick} {ev : TimerEvent} (h : ev ∈ x.noted call e) :
    ev.queues e' = false := by
  unfold Tick.noted at h
  rcases List.mem_append.mp h with h | h
  · split_ifs at h
    · cases hf : x.func with
      | none => simp [hf] at h
      | some f =>
        obtain rfl : ev = .callback call e f x.funcArg := by simpa [hf] using h
        rfl
    · simp at h
  · obtain rfl := List.mem_singleton.mp h
    rfl

/-- A pass begins no call. -/
theorem Tick.ne_start_of_mem_noted {x : Tick} {ev : TimerEvent} (h : ev ∈ x.noted call e) :
    ev ≠ .start call' := by
  unfold Tick.noted at h
  rcases List.mem_append.mp h with h | h
  · split_ifs at h
    · cases hf : x.func with
      | none => simp [hf] at h
      | some f => simp [List.mem_singleton.mp (by simpa [hf] using h)]
    · simp at h
  · simp [List.mem_singleton.mp h]

/-- The visit that is noted at an entry. -/
theorem Tick.visits_noted (x : Tick) :
    visits call' e' (x.noted call e) = if call' = call ∧ e' = e then 1 else 0 := by
  have hvisit : visits call' e' [.visit call e x.timeout] =
      if call' = call ∧ e' = e then 1 else 0 := by
    by_cases h : call' = call ∧ e' = e
    · simp [visits, TimerEvent.visits, h.1, h.2]
    · have h' : ¬ (call = call' ∧ e = e') := fun ⟨h₁, h₂⟩ => h ⟨h₁.symm, h₂.symm⟩
      simp [visits, TimerEvent.visits, h, h']
  rw [Tick.noted, visits_append, hvisit]
  split_ifs <;> cases x.func <;> simp [visits, TimerEvent.visits]

/-- At most one callback is noted at an entry, which is an expired timer then. -/
theorem Tick.callbacks_noted (x : Tick) (call : ℕ) (e e' : TickPtr) :
    callbacks e' (x.noted call e) ≤
      if e' = e ∧ x.timeout = TIMEOUT ∧ x.style = .softwareTimer then 1 else 0 := by
  rw [Tick.noted, callbacks_append]
  by_cases hx : x.timeout = TIMEOUT ∧ x.style = .softwareTimer
  · by_cases he : e' = e
    · cases hf : x.func <;> simp [callbacks, TimerEvent.fires, hx, he]
    · cases hf : x.func <;> simp [callbacks, TimerEvent.fires, hx, he, eq_comm (a := e)]
  · simp [callbacks, TimerEvent.fires, hx]

/-- What a pass notes at the entries `es`, the latest first. -/
def passNotes (tick : TickPtr → Tick) (call : ℕ) (es : List TickPtr) : List TimerEvent :=
  es.reverse.flatMap fun e => (tick e).noted call e

section PassNotes

variable {tick : TickPtr → Tick} {es : List TickPtr}

theorem passNotes_cons : passNotes tick call (e :: es) =
    passNotes tick call es ++ (tick e).noted call e := by
  simp [passNotes]

/-- A pass queues nothing. -/
theorem queues_of_mem_passNotes {ev : TimerEvent} (h : ev ∈ passNotes tick call es) (e' : TickPtr) :
    ev.queues e' = false := by
  obtain ⟨e, -, hev⟩ := List.mem_flatMap.mp h
  exact Tick.queues_of_mem_noted hev

/-- A pass begins no call. -/
theorem ne_start_of_mem_passNotes {ev : TimerEvent} (h : ev ∈ passNotes tick call es) (call' : ℕ) :
    ev ≠ .start call' := by
  obtain ⟨e, -, hev⟩ := List.mem_flatMap.mp h
  exact Tick.ne_start_of_mem_noted hev

/-- A pass comes once to each of its entries. -/
theorem visits_passNotes (hn : es.Nodup) : visits call' e' (passNotes tick call es) =
    if call' = call ∧ e' ∈ es then 1 else 0 := by
  induction es with
  | nil => simp [passNotes, visits]
  | cons e es ih =>
    obtain ⟨he, hn⟩ := List.nodup_cons.mp hn
    rw [passNotes_cons, visits_append, ih hn, Tick.visits_noted]
    by_cases hc : call' = call
    · rcases eq_or_ne e' e with rfl | hne
      · simp [hc, he]
      · simp [hc, hne]
    · simp [hc]

/-- A pass comes to its entries and to no others. -/
theorem comesTo_passNotes (hn : es.Nodup) :
    (passNotes tick call es).countP (TimerEvent.comesTo e') = if e' ∈ es then 1 else 0 := by
  have hsame : ∀ ev ∈ passNotes tick call es,
      TimerEvent.comesTo e' ev = true ↔ TimerEvent.visits call e' ev = true := by
    intro ev hev
    obtain ⟨e, -, hev⟩ := List.mem_flatMap.mp hev
    unfold Tick.noted at hev
    rcases List.mem_append.mp hev with h | h
    · split_ifs at h
      · cases hf : (tick e).func with
        | none => simp [hf] at h
        | some f =>
          rw [show ev = .callback call e f (tick e).funcArg by simpa [hf] using h]
          simp [TimerEvent.comesTo, TimerEvent.visits]
      · simp at h
    · rw [List.mem_singleton.mp h]
      simp [TimerEvent.comesTo, TimerEvent.visits]
  rw [List.countP_congr hsame, ← visits, visits_passNotes hn]
  simp

/-- A pass calls back at most once at each of its entries, which is an expired timer then. -/
theorem callbacks_passNotes (tick : TickPtr → Tick) (call : ℕ) (hn : es.Nodup) (e' : TickPtr) :
    callbacks e' (passNotes tick call es) ≤
      if e' ∈ es ∧ (tick e').timeout = TIMEOUT ∧ (tick e').style = .softwareTimer then 1
      else 0 := by
  induction es with
  | nil => simp [passNotes, callbacks]
  | cons e es ih =>
    obtain ⟨he, hn⟩ := List.nodup_cons.mp hn
    have hnoted := (tick e).callbacks_noted call e e'
    have hrest := ih hn
    rw [passNotes_cons, callbacks_append]
    rcases eq_or_ne e' e with rfl | hne
    · simpa [he] using Nat.add_le_add hrest hnoted
    · simpa [hne] using Nat.add_le_add hrest hnoted

end PassNotes

/-! ## What `hardware_timer` traverses -/

/-- The `schedule` that ends a call of `hardware_timer` does not touch the tick queue. -/
theorem Abs.timers_tickEnd {f f' : Option TimerFrame} (h : Abs.tickEnd (b, f) = some (a', f')) :
    f' = f ∧ a'.log = b.log ∧ a'.tick = b.tick ∧ a'.ticks = b.ticks ∧ a'.fosTick = b.fosTick := by
  cases f with
  | some g =>
    obtain ⟨rfl, rfl⟩ := Prod.mk.inj (Option.some.inj h)
    exact ⟨rfl, rfl, rfl, rfl, rfl⟩
  | none =>
    obtain ⟨b', hb', heq⟩ := Option.map_eq_some_iff.mp h
    obtain ⟨rfl, rfl⟩ := Prod.mk.inj heq
    obtain ⟨p, u, us, -, rfl⟩ := Abs.schedule_inv hb'
    exact ⟨rfl, by simp, by simp, by simp, by simp⟩

/-- A pass has come to the entries `seen`, has `rest` still ahead of it, and is over or suspended at
the last entry that it has come to, a timer that has expired. -/
structure Abs.Passes (call : ℕ) (seen rest : List TickPtr) (f : Option TimerFrame) (a a' : Abs) :
    Prop where
  traversed : a.Traversed call seen f a'
  done : f = none → rest = []
  suspended : ∀ g, f = some g → g.call = call ∧ (∃ l, seen = l ++ [g.entry]) ∧
    (a.tick g.entry).timeout = TIMEOUT ∧ (a.tick g.entry).style = .softwareTimer

variable {f f' : Option TimerFrame} {g g' : TimerFrame} {seen rest : List TickPtr} {o : Oracle}
  {live : Node → Bool}

/-- What a pass does depends on the entries of the tick queue and on nothing else. -/
theorem Abs.Passes.congr {b' : Abs} (h : b.Passes call seen rest f b') (hlog : a.log = b.log)
    (htick : a.tick = b.tick) (hticks : a.ticks = b.ticks) (hlog' : a'.log = b'.log)
    (htick' : a'.tick = b'.tick) (hticks' : a'.ticks = b'.ticks) :
    a.Passes call seen rest f a' := by
  obtain ⟨⟨h₁, h₂, h₃⟩, hdone, hat⟩ := h
  refine ⟨⟨?_, fun e => ?_, ?_⟩, hdone, fun g hg => ?_⟩
  · rw [hlog', h₁, htick, hlog]
  · rw [htick', h₂, htick]
  · rw [hticks', h₃, htick, hticks]
  · rw [htick]
    exact hat g hg

/-! A callback that returns does not touch the other entries. -/

@[simp] theorem Abs.afterCallback_log (a : Abs) (e : TickPtr) :
    (a.afterCallback e).log = a.log := by
  unfold Abs.afterCallback
  split_ifs <;> rfl

@[simp] theorem Abs.afterCallback_fosTick (a : Abs) (e : TickPtr) :
    (a.afterCallback e).fosTick = a.fosTick := by
  unfold Abs.afterCallback
  split_ifs <;> rfl

theorem Abs.afterCallback_tick_of_ne (h : e ≠ e') : (a.afterCallback e').tick e = a.tick e := by
  unfold Abs.afterCallback
  split_ifs
  · simp [Abs.setTick, h]
  · rfl

theorem Abs.afterCallback_ticks_sublist : (a.afterCallback e).ticks.Sublist a.ticks := by
  unfold Abs.afterCallback
  split_ifs
  · exact List.Sublist.refl _
  · exact List.erase_sublist

theorem Abs.mem_afterCallback_ticks (h : e ≠ e') :
    e ∈ (a.afterCallback e').ticks ↔ e ∈ a.ticks := by
  unfold Abs.afterCallback
  split_ifs
  · exact Iff.rfl
  · exact List.mem_erase_of_ne h

/-- The entries that a new `hardware_timer` comes to. -/
theorem WF.passes_hardwareTimer (w : WF live a) (h : a.hardwareTimer o = some (a', f)) :
    a'.fosTick = a.fosTick + 1 ∧ ∃ seen rest, a.ticks = seen ++ rest ∧
      (a.note (.start (a.fosTick + 1))).Passes (a.fosTick + 1) seen rest f a' := by
  obtain ⟨⟨b, f'⟩, hpass, hend⟩ := Option.bind_eq_some_iff.mp h
  obtain ⟨rfl, hlog, htick, hticks, hfos⟩ := Abs.timers_tickEnd hend
  have hpass : Abs.pass o _ a.ticks _ = some (b, f) := hpass
  obtain ⟨hfrom, -⟩ := Abs.passFrom_pass w.ticks.nodup
    (fun n hn => by exact (w.ticks.timer n hn).1) hpass
  have hnodup := w.ticks.nodup
  obtain ⟨seen, rest, hl, htrav, hdone, hat⟩ := Abs.traversed_pass hnodup (by exact hnodup) hpass
  have hp : Abs.Passes _ seen rest f _ b := ⟨htrav, hdone, hat⟩
  refine ⟨?_, seen, rest, hl, hp.congr rfl rfl rfl hlog htick hticks⟩
  rw [hfos, hfrom.vars]
  rfl

/-- The entries that a suspended `hardware_timer` comes to when it goes on, unless its callback is
switched out again. -/
theorem WF.passes_hardwareTimerResume (w : WF live a) (hmem : g.entry ∈ a.ticks)
    (h : a.hardwareTimerResume g o = some (a', f)) : a'.fosTick = a.fosTick ∧
      ((∃ puts, f = some ⟨g.call, g.entry, puts⟩) ∧ a'.log = a.log ∧ a'.tick = a.tick ∧
          a'.ticks = a.ticks ∨
        ∃ seen rest, Abs.after g.entry a.ticks = seen ++ rest ∧
          (a.afterCallback g.entry).Passes g.call seen rest f a') := by
  obtain ⟨⟨b, left⟩, hrun, h⟩ := Option.bind_eq_some_iff.mp h
  obtain ⟨hput, -⟩ := Abs.putFrom_runCallback hrun
  have hbfos : b.fosTick = a.fosTick := by rw [hput.vars]
  cases left with
  | some puts =>
    obtain ⟨rfl, rfl⟩ := Prod.mk.inj (Option.some.inj h)
    exact ⟨hbfos, Or.inl ⟨⟨puts, rfl⟩, hput.log, hput.tick, hput.ticks⟩⟩
  | none =>
    obtain ⟨⟨c, f'⟩, hpass, hend⟩ := Option.bind_eq_some_iff.mp h
    obtain ⟨rfl, hlog, htick, hticks, hfos⟩ := Abs.timers_tickEnd hend
    obtain ⟨pre, es, hl⟩ := List.append_of_mem hmem
    have hn : (g.entry :: es).Nodup := by
      have := w.ticks.nodup
      rw [hl] at this
      exact this.sublist (List.sublist_append_right _ _)
    have hbticks := hput.ticks
    rw [hbticks, Abs.after_eq hl w.ticks.nodup] at hpass
    have hcall := b.passFrom_afterCallback (e := g.entry) (List.mem_singleton.mpr rfl)
    have hafter : (b.afterCallback g.entry).ticks.Nodup := by
      unfold Abs.afterCallback
      split_ifs
      · exact hbticks ▸ w.ticks.nodup
      · exact (hbticks ▸ w.ticks.nodup).erase _
    have hstyle' : ∀ n, .timer n ∈ es →
        ((b.afterCallback g.entry).tick (.timer n)).style = .softwareTimer := fun n hn => by
      rw [hcall.style, hput.tick]
      exact (w.ticks.timer n (hl ▸ by simp [hn])).1
    obtain ⟨hfrom, -⟩ := Abs.passFrom_pass (List.nodup_cons.mp hn).2 hstyle' hpass
    obtain ⟨seen, rest, hes, htrav, hdone, hat⟩ :=
      Abs.traversed_pass (List.nodup_cons.mp hn).2 hafter hpass
    have hp : Abs.Passes _ seen rest f _ c := ⟨htrav, hdone, hat⟩
    -- The callback has not touched the tick queue.
    have hsame : (a.afterCallback g.entry).log = (b.afterCallback g.entry).log ∧
        (a.afterCallback g.entry).tick = (b.afterCallback g.entry).tick ∧
          (a.afterCallback g.entry).ticks = (b.afterCallback g.entry).ticks := by
      unfold Abs.afterCallback
      rw [hput.tick]
      split_ifs
      · exact ⟨hput.log.symm, by simp [Abs.setTick, hput.tick], hbticks.symm⟩
      · exact ⟨hput.log.symm, hput.tick.symm, by simp [Abs.dropTick, hbticks]⟩
    refine ⟨?_, Or.inr ⟨seen, rest, (Abs.after_eq hl w.ticks.nodup).trans hes,
      hp.congr hsame.1 hsame.2.1 hsame.2.2 hlog htick hticks⟩⟩
    rw [hfos, hfrom.vars]
    show (b.afterCallback g.entry).fosTick = _
    rw [hcall.vars]
    exact hbfos

/-! ## The visits of the calls -/

/-- The visits that the calls of `hardware_timer` have made, where a call `c` still has the entries
`e` with `ahead c e` ahead of it. -/
structure Tally (ahead : ℕ → TickPtr → Prop) (a : Abs) : Prop where
  /-- No call has come twice to an entry. -/
  le : ∀ c e, visits c e (since e a.log) ≤ 1
  /-- A call that has not begun has come to no entry. -/
  fresh : ∀ c e, a.fosTick < c → visits c e (since e a.log) = 0
  /-- Only a call that has begun has entries ahead of it. -/
  begun : ∀ c e, ahead c e → c ≤ a.fosTick
  /-- A call has not come to the entries that it has ahead of it. -/
  todo : ∀ c e, ahead c e → visits c e (since e a.log) = 0
  /-- A call has come to every other entry that was queued when it began. -/
  done : ∀ c e, .start c ∈ since e a.log → e ∈ a.ticks → ¬ ahead c e →
    visits c e (since e a.log) = 1

variable {ahead ahead' : ℕ → TickPtr → Prop} {es : List TickPtr}

/-- Entries leave the tick queue. -/
theorem Tally.shrink (h : Tally ahead a) (hlog : a'.log = a.log) (hfos : a'.fosTick = a.fosTick)
    (hticks : ∀ e ∈ a'.ticks, e ∈ a.ticks) (hsub : ∀ c e, ahead' c e → ahead c e)
    (hsup : ∀ c e, e ∈ a'.ticks → ahead c e → ahead' c e) : Tally ahead' a' where
  le c e := hlog ▸ h.le c e
  fresh c e hc := hlog ▸ h.fresh c e (hfos ▸ hc)
  begun c e he := hfos ▸ h.begun c e (hsub c e he)
  todo c e he := hlog ▸ h.todo c e (hsub c e he)
  done c e hs he hno := by
    rw [hlog] at hs ⊢
    exact h.done c e hs (hticks e he) fun hah => hno (hsup c e he hah)

/-- What is noted since an entry was queued, when its queuing is not noted anew. -/
theorem visits_since_append (h : ∀ ev ∈ new, ev.queues e = false) :
    visits call e (since e (new ++ log)) = visits call e new + visits call e (since e log) := by
  rw [since_append h, visits_append]

theorem start_mem_since_append (h : ∀ ev ∈ new, ev.queues e = false)
    (hs : ∀ ev ∈ new, ev ≠ .start call) :
    .start call ∈ since e (new ++ log) ↔ .start call ∈ since e log := by
  rw [since_append h, List.mem_append]
  exact or_iff_right fun hm => hs _ hm rfl

/-- A call of `hardware_timer` begins: it has the whole tick queue ahead of it. -/
theorem Tally.start (h : Tally ahead a) (hfos : b.fosTick = a.fosTick + 1)
    (hlog : b.log = .start (a.fosTick + 1) :: a.log) (hticks : b.ticks = a.ticks) :
    Tally (fun c e => c = a.fosTick + 1 ∧ e ∈ a.ticks ∨ ahead c e) b := by
  -- The beginning of a call is neither a visit nor the queuing of an entry.
  have hv : ∀ c e, visits c e (since e b.log) = visits c e (since e a.log) := fun c e => by
    rw [hlog, ← List.singleton_append, visits_since_append (by simp [TimerEvent.queues])]
    simp [visits, TimerEvent.visits]
  have hs : ∀ c e, .start c ∈ since e b.log ↔ c = a.fosTick + 1 ∨ .start c ∈ since e a.log := by
    intro c e
    rw [hlog, ← List.singleton_append, since_append (by simp [TimerEvent.queues])]
    simp
  refine ⟨fun c e => hv c e ▸ h.le c e, fun c e hc => ?_, fun c e he => ?_, fun c e he => ?_,
    fun c e hm he hno => ?_⟩
  · rw [hv]
    exact h.fresh c e (by omega)
  · rcases he with ⟨rfl, -⟩ | he
    · exact hfos.ge
    · have := h.begun c e he
      omega
  · rw [hv]
    rcases he with ⟨rfl, -⟩ | he
    · exact h.fresh _ e (Nat.lt_succ_self _)
    · exact h.todo c e he
  · rw [hv]
    rw [hticks] at he
    rcases (hs c e).mp hm with rfl | hm
    · exact absurd (Or.inl ⟨rfl, he⟩) hno
    · exact h.done c e hm he fun hah => hno (Or.inr hah)

/-- A call of `hardware_timer` comes to entries that it has ahead of it. -/
theorem Tally.traverse (h : Tally ahead a) (hp : a.Passes call seen rest f a') (hn : seen.Nodup)
    (hfos : a'.fosTick = a.fosTick) (hseen : ∀ e ∈ seen, ahead call e)
    (hsub : ∀ c e, ahead' c e → ahead c e ∧ ¬ (c = call ∧ e ∈ seen))
    (hsup : ∀ c e, e ∈ a'.ticks → ahead c e → ¬ (c = call ∧ e ∈ seen) → ahead' c e) :
    Tally ahead' a' := by
  have hlog : a'.log = passNotes a.tick call seen ++ a.log := hp.traversed.log
  -- The pass visits each of its entries once, and no other entry.
  have hv : ∀ c e, visits c e (since e a'.log) =
      (if c = call ∧ e ∈ seen then 1 else 0) + visits c e (since e a.log) := fun c e => by
    rw [hlog, visits_since_append fun ev hev => queues_of_mem_passNotes hev e, visits_passNotes hn]
  have hticks : ∀ e ∈ a'.ticks, e ∈ a.ticks := fun e he => by
    rw [hp.traversed.ticks] at he
    exact List.mem_of_mem_filter he
  refine ⟨fun c e => ?_, fun c e hc => ?_, fun c e he => hfos ▸ h.begun c e (hsub c e he).1,
    fun c e he => ?_, fun c e hs he hno => ?_⟩
  · rw [hv]
    split_ifs with hce
    · rw [h.todo c e (hce.1 ▸ hseen e hce.2)]
    · simpa using h.le c e
  -- A pass that has not begun visits nothing in this one.
  · have hce : ¬ (c = call ∧ e ∈ seen) := by
      rintro ⟨rfl, he⟩
      have := h.begun c e (hseen e he)
      omega
    rw [hv, if_neg hce, h.fresh c e (hfos ▸ hc)]
  · obtain ⟨hah, hce⟩ := hsub c e he
    rw [hv, if_neg hce, h.todo c e hah]
  · rw [hv]
    rw [hlog, start_mem_since_append (fun ev hev => queues_of_mem_passNotes hev e)
      fun ev hev => ne_start_of_mem_passNotes hev c] at hs
    -- An entry that was ahead is done now.
    split_ifs with hce
    · rw [h.todo c e (hce.1 ▸ hseen e hce.2)]
    · rw [h.done c e hs (hticks e he) fun hah => hno (hsup c e he hah hce)]

/-- A call that queues nothing notes nothing. -/
theorem Call.notes_eq_none (h : c.queues t = none) : c.notes t = none := by
  unfold Call.queues at h
  split at h
  · simp at h
  · split_ifs at h with h0
    simp [Call.notes, h0]
  · next hsleep hreq =>
    unfold Call.notes
    split
    · exact absurd rfl (hsleep _)
    · exact absurd rfl (hreq _ _ _ _ _)
    · rfl

/-- A call that queues an entry notes that. -/
theorem Call.notes_of_queues (h : c.queues t = some e) :
    c.notes t = some (.sleep e) ∨ ∃ p, c.notes t = some (.request e p) := by
  unfold Call.queues at h
  split at h
  · obtain rfl := Option.some.inj h
    exact Or.inl rfl
  · next e' func timeout period arg =>
    split_ifs at h with h0
    obtain rfl := Option.some.inj h
    exact Or.inr ⟨period, by simp [Call.notes, h0]⟩
  · simp at h

/-- What a call adds to what has been noted since an entry was queued. -/
theorem Call.since_eq (hc : c.Frame t a a') (e : TickPtr) :
    if c.queues t = some e then since e a'.log = []
    else ∃ new, since e a'.log = new ++ since e a.log ∧ (∀ x, visits x e new = 0) ∧
      callbacks e new = 0 ∧ ∀ x, .start x ∉ new := by
  cases hq : c.queues t with
  | none =>
    rw [if_neg (by simp)]
    exact ⟨[], by simp [hc.log, Call.notes_eq_none hq], by simp [visits], by simp [callbacks],
      by simp⟩
  | some e₀ =>
    obtain ⟨ev, hev, hlog⟩ : ∃ ev, (ev = .sleep e₀ ∨ ∃ p, ev = .request e₀ p) ∧
        a'.log = [ev] ++ a.log := by
      rcases Call.notes_of_queues hq with hn | ⟨p, hn⟩
      · exact ⟨_, Or.inl rfl, by simp [hc.log, hn]⟩
      · exact ⟨_, Or.inr ⟨p, rfl⟩, by simp [hc.log, hn]⟩
    have hqueues : ∀ e, ev.queues e = decide (e₀ = e) := fun e => by
      rcases hev with rfl | ⟨p, rfl⟩ <;> rfl
    rcases eq_or_ne e₀ e with rfl | hne
    · rw [if_pos rfl, hlog]
      exact since_cons_self (by simp [hqueues])
    · rw [if_neg (by simpa using hne), hlog]
      refine ⟨[ev], since_append (by simp [hqueues, hne]), ?_⟩
      rcases hev with rfl | ⟨p, rfl⟩ <;>
        simp [visits, callbacks, TimerEvent.visits, TimerEvent.fires]

/-- A call of the kernel, which may put an entry behind the others of the tick queue. -/
theorem Tally.exec (h : Tally ahead a) (hc : c.Frame t a a')
    (hsame : ∀ x e, c.queues t ≠ some e → (ahead' x e ↔ ahead x e))
    (hle : ∀ x e, ahead' x e → x ≤ a.fosTick) : Tally ahead' a' := by
  -- Of the entry that is queued, nothing has been noted since; of any other, no visit has.
  have hv : ∀ x e, visits x e (since e a'.log) =
      if c.queues t = some e then 0 else visits x e (since e a.log) := fun x e => by
    have := Call.since_eq hc e
    split_ifs at this ⊢
    · simp [this, visits]
    · obtain ⟨new, hnew, hzero, -⟩ := this
      rw [hnew, visits_append, hzero x, Nat.zero_add]
  refine ⟨fun x e => ?_, fun x e hx => ?_, fun x e hx => hc.fosTick ▸ hle x e hx, fun x e hx => ?_,
    fun x e hs he hno => ?_⟩
  · rw [hv]
    split_ifs
    · exact Nat.zero_le _
    · exact h.le x e
  · rw [hv, h.fresh x e (hc.fosTick ▸ hx), ite_self]
  · rw [hv]
    split_ifs with hq
    · rfl
    · exact h.todo x e ((hsame x e hq).mp hx)
  · have hsince := Call.since_eq hc e
    rw [hv]
    split_ifs at hsince ⊢ with hq
    · simp [hsince] at hs
    · obtain ⟨new, hnew, -, -, hstart⟩ := hsince
      rw [hnew, List.mem_append] at hs
      refine h.done x e (hs.resolve_left (hstart x)) ?_ fun hah => hno ((hsame x e hq).mpr hah)
      rw [hc.ticks, List.mem_append, Option.mem_toList] at he
      exact he.resolve_right hq

/-! ## The callbacks of the timers -/

/-- The callbacks of one-shot timers, where a pass is suspended at the entries `e` with `susp e`. -/
structure Fired (susp : TickPtr → Prop) (a : Abs) : Prop where
  /-- A timer keeps the period that it was requested with. -/
  period : ∀ e p, requested e a.log = some p → (a.tick e).period = p
  /-- A one-shot timer calls back at most once. -/
  once : ∀ e p, requested e a.log = some p → p ≠ CYCLE → callbacks e (since e a.log) ≤ 1
  /-- A one-shot timer that is queued has not called back, unless a pass is suspended there. -/
  quiet : ∀ e p, requested e a.log = some p → p ≠ CYCLE → e ∈ a.ticks → ¬ susp e →
    callbacks e (since e a.log) = 0
  /-- A one-shot timer in whose callback a pass is suspended has expired. -/
  expired : ∀ e, susp e → (a.tick e).period ≠ CYCLE → (a.tick e).timeout = TIMEOUT

variable {susp susp' : TickPtr → Prop} {p : ℕ}

@[simp] theorem Tick.passed_period (x : Tick) : x.passed.period = x.period := by
  unfold Tick.passed
  split_ifs <;> rfl

/-- What is requested of an entry does not change while it is not queued anew. -/
theorem requested_append (h : ∀ ev ∈ new, ev.queues e = false) :
    requested e (new ++ log) = requested e log := by
  induction new with
  | nil => rfl
  | cons ev new ih =>
    have hrest := ih fun ev' hev' => h ev' (List.mem_cons_of_mem _ hev')
    cases ev with
    | request e' p =>
      have he : ¬ e' = e := by simpa [TimerEvent.queues] using h _ (List.mem_cons_self ..)
      simpa [requested, he] using hrest
    | sleep | start | visit | callback => simpa [requested] using hrest

/-- A pass that was suspended in a callback goes on: the timer is started again or leaves. -/
theorem Fired.afterCallback (h : Fired susp a) (hn : a.ticks.Nodup)
    (hsub : ∀ x, susp' x → susp x) (hsup : ∀ x, susp x → x ≠ e → susp' x)
    (hcycle : susp' e → (a.tick e).period = CYCLE) : Fired susp' (a.afterCallback e) := by
  unfold Abs.afterCallback
  split_ifs with hc
  -- A cyclic timer is reloaded, and no other entry changes.
  · have htick : ∀ x ≠ e, (a.setTick e { a.tick e with timeout := (a.tick e).timeoutCopy }).tick x =
        a.tick x := fun x hx => by simp [Abs.setTick, hx]
    have hperiod : ∀ x, ((a.setTick e { a.tick e with
        timeout := (a.tick e).timeoutCopy }).tick x).period = (a.tick x).period := fun x => by
      rcases eq_or_ne x e with rfl | hx
      · simp [Abs.setTick]
      · rw [htick x hx]
    refine ⟨fun x p hp => (hperiod x).trans (h.period x p hp), h.once, fun x p hp hne hx hno => ?_,
      fun x hx hne => ?_⟩
    · have hxe : x ≠ e := by
        rintro rfl
        exact hne ((h.period x p hp).symm.trans hc)
      exact h.quiet x p hp hne hx fun hs => hno (hsup x hs hxe)
    · rw [hperiod] at hne
      have hxe : x ≠ e := by
        rintro rfl
        exact hne hc
      rw [htick x hxe]
      exact h.expired x (hsub x hx) hne
  -- Any other timer leaves the tick queue.
  · refine ⟨h.period, h.once, fun x p hp hne hx hno => ?_, fun x hx hne => ?_⟩
    · obtain ⟨hxe, hx⟩ := hn.mem_erase_iff.mp hx
      exact h.quiet x p hp hne hx fun hs => hno (hsup x hs hxe)
    · exact h.expired x (hsub x hx) hne

/-- A pass over entries at which no other pass is suspended, unless their period is `CYCLE`. -/
theorem Fired.traverse (h : Fired susp a) (hp : a.Passes call seen rest f a') (hn : seen.Nodup)
    (hcycle : ∀ e ∈ seen, susp e → (a.tick e).period = CYCLE)
    (hmem : ∀ e ∈ seen, e ∈ a.ticks) (hsusp : ∀ e, susp' e ↔ susp e ∨ SuspendedAt f e) :
    Fired susp' a' := by
  have hlog : a'.log = passNotes a.tick call seen ++ a.log := hp.traversed.log
  -- A pass requests nothing, and calls back once at most for each entry.
  have hreq : ∀ e, requested e a'.log = requested e a.log := fun e => by
    rw [hlog, requested_append fun ev hev => queues_of_mem_passNotes hev e]
  have hcalls : ∀ e, callbacks e (since e a'.log) =
      callbacks e (passNotes a.tick call seen) + callbacks e (since e a.log) := fun e => by
    rw [hlog, since_append fun ev hev => queues_of_mem_passNotes hev e, callbacks_append]
  have hle := callbacks_passNotes a.tick call hn
  have hperiod : ∀ e, (a'.tick e).period = (a.tick e).period := fun e => by
    rw [hp.traversed.tick]
    split_ifs <;> simp
  refine ⟨fun e p he => ?_, fun e p he hne => ?_, fun e p he hne hq hno => ?_, fun e hs hne => ?_⟩
  · rw [hperiod]
    exact h.period e p (hreq e ▸ he)
  · rw [hreq] at he
    have := hle e
    rw [hcalls]
    split_ifs at this with hfire
    · -- The timer calls back: it has not before, since no other pass is suspended there.
      have hno : ¬ susp e := fun hs => hne ((h.period e p he).symm.trans (hcycle e hfire.1 hs))
      rw [h.quiet e p he hne (hmem e hfire.1) hno]
      omega
    · have := h.once e p he hne
      omega
  · rw [hreq] at he
    rw [hp.traversed.ticks, List.mem_filter, decide_eq_true_eq] at hq
    rw [hcalls, h.quiet e p he hne hq.1 fun hs => hno ((hsusp e).mpr (Or.inl hs))]
    have := hle e
    split_ifs at this with hfire
    · -- A one-shot timer that calls back leaves the tick queue.
      refine absurd ⟨⟨hfire.1, fun hs => hno ((hsusp e).mpr (Or.inr hs))⟩, ?_⟩ hq.2
      exact ⟨hfire.2.1, Or.inr ⟨hfire.2.2, fun hc => hne ((h.period e p he).symm.trans hc)⟩⟩
    · omega
  · rw [hperiod] at hne
    rw [hp.traversed.tick]
    -- The entry at which the pass is suspended has expired; any other is as before, for one that
    -- other passes are at is cyclic.
    by_cases hat : SuspendedAt f e
    · obtain ⟨g, hg, rfl⟩ := hat
      rw [if_neg fun hm => hm.2 ⟨g, hg, rfl⟩]
      exact (hp.suspended g hg).2.2.1
    · have hs' : susp e := ((hsusp e).mp hs).resolve_right hat
      rw [if_neg fun hm => hne (hcycle e hm.1 hs')]
      exact h.expired e hs' hne

/-- A call does not request an entry that it does not queue. -/
theorem Call.requested_eq (hc : c.Frame t a a') (he : c.queues t ≠ some e) :
    requested e a'.log = requested e a.log := by
  rw [hc.log]
  refine requested_append fun ev hev => ?_
  rw [Option.mem_toList] at hev
  cases hq : c.queues t with
  | none => simp [Call.notes_eq_none hq] at hev
  | some e₀ =>
    have hne : ¬ e₀ = e := fun heq => he (heq ▸ hq)
    rcases Call.notes_of_queues hq with hn | ⟨p, hn⟩
    · obtain rfl : .sleep e₀ = ev := Option.some.inj (hn.symm.trans hev)
      simp [TimerEvent.queues, hne]
    · obtain rfl : .request e₀ p = ev := Option.some.inj (hn.symm.trans hev)
      simp [TimerEvent.queues, hne]

/-- A timer that a call requests has the period that it is requested with, and `os_delay` leaves the
period of its entry. -/
theorem Abs.exec_period (hnew : ∀ t', a.newTask = some t' → t' = t)
    (ha : a.exec c = some (a', r)) (h : ∀ p, requested e a.log = some p → (a.tick e).period = p) :
    ∀ p, requested e a'.log = some p → (a'.tick e).period = p := by
  have hc := Abs.exec_frame hnew ha
  by_cases he : c.queues t = some e
  · rw [hc.log, (Abs.exec_effect hnew ha).tick]
    intro p hp
    match c with
    | .osDelay n =>
      obtain rfl : .delay t = e := Option.some.inj he
      have hp' : requested (.delay t) a.log = some p := hp
      simpa [Call.effect, Abs.sleep, Abs.pushTick, Abs.remove, Abs.note, Abs.setTick] using h p hp'
    | .timerReq (some e') (some func) timeout period arg =>
      simp only [Call.queues] at he
      split_ifs at he with h0
      obtain rfl := Option.some.inj he
      have hperiod : period = p := by simpa [Call.notes, h0, requested] using hp
      simp [Call.effect, Abs.timerReq, h0, Abs.pushTick, Abs.note, Abs.setTick, hperiod]
    | .timerReq none _ _ _ _ | .timerReq (some _) none _ _ _ => simp [Call.queues] at he
    | .taskCreate .. | .taskPrioChange .. | .semInit .. | .semGet _ | .semPut _ | .mutexInit _
    | .mutexGet _ | .mutexPut _ | .msgQueueCreate .. | .msgPut .. | .msgGet .. | .schedule =>
      simp [Call.queues] at he
  · rw [hc.tick e fun heq => he heq.symm, Call.requested_eq hc he]
    exact h

/-- A call of the kernel, which may put an entry behind the others of the tick queue. -/
theorem Fired.exec (h : Fired susp a) (hnew : ∀ t', a.newTask = some t' → t' = t)
    (ha : a.exec c = some (a', r)) (hsusp : ∀ e, susp' e → susp e ∧ c.queues t ≠ some e)
    (hsup : ∀ e, susp e → susp' e) : Fired susp' a' := by
  have hc := Abs.exec_frame hnew ha
  -- For the entry that the call requests, the count begins again.
  have hcalls : ∀ e, callbacks e (since e a'.log) =
      if c.queues t = some e then 0 else callbacks e (since e a.log) := fun e => by
    have := Call.since_eq hc e
    split_ifs at this ⊢
    · simp [this, callbacks]
    · obtain ⟨new, hnew, -, hzero, -⟩ := this
      rw [hnew, callbacks_append, hzero, Nat.zero_add]
  have hreq := fun e => Call.requested_eq (e := e) hc
  refine ⟨fun e p hp => ?_, fun e p hp hne => ?_, fun e p hp hne hq hno => ?_, fun e hs hne => ?_⟩
  · exact Abs.exec_period hnew ha (h.period e) p hp
  · rw [hcalls]
    split_ifs with hq
    · exact Nat.zero_le _
    · exact h.once e p (hreq e hq ▸ hp) hne
  · rw [hcalls]
    split_ifs with hqueues
    · rfl
    -- An entry that the call does not queue was in the queue before.
    · rw [hc.ticks, List.mem_append, Option.mem_toList] at hq
      exact h.quiet e p (hreq e hqueues ▸ hp) hne (hq.resolve_right hqueues)
        fun hs => hno (hsup e hs)
  · obtain ⟨hs, hqueues⟩ := hsusp e hs
    rw [hc.tick e fun heq => hqueues heq.symm] at hne ⊢
    exact h.expired e hs hne

/-- A call of `hardware_timer` begins. -/
theorem Fired.start (h : Fired susp a) {x : ℕ} (hlog : b.log = .start x :: a.log)
    (htick : b.tick = a.tick) (hticks : b.ticks = a.ticks) : Fired susp b := by
  have hreq : ∀ e, requested e b.log = requested e a.log := fun e => by
    simp [hlog, requested]
  have hcalls : ∀ e, callbacks e (since e b.log) = callbacks e (since e a.log) := fun e => by
    rw [hlog, ← List.singleton_append, since_append (by simp [TimerEvent.queues]), callbacks_append]
    simp [callbacks, TimerEvent.fires]
  refine ⟨fun e p => ?_, fun e p => ?_, fun e p => ?_, fun e => ?_⟩
  · rw [hreq, htick]
    exact h.period e p
  · rw [hreq, hcalls]
    exact h.once e p
  · rw [hreq, hcalls, hticks]
    exact h.quiet e p
  · rw [htick]
    exact h.expired e

/-! ## What a pass has ahead of it -/

theorem Abs.after_cons {x : TickPtr} {l : List TickPtr} :
    Abs.after x (e :: l) = if e = x then l else Abs.after x l := by
  by_cases he : e = x
  · simp [Abs.after, he]
  · simp [Abs.after, he]

theorem Abs.mem_of_mem_after {x : TickPtr} {l : List TickPtr} (h : e ∈ Abs.after x l) : e ∈ l :=
  (List.dropWhile_sublist _).subset (List.mem_of_mem_tail h)

/-- Where entries leave the tick queue, a pass has those ahead of it that stay. -/
theorem Abs.mem_after_sublist {x : TickPtr} {l l' : List TickPtr} (hs : l'.Sublist l) (hn : l.Nodup)
    (hx : x ∈ l') : e ∈ Abs.after x l' ↔ e ∈ Abs.after x l ∧ e ∈ l' := by
  induction hs with
  | slnil => simp at hx
  | @cons l₁ l₂ y hs ih =>
    obtain ⟨hy, hn⟩ := List.nodup_cons.mp hn
    have hne : y ≠ x := fun heq => hy (heq ▸ hs.subset hx)
    rw [Abs.after_cons, if_neg hne, ih hn hx]
  | @cons_cons l₁ l₂ y hs ih =>
    obtain ⟨hy, hn⟩ := List.nodup_cons.mp hn
    rw [Abs.after_cons, Abs.after_cons]
    split_ifs with heq
    · exact ⟨fun he => ⟨hs.subset he, List.mem_cons_of_mem y he⟩, fun ⟨he, he'⟩ =>
        (List.mem_cons.mp he').resolve_left fun h => hy (h ▸ he)⟩
    · rw [ih hn ((List.mem_cons.mp hx).resolve_left (Ne.symm heq))]
      exact and_congr_right fun he => ⟨List.mem_cons_of_mem y, fun he' =>
        (List.mem_cons.mp he').resolve_left fun h => hy (h ▸ Abs.mem_of_mem_after he)⟩

/-- An entry that is queued is ahead of every pass. -/
theorem Abs.mem_after_append {x : TickPtr} {l es : List TickPtr} (hx : x ∈ l) :
    e ∈ Abs.after x (l ++ es) ↔ e ∈ Abs.after x l ∨ e ∈ es := by
  induction l with
  | nil => simp at hx
  | cons y l ih =>
    rw [List.cons_append, Abs.after_cons, Abs.after_cons]
    split_ifs with heq
    · exact List.mem_append
    · exact ih ((List.mem_cons.mp hx).resolve_left (Ne.symm heq))

/-- The call and the entry of the pass that a task is suspended in. -/
def Sys.passAt {κ : Type} (s : Sys κ) (u : TcbPtr) : Option (ℕ × TickPtr) :=
  match s.frame u with
  | some (.timer g) => some (g.call, g.entry)
  | _ => none

theorem Sys.passAt_iff {κ : Type} {s : Sys κ} {x : ℕ} : s.passAt u = some (x, e) ↔
    ∃ g, s.frame u = some (.timer g) ∧ g.call = x ∧ g.entry = e := by
  unfold Sys.passAt
  split
  · next g hg => simp [hg]
  · next hno =>
    refine ⟨by simp, ?_⟩
    rintro ⟨g, hg, -⟩
    exact absurd hg (hno g)

/-- The pass of a task whose frame is made anew. -/
theorem Sys.passAt_update {κ : Type} {k : κ} {frame : TcbPtr → Option Frame} :
    (⟨k, update frame t (f.map .timer), live⟩ : Sys κ).passAt u =
      if u = t then f.map fun g => (g.call, g.entry) else (⟨k, frame, live⟩ : Sys κ).passAt u := by
  unfold Sys.passAt
  rcases eq_or_ne u t with rfl | hne
  · cases f <;> simp
  · simp [hne]

/-- A call has the entry ahead of it. -/
def Ahead (s : Sys Kernel) (ticks : List TickPtr) (x : ℕ) (e : TickPtr) : Prop :=
  ∃ u d, s.passAt u = some (x, d) ∧ e ∈ Abs.after d ticks

/-- A pass is suspended at the entry. -/
def Suspended (s : Sys Kernel) (e : TickPtr) : Prop := ∃ u x, s.passAt u = some (x, e)

/-- The invariant of the calls of `hardware_timer`. -/
structure Expiry (s : Sys Kernel) (a : Abs) : Prop where
  tally : Tally (Ahead s a.ticks) a
  fired : Fired (Suspended s) a
  /-- A pass that is suspended has begun. -/
  begun : ∀ u x d, s.passAt u = some (x, d) → x ≤ a.fosTick
  /-- No call is suspended twice. -/
  apart : ∀ u v x d d', s.passAt u = some (x, d) → s.passAt v = some (x, d') → u = v

/-- A step that leaves the passes and the tick queue as they are. -/
theorem Expiry.congr (h : Expiry s a) (hpass : ∀ u, s'.passAt u = s.passAt u)
    (hlog : a'.log = a.log) (htick : a'.tick = a.tick) (hticks : a'.ticks = a.ticks)
    (hfos : a'.fosTick = a.fosTick) : Expiry s' a' := by
  have hahead : Ahead s' a'.ticks = Ahead s a.ticks := by
    unfold Ahead
    simp only [hpass, hticks]
  have hsusp : Suspended s' = Suspended s := by
    unfold Suspended
    simp only [hpass]
  refine ⟨?_, ?_, fun u x d hu => ?_, fun u v x d d' hu hv => ?_⟩
  · rw [hahead]
    exact h.tally.shrink hlog hfos (fun e he => hticks ▸ he) (fun _ _ => id) fun _ _ _ => id
  · rw [hsusp]
    obtain ⟨h₁, h₂, h₃, h₄⟩ := h.fired
    exact ⟨by rwa [hlog, htick], by rwa [hlog], by rwa [hlog, hticks], by rwa [htick]⟩
  · exact hfos ▸ h.begun u x d (hpass u ▸ hu)
  · exact h.apart u v x d d' (hpass u ▸ hu) (hpass v ▸ hv)

/-- A call leaves the passes that are suspended. -/
theorem Sys.passAt_callFrame (hf : s.frame t = none) {k' : Kernel} {live' : Node → Bool} :
    (⟨k', s.callFrame t c k' r, live'⟩ : Sys Kernel).passAt u = s.passAt u := by
  unfold Sys.passAt
  dsimp only
  rcases eq_or_ne u t with rfl | hne
  · rw [Sys.callFrame_self hf, hf]
    split_ifs <;> rfl
  · rw [Sys.callFrame_of_ne hne]

/-- A pass is suspended at an entry that is queued. -/
theorem Core.mem_of_passAt (h : Core hst s a) {x : ℕ} (hp : s.passAt u = some (x, e)) :
    e ∈ a.ticks := by
  obtain ⟨g, hg, -, rfl⟩ := Sys.passAt_iff.mp hp
  exact (h.timer u g hg).2.1

/-- An entry that a call queues was not queued before. -/
theorem Core.not_mem_of_queues (h : Core hst s a) (hu : Usage hst s (.call c))
    (hnew : ∀ t', a.newTask = some t' → t' = t) (hq : c.queues t = some e) : e ∉ a.ticks := by
  intro he
  match c with
  | .osDelay n =>
    obtain rfl : .delay t = e := Option.some.inj hq
    cases hr : a.newTask with
    | none => simpa [Call.IsSetUp] using hu.2.1 (h.running_eq.trans hr)
    | some t' =>
      obtain rfl := hnew t' hr
      exact h.sim.wf.tasks.awake _ t' (h.sim.ready t' hr) he
  | .timerReq (some e') (some func) timeout period arg =>
    have hno : ¬ Machine.TickQueued s.k e' := hu.1.2
    simp only [Call.queues] at hq
    split_ifs at hq
    obtain rfl := Option.some.inj hq
    exact hno ((h.sim.refines.queued_tick_iff e').mpr he)
  | .timerReq none _ _ _ _ | .timerReq (some _) none _ _ _ => simp [Call.queues] at hq
  | .taskCreate .. | .taskPrioChange .. | .semInit .. | .semGet _ | .semPut _ | .mutexInit _
  | .mutexGet _ | .mutexPut _ | .msgQueueCreate .. | .msgPut .. | .msgGet .. | .schedule =>
    simp [Call.queues] at hq

/-- The invariant, after a call. -/
theorem Expiry.exec (h : Expiry s a) (hcore : Core hst s a) (hu : Usage hst s (.call c))
    (hnew : ∀ t', a.newTask = some t' → t' = t) (ha : a.exec c = some (a', r))
    (hpass : ∀ u, s'.passAt u = s.passAt u) : Expiry s' a' := by
  have hc := Abs.exec_frame hnew ha
  have hahead : ∀ x e, c.queues t ≠ some e → (Ahead s' a'.ticks x e ↔ Ahead s a.ticks x e) := by
    intro x e hq
    unfold Ahead
    simp only [hpass, hc.ticks]
    refine exists_congr fun u => exists_congr fun d => and_congr_right fun hd => ?_
    rw [Abs.mem_after_append (hcore.mem_of_passAt hd), Option.mem_toList]
    exact or_iff_left hq
  refine ⟨h.tally.exec hc hahead fun x e ⟨u, d, hd, _⟩ => h.begun u x d (hpass u ▸ hd), ?_,
    fun u x d hu => hc.fosTick ▸ h.begun u x d (hpass u ▸ hu),
    fun u v x d d' hu hv => h.apart u v x d d' (hpass u ▸ hu) (hpass v ▸ hv)⟩
  refine h.fired.exec hnew ha (fun e ⟨u, x, hx⟩ => ?_) fun e ⟨u, x, hx⟩ => ⟨u, x, hpass u ▸ hx⟩
  rw [hpass] at hx
  exact ⟨⟨u, x, hx⟩, fun hq => hcore.not_mem_of_queues hu hnew hq (hcore.mem_of_passAt hx)⟩

/-- The invariant, after the visits of a pass of the running task `t`. Before them, the pass has the
entries `seen` and `rest` of the tick queue `l` ahead of it, and the others have what they had. -/
theorem Expiry.traverse {l pre : List TickPtr} (hl : l = pre ++ (seen ++ rest)) (hn : l.Nodup)
    (hsub : b.ticks.Sublist l) (hseen : ∀ e ∈ seen, e ∈ b.ticks)
    (htally : Tally (fun x e => e ∈ b.ticks ∧ (x = call ∧ e ∈ seen ++ rest ∨
      ∃ u ≠ t, ∃ d, s.passAt u = some (x, d) ∧ e ∈ Abs.after d l)) b)
    (hfired : Fired (fun e => ∃ u ≠ t, ∃ x, s.passAt u = some (x, e)) b)
    (hp : b.Passes call seen rest f a') (hfos : a'.fosTick = b.fosTick) (hcore' : Core hst' s' a')
    (hframe : s'.frame = update s.frame t (f.map .timer))
    (hcycle : ∀ e ∈ seen, (∃ u ≠ t, ∃ x, s.passAt u = some (x, e)) → (b.tick e).period = CYCLE)
    (hcall : call ≤ b.fosTick)
    (hbegun : ∀ u ≠ t, ∀ x d, s.passAt u = some (x, d) → x ≤ b.fosTick ∧ x ≠ call)
    (hapart : ∀ u ≠ t, ∀ v ≠ t, ∀ x d d', s.passAt u = some (x, d) → s.passAt v = some (x, d') →
      u = v) : Expiry s' a' := by
  have hnd : (seen ++ rest).Nodup := (hl ▸ hn).sublist (List.sublist_append_right _ _)
  have hnseen := hnd.sublist (List.sublist_append_left seen rest)
  have hdis := List.disjoint_of_nodup_append hnd
  have hsub' : a'.ticks.Sublist b.ticks := by
    rw [hp.traversed.ticks]
    exact List.filter_sublist
  -- The pass of the running task is the one that goes on, and the others are those that there were.
  have hself : s'.passAt t = f.map fun g => (g.call, g.entry) := by
    unfold Sys.passAt
    rw [hframe, update_self]
    cases f <;> rfl
  have hother : ∀ u ≠ t, s'.passAt u = s.passAt u := fun u hu => by
    unfold Sys.passAt
    rw [hframe, update_of_ne hu]
  -- What the passes have ahead of them.
  have hafter : ∀ u x d, s'.passAt u = some (x, d) → ∀ e,
      e ∈ Abs.after d a'.ticks ↔ e ∈ Abs.after d l ∧ e ∈ a'.ticks := fun u x d hu e =>
    Abs.mem_after_sublist (hsub'.trans hsub) hn (hcore'.mem_of_passAt hu)
  have hrest : ∀ g, f = some g → g.call = call ∧ Abs.after g.entry l = rest := fun g hg => by
    obtain ⟨hgcall, ⟨l₀, hl₀⟩, -⟩ := hp.suspended g hg
    have hl' : l = (pre ++ l₀) ++ g.entry :: rest := by
      rw [hl, hl₀]
      simp
    exact ⟨hgcall, Abs.after_eq hl' hn⟩
  refine ⟨htally.traverse hp hnseen hfos (fun e he => ⟨hseen e he, Or.inl ⟨rfl, ?_⟩⟩) ?_ ?_,
    hfired.traverse hp hnseen hcycle hseen fun e => ?_, fun u x d hu => ?_,
    fun u v x d d' hu hv => ?_⟩
  · exact List.mem_append_left rest he
  · rintro x e ⟨u, d, hu, he⟩
    obtain ⟨he, hmem⟩ := (hafter u x d hu e).mp he
    rcases eq_or_ne u t with rfl | hne
    · rw [hself] at hu
      obtain ⟨g, hg, hgd⟩ := Option.map_eq_some_iff.mp hu
      obtain ⟨rfl, rfl⟩ := Prod.mk.inj hgd
      obtain ⟨hgcall, hgrest⟩ := hrest g hg
      rw [hgrest] at he
      exact ⟨⟨hsub'.subset hmem, Or.inl ⟨hgcall, List.mem_append_right seen he⟩⟩,
        fun hm => hdis hm.2 he⟩
    · rw [hother u hne] at hu
      exact ⟨⟨hsub'.subset hmem, Or.inr ⟨u, hne, d, hu, he⟩⟩,
        fun hm => (hbegun u hne x d hu).2 hm.1⟩
  · rintro x e hmem ⟨-, ⟨rfl, he⟩ | ⟨u, hne, d, hu, he⟩⟩ hno
    · -- The entry is behind the one at which the pass is suspended.
      have he' : e ∈ rest := (List.mem_append.mp he).resolve_left fun hs => hno ⟨rfl, hs⟩
      cases hf : f with
      | none =>
        rw [hp.done hf] at he'
        simp at he'
      | some g =>
        obtain ⟨hgcall, hgrest⟩ := hrest g hf
        have hu : s'.passAt t = some (x, g.entry) := by simp [hself, hf, hgcall]
        exact ⟨t, g.entry, hu, (hafter t x _ hu e).mpr ⟨hgrest ▸ he', hmem⟩⟩
    · rw [← hother u hne] at hu
      exact ⟨u, d, hu, (hafter u x d hu e).mpr ⟨he, hmem⟩⟩
  · constructor
    · rintro ⟨u, x, hu⟩
      rcases eq_or_ne u t with rfl | hne
      · rw [hself] at hu
        obtain ⟨g, hg, hgd⟩ := Option.map_eq_some_iff.mp hu
        exact Or.inr ⟨g, hg, (Prod.mk.inj hgd).2⟩
      · exact Or.inl ⟨u, hne, x, hother u hne ▸ hu⟩
    · rintro (⟨u, hne, x, hu⟩ | ⟨g, hg, rfl⟩)
      · exact ⟨u, x, (hother u hne).trans hu⟩
      · exact ⟨t, g.call, by simp [hself, hg]⟩
  · rw [hfos]
    rcases eq_or_ne u t with rfl | hne
    · rw [hself] at hu
      obtain ⟨g, hg, hgd⟩ := Option.map_eq_some_iff.mp hu
      exact (Prod.mk.inj hgd).1 ▸ (hrest g hg).1 ▸ hcall
    · exact (hbegun u hne x d (hother u hne ▸ hu)).1
  · -- The call of the running task is none of the others.
    have hcalls : ∀ w y z, s'.passAt t = some (x, y) → w ≠ t → s'.passAt w ≠ some (x, z) := by
      intro w y z ht hw hwz
      rw [hself] at ht
      obtain ⟨g, hg, hgd⟩ := Option.map_eq_some_iff.mp ht
      refine (hbegun w hw x z (hother w hw ▸ hwz)).2 ?_
      rw [← (Prod.mk.inj hgd).1, (hrest g hg).1]
    rcases eq_or_ne u t with rfl | hu'
    · by_contra hne
      exact hcalls v d d' hu (Ne.symm hne) hv
    · rcases eq_or_ne v t with rfl | hv'
      · exact absurd hu (hcalls u d' d hv hu')
      · exact hapart u hu' v hv' x d d' (hother u hu' ▸ hu) (hother v hv' ▸ hv)

/-- The invariant, after a call of `hardware_timer`. -/
theorem Expiry.tick (h : Expiry s a) (hcore : Core hst s a) (hcore' : Core hst' s' a')
    (hf : s.frame t = none) (hd : Undisturbed s (.tick o)) (ha : a.hardwareTimer o = some (a', f))
    (hframe : s'.frame = update s.frame t (f.map .timer)) : Expiry s' a' := by
  have w := hcore.sim.wf
  obtain ⟨hfos, seen, rest, hl, hp⟩ := w.passes_hardwareTimer ha
  -- The state after the count and the start of the pass, in which no entry has been visited.
  let b : Abs := { a.note (.start (a.fosTick + 1)) with fosTick := a.fosTick + 1 }
  have hnone : s.passAt t = none := by simp [Sys.passAt, hf]
  have hne : ∀ u x d, s.passAt u = some (x, d) → u ≠ t := fun u x d hu heq => by
    simp [heq ▸ hu] at hnone
  have hmem : ∀ e ∈ seen, e ∈ a.ticks := fun e he => hl ▸ List.mem_append_left rest he
  have hb : b.Passes (a.fosTick + 1) seen rest f a' := hp.congr rfl rfl rfl rfl rfl rfl
  have hl' : a.ticks = [] ++ (seen ++ rest) := hl
  refine Expiry.traverse (b := b) hl' w.ticks.nodup (List.Sublist.refl _) hmem ?_ ?_ hb hfos
    hcore' hframe ?_ le_rfl (fun u _ x d hu => ?_)
    fun u _ v _ x d d' hu hv => h.apart u v x d d' hu hv
  · refine (h.tally.start (b := b) rfl rfl rfl).shrink rfl rfl (fun e he => he) ?_ ?_
    · rintro x e ⟨he, ⟨rfl, -⟩ | ⟨u, -, d, hu⟩⟩
      · exact Or.inl ⟨rfl, he⟩
      · exact Or.inr ⟨u, d, hu⟩
    · rintro x e he (⟨rfl, he'⟩ | ⟨u, d, hu, he'⟩)
      · exact ⟨he, Or.inl ⟨rfl, hl ▸ he'⟩⟩
      · exact ⟨he, Or.inr ⟨u, hne u x d hu, d, hu, he'⟩⟩
  -- The task that runs the tick has not been suspended before, so that the others are all there
  -- are.
  · have hsusp : (fun e => ∃ u ≠ t, ∃ x, s.passAt u = some (x, e)) = Suspended s := by
      funext e
      exact propext ⟨fun ⟨u, _, x, hu⟩ => ⟨u, x, hu⟩, fun ⟨u, x, hu⟩ => ⟨u, hne u x e hu, x, hu⟩⟩
    rw [hsusp]
    exact h.fired.start (b := b) rfl rfl rfl
  · rintro e - ⟨u, -, x, hu⟩
    obtain ⟨g, hg, -, rfl⟩ := Sys.passAt_iff.mp hu
    have hcycle : (s.k.tick g.entry).period = CYCLE := hd u g hg
    rwa [hcore.sim.refines.tick_eq] at hcycle
  -- A suspended pass has begun in an earlier tick.
  · have hx := h.begun u x d hu
    show x ≤ a.fosTick + 1 ∧ x ≠ a.fosTick + 1
    omega

/-- The invariant, after a suspended pass has gone on. -/
theorem Expiry.resume (h : Expiry s a) (hcore : Core hst s a) (hcore' : Core hst' s' a')
    (hr : s.running = some t) (hf : s.frame t = some (.timer g)) (hd : Undisturbed s (.resume o))
    (ha : a.hardwareTimerResume g o = some (a', f))
    (hframe : s'.frame = update s.frame t (f.map .timer)) : Expiry s' a' := by
  have w := hcore.sim.wf
  have hn := w.ticks.nodup
  have hself : s.passAt t = some (g.call, g.entry) := by simp [Sys.passAt, hf]
  have hmem := hcore.mem_of_passAt hself
  obtain ⟨hfos, ⟨⟨puts, rfl⟩, hlog, htick, hticks⟩ | ⟨seen, rest, hl, hp⟩⟩ :=
    w.passes_hardwareTimerResume hmem ha
  · -- The callback has been switched out again.
    refine h.congr (fun u => ?_) hlog htick hticks hfos
    unfold Sys.passAt
    rw [hframe]
    rcases eq_or_ne u t with rfl | hne
    · simp [hf]
    · simp [hne]
  -- The callback returns, and the pass goes on with the entries behind its own.
  · obtain ⟨pre, es, hsplit⟩ := List.append_of_mem hmem
    have hes : es = seen ++ rest := (Abs.after_eq hsplit hn).symm.trans hl
    have hdes : g.entry ∉ es := (List.nodup_cons.mp ((hsplit ▸ hn).sublist
      (List.sublist_append_right pre _))).1
    have hsplit' : a.ticks = (pre ++ [g.entry]) ++ (seen ++ rest) := by simp [hsplit, hes]
    have hnotin : ∀ e ∈ seen, e ≠ g.entry := fun e he heq =>
      hdes (heq ▸ hes ▸ List.mem_append_left rest he)
    have hfos' : (a.afterCallback g.entry).fosTick = a.fosTick := by simp
    refine Expiry.traverse hsplit' hn Abs.afterCallback_ticks_sublist (fun e he => ?_) ?_ ?_ hp
      (hfos.trans hfos'.symm) hcore' hframe ?_ (hfos' ▸ h.begun t _ _ hself)
      (fun u hu x d hx => ?_) fun u _ v _ x d d' hu hv => h.apart u v x d d' hu hv
    · rw [Abs.mem_afterCallback_ticks (hnotin e he), hsplit']
      simp [he]
    -- What this pass has ahead of it now is what it had as a suspended pass.
    · refine h.tally.shrink (by simp) hfos'
        (fun e he => Abs.afterCallback_ticks_sublist.subset he) ?_ ?_
      · rintro x e ⟨-, ⟨rfl, he⟩ | ⟨u, -, d, hu⟩⟩
        · exact ⟨t, g.entry, hself, hl ▸ he⟩
        · exact ⟨u, d, hu⟩
      · rintro x e he ⟨u, d, hu, he'⟩
        refine ⟨he, ?_⟩
        rcases eq_or_ne u t with rfl | hne
        · obtain ⟨rfl, rfl⟩ := Prod.mk.inj (Option.some.inj (hself.symm.trans hu))
          exact Or.inl ⟨rfl, hl ▸ he'⟩
        · exact Or.inr ⟨u, hne, d, hu, he'⟩
    -- No other pass is suspended at the entry that is resumed.
    · refine h.fired.afterCallback hn (fun e ⟨u, _, x, hu⟩ => ⟨u, x, hu⟩) ?_ ?_
      · rintro e ⟨u, x, hu⟩ hne
        refine ⟨u, fun heq => hne ?_, x, hu⟩
        exact (Prod.mk.inj (Option.some.inj ((heq ▸ hu).symm.trans hself))).2
      · rintro ⟨u, hne, x, hu⟩
        obtain ⟨g', hg', -, he⟩ := Sys.passAt_iff.mp hu
        exact (hcore.apart t u g g' hf hg' he.symm).resolve_left (Ne.symm hne)
    -- Another pass is suspended at an entry ahead only if its period is `CYCLE`.
    · rintro e he ⟨u, hne, x, hu⟩
      obtain ⟨g', hg', -, rfl⟩ := Sys.passAt_iff.mp hu
      have hes' : g'.entry ∈ es := hes ▸ List.mem_append_left rest he
      have hahead : Machine.TickAhead s.k g.entry g'.entry :=
        hcore.tickAhead_iff.mpr ⟨hmem, (Abs.after_eq hsplit hn).symm ▸ hes'⟩
      have hcycle : (s.k.tick g'.entry).period = CYCLE := hd t g u g' hr hf hne hg' hahead
      rw [Abs.afterCallback_tick_of_ne (hnotin _ he), ← hcore.sim.refines.tick_eq]
      exact hcycle
    · exact ⟨hfos' ▸ h.begun u x d hx, fun heq => hu (h.apart u t x d g.entry hx (heq ▸ hself))⟩

/-! ## The tick queue over one step -/

/-- What one step does to an entry of the tick queue: it leaves it when it has expired, and else it
is counted down for each visit to it. -/
structure CountedDown (s : Sys Kernel) (act : Action) (e : TickPtr) (a a' : Abs) : Prop where
  leaves : e ∉ a'.ticks → (a.tick e).timeout = TIMEOUT
  counts : (a.tick e).timeout ≠ TIMEOUT → ¬ Continues s act e → ∃ new, a'.log = new ++ a.log ∧
    (a'.tick e).timeout + new.countP (TimerEvent.comesTo e) = (a.tick e).timeout

/-- What the visits of a pass do to an entry of the tick queue. -/
theorem Abs.Passes.countedDown (h : b.Passes call seen rest f a') (hn : seen.Nodup)
    (he : e ∈ b.ticks) (s : Sys Kernel) (act : Action) : CountedDown s act e b a' where
  leaves hno := by
    rw [h.traversed.ticks, List.mem_filter, not_and, decide_eq_true_eq, not_not] at hno
    exact (hno he).2.1
  counts hne _ := by
    refine ⟨passNotes b.tick call seen, h.traversed.log, ?_⟩
    have hsusp : ¬ SuspendedAt f e := by
      rintro ⟨g, hg, rfl⟩
      exact hne (h.suspended g hg).2.2.1
    rw [h.traversed.tick, comesTo_passNotes hn]
    simp only [hsusp, not_false_eq_true, and_true]
    split_ifs
    · have : (b.tick e).timeout ≠ 0 := hne
      simp only [Tick.passed, if_neg hne]
      omega
    · rfl

/-- A step that leaves the entry as it is, and notes nothing about it. -/
theorem CountedDown.of_same (hmem : e ∈ a'.ticks) (hlog : a'.log = new ++ a.log)
    (htick : a'.tick e = a.tick e) (hnew : new.countP (TimerEvent.comesTo e) = 0) :
    CountedDown s act e a a' where
  leaves hno := absurd hmem hno
  counts _ _ := ⟨new, hlog, by rw [htick, hnew, Nat.add_zero]⟩

/-- What a call does to an entry of the tick queue. -/
theorem Core.countedDown_exec (h : Core hst s a) (hu : Usage hst s (.call c)) (he : e ∈ a.ticks)
    (ha : a.exec c = some (a', r)) : CountedDown s act e a a' := by
  obtain ⟨t, hnew⟩ := a.exists_caller
  have hc := Abs.exec_frame hnew ha
  have hq : c.queues t ≠ some e := fun hq => h.not_mem_of_queues hu hnew hq he
  refine .of_same (by rw [hc.ticks]; exact List.mem_append_left _ he) hc.log
    (hc.tick e fun heq => hq heq.symm) ?_
  cases hq : c.queues t with
  | none => simp [Call.notes_eq_none hq]
  | some e₀ =>
    rcases Call.notes_of_queues hq with hn | ⟨p, hn⟩ <;> simp [hn, TimerEvent.comesTo]

/-- What a step in lockstep does to an entry of the tick queue. -/
theorem Lockstep.countedDown (h : Lockstep s a act s' a') (hcore : Core hst s a)
    (hexp : Expiry s a) (hu : Usage hst s act) (he : e ∈ a.ticks) :
    CountedDown s act e a a' := by
  have w := hcore.sim.wf
  have hn := w.ticks.nodup
  -- A step that does not go through the queue.
  have hnil : CountedDown s act e a a := .of_same he (List.nil_append _).symm rfl rfl
  cases h with
  | main hr hk ha => exact hcore.countedDown_exec hu he ha
  | call hr hf hk ha hnew => exact hcore.countedDown_exec hu he ha
  | tick hr hf hk ha =>
    obtain ⟨-, seen, rest, hl, hp⟩ := w.passes_hardwareTimer ha
    have hseen : seen.Nodup := (hl ▸ hn).sublist (List.sublist_append_left seen rest)
    obtain ⟨hleaves, hcounts⟩ := hp.countedDown hseen he s (.tick _)
    refine ⟨hleaves, fun hne hno => ?_⟩
    obtain ⟨new, hlog, hcount⟩ := hcounts hne hno
    -- The start of the pass is an event of its own.
    exact ⟨new ++ [.start (a.fosTick + 1)], by simp [hlog, Abs.note], by
      simpa [TimerEvent.comesTo, Abs.note] using hcount⟩
  | ret => exact hnil
  | @pass t o g k' _ f hr hf hk ha =>
    have hself : s.passAt t = some (g.call, g.entry) := by simp [Sys.passAt, hf]
    have hmem := hcore.mem_of_passAt hself
    obtain ⟨-, ⟨-, hlog, htick, hticks⟩ | ⟨seen, rest, hl, hp⟩⟩ :=
      w.passes_hardwareTimerResume hmem ha
    · have hnil : a'.log = [] ++ a.log := hlog
      exact .of_same (hticks ▸ he) hnil (by rw [htick]) rfl
    -- The pass goes on behind the entry at which it was suspended.
    · obtain ⟨pre, es, hsplit⟩ := List.append_of_mem hmem
      have hes : es = seen ++ rest := (Abs.after_eq hsplit hn).symm.trans hl
      have hnd := List.nodup_cons.mp ((hsplit ▸ hn).sublist (List.sublist_append_right pre _))
      have hseen : seen.Nodup := (hes ▸ hnd.2).sublist (List.sublist_append_left seen rest)
      rcases eq_or_ne e g.entry with rfl | hne
      · -- The timer at which the pass was suspended.
        refine ⟨fun hno => ?_, fun _ hcont => absurd ⟨o, t, g, rfl, hr, hf, rfl⟩ hcont⟩
        by_contra hzero
        refine hzero (hexp.fired.expired _ ⟨t, _, hself⟩ fun hcycle => hno ?_)
        have hstay : g.entry ∈ (a.afterCallback g.entry).ticks := by
          simpa [Abs.afterCallback, hcycle, Abs.setTick] using he
        rw [hp.traversed.ticks, List.mem_filter, decide_eq_true_eq]
        exact ⟨hstay, fun hm => hnd.1 (hes ▸ List.mem_append_left rest hm.1.1)⟩
      · obtain ⟨hleaves, hcounts⟩ := hp.countedDown hseen
          ((Abs.mem_afterCallback_ticks hne).mpr he) s (.resume o)
        rw [Abs.afterCallback_tick_of_ne hne, Abs.afterCallback_log] at hcounts
        rw [Abs.afterCallback_tick_of_ne hne] at hleaves
        exact ⟨hleaves, hcounts⟩
  | start => exact .of_same he (List.nil_append _).symm rfl rfl

/-- The invariant, after one more step. -/
theorem Expiry.step (h : Expiry s a) (hl : Lockstep s a act s' a') (hcore : Core hst s a)
    (hcore' : Core hst' s' a') (hu : Usage hst s act) (hd : Undisturbed s act) : Expiry s' a' := by
  cases hl with
  | main hr hk ha =>
    obtain ⟨t, hnew⟩ := a.exists_caller
    exact h.exec hcore hu hnew ha fun u => rfl
  | @call t c k' _ r hr hf hk ha hnew =>
    have hrun := hcore.running_eq.symm.trans hr
    exact h.exec hcore hu (fun t' ht' => Option.some.inj (ht'.symm.trans hrun)) ha fun u =>
      Sys.passAt_callFrame hf
  | tick hr hf hk ha => exact h.tick hcore hcore' hf hd ha rfl
  | @ret t o c r hr hf =>
    refine h.congr (fun u => ?_) rfl rfl rfl rfl
    unfold Sys.passAt
    rcases eq_or_ne u t with rfl | hne
    · simp [hf]
    · simp [hne]
  | pass hr hf hk ha => exact h.resume hcore hcore' hr hf hd ha rfl
  | start => exact h.congr (fun u => rfl) rfl rfl rfl rfl

/-- The invariant holds at the start. -/
theorem Expiry.zeroed (hframe : ∀ u, s.frame u = none) (hlog : a.log = []) : Expiry s a := by
  have hpass : ∀ u, s.passAt u = none := fun u => by simp [Sys.passAt, hframe]
  refine ⟨⟨?_, ?_, ?_, ?_, ?_⟩, ⟨?_, ?_, ?_, ?_⟩, ?_, ?_⟩ <;>
    simp [hlog, hpass, Ahead, Suspended, since, visits, requested]

/-- As long as no pass has ahead of it a one-shot timer in whose callback another pass is suspended,
every expiry of a timer is processed once. -/
theorem processed_once
    (h : SysRun (fun tr s act => TimerUsage tr s act ∧ Undisturbed s act) tr s) :
    ProcessedOnce tr s := by
  let P (tr : Trace Kernel) (s : Sys Kernel) (a : Abs) : Prop :=
    Expiry s a ∧ ∀ s₀ act tr₀, tr = (s₀, act) :: tr₀ → ∃ a₀, Core (hist tr₀) s₀ a₀ ∧
      ∀ e ∈ a₀.ticks, CountedDown s₀ act e a₀ a
  obtain ⟨a, hcore, hexp, hlast⟩ : ∃ a, Core (hist tr) s a ∧ P tr s a := by
    refine h.invariant (fun _ _ _ hg => ⟨hg.1.1, hg.1.2, hg.2⟩) (fun s k hinit hz _ => ?_) ?_
    · exact ⟨.zeroed hinit.2.1 hz.log, by simp⟩
    · intro tr s a act s' a' _ hcore ⟨hexp, _⟩ hg hl hcore'
      refine ⟨hexp.step hl hcore hcore' hg.1.1 hg.2, fun s₀ act₀ tr₀ heq => ?_⟩
      obtain ⟨hhead, rfl⟩ := List.cons.inj heq
      obtain ⟨rfl, rfl⟩ := Prod.mk.inj hhead
      exact ⟨a, hcore, fun e he => hl.countedDown hcore hexp hg.1.1 he⟩
  have hlog : ∀ {hst s a}, Core hst s a → s.k.log = a.log := fun hc => by rw [hc.sim.refines.vars]
  have htick : ∀ {hst s a}, Core hst s a → s.k.tick = a.tick := fun hc => hc.sim.refines.tick_eq
  have hq : ∀ {hst s a e}, Core hst s a → (Queued s.k.heap tickHead (.tick e) ↔ e ∈ a.ticks) :=
    fun hc => hc.sim.refines.queued_tick_iff _
  refine ⟨fun e p hp hne => ?_, fun x e => ?_, fun x e hs hno he => ?_,
    fun s₀ act tr₀ heq e he hno => ?_,
    fun s₀ act tr₀ heq e he hne hcont => ?_⟩
  · rw [hlog hcore] at hp ⊢
    exact hexp.fired.once e p hp hne
  · rw [hlog hcore]
    exact hexp.tally.le x e
  · rw [hlog hcore] at hs ⊢
    refine hexp.tally.done x e hs ((hq hcore).mp he) ?_
    rintro ⟨u, d, hu, -⟩
    obtain ⟨g, hg, hcall, -⟩ := Sys.passAt_iff.mp hu
    exact hno u g hg hcall
  · obtain ⟨a₀, hcore₀, hdown⟩ := hlast s₀ act tr₀ heq
    rw [htick hcore₀]
    exact (hdown e ((hq hcore₀).mp he)).leaves fun hm => hno ((hq hcore).mpr hm)
  · obtain ⟨a₀, hcore₀, hdown⟩ := hlast s₀ act tr₀ heq
    rw [htick hcore₀] at hne ⊢
    rw [htick hcore, hlog hcore, hlog hcore₀]
    exact (hdown e ((hq hcore₀).mp he)).counts hne hcont

/-! ## A callback that wakes a task -/

/-- The callback of `timer 0` puts `semaphore 0`. -/
def wakes : Oracle := fun e => if e = .timer 0 then [0] else []

/-- `task 1` waits for `semaphore 0`, `task 2` runs, and the one-shot `timer 0` expires at the next
tick. -/
def timerWake : List Move := [
  .call (.taskCreate (some (.task 1)) (some 0) (some 0) 2),
  .call (.taskCreate (some (.task 2)) (some 0) (some 0) 5),
  .call (.semInit (some 0) 0),
  .call (.timerReq (some (.timer 0)) (some 0) 1 0 0),
  .start, .call .schedule, .call (.semGet (some 0)), .tick]

/-- What happens over the abstract kernel after `timerWake`: the tick at which the timer expires,
and the return of `sem_get` in the task that its callback has woken. -/
def afterTimerWake : Option (Sys Abs × Sys Abs × Sys Abs) :=
  (replay (fun _ _ _ => true) timerWake [] Sys.zero).bind fun r =>
    (r.2.step (.tick wakes)).bind fun s₁ =>
      (s₁.step (.resume passive)).map fun s₂ => (r.2, s₁, s₂)

theorem usage_tick : Usage hst s (.tick o) := trivial

theorem usage_resume : Usage hst s (.resume o) := trivial

theorem wakes_live {live : Node → Bool} (h : live (.sem 0) = true) (e : TickPtr) :
    ∀ i ∈ wakes e, live (.sem i) = true := by
  unfold wakes
  split_ifs <;> simp [h]

/-- A step over the abstract kernel is one over the kernel. -/
theorem Core.step_over (h : Core hst s a) (ho : Orderly hst s act) {sA : Sys Abs}
    (hs : (s.over a).step act = some sA) : ∃ s' a', s.step act = some s' ∧ sA = s'.over a' ∧
      Core ((s.running, act) :: hst) s' a' := by
  obtain ⟨s', a', hlock, hcore⟩ := h.step ho (h.enabled_of_step_over hs)
  exact ⟨s', a', hlock.step, Option.some.inj (hs.symm.trans (hlock.step_over h.running_eq)), hcore⟩

/-- The run up to the return of `sem_get` in the woken task, while the pass is suspended in the task
that the tick has interrupted. -/
theorem timerWake_run : ∃ tr s a, SysRun (fun tr s act => TimerUsage tr s act ∧ Undisturbed s act)
    tr s ∧ Core (hist tr) s a ∧ afterTimerWake.map (·.2.2) = some (s.over a) := by
  have hsome : (afterTimerWake.map fun r => decide (r.1.live (.sem 0) = true ∧
      r.2.1.running = some (.task 1) ∧
        r.2.1.frame (.task 1) = some (.call (.semGet (some 0)) .TRUE))) = some true := by decide
  obtain ⟨r, hr, hdec⟩ := Option.map_eq_some_iff.mp hsome
  obtain ⟨⟨trA, sA⟩, hreplay, h⟩ := Option.bind_eq_some_iff.mp hr
  obtain ⟨sA₁, h₁, h⟩ := Option.bind_eq_some_iff.mp h
  obtain ⟨sA₂, h₂, rfl⟩ := Option.map_eq_some_iff.mp h
  obtain ⟨hlive, hrun₁, hframe₁⟩ := of_decide_eq_true hdec
  -- Up to the expiry, all callbacks are passive.
  obtain ⟨tr, s, a, hrun, hcore, -, rfl, -⟩ := replay_run PassiveUsage
    (fun _ _ _ _ m _ _ _ hu _ => ⟨hu, m.passive_act⟩) hreplay
  obtain ⟨horderly, hno⟩ := hrun.orderly fun _ _ _ hg => hg
  have hrun : SysRun (fun tr s act => TimerUsage tr s act ∧ Undisturbed s act) tr s :=
    horderly.mono fun tr s act _ hg => ⟨⟨hg.2.usage, hg.2.callbacks⟩, hg.2.undisturbed⟩
  -- The expiry.
  have hcall : CallbackUsage s (.tick wakes) := wakes_live hlive
  have hund : Undisturbed s (.tick wakes) := fun u g hg => absurd hg (hno u g)
  obtain ⟨s₁, a₁, hs₁, rfl, hcore₁⟩ := hcore.step_over ⟨usage_tick, hcall, hund⟩ h₁
  have hrun := hrun.cons ⟨⟨usage_tick, hcall⟩, hund⟩ hs₁
  -- The return of `sem_get`.
  have hpassive : CallbackUsage s₁ (.resume passive) := fun e i hi => by simp [passive] at hi
  have hund₁ : Undisturbed s₁ (.resume passive) := fun t f u g hr hf => by
    rw [hcore₁.running_over] at hrun₁
    obtain rfl := Option.some.inj (hrun₁.symm.trans hr)
    have hf' : s₁.frame (.task 1) = _ := hframe₁
    simp [hf] at hf'
  obtain ⟨s₂, a₂, hs₂, rfl, hcore₂⟩ := hcore₁.step_over ⟨usage_resume, hpassive, hund₁⟩ h₂
  exact ⟨_, s₂, a₂, hrun.cons ⟨⟨usage_resume, hpassive⟩, hund₁⟩ hs₂, hcore₂, by rw [hr]; rfl⟩

/-- In the run of `timerWake`, every expiry has been processed once so far. -/
theorem processed_once_timerWake : ∃ tr s,
    SysRun (fun tr s act => TimerUsage tr s act ∧ Undisturbed s act) tr s ∧
      s.frame (.task 2) = some (.timer ⟨2, .timer 0, []⟩) ∧ ProcessedOnce tr s := by
  obtain ⟨tr, s, a, hrun, -, hs⟩ := timerWake_run
  have hdec : (afterTimerWake.map (·.2.2)).map (fun s => decide
      (s.frame (.task 2) = some (.timer ⟨2, .timer 0, []⟩))) = some true := by decide
  rw [hs] at hdec
  exact ⟨tr, s, hrun, of_decide_eq_true (Option.some.inj hdec), processed_once hrun⟩

/-- A tick that comes while the pass is suspended calls back a second time for one `timer_req`. -/
theorem not_processedOnce_timerWake : ∃ tr s, SysRun TimerUsage tr s ∧
    requested (.timer 0) s.k.log = some 0 ∧
      callbacks (.timer 0) (since (.timer 0) s.k.log) = 2 ∧ ¬ ProcessedOnce tr s := by
  obtain ⟨tr, s, a, hrun, hcore, hs⟩ := timerWake_run
  have hdec : (afterTimerWake.map (·.2.2)).bind (fun s => (s.k.hardwareTimer wakes).map fun r =>
      decide (s.live (.sem 0) = true ∧ s.running = some (.task 1) ∧ s.frame (.task 1) = none ∧
        requested (.timer 0) r.1.log = some 0 ∧
          callbacks (.timer 0) (since (.timer 0) r.1.log) = 2)) = some true := by decide
  rw [hs] at hdec
  obtain ⟨⟨a', f⟩, ha, hdec⟩ := Option.map_eq_some_iff.mp hdec
  obtain ⟨hlive, hr, hf, hreq, htwo⟩ := of_decide_eq_true hdec
  -- The tick is made by the system as it is, not only by the abstract one.
  have hcall : CallbackUsage s (.tick wakes) := wakes_live hlive
  obtain ⟨k', a₁, f₁, hk, ha₁, hsim⟩ := hcore.sim.tidy.hardwareTimer wakes hcall
  obtain ⟨rfl, rfl⟩ := Prod.mk.inj (Option.some.inj (ha₁.symm.trans ha))
  have hlog : k'.log = a₁.log := by rw [hsim.refines.vars]
  have hrun := (hrun.mono fun _ _ _ _ hg => hg.1 : SysRun TimerUsage tr s).cons
    ⟨usage_tick, hcall⟩ (Sys.step_tick (hcore.running_over ▸ hr) hf hk)
  refine ⟨_, _, hrun, ?_, ?_, fun h => ?_⟩
  · rw [hlog]
    exact hreq
  · rw [hlog]
    exact htwo
  · have hle := h.once (.timer 0) 0
    rw [hlog] at hle
    have := hle hreq (by decide)
    have htwo : callbacks (.timer 0) (since (.timer 0) a₁.log) = 2 := htwo
    omega

end Fos
