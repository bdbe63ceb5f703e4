import Fos.Runs.Expiry

/-!
# Starting a timer

`timer_req` links its timer in behind the others, whether or not it is linked already. A timer that
is not queued starts alone: it is queued once, the others stay as they are, and it is counted down
from its `timeout`. For a timer that is queued, the node that `list_insert` writes is one that the
queue runs through: what was behind it is cut off, and its `prev` no longer leads back. This is so
in particular when the call is made from the timer's own callback, since an expired timer leaves the
tick queue only after its callback (`timer_req_iff`).
-/

namespace Fos

open Links Function Runs

/-- Where a call of `timer_req` is made. -/
inductive Site where
  /-- A task or `main` makes it. -/
  | task
  /-- The callback of the timer itself makes it, in a new call of `hardware_timer`. -/
  | callback
  deriving DecidableEq

/-- The callback of the timer `e` is a call of `timer_req` on it, and the others are passive. -/
def Kernel.requestAgain (e : TickPtr) (func timeout period arg : ℕ) (tick : TickPtr) (k : Kernel) :
    Option Kernel :=
  if tick = e then (k.timerReq (some e) (some func) timeout period arg).map Prod.fst else some k

/-- The kernel after a call of `timer_req`, and after the pass of `hardware_timer` around it if
there is one. -/
def Kernel.request (site : Site) (e : TickPtr) (func timeout period arg : ℕ) (k : Kernel) :
    Option Kernel :=
  match site with
  | .task => (k.timerReq (some e) (some func) timeout period arg).map Prod.fst
  | .callback => k.tickPass (Kernel.requestAgain e func timeout period arg)

/-- What becomes of the other entries of the tick queue: a pass around the call counts them down. -/
def Site.rest : Site → Tick → Option Tick
  | .task, x => some x
  | .callback, x => if x.Leaves then none else some x.passed

/-- The timer has started and disturbed no other entry. -/
structure StartsAlone (site : Site) (e : TickPtr) (timeout : ℕ) (k k' : Kernel) : Prop where
  /-- The tick queue is well formed, and the timer is in it. No node of a represented sequence is
  twice in it. -/
  queued : ∃ es : List TickPtr, Represents k'.heap tickHead (es.map .tick) ∧ e ∈ es
  /-- It has all of its time left. -/
  timeout : (k'.tick e).timeout = timeout
  /-- Every other entry is still queued, with its own remaining time. -/
  others : ∀ e' ≠ e, ∀ x, Queued k.heap tickHead (.tick e') → site.rest (k.tick e') = some x →
    Queued k'.heap tickHead (.tick e') ∧ k'.tick e' = x

/-- Callers and callbacks use the kernel's functions as they ask for, and the expiries are processed
once. -/
def OrderlyUsage (tr : Trace Kernel) (s : Sys Kernel) (act : Action) : Prop :=
  TimerUsage tr s act ∧ Undisturbed s act

/-- How often calls of `hardware_timer` have come to the entry. -/
def comings (e : TickPtr) (log : List TimerEvent) : ℕ := log.countP (TimerEvent.comesTo e)

/-- In whatever way the run goes on after the call, the timer is queued and counted down from
`timeout` until it expires. -/
def CountsDown (tr : Trace Kernel) (s : Sys Kernel) (c : Call) (e : TickPtr) (timeout : ℕ) : Prop :=
  ∀ tr' s', SysRun OrderlyUsage (tr' ++ (s, .call c) :: tr) s' →
    comings e s'.k.log ≤ comings e s.k.log + timeout →
      Queued s'.k.heap tickHead (.tick e) ∧
        (s'.k.tick e).timeout + comings e s'.k.log = comings e s.k.log + timeout

variable {hst : Hist} {tr : Trace Kernel} {s s' : Sys Kernel} {a a' b : Abs} {act : Action}
  {live : Node → Bool} {k k' : Kernel} {i func timeout period arg : ℕ} {e : TickPtr} {site : Site}

/-! ## A timer that is queued already -/

/-- The tick queue `pre ++ e :: es` still runs to the entry, but the entry does not lead back, and
nothing is behind it. -/
structure Severed (h h' : Heap Node) (pre : List TickPtr) (e : TickPtr) (es : List TickPtr) :
    Prop where
  next : ∀ y ∈ tickHead :: pre.map .tick, (h' y).next = (h y).next
  last : (h' (.tick e)).next = .tick e
  prev : (h' (.tick e)).prev ∈ (e :: es).map Node.tick

section Severed

variable {h h' : Heap Node} {pre es : List TickPtr}

/-- No node is both before the entry and behind the cut. -/
theorem disjoint_ticks (hr : Represents h tickHead ((pre ++ e :: es).map .tick)) {x y : Node}
    (hy : y ∈ tickHead :: pre.map Node.tick) (hx : x ∈ (e :: es).map Node.tick) : y ≠ x := by
  have hn := hr.nodup
  rw [List.map_append, ← List.cons_append] at hn
  exact (List.nodup_append.mp hn).2.2 y hy x hx

/-- A severed tick queue is not well formed. -/
theorem Severed.not_represents (hs : Severed h h' pre e es)
    (hr : Represents h tickHead ((pre ++ e :: es).map .tick)) (xs : List Node) :
    ¬ Represents h' tickHead xs := by
  intro hr'
  have hprev : (h' (.tick e)).prev ∉ tickHead :: pre.map Node.tick := fun hm =>
    disjoint_ticks hr hm hs.prev rfl
  rw [List.map_append, List.map_cons] at hr
  exact hr.chain.not_of_prev hr.nodup hs.next hprev hr'.chain

/-- To link the entry in again severs the tick queue there. -/
theorem Severed.of_linkLast (hr : Represents h tickHead ((pre ++ e :: es).map .tick)) {l : Node}
    (hl : l ∈ (e :: es).map Node.tick) : Severed h (h.linkLast l (.tick e)) pre e es := by
  refine ⟨fun y hy => ?_, ?_, ?_⟩
  · have hyl : y ≠ l := disjoint_ticks hr hy hl
    have hye : y ≠ .tick e := disjoint_ticks hr hy (by simp)
    simp [Heap.linkLast, hyl, hye]
  · by_cases he : Node.tick e = l
    · simp [Heap.linkLast, he]
    · simp [Heap.linkLast, he]
  · simpa [Heap.linkLast] using hl

/-- `list_delete` does not take the entry out of a severed tick queue. -/
theorem Severed.listDelete (hs : Severed h h' pre e es)
    (hr : Represents h tickHead ((pre ++ e :: es).map .tick)) :
    Severed h (Fos.listDelete h' (.tick e)) pre e es := by
  have hlast : isListLast h' (.tick e) = true := by simp [isListLast, hs.last]
  unfold Fos.listDelete
  rw [if_pos hlast]
  refine ⟨fun y hy => ?_, ?_, by simpa using hs.prev⟩
  · simp [disjoint_ticks hr hy hs.prev, hs.next y hy]
  · simp only [Heap.setNext_next]
    split_ifs with heq
    · exact heq.symm
    · exact hs.last

end Severed

/-- `timer_req` on a queued timer severs the tick queue. -/
theorem Refines.timerReq_queued (h : Refines live k a) {pre es : List TickPtr}
    (hl : a.ticks = pre ++ e :: es) (ht : timeout ≠ 0) (func period arg : ℕ) :
    ∃ k', k.timerReq (some e) (some func) timeout period arg = some (k', .VOID) ∧
      Severed k.heap k'.heap pre e es := by
  have hrep : Represents k.heap tickHead ((pre ++ e :: es).map .tick) := hl ▸ h.rep_ticks
  -- The last entry is the timer itself, or one behind it.
  obtain ⟨l, hlast, heap⟩ : ∃ l ∈ (e :: es).map Node.tick,
      listInsertBehind k.heap tickHead (.tick e) = some (k.heap.linkLast l (.tick e)) := by
    have hrep' := hrep
    rw [List.map_append, List.map_cons] at hrep'
    refine ⟨_, ?_, listInsertBehind_eq hrep'⟩
    rw [List.getLast_cons (by simp), List.getLast_append_of_ne_nil (by simp) (by simp)]
    exact List.getLast_mem _
  refine ⟨{ ((k.setTick e { k.tick e with
      func := some func, timeout := timeout, period := period, timeoutCopy := timeout,
      style := .softwareTimer, funcArg := arg }).note (.request e period)) with
    heap := k.heap.linkLast l (.tick e) }, ?_, .of_linkLast hrep hlast⟩
  simp [Kernel.timerReq, ht, Kernel.tickQueueInsert, Kernel.note, Kernel.setTick, heap]

/-- A pass in which the callback of a queued timer requests it again severs the tick queue. -/
theorem tickLoopWith_severed (call : ℕ) {x : Node} (es : List TickPtr) (h : Tidy live k a)
    (hc : Cursor k a x es) (ht : timeout ≠ 0) (hmem : .timer i ∈ es)
    (hzero : (a.tick (.timer i)).timeout = TIMEOUT) :
    ∃ k', k.tickLoopWith (Kernel.requestAgain (.timer i) func timeout period arg) call x = some k' ∧
      ∀ xs, ¬ Represents k'.heap tickHead xs := by
  induction es generalizing k a x with
  | nil => simp at hmem
  | cons e es ih =>
    have hnext : (k.heap x).next = .tick e := hc.next
    have hlast : ¬ isListLast k.heap x = true := by
      simp only [isListLast, hnext, decide_eq_true_eq]
      exact fun heq => hc.not_mem (by simp [heq])
    rw [Kernel.tickLoopWith_eq, if_neg hlast, hnext, Node.tickEntry_tick, Option.bind_some,
      Kernel.tickBodyWith]
    dsimp only
    have hsuf := hc.suffix
    have h₀ : Tidy live (k.note (.visit call e (k.tick e).timeout))
        (a.note (.visit call e (a.tick e).timeout)) := by
      rw [h.refines.tick_eq]
      exact ⟨h.refines.note _, h.wf.note _⟩
    have hsuf₀ : e :: es <:+ (a.note (.visit call e (a.tick e).timeout)).ticks := hsuf
    have hzero₀ : ((a.note (.visit call e (a.tick e).timeout)).tick (.timer i)).timeout = TIMEOUT :=
      hzero
    have htick₀ := h₀.refines.tick_eq
    generalize k.note (.visit call e (k.tick e).timeout) = k₀ at *
    generalize a.note (.visit call e (a.tick e).timeout) = a₀ at *
    rw [htick₀]
    have hmem₀ : e ∈ a₀.ticks := hsuf₀.subset (by simp)
    -- The timer is requested again in its own callback, or it is still ahead of the pass.
    rcases eq_or_ne e (.timer i) with rfl | hne
    · obtain ⟨pre, hpre⟩ := hsuf₀
      have hrep : Represents k₀.heap tickHead ((pre ++ .timer i :: es).map .tick) :=
        hpre ▸ h₀.refines.rep_ticks
      obtain ⟨hstyle, hfunc⟩ := h₀.wf.ticks.timer i hmem₀
      obtain ⟨f, hf⟩ := Option.ne_none_iff_exists'.mp hfunc
      obtain ⟨k₁, hk₁, hs₁⟩ := (h₀.refines.note (.callback call (.timer i) f
        (a₀.tick (.timer i)).funcArg)).timerReq_queued hpre.symm ht func period arg
      rw [if_pos hzero₀, hstyle]
      dsimp only
      simp only [hf, Option.bind_eq_bind, Option.bind_some, Kernel.requestAgain, if_pos, hk₁,
        Option.map_some]
      -- `tick_queue_delete` does not mend the queue.
      have hs₂ : Severed k₀.heap (k₁.afterCallback (.timer i)).heap pre (.timer i) es := by
        unfold Kernel.afterCallback
        split_ifs
        · exact hs₁
        · exact hs₁.listDelete hrep
      exact ⟨_, Kernel.tickLoopWith_of_last (by simp [isListLast, hs₂.last]),
        hs₂.not_represents hrep⟩
    · have hmem' : .timer i ∈ es := (List.mem_cons.mp hmem).resolve_left (Ne.symm hne)
      by_cases he : (a₀.tick e).timeout = TIMEOUT
      · rw [if_pos he]
        cases e with
        | tickQueue => exact absurd hmem₀ h₀.wf.ticks.head
        | delay t =>
          obtain ⟨k₁, a₁, e₁, e₁', h₁, -, hc₁⟩ := h₀.wakeDelay hsuf₀
          rw [(h₀.wf.ticks.delay t hmem₀).2.2]
          have hk₁ : (k₀.tickQueueDelete (.delay t)).prioReadyQueueInsertTail
              ((k₀.tickQueueDelete (.delay t)).tick (.delay t)).tcb = some k₁ := e₁
          dsimp only
          simp only [hk₁, Option.bind_some]
          refine ih h₁ hc₁ hmem' ?_
          obtain rfl := Option.some.inj ((h₀.wf.wakeDelay_eq hmem₀).symm.trans e₁')
          exact hzero₀
        | timer n =>
          obtain ⟨hstyle, hfunc⟩ := h₀.wf.ticks.timer n hmem₀
          obtain ⟨f, hf⟩ := Option.ne_none_iff_exists'.mp hfunc
          rw [hstyle]
          dsimp only
          simp only [hf, Option.bind_eq_bind, Option.bind_some, Kernel.requestAgain, if_neg hne]
          have h₁ : Tidy live (k₀.note (.callback call (.timer n) f (a₀.tick (.timer n)).funcArg))
              (a₀.note (.callback call (.timer n) f (a₀.tick (.timer n)).funcArg)) :=
            ⟨h₀.refines.note _, h₀.wf.note _⟩
          obtain ⟨h₃, hc₃⟩ := h₁.afterCallback hsuf₀
          refine ih h₃ hc₃ hmem' ?_
          rw [Abs.afterCallback_tick_of_ne (Ne.symm hne)]
          exact hzero₀
      · rw [if_neg he]
        refine ih ⟨h₀.refines.setTick _ _, h₀.wf.setTimeout _ _⟩
          ((h₀.refines.cursor_entry hsuf₀).congr rfl rfl) hmem' ?_
        simpa [Abs.setTick, Ne.symm hne] using hzero₀

/-- `timer_req` on a queued timer, by a task or by the timer's own callback, leaves a tick queue
that is not well formed. -/
theorem Core.request_queued (h : Core hst s a) (hmem : .timer i ∈ a.ticks) (ht : timeout ≠ 0)
    (site : Site) (hsite : site = .callback → (a.tick (.timer i)).timeout = TIMEOUT)
    (func period arg : ℕ) :
    ∃ k', s.k.request site (.timer i) func timeout period arg = some k' ∧
      ∀ xs, ¬ Represents k'.heap tickHead xs := by
  cases site with
  | task =>
    obtain ⟨pre, es, hl⟩ := List.append_of_mem hmem
    obtain ⟨k', hk, hs⟩ := h.sim.refines.timerReq_queued hl ht func period arg
    refine ⟨k', by simp [Kernel.request, hk], hs.not_represents ?_⟩
    rw [← hl]
    exact h.sim.refines.rep_ticks
  | callback =>
    have hstart := h.sim.tidy.tickStart
    exact tickLoopWith_severed _ a.ticks hstart hstart.refines.cursor_head ht hmem (hsite rfl)

/-! ## A timer that is not queued -/

/-- `timer_req` on a timer that is not queued. -/
theorem Core.request_free (h : Core hst s a) (hmem : .timer i ∉ a.ticks) (ht : timeout ≠ 0)
    (func period arg : ℕ) :
    ∃ k', s.k.request .task (.timer i) func timeout period arg = some k' ∧
      StartsAlone .task (.timer i) timeout s.k k' := by
  obtain ⟨k', a', r, hk, ha, hsim⟩ := h.sim.timerReq hmem (some func) timeout period arg
  obtain ⟨rfl, rfl⟩ := Prod.mk.inj (Option.some.inj ha)
  have hticks : (a.timerReq (some (.timer i)) (some func) timeout period arg).ticks =
      a.ticks ++ [.timer i] := by
    simp [Abs.timerReq, ht, Abs.pushTick, Abs.note, Abs.setTick]
  have htick : (a.timerReq (some (.timer i)) (some func) timeout period arg).tick =
      update a.tick (.timer i) { a.tick (.timer i) with
        func := some func, timeout := timeout, period := period, timeoutCopy := timeout,
        style := .softwareTimer, funcArg := arg } := by
    simp [Abs.timerReq, ht, Abs.pushTick, Abs.note, Abs.setTick]
  have href := hsim.refines
  refine ⟨k', by simp [Kernel.request, hk], ⟨_, href.rep_ticks, by simp [hticks]⟩, ?_, ?_⟩
  · simp [href.tick_eq, htick]
  · rintro e hne x hq hx
    have he : e ∈ a.ticks := (h.sim.refines.queued_tick_iff e).mp hq
    refine ⟨(href.queued_tick_iff e).mpr (by simp [hticks, he]), ?_⟩
    rw [href.tick_eq, htick, update_of_ne hne, ← h.sim.refines.tick_eq]
    exact Option.some.inj hx

/-- What the visits of a pass do to an entry of the tick queue: one that finds it expired, or one
for each time that it is counted down. -/
theorem Abs.Passes.comes {call : ℕ} {seen rest : List TickPtr} {f : Option TimerFrame}
    (h : b.Passes call seen rest f a') (hn : seen.Nodup) (he : e ∈ b.ticks) :
    (b.tick e).timeout < comings e (passNotes b.tick call seen) ∨
      e ∈ a'.ticks ∧ (a'.tick e).timeout + comings e (passNotes b.tick call seen) =
        (b.tick e).timeout ∧ ¬ SuspendedAt f e := by
  have hsusp : SuspendedAt f e → e ∈ seen ∧ (b.tick e).timeout = TIMEOUT := by
    rintro ⟨g, hg, rfl⟩
    obtain ⟨-, ⟨l, rfl⟩, hzero, -⟩ := h.suspended g hg
    exact ⟨by simp, hzero⟩
  rw [comings, comesTo_passNotes hn, h.traversed.ticks, h.traversed.tick, List.mem_filter,
    decide_eq_true_eq]
  by_cases hseen : e ∈ seen
  · rw [if_pos hseen]
    by_cases hzero : (b.tick e).timeout = TIMEOUT
    · exact Or.inl (by rw [hzero]; exact Nat.one_pos)
    · have hno : ¬ SuspendedAt f e := fun hs => hzero (hsusp hs).2
      refine Or.inr ⟨⟨he, fun hl => hzero hl.2.1⟩, ?_, hno⟩
      have hpos : (b.tick e).timeout ≠ 0 := hzero
      rw [if_pos ⟨hseen, hno⟩, Tick.passed, if_neg hzero]
      dsimp only
      omega
  · have hno : ¬ SuspendedAt f e := fun hs => hseen (hsusp hs).1
    refine Or.inr ⟨⟨he, fun hl => hseen hl.1.1⟩, ?_, hno⟩
    rw [if_neg hseen, if_neg fun hl => hseen hl.1, Nat.add_zero]

/-- No pass is suspended in the callback of the entry. -/
def NotCalling (s : Sys Kernel) (e : TickPtr) : Prop := ∀ u x, s.passAt u ≠ some (x, e)

theorem NotCalling.congr (h : NotCalling s e) (hpass : ∀ u, s'.passAt u = s.passAt u) :
    NotCalling s' e := fun u x => by
  rw [hpass]
  exact h u x

/-- A pass suspends none in the callback of an entry that it is not itself suspended at. -/
theorem NotCalling.pass {t : TcbPtr} {f : Option TimerFrame} (h : NotCalling s e)
    (hf : ¬ SuspendedAt f e) :
    NotCalling ⟨k', update s.frame t (f.map .timer), live⟩ e := fun u x hu => by
  rw [Sys.passAt_update] at hu
  split_ifs at hu with heq
  · obtain ⟨g, hg, hpair⟩ := Option.map_eq_some_iff.mp hu
    exact hf ⟨g, hg, (Prod.mk.inj hpair).2⟩
  · exact h u x hu

/-- What a step does to an entry in whose callback no pass is suspended: a call of `hardware_timer`
finds it expired, or it stays, counted down for each call that comes to it. -/
def Comes (s s' : Sys Kernel) (e : TickPtr) (a a' : Abs) : Prop :=
  ∃ new, a'.log = new ++ a.log ∧ (e ∈ a.ticks → NotCalling s e →
    (a.tick e).timeout < comings e new ∨ e ∈ a'.ticks ∧
      (a'.tick e).timeout + comings e new = (a.tick e).timeout ∧ NotCalling s' e)

/-- A step that leaves the entry as it is. -/
theorem Comes.of_same {new : List TimerEvent} (hlog : a'.log = new ++ a.log)
    (hnew : comings e new = 0) (hsame : e ∈ a.ticks → e ∈ a'.ticks ∧ a'.tick e = a.tick e)
    (hpass : ∀ u, s'.passAt u = s.passAt u) : Comes s s' e a a' :=
  ⟨new, hlog, fun he hno => Or.inr ⟨(hsame he).1, by rw [(hsame he).2, hnew, Nat.add_zero],
    hno.congr hpass⟩⟩

/-- What a call does to an entry of the tick queue. -/
theorem Core.comes_exec (h : Core hst s a) {c : Call} {r : Ret} (hu : Usage hst s (.call c))
    (ha : a.exec c = some (a', r)) (hpass : ∀ u, s'.passAt u = s.passAt u) (e : TickPtr) :
    Comes s s' e a a' := by
  obtain ⟨t, hnew⟩ := a.exists_caller
  have hc := Abs.exec_frame hnew ha
  refine .of_same hc.log ?_ (fun he => ⟨?_, hc.tick e ?_⟩) hpass
  · cases hq : c.queues t with
    | none => simp [Call.notes_eq_none hq, comings]
    | some e₀ =>
      rcases Call.notes_of_queues hq with hn | ⟨p, hn⟩ <;> simp [hn, TimerEvent.comesTo, comings]
  · rw [hc.ticks]
    exact List.mem_append_left _ he
  · exact fun hq => h.not_mem_of_queues hu hnew hq.symm he

/-- What a step in lockstep does to an entry of the tick queue. -/
theorem Lockstep.comes (h : Lockstep s a act s' a') (hcore : Core hst s a) (hu : Usage hst s act)
    (e : TickPtr) : Comes s s' e a a' := by
  have w := hcore.sim.wf
  have hn := w.ticks.nodup
  cases h with
  | main hr hk ha => exact hcore.comes_exec hu ha (fun _ => rfl) e
  | call hr hf hk ha hnew => exact hcore.comes_exec hu ha (fun _ => Sys.passAt_callFrame hf) e
  | @tick t o k' _ f hr hf hk ha =>
    obtain ⟨-, seen, rest, hl, hp⟩ := w.passes_hardwareTimer ha
    have hseen : seen.Nodup := (hl ▸ hn).sublist (List.sublist_append_left seen rest)
    refine ⟨passNotes a.tick (a.fosTick + 1) seen ++ [.start (a.fosTick + 1)], ?_, fun he hno => ?_⟩
    · rw [hp.traversed.log]
      simp [passNotes, Abs.note]
    -- The start of a pass comes to no entry.
    · have hcount : comings e (passNotes a.tick (a.fosTick + 1) seen ++ [.start (a.fosTick + 1)]) =
          comings e (passNotes a.tick (a.fosTick + 1) seen) := by
        simp [comings, TimerEvent.comesTo]
      rw [hcount]
      rcases hp.comes hseen he with hlt | ⟨hmem, htime, hsusp⟩
      · exact Or.inl hlt
      · exact Or.inr ⟨hmem, htime, hno.pass hsusp⟩
  | @ret t o c r hr hf =>
    -- A return changes nothing in the queue, and no pass.
    refine Comes.of_same (List.nil_append _).symm rfl (fun he => ⟨he, rfl⟩) fun u => ?_
    unfold Sys.passAt
    rcases eq_or_ne u t with rfl | hne
    · simp [hf]
    · simp [hne]
  | @pass t o g k' _ f hr hf hk ha =>
    have hself : s.passAt t = some (g.call, g.entry) := by simp [Sys.passAt, hf]
    have hmem := hcore.mem_of_passAt hself
    obtain ⟨-, ⟨⟨puts, rfl⟩, hlog, htick, hticks⟩ | ⟨seen, rest, hl, hp⟩⟩ :=
      w.passes_hardwareTimerResume hmem ha
    -- The callback has been switched out again, at the same entry.
    · refine ⟨[], hlog, fun he hno => Or.inr ⟨hticks ▸ he, by simp [htick, comings], ?_⟩⟩
      refine hno.pass ?_
      rintro ⟨g', hg', heq⟩
      exact hno t g.call (by rw [hself, ← heq, ← Option.some.inj hg'])
    · obtain ⟨pre, es, hsplit⟩ := List.append_of_mem hmem
      have hes : es = seen ++ rest := (Abs.after_eq hsplit hn).symm.trans hl
      have hnd := List.nodup_cons.mp ((hsplit ▸ hn).sublist (List.sublist_append_right pre _))
      have hseen : seen.Nodup := (hes ▸ hnd.2).sublist (List.sublist_append_left seen rest)
      refine ⟨passNotes (a.afterCallback g.entry).tick g.call seen, ?_, fun he hno => ?_⟩
      · rw [hp.traversed.log, Abs.afterCallback_log]
        rfl
      -- The entry is not the one of the pass, which is ruled out.
      · have hne : e ≠ g.entry := fun heq => hno t g.call (heq ▸ hself)
        have hcomes := hp.comes hseen ((Abs.mem_afterCallback_ticks hne).mpr he)
        rw [Abs.afterCallback_tick_of_ne hne] at hcomes
        rcases hcomes with hlt | ⟨hstay, htime, hsusp⟩
        · exact Or.inl hlt
        · exact Or.inr ⟨hstay, htime, hno.pass hsusp⟩
  | start => exact Comes.of_same (List.nil_append _).symm rfl (fun he => ⟨he, rfl⟩) fun _ => rfl

/-- The timer is queued and has been counted down from `timeout` since its entry had been come to
`before` times, unless it has expired. -/
def CountingDown (before timeout : ℕ) (e : TickPtr) (s : Sys Kernel) (a : Abs) : Prop :=
  before + timeout < comings e a.log ∨
    e ∈ a.ticks ∧ (a.tick e).timeout + comings e a.log = before + timeout ∧ NotCalling s e

/-- One more step. -/
theorem CountingDown.step {before : ℕ} (h : CountingDown before timeout e s a)
    (hc : Comes s s' e a a') : CountingDown before timeout e s' a' := by
  obtain ⟨new, hlog, hcomes⟩ := hc
  have hsum : comings e a'.log = comings e new + comings e a.log := by
    rw [hlog]
    exact List.countP_append
  rcases h with hlt | ⟨he, htime, hno⟩
  · exact Or.inl (by omega)
  · rcases hcomes he hno with hlt | ⟨hmem, htime', hno'⟩
    · exact Or.inl (by omega)
    · exact Or.inr ⟨hmem, by omega, hno'⟩

/-- The step of the call itself. -/
theorem Core.countingDown (h : Core hst s a) {r : Ret} (hmem : .timer i ∉ a.ticks)
    (ht : timeout ≠ 0)
    (ha : a.exec (.timerReq (some (.timer i)) (some func) timeout period arg) = some (a', r))
    (hpass : ∀ u, s'.passAt u = s.passAt u) :
    CountingDown (comings (.timer i) a.log) timeout (.timer i) s' a' := by
  obtain ⟨rfl, -⟩ := Prod.mk.inj (Option.some.inj ha)
  refine Or.inr ⟨?_, ?_, fun u x hu => ?_⟩
  · simp [Abs.timerReq, ht, Abs.pushTick]
  · simp [Abs.timerReq, ht, Abs.pushTick, Abs.note, Abs.setTick, comings, TimerEvent.comesTo,
      Nat.add_comm]
  · exact hmem (h.mem_of_passAt (hpass u ▸ hu))

/-- After `timer_req` on a timer that is not queued, the timer is counted down. -/
theorem Core.countsDown (h : Core (hist tr) s a) (hmem : .timer i ∉ a.ticks) (ht : timeout ≠ 0) :
    CountsDown tr s (.timerReq (some (.timer i)) (some func) timeout period arg) (.timer i)
      timeout := by
  intro tr' s' hrun hle
  have hlog : s.k.log = a.log := by rw [h.sim.refines.vars]
  let P (tr₁ : Trace Kernel) (s₁ : Sys Kernel) (a₁ : Abs) : Prop := ∀ tr',
    tr₁ = tr' ++ (s, .call (.timerReq (some (.timer i)) (some func) timeout period arg)) :: tr →
      CountingDown (comings (.timer i) a.log) timeout (.timer i) s₁ a₁
  -- The induction is on the steps since the call.
  obtain ⟨a', hcore', hdown⟩ : ∃ a', Core (hist (tr' ++ (s, .call _) :: tr)) s' a' ∧ P _ s' a' := by
    refine hrun.invariant (fun _ _ _ hg => ⟨hg.1.1, hg.1.2, hg.2⟩)
      (fun s₁ k _ _ _ tr' heq => by simp at heq) ?_
    intro tr₁ s₁ a₁ act s₂ a₂ _ hcore hp hg hl _ tr' heq
    cases tr' with
    | cons x tr' => exact (hp tr' (List.cons.inj heq).2).step (hl.comes hcore hg.1.1 _)
    | nil =>
      obtain ⟨hhead, rfl⟩ := List.cons.inj heq
      obtain ⟨rfl, rfl⟩ := Prod.mk.inj hhead
      -- Both abstract kernels have the log and the tick queue that the kernel has.
      have hlog₁ : a₁.log = a.log := by rw [← hlog, hcore.sim.refines.vars]
      have hmem₁ : .timer i ∉ a₁.ticks := fun hm =>
        hmem ((h.sim.refines.queued_tick_iff _).mp ((hcore.sim.refines.queued_tick_iff _).mpr hm))
      rw [← hlog₁]
      cases hl with
      | main hr hk ha => exact hcore.countingDown hmem₁ ht ha fun _ => rfl
      | call hr hf hk ha hnew =>
        exact hcore.countingDown hmem₁ ht ha fun _ => Sys.passAt_callFrame hf
  have hlog' : s'.k.log = a'.log := by rw [hcore'.sim.refines.vars]
  rw [hlog, hlog'] at hle ⊢
  obtain ⟨hm, htime, -⟩ := (hdown tr' rfl).resolve_left (by omega)
  exact ⟨(hcore'.sim.refines.queued_tick_iff _).mpr hm, by rw [hcore'.sim.refines.tick_eq, htime]⟩

/-- `timer_req` starts its timer alone, and counts it down, exactly when the timer is not queued. A
call that the timer's own callback makes never does. -/
theorem timer_req_iff (h : SysRun OrderlyUsage tr s) (site : Site) (i func timeout period arg : ℕ)
    (ht : timeout ≠ 0)
    (hsite : site = .callback → Queued s.k.heap tickHead (.tick (.timer i)) ∧
      (s.k.tick (.timer i)).timeout = TIMEOUT) :
    ∃ k', s.k.request site (.timer i) func timeout period arg = some k' ∧
      (StartsAlone site (.timer i) timeout s.k k' ∧ (site = .task → CountsDown tr s
          (.timerReq (some (.timer i)) (some func) timeout period arg) (.timer i) timeout) ↔
        site = .task ∧ ¬ Queued s.k.heap tickHead (.tick (.timer i))) := by
  obtain ⟨a, hcore⟩ := h.core fun _ _ _ hg => ⟨hg.1.1, hg.1.2, hg.2⟩
  have hq := hcore.sim.refines.queued_tick_iff (.timer i)
  by_cases hmem : .timer i ∈ a.ticks
  · have hzero : site = .callback → (a.tick (.timer i)).timeout = TIMEOUT := fun hs => by
      rw [← hcore.sim.refines.tick_eq]
      exact (hsite hs).2
    obtain ⟨k', hk, hno⟩ := hcore.request_queued hmem ht site hzero func period arg
    refine ⟨k', hk, iff_of_false ?_ fun hs => hs.2 (hq.mpr hmem)⟩
    rintro ⟨⟨⟨es, hrep, -⟩, -, -⟩, -⟩
    exact hno _ hrep
  · have hnq : ¬ Queued s.k.heap tickHead (.tick (.timer i)) := fun hx => hmem (hq.mp hx)
    obtain rfl : site = .task := by
      cases site with
      | task => rfl
      | callback => exact absurd (hsite rfl).1 hnq
    obtain ⟨k', hk, hstarts⟩ := hcore.request_free hmem ht func period arg
    exact ⟨k', hk, iff_of_true ⟨hstarts, fun _ => hcore.countsDown hmem ht⟩ ⟨rfl, hnq⟩⟩

/-- `main` starts `timer 0` for one tick and `timer 1` for five, and the first tick comes. -/
def twoTimers : List Move := [
  .call (.timerReq (some (.timer 0)) (some 0) 1 0 0),
  .call (.timerReq (some (.timer 1)) (some 0) 5 0 0),
  .start, .tick]

/-- The run of `twoTimers`: both timers are queued, and `timer 0` has no time left. -/
theorem twoTimers_run : ∃ tr s a, SysRun OrderlyUsage tr s ∧ Core (hist tr) s a ∧
    tr.map Prod.snd = (twoTimers.map Move.act).reverse ∧ a.ticks = [.timer 0, .timer 1] ∧
      (a.tick (.timer 0)).timeout = TIMEOUT := by
  have hsome : ((replay (fun _ _ _ => true) twoTimers [] Sys.zero).map fun r =>
      decide (r.2.k.ticks = [.timer 0, .timer 1] ∧ (r.2.k.tick (.timer 0)).timeout = TIMEOUT)) =
        some true := by decide
  obtain ⟨⟨trA, sA⟩, hreplay, hdec⟩ := Option.map_eq_some_iff.mp hsome
  obtain ⟨tr, s, a, hrun, hcore, -, rfl, hacts⟩ := replay_run PassiveUsage
    (fun _ _ _ _ m _ _ _ hu _ => ⟨hu, m.passive_act⟩) hreplay
  obtain ⟨horderly, -⟩ := hrun.orderly fun _ _ _ hg => hg
  exact ⟨tr, s, a, horderly.mono fun tr s act _ hg =>
    ⟨⟨hg.2.usage, hg.2.callbacks⟩, hg.2.undisturbed⟩, hcore, hacts, of_decide_eq_true hdec⟩

/-- After `twoTimers`, `timer 2` can be started, and `timer 0` cannot be started again in its own
callback. -/
theorem timer_req_twoTimers : ∃ tr s, SysRun OrderlyUsage tr s ∧
    tr.map Prod.snd = (twoTimers.map Move.act).reverse ∧
    (∃ k', s.k.request .task (.timer 2) 0 3 0 0 = some k' ∧
      StartsAlone .task (.timer 2) 3 s.k k') ∧
    ∃ k', s.k.request .callback (.timer 0) 0 3 0 0 = some k' ∧
      ¬ StartsAlone .callback (.timer 0) 3 s.k k' := by
  obtain ⟨tr, s, a, hrun, hcore, hacts, hticks, hzero⟩ := twoTimers_run
  have hq := hcore.sim.refines.queued_tick_iff
  refine ⟨tr, s, hrun, hacts, ?_, ?_⟩
  · obtain ⟨k', hk, hiff⟩ := timer_req_iff hrun .task 2 0 3 0 0 (by decide) (by simp)
    exact ⟨k', hk, (hiff.mpr ⟨rfl, fun h => by simpa [hticks] using (hq _).mp h⟩).1⟩
  · obtain ⟨k', hk, hiff⟩ := timer_req_iff hrun .callback 0 0 3 0 0 (by decide) fun _ =>
      ⟨(hq _).mpr (by simp [hticks]), by rw [hcore.sim.refines.tick_eq, hzero]⟩
    exact ⟨k', hk, fun h => by simpa using (hiff.mp ⟨h, by simp⟩).1⟩

/-- After `twoTimers`, neither a task nor its own callback can start `timer 0` again without harm to
the tick queue. -/
theorem not_startsAlone_twoTimers : ∃ tr s, SysRun OrderlyUsage tr s ∧
    tr.map Prod.snd = (twoTimers.map Move.act).reverse ∧
    Queued s.k.heap tickHead (.tick (.timer 0)) ∧ (s.k.tick (.timer 0)).timeout = TIMEOUT ∧
    ∀ site, ∃ k', s.k.request site (.timer 0) 0 3 0 0 = some k' ∧
      ¬ StartsAlone site (.timer 0) 3 s.k k' := by
  obtain ⟨tr, s, a, hrun, hcore, hacts, hticks, hzero⟩ := twoTimers_run
  have hmem : .timer 0 ∈ a.ticks := by simp [hticks]
  refine ⟨tr, s, hrun, hacts, (hcore.sim.refines.queued_tick_iff _).mpr hmem, ?_, fun site => ?_⟩
  · rw [hcore.sim.refines.tick_eq, hzero]
  · obtain ⟨k', hk, hno⟩ := hcore.request_queued hmem (Nat.succ_ne_zero 2) site
      (fun _ => hzero) 0 0 0
    exact ⟨k', hk, fun ⟨⟨es, hrep, _⟩, _, _⟩ => hno _ hrep⟩

end Fos
