import Fos.Pass
import Fos.Refinement.Calls

/-!
# The tick

`tickLoop` of the kernel follows links that it changes on its way: an entry that has expired leaves
the queue, and the loop goes on through the `next` of the node that it has just unlinked. `pass` of
the abstract kernel goes through the entries that are still to come. The two agree
(`tickLoop_sim`), because `list_delete` leaves the links of the deleted node, so that the cursor's
`next` is always the next entry to come, or the cursor itself at the end.
-/

namespace Fos

open Links Function

variable {live : Node → Bool} {k : Kernel} {a : Abs} {t : TcbPtr} {e : TickPtr}

/-! ## Callbacks -/

/-- A callback that puts semaphores that have been set up: it comes to its end, or is switched out
with some of them still to put. The running task is ready then, unless it was not and nothing has
been put. -/
theorem runCallback_sim (puts : List ℕ) (h : Tidy live k a)
    (hlive : ∀ i ∈ puts, live (.sem i) = true) :
    ∃ k' a' rest, k.runCallback puts = some (k', rest) ∧ a.runCallback puts = some (a', rest) ∧
      Tidy live k' a' ∧ (a.RunningReady ∨ rest ≠ none → a'.RunningReady) ∧ a.PutFrom a' ∧
        (∀ l, rest = some l → ∀ i ∈ l, i ∈ puts) ∧ (rest = none → a'.newTask = a.newTask) := by
  induction puts generalizing k a with
  | nil => exact ⟨k, a, none, rfl, rfl, h, by simp, .refl a, by simp, fun _ => rfl⟩
  | cons i puts ih =>
    obtain ⟨k₁, a₁, r, ek, ea, h₁⟩ := h.refines.semPut h.wf (hlive i (by simp))
    have hput := Abs.putFrom_semPut ea
    simp only [Kernel.runCallback, Abs.runCallback, ek, ea, h.refines.newTask_eq,
      h₁.refines.newTask_eq, Option.bind_eq_bind, Option.bind_some]
    by_cases hnew : a₁.newTask = a.newTask
    · obtain ⟨k₂, a₂, rest, ek₂, ea₂, h₂, hready, hput₂, hrest, hnew₂⟩ :=
        ih h₁.tidy fun j hj => hlive j (List.mem_cons_of_mem i hj)
      rw [if_pos hnew, if_pos hnew]
      exact ⟨k₂, a₂, rest, ek₂, ea₂, h₂, fun _ => hready (Or.inl h₁.ready), hput.trans hput₂,
        fun l hl j hj => List.mem_cons_of_mem i (hrest l hl j hj), fun hn => (hnew₂ hn).trans hnew⟩
    · rw [if_neg hnew, if_neg hnew]
      refine ⟨k₁, a₁, some puts, rfl, rfl, h₁.tidy, fun _ => h₁.ready, hput, ?_, by simp⟩
      rintro l hl j hj
      rw [Option.some.injEq] at hl
      exact List.mem_cons_of_mem i (hl ▸ hj)

/-! ## The pass -/

/-- The cursor of the pass: behind it, the entries `es` are still to come. -/
structure Cursor (k : Kernel) (a : Abs) (x : Node) (es : List TickPtr) : Prop where
  /-- They end the tick queue. -/
  suffix : es <:+ a.ticks
  /-- The cursor's `next` is the first of them, or the cursor itself. -/
  next : (k.heap x).next = (es.map Node.tick).headD x
  /-- The cursor is not among them. -/
  not_mem : x ∉ es.map Node.tick

/-- The pass begins at the head. -/
theorem Refines.cursor_head (h : Refines live k a) : Cursor k a tickHead a.ticks where
  suffix := List.suffix_rfl
  next := h.rep_ticks.chain.next_eq
  not_mem := (List.nodup_cons.mp h.rep_ticks.nodup).1

/-- The cursor at an entry that is queued. -/
theorem Refines.cursor_entry (h : Refines live k a) {es : List TickPtr} (he : e :: es <:+ a.ticks) :
    Cursor k a (.tick e) es := by
  obtain ⟨pre, hpre⟩ := he
  have hrep := h.rep_ticks
  rw [← hpre, List.map_append, List.map_cons] at hrep
  have hn : (Node.tick e :: es.map Node.tick).Nodup :=
    hrep.nodup.sublist ((List.sublist_append_right _ _).trans (List.sublist_cons_self _ _))
  exact ⟨⟨pre ++ [e], by simpa using hpre⟩, hrep.chain.suffix.next_eq, (List.nodup_cons.mp hn).1⟩

/-- `list_delete` leaves the links of the node that it deletes. -/
theorem Refines.heap_tickQueueDelete (h : Refines live k a) (he : e ∈ a.ticks) :
    ((k.tickQueueDelete e).heap (.tick e)).next = (k.heap (.tick e)).next := by
  obtain ⟨pre, es, hpre⟩ := List.append_of_mem he
  have hrep := h.rep_ticks
  rw [hpre, List.map_append, List.map_cons] at hrep
  have hprev : Node.tick e ≠ (k.heap (.tick e)).prev := by
    rw [hrep.chain.prev_eq]
    intro heq
    have hm := List.getLast_mem (List.cons_ne_nil tickHead (pre.map Node.tick))
    rw [← heq] at hm
    have hn := hrep.nodup
    rw [← List.cons_append] at hn
    exact (List.nodup_append.mp hn).2.2 _ hm _ (by simp) rfl
  unfold Kernel.tickQueueDelete listDelete
  split_ifs with hlast
  · simp [hprev]
  · simp [hprev]

/-- The cursor at an entry that has just left the queue. -/
theorem Refines.cursor_deleted (h : Refines live k a) {es : List TickPtr}
    (he : e :: es <:+ a.ticks) (hn : a.ticks.Nodup) :
    Cursor (k.tickQueueDelete e) (a.dropTick e) (.tick e) es := by
  have hc := h.cursor_entry he
  have hmem : e ∈ a.ticks := he.subset (by simp)
  refine ⟨?_, (h.heap_tickQueueDelete hmem).trans hc.next, hc.not_mem⟩
  obtain ⟨pre, hpre⟩ := he
  have hepre : e ∉ pre := by
    intro hm
    rw [← hpre] at hn
    exact (List.nodup_append.mp hn).2.2 e hm e (by simp) rfl
  refine ⟨pre, ?_⟩
  rw [Abs.dropTick, ← hpre]
  simp [List.erase_append_right _ hepre]

/-- The links of the cursor are all that it reads. -/
theorem Cursor.congr {k' : Kernel} {a' : Abs} {x : Node} {es : List TickPtr} (hc : Cursor k a x es)
    (hheap : (k'.heap x).next = (k.heap x).next) (hticks : a'.ticks = a.ticks) :
    Cursor k' a' x es :=
  ⟨hticks ▸ hc.suffix, hheap.trans hc.next, hc.not_mem⟩

/-- What happens to a timer when its callback has returned: it stays with its `timeout` set anew, or
it leaves the queue. -/
theorem Tidy.afterCallback (h : Tidy live k a) {n : ℕ} {es : List TickPtr}
    (he : .timer n :: es <:+ a.ticks) :
    Tidy live (k.afterCallback (.timer n)) (a.afterCallback (.timer n)) ∧
      Cursor (k.afterCallback (.timer n)) (a.afterCallback (.timer n)) (.tick (.timer n)) es := by
  obtain ⟨href, w⟩ := h
  have hmem : .timer n ∈ a.ticks := he.subset (by simp)
  unfold Kernel.afterCallback Abs.afterCallback
  rw [href.tick_eq]
  by_cases hcycle : (a.tick (.timer n)).period = CYCLE
  · rw [if_pos hcycle, if_pos hcycle]
    exact ⟨⟨href.setTick _ _, w.setTimeout _ _⟩, (href.cursor_entry he).congr rfl rfl⟩
  · rw [if_neg hcycle, if_neg hcycle]
    exact ⟨⟨href.tickQueueDelete hmem, w.dropTimer n⟩, href.cursor_deleted he w.ticks.nodup⟩

/-- It moves no task. -/
theorem Abs.RunningReady.afterCallback (h : a.RunningReady) (e : TickPtr) :
    (a.afterCallback e).RunningReady := by
  unfold Abs.afterCallback
  split_ifs
  · exact h
  · exact h

/-- A sleeping task whose time has come. -/
theorem Tidy.wakeDelay (h : Tidy live k a) {es : List TickPtr} (he : .delay t :: es <:+ a.ticks) :
    ∃ k' a', (k.tickQueueDelete (.delay t)).prioReadyQueueInsertTail (k.tick (.delay t)).tcb =
        some k' ∧ a.wakeDelay (.delay t) = some a' ∧ Tidy live k' a' ∧
          (a.RunningReady → a'.RunningReady) ∧ Cursor k' a' (.tick (.delay t)) es := by
  obtain ⟨href, w⟩ := h
  have hmem : .delay t ∈ a.ticks := he.subset (by simp)
  obtain ⟨hlive, htcb, hfree⟩ := w.sleeping hmem
  obtain ⟨k', e', h', hheap⟩ := (href.tickQueueDelete hmem).prioReadyQueueInsertTail (t := t) hfree
    (w.tasks.isTask t hlive) rfl (w.tasks.prio_lt t hlive)
  refine ⟨k', _, ?_, w.wakeDelay_eq hmem, ⟨h', w.wakeDelay hmem⟩, fun hready => ?_, ?_⟩
  · rw [href.tick_eq, htcb]
    exact e'
  · exact Abs.RunningReady.pushTail (a := a.dropTick (.delay t)) hready _ _
  · exact (href.cursor_deleted he w.ticks.nodup).congr (by rw [hheap]) rfl

/-- The loop of `hardware_timer` does with an entry what the pass does, and goes on to the next one
unless a callback is switched out. -/
theorem tickBody_sim (o : Oracle) (ho : ∀ e, ∀ i ∈ o e, live (.sem i) = true) (call : ℕ)
    {es : List TickPtr} (h : Tidy live k a) (hsuf : e :: es <:+ a.ticks) :
    ∃ k' a' rest, k.tickBody o call e = some (k', rest) ∧ a.passBody o call e = some (a', rest) ∧
      Tidy live k' a' ∧ (a.RunningReady ∨ rest ≠ none → a'.RunningReady) ∧
        (rest = none → Cursor k' a' (.tick e) es) := by
  have htick := h.refines.tick_eq
  unfold Kernel.tickBody Abs.passBody
  dsimp only
  -- The visit is noted, and nothing else has changed yet.
  have h₀ : Tidy live (k.note (.visit call e (k.tick e).timeout))
      (a.note (.visit call e (a.tick e).timeout)) := by
    rw [htick]
    exact ⟨h.refines.note _, h.wf.note _⟩
  have hready₀ : a.RunningReady → (a.note (.visit call e (a.tick e).timeout)).RunningReady := id
  have hsuf₀ : e :: es <:+ (a.note (.visit call e (a.tick e).timeout)).ticks := hsuf
  have htick₀ := h₀.refines.tick_eq
  generalize k.note (.visit call e (k.tick e).timeout) = k₀ at *
  generalize a.note (.visit call e (a.tick e).timeout) = a₀ at *
  rw [htick₀]
  have hmem₀ : e ∈ a₀.ticks := hsuf₀.subset (by simp)
  by_cases hzero : (a₀.tick e).timeout = TIMEOUT
  · rw [if_pos hzero, if_pos hzero]
    match e with
    | .tickQueue => exact absurd hmem₀ h₀.wf.ticks.head
    | .delay t =>
      obtain ⟨k₁, a₁, e₁, e₁', h₁, hready₁, hc₁⟩ := h₀.wakeDelay hsuf₀
      rw [(h₀.wf.ticks.delay t hmem₀).2.2]
      have hk₁ : (k₀.tickQueueDelete (.delay t)).prioReadyQueueInsertTail
          ((k₀.tickQueueDelete (.delay t)).tick (.delay t)).tcb = some k₁ := e₁
      dsimp only
      simp only [hk₁, e₁', Option.bind_eq_bind, Option.bind_some]
      refine ⟨k₁, a₁, none, rfl, rfl, h₁, fun hready => ?_, fun _ => hc₁⟩
      exact hready₁ (hready₀ (hready.resolve_right (by simp)))
    | .timer n =>
      obtain ⟨hstyle, hfunc⟩ := h₀.wf.ticks.timer n hmem₀
      obtain ⟨f, hf⟩ := Option.ne_none_iff_exists'.mp hfunc
      rw [hstyle]
      dsimp only
      simp only [hf, Option.bind_eq_bind, Option.bind_some]
      have h₁ : Tidy live (k₀.note (.callback call (.timer n) f (a₀.tick (.timer n)).funcArg))
          (a₀.note (.callback call (.timer n) f (a₀.tick (.timer n)).funcArg)) :=
        ⟨h₀.refines.note _, h₀.wf.note _⟩
      obtain ⟨k₂, a₂, rest, ek, ea, h₂, hready₂, hput, -, -⟩ := runCallback_sim _ h₁ (ho (.timer n))
      have hready : a.RunningReady ∨ rest ≠ none → a₂.RunningReady :=
        fun hr => hready₂ (hr.imp_left fun hr => hready₀ hr)
      simp only [ek, ea, Option.bind_some]
      cases rest with
      | some puts => exact ⟨k₂, a₂, _, rfl, rfl, h₂, hready, by simp⟩
      | none =>
        have hsuf₂ : .timer n :: es <:+ a₂.ticks := hput.ticks ▸ hsuf₀
        obtain ⟨h₃, hc₃⟩ := h₂.afterCallback hsuf₂
        exact ⟨_, _, none, rfl, rfl, h₃, fun hr => (hready hr).afterCallback _, fun _ => hc₃⟩
  · rw [if_neg hzero, if_neg hzero]
    refine ⟨_, _, none, rfl, rfl, ⟨h₀.refines.setTick _ _, h₀.wf.setTimeout _ _⟩, fun hready => ?_,
      fun _ => (h₀.refines.cursor_entry hsuf₀).congr rfl rfl⟩
    exact hready₀ (hready.resolve_right (by simp))

/-- The cursor is at the last node when no entry is still to come. -/
theorem Cursor.isListLast_iff {x : Node} {es : List TickPtr} (hc : Cursor k a x es) :
    isListLast k.heap x = true ↔ es = [] := by
  cases es with
  | nil => simp [isListLast, hc.next]
  | cons e es =>
    have hnext : (k.heap x).next = .tick e := hc.next
    simp only [isListLast, hnext, decide_eq_true_eq, List.cons_ne_nil, iff_false]
    exact fun heq => hc.not_mem (by simp [heq])

/-- The loop of `hardware_timer` is the pass over the entries behind the cursor. -/
theorem tickLoop_sim (o : Oracle) (ho : ∀ e, ∀ i ∈ o e, live (.sem i) = true) (call : ℕ) {x : Node}
    (es : List TickPtr) (h : Tidy live k a) (hc : Cursor k a x es) :
    ∃ k' a' f, k.tickLoop o call x = some (k', f) ∧ a.pass o call es = some (a', f) ∧
      Tidy live k' a' ∧ (a.RunningReady ∨ f ≠ none → a'.RunningReady) := by
  induction es generalizing k a x with
  | nil =>
    refine ⟨k, a, none, ?_, rfl, h, by simp⟩
    exact Kernel.tickLoop_of_last (hc.isListLast_iff.mpr rfl)
  | cons e es ih =>
    have hnext : (k.heap x).next = .tick e := hc.next
    have hlast : ¬ isListLast k.heap x = true := fun hl => by simpa using hc.isListLast_iff.mp hl
    obtain ⟨k₁, a₁, rest, ek, ea, h₁, hready₁, hc₁⟩ := tickBody_sim o ho call h hc.suffix
    rw [Kernel.tickLoop_eq, if_neg hlast, hnext, Node.tickEntry_tick, Option.bind_some, ek,
      Option.bind_some, Abs.pass_cons, ea, Option.bind_some]
    cases rest with
    | some puts => exact ⟨k₁, a₁, _, rfl, rfl, h₁, fun _ => hready₁ (Or.inr (by simp))⟩
    | none =>
      obtain ⟨k₂, a₂, f, ek₂, ea₂, h₂, hready₂⟩ := ih h₁ (hc₁ rfl)
      exact ⟨k₂, a₂, f, ek₂, ea₂, h₂,
        fun hr => hready₂ (hr.imp_left fun hr => hready₁ (Or.inl hr))⟩

/-- The end of `hardware_timer`: the running task is ready, whether a callback has been switched out
or `schedule` has selected it. -/
theorem Tidy.tickEnd (h : Tidy live k a) {f : Option TimerFrame}
    (hready : f ≠ none → a.RunningReady) :
    SimRet live (Kernel.tickEnd (k, f)) (Abs.tickEnd (a, f)) := by
  cases f with
  | some f => exact ⟨k, a, some f, rfl, rfl, h.refines, h.wf, hready (by simp)⟩
  | none =>
    obtain ⟨k₁, a₁, ek, ea, h₁⟩ := h.refines.schedule h.wf
    exact ⟨k₁, a₁, none, by simp [Kernel.tickEnd, ek], by simp [Abs.tickEnd, ea], h₁⟩

/-- The start of a pass. -/
theorem Tidy.tickStart (h : Tidy live k a) :
    Tidy live (Kernel.note { k with fosTick := k.fosTick + 1 } (.start (k.fosTick + 1)))
      (Abs.note { a with fosTick := a.fosTick + 1 } (.start (k.fosTick + 1))) := by
  have htick : k.fosTick = a.fosTick := by rw [h.refines.vars]
  have h₀ : Tidy live { k with fosTick := k.fosTick + 1 } { a with fosTick := a.fosTick + 1 } :=
    ⟨h.refines.congr (by simp only [h.refines.vars]) rfl rfl rfl rfl,
      h.wf.moved h.wf.tasks rfl rfl rfl rfl rfl⟩
  exact ⟨h₀.refines.note _, h₀.wf.note _⟩

/-- `hardware_timer`, which may come into a call. -/
theorem Tidy.hardwareTimer (h : Tidy live k a) (o : Oracle)
    (ho : ∀ e, ∀ i ∈ o e, live (.sem i) = true) :
    SimRet live (k.hardwareTimer o) (a.hardwareTimer o) := by
  have htick : k.fosTick = a.fosTick := by rw [h.refines.vars]
  have h₁ := h.tickStart
  obtain ⟨k₂, a₂, f, ek, ea, h₂, hready⟩ :=
    tickLoop_sim o ho (k.fosTick + 1) a.ticks h₁ h₁.refines.cursor_head
  have hend := h₂.tickEnd fun hf => hready (Or.inr hf)
  unfold Kernel.hardwareTimer Abs.hardwareTimer
  rw [htick] at ek ea ⊢
  simpa [ek, ea] using hend

/-- The entries behind one of a list without repetition. -/
theorem Abs.after_eq {l pre es : List TickPtr} (hl : l = pre ++ e :: es) (hn : l.Nodup) :
    Abs.after e l = es := by
  have hpre : ∀ x ∈ pre, x ≠ e := by
    rintro x hx rfl
    rw [hl] at hn
    exact (List.nodup_append.mp hn).2.2 x hx x (by simp) rfl
  rw [hl, Abs.after, List.dropWhile_append_of_pos (by simpa using hpre)]
  simp

/-- The rest of a suspended `hardware_timer` whose entry is still queued. -/
theorem Sim.hardwareTimerResume (h : Sim live k a) {f : TimerFrame} {n : ℕ}
    (hf : f.entry = .timer n) (hmem : f.entry ∈ a.ticks)
    (hputs : ∀ i ∈ f.puts, live (.sem i) = true) (o : Oracle)
    (ho : ∀ e, ∀ i ∈ o e, live (.sem i) = true) :
    SimRet live (k.hardwareTimerResume f o) (a.hardwareTimerResume f o) := by
  obtain ⟨k₁, a₁, rest, ek, ea, h₁, hready₁, hput, -, -⟩ := runCallback_sim f.puts h.tidy hputs
  unfold Kernel.hardwareTimerResume Abs.hardwareTimerResume
  rw [ek, ea]
  cases rest with
  | some puts => exact ⟨k₁, a₁, _, rfl, rfl, h₁.refines, h₁.wf, hready₁ (Or.inl h.ready)⟩
  | none =>
    obtain ⟨pre, es, hl⟩ := List.append_of_mem hmem
    have hafter : Abs.after f.entry a₁.ticks = es := by
      rw [hput.ticks]
      exact Abs.after_eq hl h.wf.ticks.nodup
    have hsuf : .timer n :: es <:+ a₁.ticks := ⟨pre, by rw [hput.ticks, hl, hf]⟩
    obtain ⟨h₂, hc₂⟩ := h₁.afterCallback hsuf
    obtain ⟨k₃, a₃, g, ek₃, ea₃, h₃, hready₃⟩ := tickLoop_sim o ho f.call es h₂ hc₂
    have hend := h₃.tickEnd fun hg => hready₃ (Or.inr hg)
    rw [hf] at hafter
    simpa [hafter, hf, ek₃, ea₃] using hend

end Fos
