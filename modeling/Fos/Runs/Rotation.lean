import Fos.Lib.Rotation
import Fos.Runs.Dispatch

/-!
# Round robin

`prio_ready_queue_fetch` selects the first task of the highest priority and puts it behind its
equals. Called again and again with nothing else happening, it lets the tasks of that priority take
turns, and leaves everything else where it is (`round_robin`).
-/

namespace Fos

open Links Function Turns

/-- Calls of `prio_ready_queue_fetch`, one after the other: the state after them, and the tasks that
they select, in order. -/
def Kernel.fetches : ℕ → Kernel → Option (Kernel × List (Option TcbPtr))
  | 0, k => some (k, [])
  | n + 1, k => do
    let (k₁, _) ← k.prioReadyQueueFetch
    let (k₂, selected) ← fetches n k₁
    some (k₂, k₁.newTask :: selected)

/-- The ready lists and the bitmap are as before. -/
structure ReadyAsBefore (k k' : Kernel) : Prop where
  lists : ∀ ready, ReadyLists k ready → ReadyLists k' ready
  y : k'.y = k.y
  c : ∀ b < 8, k'.c b = k.c b

variable {k : Kernel} {a : Abs} {live : Node → Bool} {p : ℕ} {ts : List TcbPtr}

/-- The tasks of the highest priority take turns. -/
theorem Refines.fetches (h : Refines live k a) (w : WF live a) (hp : p < SYSTEM_WORD)
    (hne : ts ≠ []) (hl : a.tasks (.ready p) = ts) (hmin : ∀ i < p, a.tasks (.ready i) = [])
    (n : ℕ) : ∃ k' a', k.fetches n = some (k', (turns n ts).map some) ∧ Refines live k' a' ∧
      a'.tasks = update a.tasks (.ready p) (ts.rotate n) := by
  induction n generalizing k a ts with
  | zero =>
    refine ⟨k, a, ?_, h, ?_⟩
    · cases ts <;> rfl
    · rw [List.rotate_zero, ← hl, update_eq_self]
  | succ n ih =>
    obtain ⟨t, us, rfl⟩ := List.exists_cons_of_ne_nil hne
    obtain ⟨-, k₁, hfetch, h₁⟩ := h.fetch w.tasks hp hl hmin
    have htasks := w.tasks.select_tasks_eq hl
    have hmin₁ : ∀ i < p, (a.select p t).tasks (.ready i) = [] := fun i hi => by
      have hip : TaskQueue.ready i ≠ .ready p := by simpa using hi.ne
      rw [htasks, update_of_ne hip, hmin i hi]
    have hl₁ : (a.select p t).tasks (.ready p) = us ++ [t] := by rw [htasks, update_self]
    obtain ⟨k', a', hrest, h', htasks'⟩ :=
      ih h₁ (w.select (hl ▸ List.mem_cons_self)) (by simp) hl₁ hmin₁
    refine ⟨k', a', ?_, h', ?_⟩
    · have hnew : k₁.newTask = some t := by rw [h₁.newTask_eq, Abs.select_newTask]
      simp [Kernel.fetches, hfetch, hrest, hnew, turns]
    · rw [htasks', htasks, update_idem, List.rotate_cons_succ]

/-- Where the lists are as before, the ready lists and the bitmap of the kernel are. -/
theorem Refines.readyAsBefore {k' : Kernel} {a' : Abs} (h : Refines live k a)
    (h' : Refines live k' a') (htasks : a'.tasks = a.tasks) : ReadyAsBefore k k' := by
  have hbits := h'.bits
  rw [htasks] at hbits
  obtain ⟨hy, hc⟩ := h.bits.unique hbits
  refine ⟨fun ready hready i hi => ?_, hy, hc⟩
  have hrep := h.rep (q := .ready i) hi
  have hrep' := h'.rep (q := .ready i) hi
  rw [htasks] at hrep'
  rw [(hready i hi).unique hrep]
  exact hrep'

/-- Wherever the kernel is between calls or enters `schedule`, the tasks of the highest priority
take turns when `prio_ready_queue_fetch` is called again and again: after as many calls as there are
of them each has been selected once, in order, and the ready lists and the bitmap are as before.
Between two selections of one of them, every other one is selected exactly once. -/
theorem round_robin {tr : Trace Kernel} {s : Sys Kernel}
    (hrun : SysRun (fun tr s act => Orderly (hist tr) s act) tr s)
    (hk : k = s.k ∨ ∃ act, Orderly (hist tr) s act ∧ EntersSchedule s act k)
    (hp : p < SYSTEM_WORD) (hne : ts ≠ []) (hl : Represents k.heap (readyHead p) (ts.map .tcb))
    (hmin : ∀ i < p, isListLast k.heap (readyHead i) = true) :
    ts.Nodup ∧
      (∃ k', k.fetches ts.length = some (k', ts.map some) ∧ ReadyAsBefore k k') ∧
      ∀ n, ∃ k' selected, k.fetches n = some (k', selected.map some) ∧
        ∀ before t between behind, selected = before ++ t :: (between ++ t :: behind) →
          t ∉ between → between.Perm (ts.erase t) := by
  obtain ⟨a, hcore⟩ := hrun.core fun _ _ _ hg => hg
  -- Where a call enters `schedule`, the caller need not be ready, but the lists are as they
  -- should be.
  obtain ⟨a, href, hwf⟩ : ∃ a, Refines s.live k a ∧ WF s.live a := by
    rcases hk with rfl | ⟨act, ho, he⟩
    · exact ⟨a, hcore.sim.refines, hcore.sim.wf⟩
    · exact hcore.entersSchedule ho he
  have hts : a.tasks (.ready p) = ts := by
    have := hl.unique (href.rep (q := .ready p) hp)
    exact (List.map_injective_iff.mpr Node.tcb_injective this).symm
  have hmin' : ∀ i < p, a.tasks (.ready i) = [] := fun i hi =>
    (href.isListLast_iff (q := .ready i) (hi.trans hp)).mp (hmin i hi)
  have hfetches := href.fetches hwf hp hne hts hmin'
  have hn : ts.Nodup := hts ▸ hwf.tasks.nodup _
  refine ⟨hn, ?_, fun n => ?_⟩
  -- After one turn for each task the list has come around.
  · obtain ⟨k', a', hrounds, href', htasks⟩ := hfetches ts.length
    rw [turns_length] at hrounds
    rw [List.rotate_length, ← hts, update_eq_self] at htasks
    exact ⟨k', hrounds, href.readyAsBefore href' htasks⟩
  · obtain ⟨k', -, hrounds, -⟩ := hfetches n
    exact ⟨k', _, hrounds, fun _ _ _ _ hsel ht => perm_of_turns hn hsel ht⟩

/-- Three tasks of the same priority, the first of which has been selected. -/
def threeEqual : List Move := [
  .call (.taskCreate (some (.task 1)) (some 0) (some 0) 5),
  .call (.taskCreate (some (.task 2)) (some 0) (some 0) 5),
  .call (.taskCreate (some (.task 3)) (some 0) (some 0) 5),
  .start, .call .schedule]

/-- Three tasks of the same priority take turns. -/
theorem round_robin_threeEqual : ∃ tr s,
    SysRun (fun tr s act => Orderly (hist tr) s act) tr s ∧
      tr.map Prod.snd = (threeEqual.map Move.act).reverse ∧
        (∃ k', s.k.fetches 3 = some (k', [some (.task 2), some (.task 3), some (.task 1)]) ∧
          ReadyAsBefore s.k k') ∧
        ∀ n, ∃ k' selected, s.k.fetches n = some (k', selected.map some) ∧
          ∀ before t between behind, selected = before ++ t :: (between ++ t :: behind) →
            t ∉ between → between.Perm ([.task 2, .task 3, .task 1].erase t) := by
  have hreplay : (replay (fun _ _ _ => true) threeEqual [] Sys.zero).map (fun r =>
      decide (r.2.k.tasks (.ready 5) = [.task 2, .task 3, .task 1] ∧
        ∀ i ∈ List.range 5, r.2.k.tasks (.ready i) = [])) = some true := by decide
  obtain ⟨⟨trA, sA⟩, hr, hh⟩ := Option.map_eq_some_iff.mp hreplay
  obtain ⟨tr, s, a, hrun, hcore, rfl, hacts, -⟩ := replay_orderly Sys.zero_init hr
  obtain ⟨hl, hmin⟩ := of_decide_eq_true hh
  have href := hcore.sim.refines
  have hrep := href.rep (q := .ready 5) (show 5 < SYSTEM_WORD by decide)
  rw [show a.tasks (.ready 5) = _ from hl] at hrep
  obtain ⟨-, hround, hturns⟩ := round_robin hrun (Or.inl rfl) (by decide) (by simp) hrep
    fun i hi => (href.isListLast_iff (q := .ready i) (hi.trans (by decide))).mpr
      (hmin i (List.mem_range.mpr hi))
  exact ⟨tr, s, hrun, hacts, hround, hturns⟩

end Fos
