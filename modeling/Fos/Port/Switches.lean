import Fos.Runs.Lock

/-!
# From which task another one takes over

Every function of the kernel selects another task at most once before the processor changes hands:
where `new_task` is another one than before, `old_task` is the one before (`Switches`). So
`task_switch` stores the stack pointer into the `TCB` of the task that has run.
-/

namespace Fos

open Links Loops Function

namespace Kernel

/-- The same task is selected, or another one is and `old_task` is the one that was. -/
def Switches (k k' : Kernel) : Prop :=
  k'.newTask = k.newTask ∨ k'.newTask ≠ none ∧ k'.oldTask = k.newTask

/-- A function that is left in the middle, where something remains of it, has selected a task at
most once; one that has come to its end has selected none. -/
structure Suspends {α : Type} (k k' : Kernel) (rest : Option α) : Prop where
  switches : Switches k k'
  newTask : rest = none → k'.newTask = k.newTask

variable {k k₁ k' : Kernel} {r : Ret} {α : Type} {rest : Option α}

/-- What selects no task may come first. -/
theorem Switches.of_eq (h₁ : Switches k₁ k') (h : k₁.newTask = k.newTask) : Switches k k' := by
  unfold Switches at h₁ ⊢
  rwa [h] at h₁

/-- What selects no task comes to its end. -/
theorem Suspends.of_eq (h : k'.newTask = k.newTask) : Suspends k k' rest := ⟨.inl h, fun _ => h⟩

/-- What selects no task may come first. -/
theorem Suspends.of_eq_left (h₁ : Suspends k₁ k' rest) (h : k₁.newTask = k.newTask) :
    Suspends k k' rest :=
  ⟨h₁.switches.of_eq h, fun hrest => (h₁.newTask hrest).trans h⟩

theorem newTask_of_selection (h : k'.selection = k.selection) : k'.newTask = k.newTask :=
  congrArg Prod.fst h

theorem newTask_of_vars (h : k'.toVars = k.toVars) : k'.newTask = k.newTask := by rw [h]

theorem prioReadyQueueFetch_switches (h : k.prioReadyQueueFetch = some (k', r)) :
    Switches k k' := by
  obtain ⟨tmp, -, hvars⟩ := prioReadyQueueFetch_vars h
  split_ifs at hvars
  · exact .inl (newTask_of_vars hvars)
  · exact .inr (by simp [hvars])

theorem schedule_switches (h : k.schedule = some k') : Switches k k' := by
  unfold schedule at h
  split_ifs at h
  · rw [← Option.some.inj h]
    exact .inl rfl
  · obtain ⟨⟨k₁, r⟩, hfetch, rfl⟩ := Option.map_eq_some_iff.mp h
    exact prioReadyQueueFetch_switches hfetch

/-- A call. -/
theorem exec_switches {c : Call} (h : k.exec c = some (k', r)) : Switches k k' := by
  rw [exec_eq] at h
  obtain ⟨⟨k₁, ret, sched⟩, hbefore, hend⟩ := Option.bind_eq_some_iff.mp h
  have hsame := newTask_of_selection (beforeSchedule_selection hbefore)
  unfold callEnd at hend
  split_ifs at hend
  · obtain ⟨k₂, hsched, heq⟩ := Option.map_eq_some_iff.mp hend
    obtain ⟨rfl, -⟩ := Prod.mk.inj heq
    exact (schedule_switches hsched).of_eq hsame
  · obtain ⟨rfl, -⟩ := Prod.mk.inj (Option.some.inj hend)
    exact .inl hsame

/-- A call that `main` makes selects no task. -/
theorem exec_newTask_of_isSetUp {c : Call} (hc : c.IsSetUp = true) (h : k.exec c = some (k', r)) :
    k'.newTask = k.newTask := by
  have hbefore : k.beforeSchedule c = some (k', r, false) := by
    cases c with
    | taskCreate | timerReq | semInit | mutexInit | msgQueueCreate =>
      exact congrArg (Option.map fun r => (r.1, r.2, false)) h
    | _ => simp [Call.IsSetUp] at hc
  exact newTask_of_selection (beforeSchedule_selection hbefore)

/-- A callback. -/
theorem runCallback_suspends {puts : List ℕ} {rest : Option (List ℕ)}
    (h : k.runCallback puts = some (k', rest)) : Suspends k k' rest := by
  induction puts generalizing k with
  | nil =>
    obtain ⟨rfl, -⟩ := Prod.mk.inj (Option.some.inj h)
    exact .of_eq rfl
  | cons s puts ih =>
    obtain ⟨⟨k₁, r₁⟩, hput, h⟩ := Option.bind_eq_some_iff.mp h
    have hsw : Switches k k₁ := exec_switches (c := .semPut (some s)) hput
    dsimp only at h
    split_ifs at h with hsame
    · exact (ih h).of_eq_left hsame
    · obtain ⟨rfl, rfl⟩ := Prod.mk.inj (Option.some.inj h)
      exact ⟨hsw, by simp⟩

@[simp] theorem afterCallback_newTask (k : Kernel) (tick : TickPtr) :
    (k.afterCallback tick).newTask = k.newTask := by
  unfold afterCallback
  split_ifs <;> rfl

/-- The body of the loop of `hardware_timer`. -/
theorem tickBody_suspends {o : Oracle} {call : ℕ} {tick : TickPtr} {rest : Option (List ℕ)}
    (h : tickBody o call tick k = some (k', rest)) : Suspends k k' rest := by
  unfold tickBody at h
  dsimp only at h
  split at h
  · split at h
    · -- A timer, whose callback is called.
      obtain ⟨func, -, h⟩ := Option.bind_eq_some_iff.mp h
      obtain ⟨⟨k₁, puts⟩, hcallback, h⟩ := Option.bind_eq_some_iff.mp h
      have hsus : Suspends k k₁ puts := (runCallback_suspends hcallback).of_eq_left rfl
      cases puts with
      | some puts =>
        obtain ⟨rfl, rfl⟩ := Prod.mk.inj (Option.some.inj h)
        exact hsus
      | none =>
        obtain ⟨rfl, rfl⟩ := Prod.mk.inj (Option.some.inj h)
        exact .of_eq (by rw [afterCallback_newTask, hsus.newTask rfl])
    · -- A task whose time has come.
      obtain ⟨k₁, hinsert, h⟩ := Option.bind_eq_some_iff.mp h
      obtain ⟨rfl, -⟩ := Prod.mk.inj (Option.some.inj h)
      exact .of_eq (newTask_of_vars (prioReadyQueueInsertTail_vars hinsert) :)
    · obtain ⟨rfl, -⟩ := Prod.mk.inj (Option.some.inj h)
      exact .of_eq rfl
  · obtain ⟨rfl, -⟩ := Prod.mk.inj (Option.some.inj h)
    exact .of_eq rfl

/-- The loop of `hardware_timer`: no entry before the one that it is left at selects a task. -/
theorem tickLoop_suspends {o : Oracle} {call : ℕ} {tmp : Node} {f : Option TimerFrame}
    (h : tickLoop o call tmp k = some (k', f)) : Suspends k k' f := by
  refine repeatUntil_induct (P := fun s r => Suspends s.2 r.1 r.2) ?_ ?_ h
  · rintro ⟨tmp, k⟩ ⟨k', f⟩ hround
    dsimp only at hround
    split_ifs at hround
    · obtain ⟨rfl, rfl⟩ := Prod.mk.inj (Sum.inr.inj (Option.some.inj hround))
      exact .of_eq rfl
    · obtain ⟨tick, -, hround⟩ := Option.bind_eq_some_iff.mp hround
      obtain ⟨⟨k₁, rest⟩, hbody, hround⟩ := Option.bind_eq_some_iff.mp hround
      cases rest with
      | none => cases hround
      | some puts =>
        obtain ⟨rfl, rfl⟩ := Prod.mk.inj (Sum.inr.inj (Option.some.inj hround))
        exact ⟨(tickBody_suspends hbody).switches, by simp⟩
  · rintro ⟨tmp, k⟩ s' hround ⟨k', f⟩ ih
    dsimp only at hround
    split_ifs at hround
    · cases hround
    · obtain ⟨tick, -, hround⟩ := Option.bind_eq_some_iff.mp hround
      obtain ⟨⟨k₁, rest⟩, hbody, hround⟩ := Option.bind_eq_some_iff.mp hround
      cases rest with
      | some puts => cases hround
      | none =>
        obtain rfl := Sum.inl.inj (Option.some.inj hround)
        exact ih.of_eq_left ((tickBody_suspends hbody).newTask rfl)

/-- The end of `hardware_timer`. -/
theorem Suspends.tickEnd_switches {f f' : Option TimerFrame} (h : Suspends k k₁ f)
    (hend : tickEnd (k₁, f) = some (k', f')) : Switches k k' := by
  cases f with
  | some g =>
    obtain ⟨rfl, -⟩ := Prod.mk.inj (Option.some.inj hend)
    exact h.switches
  | none =>
    obtain ⟨k₂, hsched, heq⟩ := Option.map_eq_some_iff.mp hend
    obtain ⟨rfl, -⟩ := Prod.mk.inj heq
    exact (schedule_switches hsched).of_eq (h.newTask rfl)

/-- `hardware_timer`. -/
theorem hardwareTimer_switches {o : Oracle} {f : Option TimerFrame}
    (h : k.hardwareTimer o = some (k', f)) : Switches k k' := by
  obtain ⟨⟨k₁, g⟩, hloop, hend⟩ := Option.bind_eq_some_iff.mp h
  have hsus : Suspends k k₁ g := (tickLoop_suspends hloop).of_eq_left rfl
  exact hsus.tickEnd_switches hend

/-- The rest of a `hardware_timer` that was left in a callback. -/
theorem hardwareTimerResume_switches {g : TimerFrame} {o : Oracle} {f : Option TimerFrame}
    (h : k.hardwareTimerResume g o = some (k', f)) : Switches k k' := by
  obtain ⟨⟨k₁, rest⟩, hcallback, h⟩ := Option.bind_eq_some_iff.mp h
  have hsus := runCallback_suspends hcallback
  cases rest with
  | some puts =>
    obtain ⟨rfl, -⟩ := Prod.mk.inj (Option.some.inj h)
    exact hsus.switches
  | none =>
    obtain ⟨⟨k₂, f₂⟩, hloop, hend⟩ := Option.bind_eq_some_iff.mp h
    have hloop' : Suspends k k₂ f₂ := (tickLoop_suspends hloop).of_eq_left
      (by rw [afterCallback_newTask, hsus.newTask rfl])
    exact hloop'.tickEnd_switches hend

end Kernel

end Fos
