import Fos.Kernel.Semaphore

/-!
# The tick queue and the timers, from `kernel/timer.c`

The callback of a timer is code of the application. What a call of one does to the kernel is given
by the semaphores that it puts, in order (`runCallback`); a callback that puts none leaves the
kernel as it is. `sem_put` calls `schedule`, so a callback may switch the task that the tick has
interrupted out before it returns. The pass over the tick queue is then suspended
(`TimerFrame`), and goes on when that task is selected again (`hardwareTimerResume`).
-/

namespace Fos

open Links Loops Function

/-- A pass of `hardware_timer` that is suspended in the callback of an entry. -/
structure TimerFrame where
  /-- The number of the call. -/
  call : ℕ
  /-- `tick_tmp`. -/
  entry : TickPtr
  /-- The semaphores that the callback has still to put. -/
  puts : List ℕ
  deriving DecidableEq

/-- What callbacks do: the semaphores that the callback of each timer puts. -/
abbrev Oracle := TickPtr → List ℕ

/-- The callbacks that make no kernel call. -/
def passive : Oracle := fun _ => []

namespace Kernel

/-- `tick_queue_init`. -/
def tickQueueInit (k : Kernel) : Kernel :=
  { k with heap := listInit k.heap tickHead }

/-- `tick_queue_insert`. -/
def tickQueueInsert (k : Kernel) (tick : TickPtr) : Option Kernel := do
  let heap ← listInsertBehind k.heap tickHead (.tick tick)
  some { k with heap := heap }

/-- `tick_queue_delete`. -/
def tickQueueDelete (k : Kernel) (tick : TickPtr) : Kernel :=
  { k with heap := listDelete k.heap (.tick tick) }

/-- A callback: it puts the semaphores in order. When a `schedule` in it selects another task, the
rest waits until the interrupted task is selected again. -/
def runCallback : List ℕ → Kernel → Option (Kernel × Option (List ℕ))
  | [], k => some (k, none)
  | s :: puts, k => do
    let (k', _) ← k.semPut (some s)
    if k'.newTask = k.newTask then runCallback puts k' else some (k', some puts)

/-- What `hardware_timer` does with a timer when its callback has returned. -/
def afterCallback (k : Kernel) (tick : TickPtr) : Kernel :=
  if (k.tick tick).period = CYCLE then
    k.setTick tick { k.tick tick with timeout := (k.tick tick).timeoutCopy }
  else k.tickQueueDelete tick

/-- The body of the loop of `hardware_timer`: what it does with an entry that it comes to, and the
semaphores that its callback has still to put where that is switched out. -/
def tickBody (o : Oracle) (call : ℕ) (tick : TickPtr) (k : Kernel) :
    Option (Kernel × Option (List ℕ)) :=
  let k := k.note (.visit call tick (k.tick tick).timeout)
  if (k.tick tick).timeout = TIMEOUT then
    match (k.tick tick).style with
    | .softwareTimer => do
      let func ← (k.tick tick).func
      let k := k.note (.callback call tick func (k.tick tick).funcArg)
      let (k, rest) ← runCallback (o tick) k
      match rest with
      | some puts => some (k, some puts)
      | none => some (k.afterCallback tick, none)
    | .delay => do
      let k := k.tickQueueDelete tick
      let k ← k.prioReadyQueueInsertTail (k.tick tick).tcb
      some (k, none)
    | .other => some (k, none)
  else some (k.setTick tick { k.tick tick with timeout := (k.tick tick).timeout - 1 }, none)

/-- The loop of `hardware_timer`, in its `call`-th call, from the node `tmp`. It ends at the end of
the tick queue, or at a callback that is switched out. -/
def tickLoop (o : Oracle) (call : ℕ) (tmp : Node) (k : Kernel) :
    Option (Kernel × Option TimerFrame) :=
  repeatUntil (fun (tmp, k) =>
    if isListLast k.heap tmp then some (.inr (k, none))
    else do
      let tick ← (k.heap tmp).next.tickEntry
      let (k', rest) ← tickBody o call tick k
      match rest with
      | some puts => some (.inr (k', some ⟨call, tick, puts⟩))
      | none => some (.inl ((k.heap tmp).next, k'))) (tmp, k)

/-- The loop goes from an entry to the next one until a callback is switched out. -/
theorem tickLoop_eq (o : Oracle) (call : ℕ) (tmp : Node) (k : Kernel) :
    tickLoop o call tmp k =
      if isListLast k.heap tmp then some (k, none)
      else (k.heap tmp).next.tickEntry.bind fun tick => (tickBody o call tick k).bind fun r =>
        match r.2 with
        | some puts => some (r.1, some ⟨call, tick, puts⟩)
        | none => tickLoop o call (k.heap tmp).next r.1 := by
  conv_lhs => rw [tickLoop, repeatUntil_eq]
  dsimp only
  split_ifs
  · rfl
  · simp only [Option.bind_eq_bind, Option.bind_assoc]
    refine congrArg _ (funext fun tick => congrArg _ (funext fun r => ?_))
    obtain ⟨k₁, rest⟩ := r
    cases rest <;> rfl

/-- The loop ends where no entry follows. -/
theorem tickLoop_of_last {o : Oracle} {call : ℕ} {tmp : Node} {k : Kernel}
    (hlast : isListLast k.heap tmp = true) : tickLoop o call tmp k = some (k, none) :=
  repeatUntil_of_inr (if_pos hlast)

/-- The end of `hardware_timer`: `schedule`, unless its pass is suspended. -/
def tickEnd (r : Kernel × Option TimerFrame) : Option (Kernel × Option TimerFrame) :=
  match r.2 with
  | some f => some (r.1, some f)
  | none => r.1.schedule.map (·, none)

/-- `hardware_timer`, up to a switch in a callback or in the `schedule` that ends it. -/
def hardwareTimer (o : Oracle) (k : Kernel) : Option (Kernel × Option TimerFrame) := do
  let k := { k with fosTick := k.fosTick + 1 }
  let r ← tickLoop o k.fosTick tickHead (k.note (.start k.fosTick))
  tickEnd r

/-- The loop of a `hardware_timer` whose callbacks are passive, before the `schedule` that ends
it. -/
def passiveLoop (k : Kernel) : Option (Kernel × Option TimerFrame) :=
  Kernel.tickLoop passive (k.fosTick + 1) tickHead
    (Kernel.note { k with fosTick := k.fosTick + 1 } (.start (k.fosTick + 1)))

/-- The rest of a `hardware_timer` whose pass was suspended. -/
def hardwareTimerResume (f : TimerFrame) (o : Oracle) (k : Kernel) :
    Option (Kernel × Option TimerFrame) := do
  let (k, rest) ← runCallback f.puts k
  match rest with
  | some puts => some (k, some ⟨f.call, f.entry, puts⟩)
  | none => do
    let r ← tickLoop o f.call (.tick f.entry) (k.afterCallback f.entry)
    tickEnd r

/-- `timer_req`. -/
def timerReq (k : Kernel) (timer : Option TickPtr) (func : Option ℕ) (timeout period arg : ℕ) :
    Option (Kernel × Ret) :=
  match func, timer with
  | some f, some e =>
    if timeout = 0 then some (k, .VOID)
    else do
      let k := k.setTick e { k.tick e with
        func := some f, timeout := timeout, period := period, timeoutCopy := timeout,
        style := .softwareTimer, funcArg := arg }
      let k := k.note (.request e period)
      let k ← k.tickQueueInsert e
      some (k, .VOID)
  | _, _ => some (k, .VOID)

/-- The body of the loop of `hardware_timer`, with callbacks that return: `callback tick` is what
the callback of the timer does. -/
def tickBodyWith (callback : TickPtr → Kernel → Option Kernel) (call : ℕ) (tick : TickPtr)
    (k : Kernel) : Option Kernel :=
  let k := k.note (.visit call tick (k.tick tick).timeout)
  if (k.tick tick).timeout = TIMEOUT then
    match (k.tick tick).style with
    | .softwareTimer => do
      let func ← (k.tick tick).func
      let k := k.note (.callback call tick func (k.tick tick).funcArg)
      let k ← callback tick k
      some (k.afterCallback tick)
    | .delay => do
      let k := k.tickQueueDelete tick
      k.prioReadyQueueInsertTail (k.tick tick).tcb
    | .other => some k
  else some (k.setTick tick { k.tick tick with timeout := (k.tick tick).timeout - 1 })

/-- The loop of `hardware_timer`, with callbacks that return. -/
def tickLoopWith (callback : TickPtr → Kernel → Option Kernel) (call : ℕ) (tmp : Node)
    (k : Kernel) : Option Kernel :=
  repeatUntil (fun (tmp, k) =>
    if isListLast k.heap tmp then some (.inr k)
    else do
      let tick ← (k.heap tmp).next.tickEntry
      let k' ← tickBodyWith callback call tick k
      some (.inl ((k.heap tmp).next, k'))) (tmp, k)

/-- The loop goes from an entry to the next one. -/
theorem tickLoopWith_eq (callback : TickPtr → Kernel → Option Kernel) (call : ℕ) (tmp : Node)
    (k : Kernel) :
    tickLoopWith callback call tmp k =
      if isListLast k.heap tmp then some k
      else (k.heap tmp).next.tickEntry.bind fun tick =>
        (tickBodyWith callback call tick k).bind
          (tickLoopWith callback call (k.heap tmp).next) := by
  conv_lhs => rw [tickLoopWith, repeatUntil_eq]
  dsimp only
  split_ifs
  · rfl
  · simp only [Option.bind_eq_bind, Option.bind_assoc]
    rfl

/-- The loop ends where no entry follows. -/
theorem tickLoopWith_of_last {callback : TickPtr → Kernel → Option Kernel} {call : ℕ} {tmp : Node}
    {k : Kernel} (hlast : isListLast k.heap tmp = true) :
    tickLoopWith callback call tmp k = some k :=
  repeatUntil_of_inr (if_pos hlast)

/-- What every body carries back, and holds where no entry follows, holds of a loop that ends. -/
theorem tickLoopWith_induct {callback : TickPtr → Kernel → Option Kernel} {call : ℕ}
    {P : Node → Kernel → Kernel → Prop} (hlast : ∀ tmp k, P tmp k k)
    (hbody : ∀ tmp k tick k₁, (k.heap tmp).next.tickEntry = some tick →
      tickBodyWith callback call tick k = some k₁ →
        ∀ k', P (k.heap tmp).next k₁ k' → P tmp k k')
    {tmp : Node} {k k' : Kernel} (h : tickLoopWith callback call tmp k = some k') : P tmp k k' := by
  refine repeatUntil_induct (P := fun s k' => P s.1 s.2 k') ?_ ?_ h
  · rintro ⟨tmp, k⟩ k' hround
    dsimp only at hround
    split_ifs at hround
    · obtain rfl := Sum.inr.inj (Option.some.inj hround)
      exact hlast tmp k
    · obtain ⟨tick, -, hround⟩ := Option.bind_eq_some_iff.mp hround
      obtain ⟨k₁, -, hround⟩ := Option.bind_eq_some_iff.mp hround
      cases hround
  · rintro ⟨tmp, k⟩ s' hround k' ih
    dsimp only at hround
    split_ifs at hround
    · cases hround
    · obtain ⟨tick, htick, hround⟩ := Option.bind_eq_some_iff.mp hround
      obtain ⟨k₁, hk₁, hround⟩ := Option.bind_eq_some_iff.mp hround
      obtain rfl := Sum.inl.inj (Option.some.inj hround)
      exact hbody tmp k tick k₁ htick hk₁ k' ih

/-- The pass of a new call of `hardware_timer`, with callbacks that return. -/
def tickPass (callback : TickPtr → Kernel → Option Kernel) (k : Kernel) : Option Kernel :=
  let k := { k with fosTick := k.fosTick + 1 }
  tickLoopWith callback k.fosTick tickHead (k.note (.start k.fosTick))

/-- `os_delay`, up to the switch of the `schedule` that ends it. -/
def osDelay (k : Kernel) (timeslice : ℕ) : Option (Kernel × Ret) := do
  let tcb ← k.newTask
  let e := TickPtr.delay tcb
  let k := k.setTick e { k.tick e with
    tcb := some tcb, timeout := timeslice, timeoutCopy := timeslice, style := .delay }
  let k := k.note (.sleep e)
  let k ← k.prioReadyQueueDelete (k.tick e).tcb
  let k ← k.tickQueueInsert e
  let k ← k.schedule
  some (k, .VOID)

/-- `os_delay`, up to its `schedule`. -/
def sleep (k : Kernel) (timeslice : ℕ) : Option Kernel := do
  let tcb ← k.newTask
  let e := TickPtr.delay tcb
  let k := k.setTick e { k.tick e with
    tcb := some tcb, timeout := timeslice, timeoutCopy := timeslice, style := .delay }
  let k := k.note (.sleep e)
  let k ← k.prioReadyQueueDelete (k.tick e).tcb
  k.tickQueueInsert e

theorem osDelay_eq (k : Kernel) (timeslice : ℕ) : k.osDelay timeslice =
    (k.sleep timeslice).bind fun k => k.schedule.bind fun k => some (k, .VOID) := by
  simp [osDelay, sleep, Option.bind_assoc]

theorem tickQueueInsert_vars {k k' : Kernel} {e : TickPtr} (h : k.tickQueueInsert e = some k') :
    k'.toVars = k.toVars := by
  obtain ⟨heap, -, h⟩ := Option.bind_eq_some_iff.mp h
  rw [← Option.some.inj h]

/-- With passive callbacks, the body is the one with callbacks that return. -/
theorem tickBody_passive (call : ℕ) (tick : TickPtr) (k : Kernel) :
    tickBody passive call tick k =
      (tickBodyWith (fun _ k => some k) call tick k).map (·, none) := by
  unfold tickBody tickBodyWith
  dsimp only
  generalize k.note (.visit call tick (k.tick tick).timeout) = k₀
  split_ifs
  · cases (k₀.tick tick).style with
    | softwareTimer => cases (k₀.tick tick).func <;> rfl
    | delay =>
      dsimp only
      cases prioReadyQueueInsertTail _ _ <;> rfl
    | other => rfl
  · rfl

/-- With passive callbacks, the loop goes from an entry to the next one. -/
theorem tickLoop_passive {call : ℕ} {tmp : Node} {tick : TickPtr} {k : Kernel}
    (hlast : ¬ isListLast k.heap tmp = true) (hnext : (k.heap tmp).next = .tick tick) :
    tickLoop passive call tmp k =
      (tickBodyWith (fun _ k => some k) call tick k).bind (tickLoop passive call (.tick tick)) := by
  rw [tickLoop_eq, if_neg hlast, hnext, Node.tickEntry_tick, Option.bind_some, tickBody_passive]
  cases tickBodyWith (fun _ k => some k) call tick k <;> rfl

/-- What the loop of `hardware_timer` does with passive callbacks, the loop with callbacks that
return does too. -/
theorem tickLoopWith_of_passive {call : ℕ} {tmp : Node} {k : Kernel}
    {r : Kernel × Option TimerFrame}
    (h : tickLoop passive call tmp k = some r) :
    r.2 = none ∧ tickLoopWith (fun _ k => some k) call tmp k = some r.1 := by
  refine repeatUntil_induct (P := fun s r =>
    r.2 = none ∧ tickLoopWith (fun _ k => some k) call s.1 s.2 = some r.1) ?_ ?_ h
  · rintro ⟨tmp, k⟩ r hround
    dsimp only at hround
    split_ifs at hround with hlast
    · obtain rfl := Sum.inr.inj (Option.some.inj hround)
      exact ⟨rfl, tickLoopWith_of_last hlast⟩
    · obtain ⟨tick, -, hround⟩ := Option.bind_eq_some_iff.mp hround
      rw [tickBody_passive] at hround
      obtain ⟨b, hb, hround⟩ := Option.bind_eq_some_iff.mp hround
      obtain ⟨k₁, -, rfl⟩ := Option.map_eq_some_iff.mp hb
      cases hround
  · rintro ⟨tmp, k⟩ s' hround r ih
    dsimp only at hround
    split_ifs at hround with hlast
    · cases hround
    · obtain ⟨tick, htick, hround⟩ := Option.bind_eq_some_iff.mp hround
      rw [tickBody_passive] at hround
      obtain ⟨b, hb, hround⟩ := Option.bind_eq_some_iff.mp hround
      obtain ⟨k₁, hk₁, rfl⟩ := Option.map_eq_some_iff.mp hb
      obtain rfl := Sum.inl.inj (Option.some.inj hround)
      refine ⟨ih.1, ?_⟩
      rw [tickLoopWith_eq, if_neg hlast, htick, Option.bind_some, hk₁, Option.bind_some]
      exact ih.2

end Kernel

end Fos
