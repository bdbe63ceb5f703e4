import Fos.Kernel.State
import Mathlib.Data.BitVec

/-!
# The ready queues and the scheduler, from `kernel/prio_sched.c`

The build is the one of the repository, with `MAPTABLE` set. `schedule` changes `new_task` and
leaves the switch itself to `System.lean`, where the task that `new_task` points to runs.
-/

namespace Fos

open Links Function

/-- `bitmap[256]`, the place of the lowest bit set. -/
def bitmap : List ℕ := [
  0, 0, 1, 0, 2, 0, 1, 0, 3, 0, 1, 0, 2, 0, 1, 0,
  4, 0, 1, 0, 2, 0, 1, 0, 3, 0, 1, 0, 2, 0, 1, 0,
  5, 0, 1, 0, 2, 0, 1, 0, 3, 0, 1, 0, 2, 0, 1, 0,
  4, 0, 1, 0, 2, 0, 1, 0, 3, 0, 1, 0, 2, 0, 1, 0,
  6, 0, 1, 0, 2, 0, 1, 0, 3, 0, 1, 0, 2, 0, 1, 0,
  4, 0, 1, 0, 2, 0, 1, 0, 3, 0, 1, 0, 2, 0, 1, 0,
  5, 0, 1, 0, 2, 0, 1, 0, 3, 0, 1, 0, 2, 0, 1, 0,
  4, 0, 1, 0, 2, 0, 1, 0, 3, 0, 1, 0, 2, 0, 1, 0,
  7, 0, 1, 0, 2, 0, 1, 0, 3, 0, 1, 0, 2, 0, 1, 0,
  4, 0, 1, 0, 2, 0, 1, 0, 3, 0, 1, 0, 2, 0, 1, 0,
  5, 0, 1, 0, 2, 0, 1, 0, 3, 0, 1, 0, 2, 0, 1, 0,
  4, 0, 1, 0, 2, 0, 1, 0, 3, 0, 1, 0, 2, 0, 1, 0,
  6, 0, 1, 0, 2, 0, 1, 0, 3, 0, 1, 0, 2, 0, 1, 0,
  4, 0, 1, 0, 2, 0, 1, 0, 3, 0, 1, 0, 2, 0, 1, 0,
  5, 0, 1, 0, 2, 0, 1, 0, 3, 0, 1, 0, 2, 0, 1, 0,
  4, 0, 1, 0, 2, 0, 1, 0, 3, 0, 1, 0, 2, 0, 1, 0]

namespace Kernel

/-- `bitmap_set`. The index of `c[8]` is out of bounds from priority 64 on. -/
def bitmapSet (k : Kernel) (prio : ℕ) : Option Kernel :=
  let a := prio &&& 0x7
  let b := prio >>> 3
  if b < 8 then some { k with c := update k.c b (k.c b ||| 1#8 <<< a), y := k.y ||| 1#8 <<< b }
  else none

/-- `bitmap_get`. -/
def bitmapGet (k : Kernel) : ℕ :=
  let b := bitmap.getD k.y.toNat 0
  let a := bitmap.getD (k.c b).toNat 0
  (b * 8 + a) % 256

/-- `bitmap_clear`. -/
def bitmapClear (k : Kernel) (prio : ℕ) : Option Kernel :=
  let a := prio &&& 0x7
  let b := prio >>> 3
  if b < 8 then
    let k := { k with c := update k.c b (k.c b &&& ~~~(1#8 <<< a)) }
    if k.c b = 0 then some { k with y := k.y &&& ~~~(1#8 <<< b) } else some k
  else none

/-- `&task_prio_queue[prio].list`, in bounds. -/
def prioListHead (prio : ℕ) : Option Node :=
  if prio < SYSTEM_WORD then some (readyHead prio) else none

/-- `bit_first_one_search`. Where no task is ready, what it returns is an entry of
`task_prio_queue[]`. -/
def bitFirstOneSearch (k : Kernel) : Option TcbPtr := do
  let head ← prioListHead k.bitmapGet
  (k.heap head).next.tcbEntry

/-- `prio_ready_queue_init`. -/
def prioReadyQueueInit (k : Kernel) : Kernel :=
  { k with heap := (List.range SYSTEM_WORD).foldl (fun h i => listInit h (readyHead i)) k.heap }

/-- `prio_ready_queue_insert_tail`. -/
def prioReadyQueueInsertTail (k : Kernel) (tcb : Option TcbPtr) : Option Kernel := do
  let tcb ← tcb
  let k ← k.bitmapSet (k.prio tcb)
  let head ← prioListHead (k.prio tcb)
  let heap ← listInsertBehind k.heap head (.tcb tcb)
  some { k with heap := heap }

/-- `prio_ready_queue_insert_head`. -/
def prioReadyQueueInsertHead (k : Kernel) (tcb : Option TcbPtr) : Option Kernel := do
  let tcb ← tcb
  let k ← k.bitmapSet (k.prio tcb)
  let head ← prioListHead (k.prio tcb)
  some { k with heap := listInsertSpec k.heap head (.tcb tcb) }

/-- `prio_ready_queue_delete`. -/
def prioReadyQueueDelete (k : Kernel) (tcb : Option TcbPtr) : Option Kernel := do
  let tcb ← tcb
  let k := { k with heap := listDelete k.heap (.tcb tcb) }
  let head ← prioListHead (k.prio tcb)
  if isListLast k.heap head then k.bitmapClear (k.prio tcb) else some k

/-- `prio_ready_queue_fetch`. -/
def prioReadyQueueFetch (k : Kernel) : Option (Kernel × Ret) := do
  let tmp ← k.bitFirstOneSearch
  let k ←
    if isListLast k.heap (.tcb tmp) then some k
    else do
      let k ← k.prioReadyQueueDelete tmp
      k.prioReadyQueueInsertTail tmp
  if k.newTask = some tmp then some (k, .NO_SCHED)
  else some ({ k with oldTask := k.newTask, newTask := some tmp }, .SCHED)

/-- `schedule`, up to the switch. -/
def schedule (k : Kernel) : Option Kernel :=
  if k.scheduleIsLock then some k else k.prioReadyQueueFetch.map Prod.fst

/-- `schedule_lock`. -/
def scheduleLock (k : Kernel) : Kernel := { k with scheduleIsLock := true }

/-- `schedule_unlock`. -/
def scheduleUnlock (k : Kernel) : Kernel := { k with scheduleIsLock := false }

/-- `find_high_ready_task`, with which the interrupt handlers of the port end. -/
def findHighReadyTask (k : Kernel) : Option Kernel := k.prioReadyQueueFetch.map Prod.fst

/-- `start_which_task`, up to the switch. -/
def startWhichTask (k : Kernel) (firstTask : TcbPtr) : Kernel :=
  { k with newTask := some firstTask }

/-! ## What the functions write

All but `prio_ready_queue_fetch` write the links and the bitmap, and no variable. -/

variable {k k' : Kernel} {r : Ret} {t : Option TcbPtr} {p : ℕ}

theorem bitmapSet_vars (h : k.bitmapSet p = some k') : k'.toVars = k.toVars := by
  unfold bitmapSet at h
  dsimp only at h
  split_ifs at h
  rw [← Option.some.inj h]

theorem bitmapSet_heap (h : k.bitmapSet p = some k') : k'.heap = k.heap := by
  unfold bitmapSet at h
  dsimp only at h
  split_ifs at h
  rw [← Option.some.inj h]

theorem bitmapClear_vars (h : k.bitmapClear p = some k') : k'.toVars = k.toVars := by
  unfold bitmapClear at h
  dsimp only at h
  split_ifs at h <;> rw [← Option.some.inj h]

theorem bitmapClear_heap (h : k.bitmapClear p = some k') : k'.heap = k.heap := by
  unfold bitmapClear at h
  dsimp only at h
  split_ifs at h <;> rw [← Option.some.inj h]

theorem prioReadyQueueInsertTail_vars (h : k.prioReadyQueueInsertTail t = some k') :
    k'.toVars = k.toVars := by
  obtain ⟨tcb, -, h⟩ := Option.bind_eq_some_iff.mp h
  obtain ⟨k₁, h₁, h⟩ := Option.bind_eq_some_iff.mp h
  obtain ⟨head, -, h⟩ := Option.bind_eq_some_iff.mp h
  obtain ⟨heap, -, h⟩ := Option.bind_eq_some_iff.mp h
  obtain rfl := Option.some.inj h
  have hvars := bitmapSet_vars h₁
  exact hvars

theorem prioReadyQueueInsertHead_vars (h : k.prioReadyQueueInsertHead t = some k') :
    k'.toVars = k.toVars := by
  obtain ⟨tcb, -, h⟩ := Option.bind_eq_some_iff.mp h
  obtain ⟨k₁, h₁, h⟩ := Option.bind_eq_some_iff.mp h
  obtain ⟨head, -, h⟩ := Option.bind_eq_some_iff.mp h
  obtain rfl := Option.some.inj h
  have hvars := bitmapSet_vars h₁
  exact hvars

theorem prioReadyQueueDelete_vars (h : k.prioReadyQueueDelete t = some k') :
    k'.toVars = k.toVars := by
  obtain ⟨tcb, -, h⟩ := Option.bind_eq_some_iff.mp h
  obtain ⟨head, -, h⟩ := Option.bind_eq_some_iff.mp h
  split_ifs at h
  · exact (bitmapClear_vars h :)
  · rw [← Option.some.inj h]

theorem prioReadyQueueDelete_heap {tcb : TcbPtr} (h : k.prioReadyQueueDelete (some tcb) = some k') :
    k'.heap = listDelete k.heap (.tcb tcb) := by
  obtain ⟨head, -, h⟩ := Option.bind_eq_some_iff.mp h
  split_ifs at h
  · exact bitmapClear_heap h
  · rw [← Option.some.inj h]

/-- The rotation in `prio_ready_queue_fetch`: the task that it has found goes behind its equals. -/
def rotate (k : Kernel) (tmp : TcbPtr) : Option Kernel :=
  if isListLast k.heap (.tcb tmp) then some k
  else (k.prioReadyQueueDelete tmp).bind fun k => k.prioReadyQueueInsertTail tmp

theorem prioReadyQueueFetch_eq (k : Kernel) : k.prioReadyQueueFetch =
    k.bitFirstOneSearch.bind fun tmp => (k.rotate tmp).bind fun k =>
      if k.newTask = some tmp then some (k, .NO_SCHED)
      else some ({ k with oldTask := k.newTask, newTask := some tmp }, .SCHED) := by
  unfold prioReadyQueueFetch rotate
  refine congrArg _ (funext fun tmp => ?_)
  split_ifs
  · rfl
  · simp [Option.bind_assoc]

theorem rotate_vars {tmp : TcbPtr} (h : k.rotate tmp = some k') : k'.toVars = k.toVars := by
  unfold rotate at h
  split_ifs at h
  · rw [← Option.some.inj h]
  · obtain ⟨k₁, h₁, h⟩ := Option.bind_eq_some_iff.mp h
    rw [prioReadyQueueInsertTail_vars h, prioReadyQueueDelete_vars h₁]

/-- `prio_ready_queue_fetch` selects what `bit_first_one_search` finds. -/
theorem prioReadyQueueFetch_vars (h : k.prioReadyQueueFetch = some (k', r)) :
    ∃ tmp, k.bitFirstOneSearch = some tmp ∧ k'.toVars = if k.newTask = some tmp then k.toVars
      else { k.toVars with oldTask := k.newTask, newTask := some tmp } := by
  rw [prioReadyQueueFetch_eq] at h
  obtain ⟨tmp, htmp, h⟩ := Option.bind_eq_some_iff.mp h
  obtain ⟨k₁, h₁, h⟩ := Option.bind_eq_some_iff.mp h
  have hvars := rotate_vars h₁
  have hnew : k₁.newTask = k.newTask := by rw [hvars]
  refine ⟨tmp, htmp, ?_⟩
  rw [hnew] at h
  split_ifs at h ⊢
  · rw [← (Prod.mk.inj (Option.some.inj h)).1, hvars]
  · rw [← (Prod.mk.inj (Option.some.inj h)).1, ← hvars]

end Kernel

end Fos
