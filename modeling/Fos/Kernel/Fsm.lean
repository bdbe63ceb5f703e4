import Fos.Kernel.List
import Mathlib.Data.Int.Notation
import Mathlib.Logic.Function.Basic

/-!
# The state machine, from `kernel/fsm.c`

The states are in a list of `STATE_DIS` that has no head of its own: `state_obj_copy` points to the
first one, which `state_init` makes, and `state_obj` to the one behind which `state_add` links the
next one. `malloc` is taken to succeed, and gives an address that is not in use yet.
-/

namespace Fos

open Links Loops Function

/-- `MSG_LEN`. -/
def MSG_LEN : ℕ := 1024

/-- `STATE_DIS`, without its `node`. A `func` is a function pointer, and a `name` a string, which
may be `NULL`. -/
structure StateDis where
  state : ℤ
  func : Option ℕ
  name : Option String
  deriving DecidableEq

/-- `FSM`: the state that it is in, and the `MSG_LEN` bytes of its message. -/
structure Fsm extends StateDis where
  message : List UInt8
  deriving DecidableEq

/-- The variables of `fsm.c`, the links of the `STATE_DIS`s, and their fields. -/
structure FsmState where
  /-- `*fsm_obj`. -/
  fsmObj : Fsm
  /-- `fsm_default`, of which the message is not read. -/
  fsmDefault : StateDis
  /-- `state_obj`. -/
  stateObj : ℕ
  /-- `state_obj_copy`. -/
  stateObjCopy : ℕ
  heap : Heap ℕ
  dis : ℕ → StateDis
  /-- The address that `malloc` gives next. -/
  fresh : ℕ

/-- The fields of a `STATE_DIS` that has been removed. -/
def StateDis.removed : StateDis := ⟨10000, none, some ""⟩

namespace FsmState

/-- `state_init`, with its `fsm_init`. -/
def stateInit (s : FsmState) (state : ℤ) (func : Option ℕ) (name : Option String) : FsmState :=
  { s with
    fsmObj := ⟨⟨state, func, name⟩, s.fsmObj.message⟩
    stateObj := s.fresh
    stateObjCopy := s.fresh
    heap := listInit s.heap s.fresh
    dis := update s.dis s.fresh ⟨state, func, name⟩
    fresh := s.fresh + 1 }

/-- `state_add`. It reads the first character of the name. -/
def stateAdd (s : FsmState) (state : ℤ) (func : Option ℕ) (name : Option String) :
    Option FsmState :=
  match name with
  | none => none
  | some _ =>
    let heap := listInsert s.heap s.stateObj s.fresh
    some { s with
      stateObj := (heap s.stateObj).next
      heap := heap
      dis := update s.dis s.fresh ⟨state, func, name⟩
      fresh := s.fresh + 1 }

/-- The loop of `state_remove` and `state_tran` from the node `tmp`, and the test behind it: the
first `STATE_DIS` with the state. -/
def search (s : FsmState) (state : ℤ) (tmp : ℕ) : Option (Option ℕ) :=
  repeatUntil (fun tmp =>
    if ¬ isListLast s.heap tmp then
      if (s.dis tmp).state = state then some (.inr (some tmp)) else some (.inl (s.heap tmp).next)
    else if (s.dis tmp).state = state then some (.inr (some tmp))
    else some (.inr none)) tmp

/-- One round of the loop. -/
theorem search_unfold (s : FsmState) (state : ℤ) (tmp : ℕ) : s.search state tmp =
    if ¬ isListLast s.heap tmp then
      if (s.dis tmp).state = state then some (some tmp) else s.search state (s.heap tmp).next
    else if (s.dis tmp).state = state then some (some tmp)
    else some none := by
  unfold search
  rw [repeatUntil_eq]
  split_ifs <;> rfl

/-- `state_remove`. -/
def stateRemove (s : FsmState) (state : ℤ) : Option FsmState := do
  match ← s.search state s.stateObjCopy with
  | some tmp => some { s with heap := listDelete s.heap tmp, dis := update s.dis tmp .removed }
  | none => some s

/-- `memcpy(fsm_obj->message, message, strlen(message))`, into zeros. -/
def copyMessage : Option (List UInt8) → Option (List UInt8)
  | none => some (List.replicate MSG_LEN 0)
  | some message =>
    if message.length ≤ MSG_LEN then
      some (message ++ List.replicate (MSG_LEN - message.length) 0)
    else none

/-- `state_default`. -/
def stateDefault (s : FsmState) (d : StateDis) : FsmState :=
  { s with fsmObj := { s.fsmObj with toStateDis := d } }

/-- `state_tran`. -/
def stateTran (s : FsmState) (state : ℤ) (message : Option (List UInt8)) : Option FsmState := do
  let s := { s with fsmObj := { s.fsmObj with message := List.replicate MSG_LEN 0 } }
  match ← s.search state s.stateObjCopy with
  | some tmp => do
    let bytes ← copyMessage message
    some { s with fsmObj := ⟨⟨state, (s.dis tmp).func, (s.dis tmp).name⟩, bytes⟩ }
  | none => some (s.stateDefault s.fsmDefault)

end FsmState

end Fos
