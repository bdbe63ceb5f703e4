import Fos.Kernel.List
import Fos.Libc.String
import Mathlib.Algebra.Group.Nat.Defs
import Mathlib.Data.Int.Notation
import Mathlib.Logic.Function.Basic

/-!
# The devices, from `kernel/device.c`

The devices that are registered are in a list, whose head is the `list` of `device_queue_head`. A
name is the address of a string. `OS_LOG` of a string does nothing. A driver is called with
arguments of its own and none of the variables here; which of its functions is called is what a
`DriverCall` says, and what that returns is not read.
-/

namespace Fos

open Links Loops Function

/-- The address of a `LIST` node of `device.c`. -/
inductive DeviceNode where
  /-- `device_queue_head.list`. -/
  | head
  /-- `device->list`. -/
  | device (d : ℕ)
  deriving DecidableEq

/-- `NO_DEVICE`. -/
def NO_DEVICE : ℤ := 16

/-- `OPERATIONS`, of which each is a function pointer. -/
@[ext]
structure Operations where
  «open» : Option ℕ
  read : Option ℕ
  write : Option ℕ
  ioctrl : Option ℕ
  close : Option ℕ

/-- No operation. -/
def Operations.null : Operations := ⟨none, none, none, none, none⟩

/-- A call of a function of a driver, with its arguments. -/
inductive DriverCall where
  | «open» (f : ℕ) (arg : Option ℕ) (flag : UInt8)
  | read (f : ℕ) (buff : Option ℕ) (size : UInt8)
  | write (f : ℕ) (buff : Option ℕ) (size : UInt8)
  | ioctrl (f : ℕ) (cmd : UInt8) (arg : Option ℕ)
  | close (f : ℕ)
  deriving DecidableEq

/-- `DEVICE`, without its `list`. -/
structure Device where
  name : Option ℕ
  ops : Option ℕ
  openCount : UInt8
  flag : UInt8

/-- The variables of `device.c`, the links of the nodes, and the bytes of memory. -/
structure DeviceState where
  /-- `times`, an `int`. -/
  times : ℤ
  heap : Heap DeviceNode
  device : ℕ → Device
  operations : ℕ → Operations
  /-- The bytes that names point to. -/
  mem : ℕ → UInt8

namespace DeviceState

/-- `device_queue_init`. -/
def deviceQueueInit (s : DeviceState) : DeviceState :=
  let s := { s with times := (s.times + 1).bmod (2^32) }
  if 2 ≤ s.times then s else { s with heap := listInit s.heap .head }

/-- `device_register`. -/
def deviceRegister (s : DeviceState) (device name ops : Option ℕ) : Option (DeviceState × ℤ) :=
  match device with
  | none => some (s, NO_DEVICE)
  | some d => do
    let s := { s with device := update s.device d ⟨name, ops, (s.device d).openCount + 1, 0⟩ }
    let heap ← listInsertBehind s.heap .head (.device d)
    some ({ s with heap := heap }, 0)

/-- `ops_init`. -/
def opsInit (s : DeviceState) (ops : Option ℕ) (operations : Operations) : Option DeviceState := do
  let o ← ops
  some { s with operations := update s.operations o operations }

/-- `device_unregister`. -/
def deviceUnregister (s : DeviceState) (device : Option ℕ) : Option (DeviceState × ℤ) :=
  match device with
  | none => some (s, NO_DEVICE)
  | some d => do
    let s ← s.opsInit (s.device d).ops ⟨none, none, none, none, none⟩
    some ({ s with heap := listDelete s.heap (.device d) }, 0)

/-- The loop of `device_find` from the node `tmp`. -/
def deviceFindFrom (s : DeviceState) (name : Option ℕ) (tmp : DeviceNode) : Option (Option ℕ) :=
  repeatUntil (fun tmp =>
    if isListLast s.heap tmp then some (.inr none)
    else
      match (s.heap tmp).next with
      | .head => none
      | .device d => do
        let p ← (s.device d).name
        let q ← name
        let c ← strcmp s.mem p q
        if c = 0 then some (.inr (some d)) else some (.inl (.device d))) tmp

/-- The loop ends where no device follows. -/
theorem deviceFindFrom_of_last {s : DeviceState} {name : Option ℕ} {tmp : DeviceNode}
    (hlast : isListLast s.heap tmp = true) : s.deviceFindFrom name tmp = some none :=
  repeatUntil_of_inr (if_pos hlast)

/-- One round of the loop, where a device follows. -/
theorem deviceFindFrom_of_next {s : DeviceState} {tmp : DeviceNode} {d p q : ℕ} {c : ℤ}
    (hlast : ¬ isListLast s.heap tmp = true) (hnext : (s.heap tmp).next = .device d)
    (hname : (s.device d).name = some p) (hc : strcmp s.mem p q = some c) :
    s.deviceFindFrom (some q) tmp =
      if c = 0 then some (some d) else s.deviceFindFrom (some q) (.device d) := by
  unfold deviceFindFrom
  rw [repeatUntil_eq]
  simp only [if_neg hlast, hnext, hname, hc, Option.bind_eq_bind, Option.bind_some]
  split_ifs <;> rfl

/-- `device_find`. -/
def deviceFind (s : DeviceState) (name : Option ℕ) : Option (Option ℕ) :=
  s.deviceFindFrom name .head

/-! ## The operations of a device -/

/-- `device_open`. -/
def deviceOpen (s : DeviceState) (device name : Option ℕ) (flag : UInt8) :
    Option (DeviceState × Option DriverCall × ℤ) :=
  match device with
  | none => some (s, none, NO_DEVICE)
  | some d => do
    let o ← (s.device d).ops
    let call := (s.operations o).open.map fun f => .open f name flag
    let s := { s with device := update s.device d { s.device d with
      flag := (s.device d).flag ||| flag
      openCount := (s.device d).openCount + 1 } }
    some (s, call, 0)

/-- `device_close`. -/
def deviceClose (s : DeviceState) (device : Option ℕ) :
    Option (DeviceState × Option DriverCall × ℤ) :=
  match device with
  | none => some (s, none, NO_DEVICE)
  | some d => do
    let o ← (s.device d).ops
    let call := (s.operations o).close.map .close
    let s := { s with device := update s.device d { s.device d with
      flag := 0
      openCount := (s.device d).openCount - 1 } }
    some (s, call, 0)

/-- `device_read`. -/
def deviceRead (s : DeviceState) (device buff : Option ℕ) (size : UInt8) :
    Option (Option DriverCall × ℤ) :=
  match device with
  | none => some (none, NO_DEVICE)
  | some d => do
    let o ← (s.device d).ops
    some ((s.operations o).read.map fun f => .read f buff size, 0)

/-- `device_write`. -/
def deviceWrite (s : DeviceState) (device buff : Option ℕ) (size : UInt8) :
    Option (Option DriverCall × ℤ) :=
  match device with
  | none => some (none, NO_DEVICE)
  | some d => do
    let o ← (s.device d).ops
    some ((s.operations o).write.map fun f => .write f buff size, 0)

/-- `device_ioctrl`. -/
def deviceIoctrl (s : DeviceState) (device : Option ℕ) (cmd : UInt8) (arg : Option ℕ) :
    Option (Option DriverCall × ℤ) :=
  match device with
  | none => some (none, NO_DEVICE)
  | some d => do
    let o ← (s.device d).ops
    some ((s.operations o).ioctrl.map fun f => .ioctrl f cmd arg, 0)

section Operations

variable {s : DeviceState} {d o : ℕ} (ho : (s.device d).ops = some o)
include ho

theorem deviceOpen_eq (name : Option ℕ) (flag : UInt8) : s.deviceOpen (some d) name flag = some
    ({ s with device := update s.device d { s.device d with
      flag := (s.device d).flag ||| flag
      openCount := (s.device d).openCount + 1 } },
      (s.operations o).open.map fun f => .open f name flag, 0) := by
  unfold deviceOpen
  simp only [ho, Option.bind_eq_bind, Option.bind_some]

theorem deviceClose_eq : s.deviceClose (some d) = some
    ({ s with device := update s.device d { s.device d with
      flag := 0
      openCount := (s.device d).openCount - 1 } }, (s.operations o).close.map .close, 0) := by
  unfold deviceClose
  simp only [ho, Option.bind_eq_bind, Option.bind_some]

theorem deviceRead_eq (buff : Option ℕ) (size : UInt8) : s.deviceRead (some d) buff size =
    some ((s.operations o).read.map fun f => .read f buff size, 0) := by
  unfold deviceRead
  simp only [ho, Option.bind_eq_bind, Option.bind_some]

theorem deviceWrite_eq (buff : Option ℕ) (size : UInt8) : s.deviceWrite (some d) buff size =
    some ((s.operations o).write.map fun f => .write f buff size, 0) := by
  unfold deviceWrite
  simp only [ho, Option.bind_eq_bind, Option.bind_some]

theorem deviceIoctrl_eq (cmd : UInt8) (arg : Option ℕ) : s.deviceIoctrl (some d) cmd arg =
    some ((s.operations o).ioctrl.map fun f => .ioctrl f cmd arg, 0) := by
  unfold deviceIoctrl
  simp only [ho, Option.bind_eq_bind, Option.bind_some]

end Operations

end DeviceState

end Fos
