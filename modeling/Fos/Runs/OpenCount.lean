import Fos.Kernel.Device
import Fos.Lib.Runs

/-!
# Counting the opens of a device

`open_count` is meant to be the number of successful opens that have not been closed, and `flag` to
be zero only when there are none. But `device_register` counts itself, `device_open` does not look
at what the driver returns, `device_close` clears the flags of all opens, and the counter is a byte.
So the count is right at no time, unless it is 255 before `device_register` and wraps there
(`device_open_count`).
-/

namespace Fos

open Function Links Runs

/-- A call for one device. -/
inductive OpenCall where
  | register (name ops : Option ℕ)
  /-- `device_open`; if the driver has a function for it, this returns `err`. -/
  | «open» (name : Option ℕ) (flag : UInt8) (err : ℤ)
  | close

/-- A call for the device `d`. `device_open` drops what the driver returns. -/
def openStep (d : ℕ) (s : DeviceState) : OpenCall → Option DeviceState
  | .register name ops => (s.deviceRegister (some d) name ops).map (·.1)
  | .open name flag _ => (s.deviceOpen (some d) name flag).map (·.1)
  | .close => (s.deviceClose (some d)).map (·.1)

/-- The function of the driver is called for `device_open`, and returns an error. -/
def openFails (d : ℕ) (s : DeviceState) : OpenCall → Bool
  | .open name flag err => err ≠ 0 ∧ (s.deviceOpen (some d) name flag).any fun r => r.2.1.isSome
  | _ => false

/-- The successful opens. -/
def successes (d : ℕ) (tr : List (DeviceState × OpenCall)) : ℕ :=
  tr.countP fun e => match e.2 with | .open .. => !openFails d e.1 e.2 | _ => false

/-- The closes. -/
def closes (tr : List (DeviceState × OpenCall)) : ℕ :=
  tr.countP fun e => match e.2 with | .close => true | _ => false

/-- The successful opens that have not been closed. -/
def opensLeft (d : ℕ) (tr : List (DeviceState × OpenCall)) : ℕ := successes d tr - closes tr

/-- `device_register` comes first and once, and there are at most as many closes as successful
opens. -/
def OpenUsage (d : ℕ) (tr : List (DeviceState × OpenCall)) (_ : DeviceState) : OpenCall → Prop
  | .register .. => tr = []
  | .open .. => tr ≠ []
  | .close => tr ≠ [] ∧ closes tr < successes d tr

/-- The runs of the calls for one device, from any state. -/
abbrev OpenRun (d : ℕ) := Run (fun _ => True) (openStep d) (OpenUsage d)

/-- The counter wraps in a call. -/
def Wraps (d : ℕ) (e : DeviceState × OpenCall) : Prop :=
  match e.2 with
  | .register .. | .open .. => (e.1.device d).openCount = 255
  | .close => (e.1.device d).openCount = 0

/-- The opens are accounted for. -/
structure OpensCounted (d : ℕ) (tr : List (DeviceState × OpenCall)) (s : DeviceState) : Prop where
  /-- `open_count` is the number of the opens that are outstanding. -/
  count : (s.device d).openCount.toNat = opensLeft d tr
  /-- `flag` is zero only when none is. -/
  flag : (s.device d).flag = 0 → opensLeft d tr = 0
  /-- An open that the driver has failed has left both alone. -/
  failed : ∀ e ∈ tr, openFails d e.1 e.2 → ∀ s', openStep d e.1 e.2 = some s' →
    (s'.device d).openCount = (e.1.device d).openCount ∧ (s'.device d).flag = (e.1.device d).flag

/-- They are accounted for at each moment from `device_register` on. -/
def OpensAccounted (d : ℕ) (tr : List (DeviceState × OpenCall)) (s : DeviceState) : Prop :=
  Always (fun tr s => tr ≠ [] → OpensCounted d tr s) tr s

/-- The calls for which the count is right: it is 255 before `device_register`, no open fails or
makes more than 255 outstanding, the first one of them has a flag, and no open is closed while
another one is outstanding. -/
def CountsRight (d : ℕ) : List (DeviceState × OpenCall) → Prop
  | [] => True
  | e :: tr => CountsRight d tr ∧
    match e.2 with
    | .register .. => (e.1.device d).openCount = 255
    | .open _ flag _ => ¬ openFails d e.1 e.2 ∧ opensLeft d tr < 255 ∧
        (opensLeft d tr = 0 → flag ≠ 0)
    | .close => opensLeft d tr = 1

variable {d : ℕ} {s s' : DeviceState} {tr : List (DeviceState × OpenCall)} {c : OpenCall}

/-! ## The calls -/

/-- `device_register` counts itself, and clears the flag. -/
theorem openStep_register {name ops : Option ℕ}
    (h : openStep d s (.register name ops) = some s') :
    (s'.device d).openCount = (s.device d).openCount + 1 ∧ (s'.device d).flag = 0 := by
  obtain ⟨r, hr, rfl⟩ := Option.map_eq_some_iff.mp h
  obtain ⟨heap, -, hr⟩ := Option.bind_eq_some_iff.mp hr
  cases hr
  simp

/-- `device_open` counts itself, whatever the driver returns, and adds the flag. -/
theorem openStep_open {name : Option ℕ} {flag : UInt8} {err : ℤ}
    (h : openStep d s (.open name flag err) = some s') :
    (s'.device d).openCount = (s.device d).openCount + 1 ∧
      (s'.device d).flag = (s.device d).flag ||| flag := by
  obtain ⟨r, hr, rfl⟩ := Option.map_eq_some_iff.mp h
  obtain ⟨o, -, hr⟩ := Option.bind_eq_some_iff.mp hr
  cases hr
  simp

/-- `device_close` counts back, and clears the flag. -/
theorem openStep_close (h : openStep d s .close = some s') :
    (s'.device d).openCount = (s.device d).openCount - 1 ∧ (s'.device d).flag = 0 := by
  obtain ⟨r, hr, rfl⟩ := Option.map_eq_some_iff.mp h
  obtain ⟨o, -, hr⟩ := Option.bind_eq_some_iff.mp hr
  cases hr
  simp

/-! ## The numbers of opens and closes -/

@[simp] theorem successes_register (name ops : Option ℕ) :
    successes d ((s, .register name ops) :: tr) = successes d tr := by
  simp [successes]

@[simp] theorem successes_open (name : Option ℕ) (flag : UInt8) (err : ℤ) :
    successes d ((s, .open name flag err) :: tr) =
      successes d tr + if openFails d s (.open name flag err) then 0 else 1 := by
  cases h : openFails d s (.open name flag err) <;> simp [successes, h]

@[simp] theorem successes_close : successes d ((s, .close) :: tr) = successes d tr := by
  simp [successes]

@[simp] theorem closes_register (name ops : Option ℕ) :
    closes ((s, .register name ops) :: tr) = closes tr := by
  simp [closes]

@[simp] theorem closes_open (name : Option ℕ) (flag : UInt8) (err : ℤ) :
    closes ((s, .open name flag err) :: tr) = closes tr := by
  simp [closes]

@[simp] theorem closes_close : closes ((s, .close) :: tr) = closes tr + 1 := by
  simp [closes]

/-- No more opens are closed than have been successful. -/
theorem OpenRun.closes_le (hrun : OpenRun d tr s) : closes tr ≤ successes d tr := by
  refine hrun.invariant (I := fun tr _ => closes tr ≤ successes d tr) (fun _ _ => Nat.le_refl 0)
    fun tr s c s' _ h hu _ => ?_
  cases c with
  | register name ops => simpa using h
  | «open» name flag err =>
    simp only [closes_open, successes_open]
    omega
  | close =>
    simp only [closes_close, successes_close]
    exact hu.2

/-! ## What one call does to the account -/

/-- `device_register`: the count is right exactly if it wraps. -/
theorem opensCounted_register {name ops : Option ℕ}
    (h : openStep d s (.register name ops) = some s') :
    OpensCounted d [(s, .register name ops)] s' ↔ (s.device d).openCount = 255 := by
  obtain ⟨hcount, hflag⟩ := openStep_register h
  have hnone : opensLeft d [(s, .register name ops)] = 0 := by
    simp [opensLeft, successes, closes]
  have hwrap : ((s.device d).openCount + 1).toNat = 0 ↔ (s.device d).openCount = 255 := by
    rw [UInt8.toNat_add, ← UInt8.toNat_inj]
    have hlt := UInt8.toNat_lt (s.device d).openCount
    simp only [UInt8.toNat_one, UInt8.reduceToNat]
    omega
  constructor
  · intro hc
    have hzero := hc.count
    rwa [hcount, hnone, hwrap] at hzero
  · intro h255
    refine ⟨?_, fun _ => hnone, ?_⟩
    · rw [hcount, hnone, hwrap, h255]
    · simp [openFails]

/-- `device_open`. -/
theorem opensCounted_open {name : Option ℕ} {flag : UInt8} {err : ℤ}
    (hle : closes tr ≤ successes d tr) (hs : OpensCounted d tr s)
    (hflags : opensLeft d tr = 0 → (s.device d).flag = 0)
    (h : openStep d s (.open name flag err) = some s') :
    OpensCounted d ((s, .open name flag err) :: tr) s' ↔
      ¬ openFails d s (.open name flag err) ∧ opensLeft d tr < 255 ∧
        (opensLeft d tr = 0 → flag ≠ 0) := by
  obtain ⟨hcount, hflag⟩ := openStep_open h
  have hbefore := hs.count
  have hafter : (s'.device d).openCount.toNat = ((s.device d).openCount.toNat + 1) % 256 := by
    rw [hcount, UInt8.toNat_add]
    rfl
  by_cases hfails : openFails d s (.open name flag err)
  -- A failed open is counted all the same.
  · refine iff_of_false (fun hc => ?_) (fun hc => hc.1 hfails)
    have hkept : (s'.device d).openCount = (s.device d).openCount :=
      (hc.failed _ List.mem_cons_self hfails s' h).1
    rw [hkept] at hafter
    omega
  -- A successful one is outstanding from now on.
  · have hmore : opensLeft d ((s, .open name flag err) :: tr) = opensLeft d tr + 1 := by
      unfold opensLeft
      rw [successes_open, closes_open, if_neg hfails]
      omega
    constructor
    · intro hc
      have hzero := hc.flag
      have hright := hc.count
      rw [hmore] at hzero hright
      -- At 255 the counter wraps, and with no flag at all the flag stays zero.
      refine ⟨hfails, by omega, fun hnone hflag0 => ?_⟩
      rw [hflag, hflags hnone, hflag0] at hzero
      exact absurd (hzero rfl) (Nat.succ_ne_zero _)
    · rintro ⟨-, hroom, hfirst⟩
      refine ⟨by omega, fun hzero => ?_, ?_⟩
      · rw [hflag, UInt8.or_eq_zero_iff] at hzero
        exact absurd hzero.2 (hfirst (hs.flag hzero.1))
      · refine List.forall_mem_cons.mpr ⟨fun hf => absurd hf hfails, hs.failed⟩

/-- `device_close`. -/
theorem opensCounted_close (hlt : closes tr < successes d tr) (hs : OpensCounted d tr s)
    (h : openStep d s .close = some s') :
    OpensCounted d ((s, .close) :: tr) s' ↔ opensLeft d tr = 1 := by
  obtain ⟨hcount, hflag⟩ := openStep_close h
  have hbefore := hs.count
  have hsome : 0 < opensLeft d tr := Nat.sub_pos_of_lt hlt
  have hless : opensLeft d ((s, .close) :: tr) = opensLeft d tr - 1 := by
    unfold opensLeft
    rw [successes_close, closes_close]
    omega
  have hafter : (s'.device d).openCount.toNat = (s.device d).openCount.toNat - 1 := by
    have hlt := UInt8.toNat_lt (s.device d).openCount
    rw [hcount, UInt8.toNat_sub]
    simp only [UInt8.toNat_one]
    omega
  constructor
  · intro hc
    have hzero := hc.flag hflag
    omega
  · intro hone
    refine ⟨by omega, fun _ => by omega, ?_⟩
    exact List.forall_mem_cons.mpr ⟨by simp [openFails], hs.failed⟩

/-! ## Runs -/

/-- When the count has been right and no open is outstanding, no flag is left. -/
theorem OpenRun.flag_eq_zero (hrun : OpenRun d tr s) (hright : CountsRight d tr) (htr : tr ≠ [])
    (hnone : opensLeft d tr = 0) : (s.device d).flag = 0 := by
  cases hrun with
  | nil => exact absurd rfl htr
  | @cons tr s _ c hr hu hs =>
    cases c with
    | register name ops => exact (openStep_register hs).2
    | «open» name flag err =>
      have hle := OpenRun.closes_le hr
      have hfails := hright.2.1
      unfold opensLeft at hnone
      rw [successes_open, closes_open, if_neg hfails] at hnone
      omega
    | close => exact (openStep_close hs).2

/-- The opens are accounted for at each moment exactly if the count is right at each call. -/
theorem opensAccounted_iff (hrun : OpenRun d tr s) :
    OpensAccounted d tr s ↔ CountsRight d tr := by
  induction hrun with
  | nil => simp [OpensAccounted, Always, CountsRight]
  | @cons tr s s' c hr hu hs ih =>
    have hstep : OpensAccounted d ((s, c) :: tr) s' ↔
        OpensCounted d ((s, c) :: tr) s' ∧ OpensAccounted d tr s := by
      unfold OpensAccounted
      rw [Always]
      simp
    rw [hstep, CountsRight, ih, and_comm]
    refine and_congr_right fun hright => ?_
    have hbefore : tr ≠ [] → OpensCounted d tr s := (ih.mpr hright).last
    cases c with
    | register name ops =>
      obtain rfl : tr = [] := hu
      exact opensCounted_register hs
    | «open» name flag err =>
      exact opensCounted_open (OpenRun.closes_le hr) (hbefore hu)
        (OpenRun.flag_eq_zero hr hright hu) hs
    | close => exact opensCounted_close hu.2 (hbefore hu.1) hs

/-- A run begins with `device_register`. -/
theorem OpenRun.exists_register (hrun : OpenRun d tr s) (htr : tr ≠ []) :
    ∃ s₀ name ops, (s₀, OpenCall.register name ops) ∈ tr := by
  induction hrun with
  | nil => exact absurd rfl htr
  | @cons tr s s' c hr hu hs ih =>
    have hearlier : tr ≠ [] → ∃ s₀ name ops, (s₀, OpenCall.register name ops) ∈ (s, c) :: tr := by
      intro hne
      obtain ⟨s₀, name, ops, hmem⟩ := ih hne
      exact ⟨s₀, name, ops, List.mem_cons_of_mem _ hmem⟩
    cases c with
    | register name ops => exact ⟨s, name, ops, List.mem_cons_self⟩
    | «open» name flag err => exact hearlier hu
    | close => exact hearlier hu.1

/-- Where the count is right, it wraps in `device_register`. -/
theorem CountsRight.wraps (h : CountsRight d tr) {name ops : Option ℕ}
    (hmem : (s, .register name ops) ∈ tr) : Wraps d (s, .register name ops) := by
  induction tr with
  | nil => cases hmem
  | cons e tr ih =>
    rcases List.mem_cons.mp hmem with rfl | hmem
    · exact h.2
    · exact ih h.1 hmem

/-- In no run, from `device_register` on, are the opens accounted for at each moment and does the
counter never wrap. They are accounted for at each moment exactly if the count is right at each
call, for which it wraps in `device_register`. -/
theorem device_open_count (hrun : OpenRun d tr s) (htr : tr ≠ []) :
    ¬ (OpensAccounted d tr s ∧ ∀ e ∈ tr, ¬ Wraps d e) ∧
      (OpensAccounted d tr s ↔ CountsRight d tr) := by
  have hiff := opensAccounted_iff hrun
  refine ⟨?_, hiff⟩
  rintro ⟨haccounted, hwraps⟩
  obtain ⟨s₀, name, ops, hmem⟩ := OpenRun.exists_register hrun htr
  exact hwraps _ hmem ((hiff.mp haccounted).wraps hmem)

/-- The state with an empty list, in which every byte of the devices is zero. Operations have a
function for `device_open`. -/
def zeroedDevices : DeviceState where
  times := 1
  heap := fun x => ⟨x, x⟩
  device := fun _ => ⟨none, none, 0, 0⟩
  operations := fun _ => ⟨some 0, none, none, none, none⟩
  mem := fun _ => 0

/-- A device is registered there, whatever the counter is. -/
theorem zeroedDevices_register (n : UInt8) : ∃ s,
    OpenRun 0 [({ zeroedDevices with device := fun _ => ⟨none, none, n, 0⟩ },
      .register (some 0) (some 0))] s ∧
      s.device 0 = ⟨some 0, some 0, n + 1, 0⟩ ∧ s.operations = zeroedDevices.operations := by
  have hlist : Represents zeroedDevices.heap .head [] := ⟨by decide, rfl⟩
  have hreg : ∃ s, openStep 0 { zeroedDevices with device := fun _ => ⟨none, none, n, 0⟩ }
      (.register (some 0) (some 0)) = some s ∧
        s.device 0 = ⟨some 0, some 0, n + 1, 0⟩ ∧ s.operations = zeroedDevices.operations := by
    simp only [openStep, DeviceState.deviceRegister, Option.bind_eq_bind]
    have hheap := listInsertBehind_eq (x := DeviceNode.device 0) hlist
    dsimp only [zeroedDevices] at hheap ⊢
    rw [hheap]
    exact ⟨_, rfl, rfl, rfl⟩
  obtain ⟨s, hs, hdevice, hops⟩ := hreg
  exact ⟨s, .cons (.nil trivial) rfl hs, hdevice, hops⟩

/-- A device with operations is opened. -/
theorem OpenRun.open (hrun : OpenRun d tr s) (htr : tr ≠ []) {o : ℕ}
    (ho : (s.device d).ops = some o) (name : Option ℕ) (flag : UInt8) (err : ℤ) :
    ∃ s', OpenRun d ((s, .open name flag err) :: tr) s' ∧ (s'.device d).ops = some o := by
  have hopen : openStep d s (.open name flag err) = _ :=
    congrArg (Option.map Prod.fst) (DeviceState.deviceOpen_eq ho name flag)
  exact ⟨_, .cons hrun htr hopen, by simpa using ho⟩

/-- A device that has been opened is closed. -/
theorem OpenRun.close (hrun : OpenRun d tr s) (htr : tr ≠ []) {o : ℕ}
    (ho : (s.device d).ops = some o) (hleft : closes tr < successes d tr) :
    ∃ s', OpenRun d ((s, .close) :: tr) s' ∧ (s'.device d).ops = some o := by
  have hclose : openStep d s .close = _ :=
    congrArg (Option.map Prod.fst) (DeviceState.deviceClose_eq ho)
  exact ⟨_, .cons hrun ⟨htr, hleft⟩ hclose, by simpa using ho⟩

/-- A device whose counter is 255 is registered, opened, closed, and opened again. The opens are
accounted for, and the counter wraps. -/
theorem device_open_count_reopened : ∃ tr s, OpenRun 0 tr s ∧
    tr.map Prod.snd = [.open none 1 0, .close, .open none 1 0, .register (some 0) (some 0)] ∧
      OpensAccounted 0 tr s ∧ ¬ ∀ e ∈ tr, ¬ Wraps 0 e := by
  obtain ⟨s₁, hrun₁, hdevice, -⟩ := zeroedDevices_register 255
  obtain ⟨s₂, hrun₂, ho₂⟩ := hrun₁.open (List.cons_ne_nil _ _) (by rw [hdevice]) none 1 0
  obtain ⟨s₃, hrun₃, ho₃⟩ := hrun₂.close (List.cons_ne_nil _ _) ho₂
    (by simp [closes, successes, openFails])
  obtain ⟨s₄, hrun₄, -⟩ := hrun₃.open (List.cons_ne_nil _ _) ho₃ none 1 0
  obtain ⟨hnever, hiff⟩ := device_open_count hrun₄ (List.cons_ne_nil _ _)
  have haccounted := hiff.mpr (by
    simp [CountsRight, opensLeft, closes, successes, openFails])
  exact ⟨_, s₄, hrun₄, rfl, haccounted, fun hwraps => hnever ⟨haccounted, hwraps⟩⟩

/-- After the registration the counter is 1, with no open outstanding. When the driver then fails an
open, the counter is 2, and the flag is set. -/
theorem not_opensAccounted_zeroed : ∃ s s',
    OpenRun 0 [(zeroedDevices, .register (some 0) (some 0))] s ∧ (s.device 0).openCount = 1 ∧
      opensLeft 0 [(zeroedDevices, .register (some 0) (some 0))] = 0 ∧
        ¬ OpensAccounted 0 [(zeroedDevices, .register (some 0) (some 0))] s ∧
          openStep 0 s (.open none 1 1) = some s' ∧ openFails 0 s (.open none 1 1) ∧
            (s'.device 0).openCount = 2 ∧ (s'.device 0).flag = 1 := by
  obtain ⟨s, hrun, hdevice, hops⟩ : ∃ s,
      OpenRun 0 [(zeroedDevices, .register (some 0) (some 0))] s ∧
        s.device 0 = ⟨some 0, some 0, 1, 0⟩ ∧ s.operations = zeroedDevices.operations :=
    zeroedDevices_register 0
  have ho : (s.device 0).ops = some 0 := by rw [hdevice]
  have hopen := DeviceState.deviceOpen_eq ho none 1
  obtain ⟨s', hstep⟩ : ∃ s', openStep 0 s (.open none 1 1) = some s' := by
    rw [openStep, hopen]
    exact ⟨_, rfl⟩
  obtain ⟨hcount, hflag⟩ := openStep_open hstep
  refine ⟨s, s', hrun, by rw [hdevice], by decide, ?_, hstep, ?_, ?_, ?_⟩
  · rw [opensAccounted_iff hrun]
    exact fun h => absurd h.2 (by decide)
  · simp [openFails, hopen, hops, zeroedDevices]
  · rw [hcount, hdevice]
    rfl
  · rw [hflag, hdevice]
    rfl

end Fos
