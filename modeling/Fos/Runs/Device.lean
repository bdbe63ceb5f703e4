import Fos.Kernel.Device
import Fos.Lib.Runs

/-!
# The registry of devices

The list of `device_queue_head` is meant to hold the registered devices in the order in which they
were registered. It does in every run that registers a device only while it is not registered
(`device_registry`): `device_register` links in last, `device_unregister` unlinks, and only the
first `device_queue_init` clears the list. So `device_find` gives the first device of the name.
-/

namespace Fos

open Links Function Runs

/-- `device.c`, with the list that it should be. -/
structure DeviceSys where
  dev : DeviceState
  /-- The devices that have been registered and not unregistered, in order. -/
  registered : List ℕ

/-- A call. -/
inductive DeviceCall where
  | queueInit
  | register (device name ops : Option ℕ)
  | unregister (device : Option ℕ)

/-- A call of both: `device_register` appends, and `device_unregister` takes out. -/
def DeviceSys.step (s : DeviceSys) : DeviceCall → Option DeviceSys
  | .queueInit => some { s with dev := s.dev.deviceQueueInit }
  | .register device name ops => do
    let (dev, _) ← s.dev.deviceRegister device name ops
    some ⟨dev, s.registered ++ device.toList⟩
  | .unregister device => do
    let (dev, _) ← s.dev.deviceUnregister device
    some ⟨dev, match device with | some d => s.registered.erase d | none => s.registered⟩

/-- The system after the first `device_queue_init`. -/
def DeviceInit (s : DeviceSys) : Prop :=
  ∃ s₀ : DeviceState, s₀.times = 0 ∧ s = ⟨s₀.deviceQueueInit, []⟩

/-- The calls of `device_queue_init` after the first one. -/
def queueInits (tr : List (DeviceSys × DeviceCall)) : ℕ :=
  tr.countP fun e => match e.2 with | .queueInit => true | _ => false

/-- A device is registered, with a name and operations, while it is not registered, and unregistered
while it is. `device_queue_init` is called fewer than `2^31` times. -/
def DeviceUsage (tr : List (DeviceSys × DeviceCall)) (s : DeviceSys) : DeviceCall → Prop
  | .queueInit => queueInits tr + 2 < 2^31
  | .register (some d) name ops => d ∉ s.registered ∧
      (∃ p text, name = some p ∧ IsString s.dev.mem p text) ∧ ops ≠ none
  | .unregister (some d) => d ∈ s.registered
  | _ => True

/-- The runs of `device.c`. -/
abbrev DeviceRun := Run DeviceInit DeviceSys.step DeviceUsage

/-- The device has the name. -/
def DeviceState.Named (s : DeviceState) (text : List UInt8) (d : ℕ) : Prop :=
  match (s.device d).name with
  | some p => IsString s.mem p text
  | none => False

instance (s : DeviceState) (text : List UInt8) (d : ℕ) : Decidable (s.Named text d) :=
  match h : (s.device d).name with
  | some p => decidable_of_iff (IsString s.mem p text) (by simp [DeviceState.Named, h])
  | none => .isFalse (by simp [DeviceState.Named, h])

/-- The string at the address of its name is the name of a device. -/
theorem DeviceState.named_iff {s : DeviceState} {text : List UInt8} {d p : ℕ}
    (hname : (s.device d).name = some p) : s.Named text d ↔ IsString s.mem p text := by
  simp [DeviceState.Named, hname]

/-- A device that has a name has an address of its name. -/
theorem DeviceState.Named.exists_name {s : DeviceState} {text : List UInt8} {d : ℕ}
    (h : s.Named text d) : ∃ p, (s.device d).name = some p ∧ IsString s.mem p text := by
  unfold DeviceState.Named at h
  cases hname : (s.device d).name with
  | none => simp [hname] at h
  | some p => exact ⟨p, rfl, by simpa [hname] using h⟩

/-- The registry is an ordered list. -/
structure OrderedRegistry (tr : List (DeviceSys × DeviceCall)) (s : DeviceSys) : Prop where
  /-- The list holds the registered devices, in the order of their registration. -/
  list : Represents s.dev.heap .head (s.registered.map .device)
  /-- `device_find` of any string gives the first of them that has the name. -/
  find : ∀ p text, IsString s.dev.mem p text →
    s.dev.deviceFind (some p) = some (s.registered.find? fun d => s.dev.Named text d)
  /-- Every call that may be made returns. -/
  returns : ∀ c, DeviceUsage tr s c → (s.step c).isSome

/-- The invariant. -/
structure DeviceOk (tr : List (DeviceSys × DeviceCall)) (s : DeviceSys) : Prop where
  list : Represents s.dev.heap .head (s.registered.map .device)
  /-- A registered device has a name. -/
  named : ∀ d ∈ s.registered, ∃ text, s.dev.Named text d
  /-- It has operations. -/
  ops : ∀ d ∈ s.registered, (s.dev.device d).ops ≠ none
  /-- `times` counts the calls of `device_queue_init`. -/
  times : s.dev.times = queueInits tr + 1

variable {mem : ℕ → UInt8} {p q : ℕ} {text text' : List UInt8} {s s' : DeviceSys} {c : DeviceCall}
  {tr : List (DeviceSys × DeviceCall)} {d : ℕ} {ds : List ℕ}

/-! ## The search of `device_find` -/

/-- From a node on, the loop stops at the first device of the name. -/
theorem deviceFindFrom_chain {s : DeviceState} {x : DeviceNode} (hq : IsString s.mem q text)
    (hn : (x :: ds.map .device).Nodup) (hc : Chain s.heap x (ds.map .device))
    (hnamed : ∀ d ∈ ds, ∃ t, s.Named t d) :
    s.deviceFindFrom (some q) x = some (ds.find? fun d => s.Named text d) := by
  induction ds generalizing x with
  | nil =>
    have hlast : isListLast s.heap x = true := decide_eq_true hc
    exact DeviceState.deviceFindFrom_of_last hlast
  | cons d ds ih =>
    obtain ⟨hnext, -, hrest⟩ := hc
    have hne : DeviceNode.device d ≠ x := fun heq => (List.nodup_cons.mp hn).1 (by simp [heq])
    have hlast : ¬ isListLast s.heap x = true := by
      simpa [isListLast, hnext] using hne
    obtain ⟨t, ht⟩ := hnamed d List.mem_cons_self
    obtain ⟨p, hname, hp⟩ := ht.exists_name
    obtain ⟨c, hc, hiff⟩ := strcmp_eq hp hq
    have hfound : s.Named text d ↔ c = 0 := by
      rw [DeviceState.named_iff hname, hiff]
      exact ⟨fun h => hp.unique h, fun h => h ▸ hp⟩
    rw [DeviceState.deviceFindFrom_of_next hlast hnext hname hc,
      ih (List.nodup_cons.mp hn).2 hrest fun d hd => hnamed d (List.mem_cons_of_mem _ hd)]
    by_cases h0 : c = 0
    · rw [if_pos h0, List.find?_cons_of_pos (by simpa [hfound] using h0)]
    · rw [if_neg h0, List.find?_cons_of_neg (by simpa [hfound] using h0)]

/-! ## Runs -/

/-- The first `device_queue_init`. -/
theorem DeviceInit.ok (h : DeviceInit s) : DeviceOk [] s := by
  obtain ⟨s₀, htimes, rfl⟩ := h
  have hinit : s₀.deviceQueueInit = { s₀ with times := 1, heap := listInit s₀.heap .head } := by
    rw [DeviceState.deviceQueueInit, htimes]
    rfl
  rw [hinit]
  exact ⟨⟨List.nodup_singleton _, by simp [Chain, listInit]⟩, by simp, by simp, rfl⟩

/-- `device_queue_init`, when the list has been initialized. -/
theorem DeviceOk.queueInit_eq (h : DeviceOk tr s) (hu : DeviceUsage tr s .queueInit) :
    s.dev.deviceQueueInit = { s.dev with times := queueInits tr + 2 } := by
  have hfew : queueInits tr + 2 < 2^31 := hu
  have htimes : (s.dev.times + 1).bmod (2^32) = queueInits tr + 2 := by
    rw [h.times, Int.bmod_eq_of_le (by omega) (by omega)]
    omega
  have hagain : (2 : ℤ) ≤ queueInits tr + 2 := by omega
  rw [DeviceState.deviceQueueInit, htimes]
  exact if_pos hagain

/-- `device_register` of a device that is not in the list. -/
theorem DeviceOk.register_eq (h : DeviceOk tr s) (hd : d ∉ s.registered) (name ops : Option ℕ) :
    ∃ dev, s.dev.deviceRegister (some d) name ops = some (dev, 0) ∧
      Represents dev.heap .head ((s.registered ++ [d]).map .device) ∧ dev.mem = s.dev.mem ∧
        dev.times = s.dev.times ∧ (dev.device d).name = name ∧ (dev.device d).ops = ops ∧
          ∀ d' ∈ s.registered, dev.device d' = s.dev.device d' := by
  obtain ⟨heap, hheap, happend⟩ : ∃ heap,
      listInsertBehind s.dev.heap .head (.device d) = some heap ∧
        Represents heap .head (s.registered.map .device ++ [.device d]) :=
    ⟨_, listInsertBehind_eq h.list, h.list.append (by simp [hd])⟩
  refine ⟨{ s.dev with
    heap := heap
    device := update s.dev.device d ⟨name, ops, (s.dev.device d).openCount + 1, 0⟩ },
    ?_, ?_, rfl, rfl, ?_, ?_, fun d' hd' => ?_⟩
  · rw [DeviceState.deviceRegister]
    dsimp only
    rw [hheap]
    rfl
  · rw [List.map_append]
    exact happend
  · simp
  · simp
  · have hne : d' ≠ d := fun heq => hd (heq ▸ hd')
    exact update_of_ne hne _ _

/-- `device_unregister` of a device that is in the list and has operations. -/
theorem deviceUnregister_eq {s : DeviceState} {o : ℕ}
    (hlist : Represents s.heap .head (ds.map .device)) (hd : d ∈ ds)
    (ho : (s.device d).ops = some o) :
    s.deviceUnregister (some d) = some ({ s with
      operations := update s.operations o .null
      heap := listDelete s.heap (.device d) }, 0) ∧
      Represents (listDelete s.heap (.device d)) .head ((ds.erase d).map .device) := by
  have hmem : DeviceNode.device d ∈ ds.map .device := List.mem_map_of_mem hd
  have hunlink := hlist.unlink hmem
  rw [← listDelete_eq hlist hmem] at hunlink
  have hinjective : Injective DeviceNode.device := fun _ _ => DeviceNode.device.inj
  constructor
  · rw [DeviceState.deviceUnregister, ho]
    rfl
  · rw [List.map_erase hinjective]
    exact hunlink

/-- `device_unregister` of a registered device. -/
theorem DeviceOk.unregister_eq (h : DeviceOk tr s) (hd : d ∈ s.registered) :
    ∃ dev, s.dev.deviceUnregister (some d) = some (dev, 0) ∧
      Represents dev.heap .head ((s.registered.erase d).map .device) ∧ dev.mem = s.dev.mem ∧
        dev.times = s.dev.times ∧ dev.device = s.dev.device := by
  obtain ⟨o, ho⟩ := Option.ne_none_iff_exists'.mp (h.ops d hd)
  obtain ⟨heq, hlist⟩ := deviceUnregister_eq h.list hd ho
  exact ⟨_, heq, hlist, rfl, rfl, rfl⟩

/-- A call, and what it returns. -/
theorem DeviceOk.step (h : DeviceOk tr s) (hu : DeviceUsage tr s c) :
    ∃ s', s.step c = some s' ∧ DeviceOk ((s, c) :: tr) s' := by
  cases c with
  | queueInit =>
    refine ⟨_, rfl, ?_⟩
    -- The list has been initialized, so that only `times` changes.
    rw [h.queueInit_eq hu]
    refine ⟨h.list, h.named, h.ops, ?_⟩
    simp [queueInits]
    omega
  | register device name ops =>
    cases device with
    | none =>
      refine ⟨_, rfl, ?_, ?_, ?_, h.times⟩
      · simpa using h.list
      · simpa using h.named
      · simpa using h.ops
    | some d =>
      obtain ⟨hd, ⟨p, text, rfl, htext⟩, hops⟩ := hu
      obtain ⟨dev, he, hlist, hmem, htimes, hname, hdev, hold⟩ := h.register_eq hd (some p) ops
      refine ⟨⟨dev, s.registered ++ [d]⟩, by simp [DeviceSys.step, he], hlist, ?_, ?_, ?_⟩
      · intro d' hd'
        -- The devices that are registered already keep their names, and the new one has the name
        -- given.
        rcases List.mem_append.mp hd' with hd' | hd'
        · obtain ⟨t, ht⟩ := h.named d' hd'
          exact ⟨t, by rwa [DeviceState.Named, hold d' hd', hmem]⟩
        · obtain rfl := List.mem_singleton.mp hd'
          exact ⟨text, (DeviceState.named_iff hname).mpr (hmem ▸ htext)⟩
      · intro d' hd'
        rcases List.mem_append.mp hd' with hd' | hd'
        · rw [hold d' hd']
          exact h.ops d' hd'
        · obtain rfl := List.mem_singleton.mp hd'
          rwa [hdev]
      · rw [htimes, h.times]
        rfl
  | unregister device =>
    cases device with
    | none => exact ⟨_, rfl, h.list, h.named, h.ops, h.times⟩
    | some d =>
      -- What is left was registered before, and no `DEVICE` has changed.
      obtain ⟨dev, he, hlist, hmem, htimes, hold⟩ := h.unregister_eq hu
      refine ⟨⟨dev, s.registered.erase d⟩, by simp [DeviceSys.step, he], hlist, ?_, ?_, ?_⟩
      · intro d' hd'
        obtain ⟨t, ht⟩ := h.named d' (List.mem_of_mem_erase hd')
        exact ⟨t, by rwa [DeviceState.Named, hold, hmem]⟩
      · intro d' hd'
        rw [hold]
        exact h.ops d' (List.mem_of_mem_erase hd')
      · rw [htimes, h.times]
        rfl

/-- The invariant in every state of every run. -/
theorem DeviceRun.ok (hrun : DeviceRun tr s) : DeviceOk tr s := by
  refine hrun.invariant (fun _ => DeviceInit.ok) fun tr s c s' _ h hu hs => ?_
  obtain ⟨s₁, hs₁, h₁⟩ := h.step hu
  obtain rfl := Option.some.inj (hs₁.symm.trans hs)
  exact h₁

/-- The registry is an ordered list in every state of every run. -/
theorem device_registry (hrun : DeviceRun tr s) : OrderedRegistry tr s := by
  have hok := DeviceRun.ok hrun
  refine ⟨hok.list, fun p text hp => ?_, fun c hu => ?_⟩
  · exact deviceFindFrom_chain hp hok.list.1 hok.list.2 hok.named
  · obtain ⟨s', hs', -⟩ := hok.step hu
    exact Option.isSome_of_mem hs'

/-- A run and one more registration. -/
theorem DeviceRun.register {dev : DeviceState} (hrun : DeviceRun tr ⟨dev, ds⟩) (hd : d ∉ ds) {p : ℕ}
    (hp : IsString dev.mem p text) (ops : ℕ) :
    ∃ dev', DeviceRun ((⟨dev, ds⟩, .register (some d) (some p) (some ops)) :: tr)
        ⟨dev', ds ++ [d]⟩ ∧ dev'.mem = dev.mem ∧
      (dev'.device d).name = some p ∧ ∀ d' ∈ ds, dev'.device d' = dev.device d' := by
  obtain ⟨dev', he, -, hmem, -, hname, -, hold⟩ :=
    (DeviceRun.ok hrun).register_eq hd (some p) (some ops)
  have hstep : DeviceSys.step ⟨dev, ds⟩ (.register (some d) (some p) (some ops)) =
      some ⟨dev', ds ++ [d]⟩ := by
    rw [DeviceSys.step, he]
    rfl
  exact ⟨dev', .cons hrun ⟨hd, ⟨p, text, rfl, hp⟩, Option.some_ne_none _⟩ hstep, hmem, hname, hold⟩

/-- Two devices of the same name, with one of another name in between. When the first of them is
unregistered, the other is found. -/
theorem device_registry_twice : ∃ tr s, DeviceRun tr s ∧
    tr.map Prod.snd = [.unregister (some 0), .register (some 2) (some 0) (some 0),
      .register (some 1) (some 2) (some 0), .register (some 0) (some 0) (some 0)] ∧
      s.registered = [1, 2] ∧ s.dev.deviceFind (some 0) = some (some 2) := by
  obtain ⟨mem, hmem⟩ : ∃ mem : ℕ → UInt8,
      mem = fun p => if p = 0 then 97 else if p = 2 then 98 else 0 := ⟨_, rfl⟩
  have ha : IsString mem 0 [97] := by
    rw [hmem]
    decide
  have hb : IsString mem 2 [98] := by
    rw [hmem]
    decide
  obtain ⟨dev₀, hm₀, h₀⟩ : ∃ dev₀ : DeviceState, dev₀.mem = mem ∧ DeviceRun [] ⟨dev₀, []⟩ := by
    refine ⟨DeviceState.deviceQueueInit ⟨0, fun _ => ⟨.head, .head⟩, fun _ => ⟨none, none, 0, 0⟩,
      fun _ => ⟨none, none, none, none, none⟩, mem⟩, rfl, .nil ⟨_, rfl, rfl⟩⟩
  obtain ⟨dev₁, h₁, hm₁, -, -⟩ := h₀.register (d := 0) (by simp) (hm₀ ▸ ha) 0
  have hm₁ : dev₁.mem = mem := hm₁.trans hm₀
  obtain ⟨dev₂, h₂, hm₂, hn₂, -⟩ := h₁.register (d := 1) (by simp) (hm₁ ▸ hb) 0
  have hm₂ : dev₂.mem = mem := hm₂.trans hm₁
  obtain ⟨dev₃, h₃, hm₃, hn₃, hold₃⟩ := h₂.register (d := 2) (by simp) (hm₂ ▸ ha) 0
  have hm₃ : dev₃.mem = mem := hm₃.trans hm₂
  obtain ⟨dev₄, he, -, hm₄, -, hold₄⟩ := (DeviceRun.ok h₃).unregister_eq (d := 0) (by simp)
  have hm₄ : dev₄.mem = mem := hm₄.trans hm₃
  have h₄ : DeviceRun _ ⟨dev₄, [1, 2]⟩ :=
    .cons h₃ (a := .unregister (some 0)) (by simp [DeviceUsage]) (by simp [DeviceSys.step, he])
  refine ⟨_, _, h₄, rfl, rfl, ?_⟩
  rw [(device_registry h₄).find 0 [97] (hm₄ ▸ ha)]
  have h1 : ¬ dev₄.Named [97] 1 := by
    have hname : (dev₄.device 1).name = some 2 := by
      rw [hold₄, hold₃ 1 (by simp), hn₂]
    rw [DeviceState.named_iff hname, hm₄]
    exact fun h => absurd (h.unique hb) (by decide)
  have h2 : dev₄.Named [97] 2 := by
    have hname : (dev₄.device 2).name = some 0 := by rw [hold₄, hn₃]
    rwa [DeviceState.named_iff hname, hm₄]
  simp [List.find?, h1, h2]

end Fos
