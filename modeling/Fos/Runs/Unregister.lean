import Fos.Runs.Device

/-!
# What unregistering a device does to the others

`device_unregister` clears the operations that the device refers to, and takes the device out of the
list. The list of the others is then as it should be, and `device_find` still gives them, but
operations that they share with the device are gone. So the others go on as before exactly if none
of them shares operations that were there (`device_unregister_iff`).
-/

namespace Fos

open Links Loops Function

/-- For the device `d`, nothing has changed from `s` to `s'`. -/
structure Unaffected (s s' : DeviceState) (d : ℕ) : Prop where
  device : s'.device d = s.device d
  find : ∀ name, s.deviceFind name = some (some d) → s'.deviceFind name = some (some d)
  «open» : ∀ name flag, (s'.deviceOpen (some d) name flag).map (·.2) =
    (s.deviceOpen (some d) name flag).map (·.2)
  read : ∀ buff size, s'.deviceRead (some d) buff size = s.deviceRead (some d) buff size
  write : ∀ buff size, s'.deviceWrite (some d) buff size = s.deviceWrite (some d) buff size
  ioctrl : ∀ cmd arg, s'.deviceIoctrl (some d) cmd arg = s.deviceIoctrl (some d) cmd arg
  close : (s'.deviceClose (some d)).map (·.2) = (s.deviceClose (some d)).map (·.2)

/-- `device_unregister` of `d` takes it out of the registered devices `ds`, and leaves the others
working. -/
def UnregistersAlone (s : DeviceState) (ds : List ℕ) (d : ℕ) : Prop :=
  ∃ s', s.deviceUnregister (some d) = some (s', 0) ∧
    Represents s'.heap .head ((ds.erase d).map .device) ∧
      ∀ d' ∈ ds, d' ≠ d → Unaffected s s' d'

variable {s s' : DeviceState} {d d' o : ℕ} {ds : List ℕ} {name : Option ℕ} {x : DeviceNode}

/-! ## The search -/

/-- The search of `device_find` among the devices `ds`. -/
def DeviceState.findIn (s : DeviceState) (name : Option ℕ) : List ℕ → Option (Option ℕ)
  | [] => some none
  | d :: ds => do
    let p ← (s.device d).name
    let q ← name
    let c ← strcmp s.mem p q
    if c = 0 then some (some d) else s.findIn name ds

/-- The loop of `device_find` makes this search, whatever the names are. -/
theorem deviceFindFrom_eq_findIn (hn : (x :: ds.map .device).Nodup)
    (hc : Chain s.heap x (ds.map .device)) : s.deviceFindFrom name x = s.findIn name ds := by
  induction ds generalizing x with
  | nil =>
    have hlast : isListLast s.heap x = true := decide_eq_true hc
    exact DeviceState.deviceFindFrom_of_last hlast
  | cons d ds ih =>
    obtain ⟨hnext, -, hrest⟩ := hc
    have hne : DeviceNode.device d ≠ x := fun heq => (List.nodup_cons.mp hn).1 (by simp [heq])
    have hlast : ¬ isListLast s.heap x = true := by
      simpa [isListLast, hnext] using hne
    rw [DeviceState.findIn, ← ih (List.nodup_cons.mp hn).2 hrest]
    unfold DeviceState.deviceFindFrom
    rw [repeatUntil_eq]
    simp only [if_neg hlast, hnext, Option.bind_eq_bind]
    cases (s.device d).name with
    | none => rfl
    | some p =>
      cases name with
      | none => rfl
      | some q =>
        simp only [Option.bind_some]
        cases strcmp s.mem p q with
        | none => rfl
        | some c =>
          simp only [Option.bind_some]
          split_ifs <;> rfl

/-- One device of the search. -/
theorem DeviceState.findIn_cons {a p q : ℕ} {c : ℤ} (hp : (s.device a).name = some p)
    (hc : strcmp s.mem p q = some c) (ds : List ℕ) : s.findIn (some q) (a :: ds) =
      if c = 0 then some (some a) else s.findIn (some q) ds := by
  rw [DeviceState.findIn, hp]
  simp only [Option.bind_eq_bind, Option.bind_some, hc]

/-- A device is found without another one, too. -/
theorem DeviceState.findIn_erase (hne : d' ≠ d) (h : s.findIn name ds = some (some d')) :
    s.findIn name (ds.erase d) = some (some d') := by
  induction ds with
  | nil => exact h
  | cons a ds ih =>
    obtain ⟨p, hp, h'⟩ := Option.bind_eq_some_iff.mp h
    obtain ⟨q, rfl, h'⟩ := Option.bind_eq_some_iff.mp h'
    obtain ⟨c, hc, -⟩ := Option.bind_eq_some_iff.mp h'
    rw [DeviceState.findIn_cons hp hc] at h
    by_cases ha : a = d
    · -- The other one comes first, and has another name.
      rw [ha, List.erase_cons_head]
      split_ifs at h
      · cases h
        exact absurd ha hne
      · exact h
    · rw [List.erase_cons_tail (by simpa using ha), DeviceState.findIn_cons hp hc]
      split_ifs at h ⊢
      · exact h
      · exact ih h

/-- The search reads the names only. -/
theorem DeviceState.findIn_congr (hdevice : s'.device = s.device) (hmem : s'.mem = s.mem)
    (name : Option ℕ) (ds : List ℕ) : s'.findIn name ds = s.findIn name ds := by
  induction ds with
  | nil => rfl
  | cons a ds ih => simp only [findIn, hdevice, hmem, ih]

/-! ## The operations -/

/-- A device goes on as before exactly if the operations that it refers to have not changed. -/
theorem unaffected_iff (hdevice : s'.device = s.device) (ho : (s.device d).ops = some o)
    (hfind : ∀ name, s.deviceFind name = some (some d) → s'.deviceFind name = some (some d)) :
    Unaffected s s' d ↔ s'.operations o = s.operations o := by
  have hd : s'.device d = s.device d := congrFun hdevice d
  have ho' : (s'.device d).ops = some o := hd.symm ▸ ho
  constructor
  · rintro ⟨-, -, hopen, hread, hwrite, hioctrl, hclose⟩
    -- A call names the function that is called.
    have hopen := hopen none 0
    have hread := hread none 0
    have hwrite := hwrite none 0
    have hioctrl := hioctrl 0 none
    rw [DeviceState.deviceOpen_eq ho, DeviceState.deviceOpen_eq ho'] at hopen
    rw [DeviceState.deviceRead_eq ho, DeviceState.deviceRead_eq ho'] at hread
    rw [DeviceState.deviceWrite_eq ho, DeviceState.deviceWrite_eq ho'] at hwrite
    rw [DeviceState.deviceIoctrl_eq ho, DeviceState.deviceIoctrl_eq ho'] at hioctrl
    rw [DeviceState.deviceClose_eq ho, DeviceState.deviceClose_eq ho'] at hclose
    simp only [Option.map_some, Option.some.injEq, Prod.mk.injEq, and_true] at hopen hread hwrite
    simp only [Option.map_some, Option.some.injEq, Prod.mk.injEq, and_true] at hioctrl hclose
    apply Operations.ext
    · exact Option.map_injective (fun _ _ h => (DriverCall.open.inj h).1) hopen
    · exact Option.map_injective (fun _ _ h => (DriverCall.read.inj h).1) hread
    · exact Option.map_injective (fun _ _ h => (DriverCall.write.inj h).1) hwrite
    · exact Option.map_injective (fun _ _ h => (DriverCall.ioctrl.inj h).1) hioctrl
    · exact Option.map_injective (fun _ _ h => DriverCall.close.inj h) hclose
  · intro heq
    constructor
    · exact hd
    · exact hfind
    · intro name flag
      rw [DeviceState.deviceOpen_eq ho, DeviceState.deviceOpen_eq ho', heq]
      rfl
    · intro buff size
      rw [DeviceState.deviceRead_eq ho, DeviceState.deviceRead_eq ho', heq]
    · intro buff size
      rw [DeviceState.deviceWrite_eq ho, DeviceState.deviceWrite_eq ho', heq]
    · intro cmd arg
      rw [DeviceState.deviceIoctrl_eq ho, DeviceState.deviceIoctrl_eq ho', heq]
    · rw [DeviceState.deviceClose_eq ho, DeviceState.deviceClose_eq ho', heq]
      rfl

/-- So does a device without operations, whose calls fault. -/
theorem unaffected_of_no_ops (hdevice : s'.device = s.device) (ho : (s.device d).ops = none)
    (hfind : ∀ name, s.deviceFind name = some (some d) → s'.deviceFind name = some (some d)) :
    Unaffected s s' d := by
  have hd : s'.device d = s.device d := congrFun hdevice d
  have ho' : (s'.device d).ops = none := hd.symm ▸ ho
  constructor
  · exact hd
  · exact hfind
  · intro name flag
    simp [DeviceState.deviceOpen, ho, ho']
  · intro buff size
    simp [DeviceState.deviceRead, ho, ho']
  · intro buff size
    simp [DeviceState.deviceWrite, ho, ho']
  · intro cmd arg
    simp [DeviceState.deviceIoctrl, ho, ho']
  · simp [DeviceState.deviceClose, ho, ho']

/-! ## `device_unregister` -/

/-- The others are found as before. -/
theorem deviceFind_of_erase (hlist : Represents s.heap .head (ds.map .device))
    (hlist' : Represents s'.heap .head ((ds.erase d).map .device)) (hdevice : s'.device = s.device)
    (hmem : s'.mem = s.mem) (hne : d' ≠ d) (h : s.deviceFind name = some (some d')) :
    s'.deviceFind name = some (some d') := by
  unfold DeviceState.deviceFind at h ⊢
  rw [deviceFindFrom_eq_findIn hlist.nodup hlist.chain] at h
  rw [deviceFindFrom_eq_findIn hlist'.nodup hlist'.chain, DeviceState.findIn_congr hdevice hmem]
  exact DeviceState.findIn_erase hne h

/-- Unregistering a device leaves the others working exactly if it has operations, and no other
device shares them, or there was nothing in them. -/
theorem device_unregister_iff (hlist : Represents s.heap .head (ds.map .device)) (hd : d ∈ ds) :
    UnregistersAlone s ds d ↔ ∃ o, (s.device d).ops = some o ∧
      ∀ d' ∈ ds, d' ≠ d → (s.device d').ops = some o → s.operations o = .null := by
  cases ho : (s.device d).ops with
  | none =>
    -- `ops_init` writes to a null pointer.
    refine iff_of_false ?_ (by simp)
    rintro ⟨s', hs', -⟩
    rw [DeviceState.deviceUnregister, ho] at hs'
    cases hs'
  | some o =>
    obtain ⟨s', hs', hlist', hdevice, hmem, hops⟩ : ∃ s',
        s.deviceUnregister (some d) = some (s', 0) ∧
        Represents s'.heap .head ((ds.erase d).map .device) ∧ s'.device = s.device ∧
          s'.mem = s.mem ∧ s'.operations = update s.operations o .null := by
      obtain ⟨heq, hlist'⟩ := deviceUnregister_eq hlist hd ho
      exact ⟨_, heq, hlist', rfl, rfl, rfl⟩
    -- The list and the names are not affected, whatever the operations are.
    have hfind : ∀ d' ≠ d, ∀ name, s.deviceFind name = some (some d') →
        s'.deviceFind name = some (some d') :=
      fun d' hne name => deviceFind_of_erase hlist hlist' hdevice hmem hne
    constructor
    · rintro ⟨s'', hs'', -, hothers⟩
      cases hs'.symm.trans hs''
      refine ⟨o, rfl, fun d' hd' hne ho' => ?_⟩
      -- The operations of a device that shares them are cleared, so that there was nothing in
      -- them.
      have hkept := (unaffected_iff hdevice ho' (hfind d' hne)).mp (hothers d' hd' hne)
      rw [← hkept, hops, update_self]
    · rintro ⟨o', ho', hshared⟩
      obtain rfl := Option.some.inj ho'
      refine ⟨s', hs', hlist', fun d' hd' hne => ?_⟩
      cases ho' : (s.device d').ops with
      | none => exact unaffected_of_no_ops hdevice ho' (hfind d' hne)
      | some o' =>
        apply (unaffected_iff hdevice ho' (hfind d' hne)).mpr
        rw [hops]
        by_cases heq : o' = o
        · rw [heq, update_self, hshared d' hd' hne (heq ▸ ho')]
        · exact update_of_ne heq _ _

/-- Two devices, 0 and 1, the operations 0 of the first and 1 of the second, and names `a` and `b`.
-/
def twoDevices (o : ℕ) : DeviceState where
  times := 1
  heap := fun x => match x with
    | .head => ⟨.head, .device 0⟩
    | .device 0 => ⟨.head, .device 1⟩
    | .device d => ⟨.device 0, .device d⟩
  device := fun d => if d = 0 then ⟨some 0, some 0, 1, 0⟩ else ⟨some 2, some o, 1, 0⟩
  operations := fun _ => ⟨some 0, some 1, some 2, some 3, some 4⟩
  mem := fun p => if p = 0 then 97 else if p = 2 then 98 else 0

theorem twoDevices_list (o : ℕ) :
    Represents (twoDevices o).heap .head ([0, 1].map .device) :=
  ⟨by decide, rfl, rfl, rfl, rfl, rfl⟩

/-- With operations of its own, the second device goes on as before. -/
theorem unregistersAlone_twoDevices : UnregistersAlone (twoDevices 1) [0, 1] 0 := by
  refine (device_unregister_iff (twoDevices_list 1) (by simp)).mpr ⟨0, rfl, fun d' _ hne ho => ?_⟩
  have hone : ((twoDevices 1).device d').ops = some 1 := by simp [twoDevices, hne]
  cases hone.symm.trans ho

/-- With operations that it shares, it does not: `device_read` calls no function any more. -/
theorem not_unregistersAlone_twoDevices :
    Represents (twoDevices 0).heap .head ([0, 1].map .device) ∧
      (twoDevices 0).deviceRead (some 1) none 8 = some (some (.read 1 none 8), 0) ∧
        ((twoDevices 0).deviceUnregister (some 0)).bind (fun r => r.1.deviceRead (some 1) none 8) =
          some (none, 0) ∧
          ¬ UnregistersAlone (twoDevices 0) [0, 1] 0 := by
  refine ⟨twoDevices_list 0, rfl, rfl, ?_⟩
  rintro ⟨s', hs', -, hothers⟩
  have hread := (hothers 1 (by simp) (by simp)).read none 8
  cases Option.some.inj hs'
  cases hread

end Fos
