import Fos.Kernel.Fsm
import Fos.Lib.Runs

/-!
# The registry of states

The list of `STATE_DIS` is meant to be an ordered map, from states to what was added for them. It is
one as long as `state_obj` stays at the end of the list, and nobody asks for the state that
`state_remove` leaves in the first node, which it does not unlink (`tran_agrees_iff`).
`state_remove` of the last node leaves `state_obj` at that node, and what is added then is not in
the list.
-/

namespace Fos

open Links Function Runs

/-- `fsm.c`, with the ordered map that it should be. -/
structure FsmSys where
  fsm : FsmState
  /-- What has been added and not removed, in order. -/
  registry : List StateDis
  /-- The node that `state_init` has made has been removed. -/
  headRemoved : Bool

/-- A call. -/
inductive FsmCall where
  | add (state : ℤ) (func : Option ℕ) (name : Option String)
  | remove (state : ℤ)
  | tran (state : ℤ) (message : Option (List UInt8))

/-- A call of both: `state_add` appends, and `state_remove` deletes the first entry with the
state. -/
def FsmSys.step (s : FsmSys) : FsmCall → Option FsmSys
  | .add state func name => do
    let fsm ← s.fsm.stateAdd state func name
    some ⟨fsm, s.registry ++ [⟨state, func, name⟩], s.headRemoved⟩
  | .remove state => do
    let fsm ← s.fsm.stateRemove state
    some ⟨fsm, s.registry.eraseP fun e => e.state = state,
      s.headRemoved || (s.fsm.dis s.fsm.stateObjCopy).state = state⟩
  | .tran state message => do
    let fsm ← s.fsm.stateTran state message
    some { s with fsm := fsm }

/-- The system after `state_init`. -/
def FsmInit (s : FsmSys) : Prop :=
  ∃ (s₀ : FsmState) (state : ℤ) (func : Option ℕ) (name : Option String),
    s = ⟨s₀.stateInit state func name, [⟨state, func, name⟩], false⟩

/-- The runs of `fsm.c` under a guard. -/
abbrev FsmRun (guard : FsmSys → FsmCall → Prop) :=
  Run FsmInit FsmSys.step fun _ s c => guard s c

/-- The first entry of the state, or the default state. -/
def FsmSys.lookup (s : FsmSys) (state : ℤ) : StateDis :=
  (s.registry.find? fun e => e.state = state).getD s.fsm.fsmDefault

/-- `state_obj` is at the end of the list, and a `state_remove` of the state that is left in the
first node, once that has been removed, is not of an entry. -/
def RegistryKept (s : FsmSys) : FsmCall → Prop
  | .add .. => listEnd s.fsm.heap s.fsm.stateObjCopy = some s.fsm.stateObj
  | .remove state => s.headRemoved = true → state = StateDis.removed.state →
      ∀ e ∈ s.registry, e.state ≠ state
  | .tran .. => True

/-- The nodes that hold entries. The first one does until it is removed. -/
def FsmSys.live (s : FsmSys) (nodes : List ℕ) : List ℕ :=
  if s.headRemoved then nodes else s.fsm.stateObjCopy :: nodes

/-- The list represents the registry. -/
structure FsmOk (s : FsmSys) (nodes : List ℕ) : Prop where
  /-- The nodes behind the first one. -/
  rep : Represents s.fsm.heap s.fsm.stateObjCopy nodes
  /-- The first node has no other before it. -/
  prev : (s.fsm.heap s.fsm.stateObjCopy).prev = s.fsm.stateObjCopy
  /-- `malloc` gives no node of the list. -/
  fresh : ∀ n ∈ s.fsm.stateObjCopy :: nodes, n < s.fsm.fresh
  /-- The entries, in order. -/
  registry : s.registry = (s.live nodes).map s.fsm.dis
  /-- What is left in the first node. -/
  removed : s.headRemoved = true → s.fsm.dis s.fsm.stateObjCopy = .removed

variable {s s' : FsmSys} {nodes : List ℕ} {state : ℤ} {c : FsmCall} {tr : List (FsmSys × FsmCall)}

/-- The search goes through the list. -/
theorem FsmState.search_eq {f : FsmState} (state : ℤ) {x : ℕ} {xs : List ℕ}
    (h : Represents f.heap x xs) :
    f.search state x = some ((x :: xs).find? fun n => (f.dis n).state = state) := by
  obtain ⟨hn, hc⟩ := h
  induction xs generalizing x with
  | nil =>
    have hlast : isListLast f.heap x = true := decide_eq_true hc
    rw [FsmState.search_unfold, if_neg (not_not.mpr hlast)]
    split_ifs with hstate
    · simp [hstate]
    · simp [hstate]
  | cons y ys ih =>
    obtain ⟨h1, -, h3⟩ := hc
    have hxy : y ≠ x := fun e => (List.nodup_cons.mp hn).1 (by simp [e])
    rw [FsmState.search_unfold, if_pos (by simp [isListLast, h1, hxy]), h1]
    split_ifs with hstate
    · simp [hstate]
    · rw [ih (List.nodup_cons.mp hn).2 h3]
      exact congrArg some (List.find?_cons_of_neg (by simpa using hstate)).symm

/-- The first one that is found is the one that is erased. -/
theorem erase_of_find {α : Type} [DecidableEq α] {xs : List α} {p : α → Bool} {x : α}
    (h : xs.find? p = some x) : xs.eraseP p = xs.erase x := by
  induction xs with
  | nil => simp at h
  | cons y ys ih =>
    by_cases hy : p y = true
    · rw [List.find?_cons_of_pos hy] at h
      rw [List.eraseP_cons_of_pos hy, ← Option.some.inj h, List.erase_cons_head]
    · rw [List.find?_cons_of_neg hy] at h
      have hyx : y ≠ x := fun e => hy (e ▸ List.find?_some h)
      rw [List.eraseP_cons_of_neg hy, ih h, List.erase_cons_tail (by simpa using hyx)]

/-- `list_delete` of a first node leaves the links as they are. -/
theorem listDelete_first {h : Heap ℕ} {a : ℕ} {xs : List ℕ} (hr : Represents h a xs)
    (hp : (h a).prev = a) : listDelete h a = h := by
  unfold listDelete
  obtain ⟨hn, hc⟩ := hr
  cases xs with
  | nil =>
    have hnext : (h a).next = a := hc
    rw [if_pos (by simp [isListLast, hnext]), hp, Heap.setNext_self h hnext]
  | cons y ys =>
    obtain ⟨h1, h2, -⟩ := hc
    have hya : y ≠ a := fun e => (List.nodup_cons.mp hn).1 (by simp [e])
    rw [if_neg (by simp [isListLast, h1, hya]), hp, h1, Heap.setNext_self h h1]
    show h.setPrev (h a).next (h a).prev = h
    rw [h1, hp, Heap.setPrev_self h h2]

/-- `list_delete` of another node does not write the `prev` of the first one. -/
theorem unlink_prev_first {h : Heap ℕ} {a x : ℕ} {xs : List ℕ} (hr : Represents h a xs)
    (hx : x ∈ xs) : (h.unlink x a).prev = (h a).prev := by
  obtain ⟨ys, zs, rfl⟩ := List.append_of_mem hx
  have ha : a ∉ x :: zs := fun hm => (List.nodup_cons.mp hr.nodup).1 (List.mem_append_right ys hm)
  have hnext : (h x).next ∈ x :: zs := by
    rw [hr.chain.suffix.next_eq]
    cases zs with
    | nil => exact List.mem_cons_self
    | cons z zs => exact List.mem_cons_of_mem _ List.mem_cons_self
  have hne : a ≠ (h x).next := fun e => ha (e ▸ hnext)
  unfold Heap.unlink
  split_ifs
  · rw [Heap.setNext_prev]
  · rw [Heap.setPrev_prev, if_neg hne, Heap.setNext_prev]

/-! ## A step -/

theorem FsmSys.live_subset (s : FsmSys) {n : ℕ} (h : n ∈ s.live nodes) :
    n ∈ s.fsm.stateObjCopy :: nodes := by
  unfold FsmSys.live at h
  split_ifs at h
  · exact List.mem_cons_of_mem _ h
  · exact h

theorem FsmSys.live_append (s : FsmSys) (n : ℕ) :
    s.live (nodes ++ [n]) = s.live nodes ++ [n] := by
  unfold FsmSys.live
  split_ifs
  · rfl
  · rw [List.cons_append]

/-- The entries of nodes that are not written stay. -/
theorem map_update_of_notMem {f : ℕ → StateDis} {n : ℕ} {d : StateDis} {xs : List ℕ} (h : n ∉ xs) :
    xs.map (update f n d) = xs.map f :=
  List.map_congr_left fun m hm => update_of_ne (fun e : m = n => h (e ▸ hm)) _ _

/-- After `state_init` the one entry is in the list. -/
theorem FsmInit.ok (h : FsmInit s) : FsmOk s [] := by
  obtain ⟨s₀, state, func, name, rfl⟩ := h
  refine ⟨⟨by simp, ?_⟩, ?_, ?_, ?_, ?_⟩
  · simp [Chain, FsmState.stateInit, listInit]
  · simp [FsmState.stateInit, listInit]
  · simp [FsmState.stateInit]
  · simp [FsmState.stateInit, FsmSys.live]
  · simp

/-- `state_add` links the new node in last, if `state_obj` is the last one. -/
theorem FsmOk.add (hok : FsmOk s nodes) {func : Option ℕ} {name : Option String}
    (hk : RegistryKept s (.add state func name)) (hs : s.step (.add state func name) = some s') :
    FsmOk s' (nodes ++ [s.fsm.fresh]) := by
  have hfresh : s.fsm.fresh ∉ s.fsm.stateObjCopy :: nodes :=
    fun hm => Nat.lt_irrefl _ (hok.fresh _ hm)
  -- The guard says that `state_obj` is at the end of the list, where the new node is linked in.
  have hend : s.fsm.stateObj = (s.fsm.stateObjCopy :: nodes).getLast (List.cons_ne_nil _ _) :=
    Option.some.inj (Eq.trans (Eq.symm hk) (listEnd_eq hok.rep))
  have hcopy : s.fsm.stateObjCopy ≠ s.fsm.fresh := fun e => hfresh (e ▸ List.mem_cons_self)
  cases name with
  | none => simp [FsmSys.step, FsmState.stateAdd] at hs
  | some name =>
    simp only [FsmSys.step, FsmState.stateAdd, Option.bind_eq_bind, Option.bind_some,
      Option.some.injEq] at hs
    subst hs
    refine ⟨?_, ?_, ?_, ?_, ?_⟩
    · have hheap : listInsert s.fsm.heap s.fsm.stateObj s.fsm.fresh =
          s.fsm.heap.linkLast s.fsm.stateObj s.fsm.fresh := rfl
      dsimp only
      rw [hheap, hend]
      exact hok.rep.append hfresh
    · simp [listInsert, hcopy, hok.prev]
    · intro n hn
      rw [← List.cons_append, List.mem_append, List.mem_singleton] at hn
      rcases hn with hn | rfl
      · exact Nat.lt_succ_of_lt (hok.fresh n hn)
      · exact Nat.lt_succ_self _
    -- The new node is none of those that the entries are read from.
    · have hlive : s.fsm.fresh ∉ s.live nodes := fun hm => hfresh (s.live_subset hm)
      show s.registry ++ [⟨state, func, some name⟩] =
        (s.live (nodes ++ [s.fsm.fresh])).map
          (update s.fsm.dis s.fsm.fresh ⟨state, func, some name⟩)
      rw [s.live_append, List.map_append, List.map_singleton, update_self,
        map_update_of_notMem hlive, ← hok.registry]
    · intro h
      exact (update_of_ne hcopy _ _).trans (hok.removed h)

/-- What `state_remove` does. -/
theorem FsmOk.remove_eq (hok : FsmOk s nodes) (hs : s.step (.remove state) = some s') :
    s' = ⟨match (s.fsm.stateObjCopy :: nodes).find? fun n => (s.fsm.dis n).state = state with
        | some n => { s.fsm with
            heap := listDelete s.fsm.heap n, dis := update s.fsm.dis n .removed }
        | none => s.fsm,
      s.registry.eraseP fun e => e.state = state,
      s.headRemoved || (s.fsm.dis s.fsm.stateObjCopy).state = state⟩ := by
  simp only [FsmSys.step, FsmState.stateRemove, FsmState.search_eq state hok.rep] at hs
  cases hfind : (s.fsm.stateObjCopy :: nodes).find? (fun n => (s.fsm.dis n).state = state) with
  | none =>
    rw [hfind] at hs
    exact (Option.some.inj hs).symm
  | some n =>
    rw [hfind] at hs
    exact (Option.some.inj hs).symm

/-- `state_remove` finds the state in the first node, and leaves it linked. -/
theorem FsmOk.removeHead (hok : FsmOk s nodes) (hk : RegistryKept s (.remove state))
    (hhead : (s.fsm.dis s.fsm.stateObjCopy).state = state)
    (hs : s.step (.remove state) = some s') : FsmOk s' nodes := by
  have hcopy : s.fsm.stateObjCopy ∉ nodes := (List.nodup_cons.mp hok.rep.nodup).1
  have heq := hok.remove_eq hs
  rw [List.find?_cons_of_pos (by simpa using hhead)] at heq
  dsimp only at heq
  rw [listDelete_first hok.rep hok.prev] at heq
  subst heq
  refine ⟨hok.rep, hok.prev, hok.fresh, ?_, fun _ => update_self _ _ _⟩
  have hlive : (if (s.headRemoved || decide ((s.fsm.dis s.fsm.stateObjCopy).state = state)) = true
      then nodes else s.fsm.stateObjCopy :: nodes) = nodes := if_pos (by simp [hhead])
  show s.registry.eraseP (fun e => e.state = state) = List.map (update s.fsm.dis _ .removed)
    (if (s.headRemoved || decide ((s.fsm.dis s.fsm.stateObjCopy).state = state)) = true
      then nodes else s.fsm.stateObjCopy :: nodes)
  rw [hlive, map_update_of_notMem hcopy]
  have hreg := hok.registry
  cases hrem : s.headRemoved with
  | false =>
    rw [FsmSys.live, if_neg (by simp [hrem]), List.map_cons] at hreg
    rw [hreg, List.eraseP_cons_of_pos (by simpa using hhead)]
  | true =>
    rw [FsmSys.live, if_pos hrem] at hreg
    have hstate : state = StateDis.removed.state := by rw [← hhead, hok.removed hrem]
    rw [← hreg]
    exact List.eraseP_of_forall_not fun e he => by simpa using hk hrem hstate e he

/-- `state_remove` unlinks the first node with the state behind the first one, if there is one. -/
theorem FsmOk.removeNode (hok : FsmOk s nodes)
    (hhead : (s.fsm.dis s.fsm.stateObjCopy).state ≠ state)
    (hs : s.step (.remove state) = some s') : ∃ nodes', FsmOk s' nodes' := by
  have heq := hok.remove_eq hs
  rw [List.find?_cons_of_neg (by simpa using hhead)] at heq
  have hrem : (s.headRemoved || decide ((s.fsm.dis s.fsm.stateObjCopy).state = state)) =
      s.headRemoved := by simp [hhead]
  rw [hrem] at heq
  -- the entry of the first node, if it counts, is passed over
  have hreg : s.registry.eraseP (fun e => e.state = state) =
      (s.live (nodes.eraseP fun n => (s.fsm.dis n).state = state)).map s.fsm.dis := by
    rw [hok.registry, List.eraseP_map]
    unfold FsmSys.live
    split_ifs
    · rfl
    · rw [List.eraseP_cons_of_neg (by simpa using hhead)]
      rfl
  cases hfind : nodes.find? (fun n => (s.fsm.dis n).state = state) with
  | none =>
    rw [hfind] at heq
    have herase : nodes.eraseP (fun n => (s.fsm.dis n).state = state) = nodes :=
      List.eraseP_of_forall_not (List.find?_eq_none.mp hfind)
    subst heq
    exact ⟨nodes, hok.rep, hok.prev, hok.fresh, hreg.trans (by rw [herase]; rfl), hok.removed⟩
  | some n =>
    rw [hfind] at heq
    have hn := List.mem_of_find?_eq_some hfind
    have hnodup := (List.nodup_cons.mp hok.rep.nodup).2
    have hcopy : s.fsm.stateObjCopy ≠ n :=
      fun e => (List.nodup_cons.mp hok.rep.nodup).1 (e ▸ hn)
    rw [erase_of_find hfind] at hreg
    dsimp only at heq
    rw [listDelete_eq hok.rep hn] at heq
    subst heq
    refine ⟨nodes.erase n, hok.rep.unlink hn, ?_, ?_, ?_, ?_⟩
    · exact (unlink_prev_first hok.rep hn).trans hok.prev
    · intro m hm
      exact hok.fresh m (List.cons_subset_cons _ (List.erase_subset) hm)
    · have hlive : n ∉ s.live (nodes.erase n) := by
        intro hm
        rcases List.mem_cons.mp (s.live_subset hm) with e | hm
        · exact hcopy e.symm
        · exact hnodup.not_mem_erase hm
      exact hreg.trans (map_update_of_notMem hlive).symm
    · intro h
      exact (update_of_ne hcopy _ _).trans (hok.removed h)

/-- What `state_tran` does. -/
theorem FsmSys.tran_eq (hr : Represents s.fsm.heap s.fsm.stateObjCopy nodes)
    {message : Option (List UInt8)}
    (hs : s.step (.tran state message) = some s') :
    ∃ bytes, s' = { s with fsm.fsmObj :=
      match (s.fsm.stateObjCopy :: nodes).find? fun n => (s.fsm.dis n).state = state with
      | some n => ⟨⟨state, (s.fsm.dis n).func, (s.fsm.dis n).name⟩, bytes⟩
      | none => ⟨s.fsm.fsmDefault, bytes⟩ } := by
  have hsearch := FsmState.search_eq (f := { s.fsm with
    fsmObj.message := List.replicate MSG_LEN 0 }) state hr
  simp only [FsmSys.step, FsmState.stateTran, hsearch] at hs
  cases hfind : (s.fsm.stateObjCopy :: nodes).find? (fun n => (s.fsm.dis n).state = state) with
  | none =>
    rw [hfind] at hs
    exact ⟨_, (Option.some.inj hs).symm⟩
  | some n =>
    rw [hfind] at hs
    cases hcopy : FsmState.copyMessage message with
    | none => simp [hcopy] at hs
    | some bytes =>
      simp only [hcopy] at hs
      exact ⟨bytes, (Option.some.inj hs).symm⟩

/-- The system stays related to the map. -/
theorem FsmOk.step (hok : FsmOk s nodes) (hk : RegistryKept s c) (hs : s.step c = some s') :
    ∃ nodes', FsmOk s' nodes' := by
  cases c with
  | add state func name => exact ⟨_, hok.add hk hs⟩
  | remove state =>
    by_cases hhead : (s.fsm.dis s.fsm.stateObjCopy).state = state
    · exact ⟨nodes, hok.removeHead hk hhead hs⟩
    · exact hok.removeNode hhead hs
  | tran state message =>
    obtain ⟨bytes, rfl⟩ := FsmSys.tran_eq hok.rep hs
    exact ⟨nodes, hok.rep, hok.prev, hok.fresh, hok.registry, hok.removed⟩

/-- The list represents the registry after every run. -/
theorem FsmRun.ok (h : FsmRun RegistryKept tr s) : ∃ nodes, FsmOk s nodes :=
  h.invariant (I := fun _ s => ∃ nodes, FsmOk s nodes) (fun _ hi => ⟨[], hi.ok⟩)
    fun _ _ _ _ _ ⟨_, hok⟩ hk hs => hok.step hk hs

/-! ## `state_tran` -/

/-- What the search finds is the answer of the map, but for the state that is left in the first
node. -/
theorem FsmOk.found (hok : FsmOk s nodes) (state : ℤ)
    (h : s.headRemoved = true → state ≠ StateDis.removed.state) :
    (((s.fsm.stateObjCopy :: nodes).find? fun n => (s.fsm.dis n).state = state).map
      s.fsm.dis).getD s.fsm.fsmDefault = s.lookup state := by
  have hmap : ∀ xs : List ℕ, (xs.map s.fsm.dis).find? (fun e => e.state = state) =
      (xs.find? fun n => (s.fsm.dis n).state = state).map s.fsm.dis :=
    fun xs => List.find?_map
  rw [FsmSys.lookup, hok.registry, hmap]
  unfold FsmSys.live
  split_ifs with hrem
  · have hhead : (s.fsm.dis s.fsm.stateObjCopy).state ≠ state := by
      rw [hok.removed hrem]
      exact Ne.symm (h hrem)
    rw [List.find?_cons_of_neg (by simpa using hhead)]
  · rfl

/-- A `STATE_DIS` that has been found has the state, and gives all its fields. -/
theorem toStateDis_found {f : FsmState} {xs : List ℕ} {bytes : List UInt8} :
    (match xs.find? fun n => (f.dis n).state = state with
      | some n => (⟨⟨state, (f.dis n).func, (f.dis n).name⟩, bytes⟩ : Fsm)
      | none => ⟨f.fsmDefault, bytes⟩).toStateDis =
      ((xs.find? fun n => (f.dis n).state = state).map f.dis).getD f.fsmDefault := by
  cases hfind : xs.find? (fun n => (f.dis n).state = state) with
  | none => rfl
  | some n =>
    have hstate : (f.dis n).state = state := by simpa using List.find?_some hfind
    rw [Option.map_some, Option.getD_some]
    simp only [← hstate]

/-- `state_tran` returns, unless it copies more than `MSG_LEN` bytes. -/
theorem FsmSys.step_tran (hr : Represents s.fsm.heap s.fsm.stateObjCopy nodes) (state : ℤ)
    (message : Option (List UInt8)) (hlen : ∀ bytes ∈ message, bytes.length ≤ MSG_LEN) :
    ∃ s', s.step (.tran state message) = some s' := by
  have hsearch := FsmState.search_eq (f := { s.fsm with
    fsmObj.message := List.replicate MSG_LEN 0 }) state hr
  obtain ⟨copied, hcopy⟩ : ∃ copied, FsmState.copyMessage message = some copied := by
    cases message with
    | none => exact ⟨_, rfl⟩
    | some bytes => exact ⟨_, if_pos (hlen bytes rfl)⟩
  simp only [FsmSys.step, FsmState.stateTran, hsearch, hcopy]
  cases (s.fsm.stateObjCopy :: nodes).find? (fun n => (s.fsm.dis n).state = state) with
  | none => exact ⟨_, rfl⟩
  | some n => exact ⟨_, rfl⟩

/-- After every run, `state_tran` returns, if its message is not longer than `MSG_LEN`. It goes
where the map says, unless it is of the state that is left in the first node after that has been
removed. Then it goes to that node. -/
theorem tran_agrees_iff (hrun : FsmRun RegistryKept tr s) (state : ℤ)
    (message : Option (List UInt8)) :
    ((∀ bytes ∈ message, bytes.length ≤ MSG_LEN) →
      ∃ s', s.step (.tran state message) = some s') ∧
    ∀ s', s.step (.tran state message) = some s' →
      (s'.fsm.fsmObj.toStateDis = s.lookup state ↔
        (s.headRemoved = true → state = StateDis.removed.state → s.lookup state = .removed)) := by
  obtain ⟨nodes, hok⟩ := hrun.ok
  refine ⟨FsmSys.step_tran hok.rep state message, fun s' hs => ?_⟩
  obtain ⟨bytes, rfl⟩ := FsmSys.tran_eq hok.rep hs
  dsimp only
  rw [toStateDis_found]
  by_cases h : s.headRemoved = true ∧ state = StateDis.removed.state
  · obtain ⟨hrem, rfl⟩ := h
    have hhead := hok.removed hrem
    rw [List.find?_cons_of_pos (by simp [hhead]), Option.map_some, Option.getD_some, hhead]
    exact ⟨fun e _ _ => e.symm, fun e => (e hrem rfl).symm⟩
  · have hne : s.headRemoved = true → state ≠ StateDis.removed.state := fun h1 h2 => h ⟨h1, h2⟩
    exact ⟨fun _ h1 h2 => absurd h2 (hne h1), fun _ => hok.found state hne⟩

/-! ## Two runs -/

/-- After `state_init`, of state 1. -/
def FsmSys.one : FsmSys :=
  ⟨FsmState.stateInit ⟨⟨⟨0, none, none⟩, []⟩, ⟨0, none, some "state_default"⟩, 0, 0,
    fun _ => ⟨0, 0⟩, fun _ => ⟨0, none, none⟩, 0⟩ 1 none (some "one"), [⟨1, none, some "one"⟩],
    false⟩

/-- `state_add` of a state. -/
def FsmSys.added (s : FsmSys) (state : ℤ) : FsmSys :=
  { s with
    fsm := (s.fsm.stateAdd state none (some "")).getD s.fsm
    registry := s.registry ++ [⟨state, none, some ""⟩] }

/-- `state_remove` of a state that is in the node `n`. -/
def FsmSys.taken (s : FsmSys) (n : ℕ) : FsmSys :=
  { s with
    fsm := { s.fsm with
      heap := listDelete s.fsm.heap n, dis := update s.fsm.dis n .removed }
    registry := s.registry.eraseP fun e => e.state = (s.fsm.dis n).state
    headRemoved := s.headRemoved || n = s.fsm.stateObjCopy }

theorem FsmSys.step_added (s : FsmSys) (state : ℤ) :
    s.step (.add state none (some "")) = some (s.added state) := rfl

/-- `state_remove` removes from the node that the search finds. -/
theorem FsmSys.step_taken (state : ℤ) {n : ℕ}
    (hr : Represents s.fsm.heap s.fsm.stateObjCopy nodes)
    (h : ((s.fsm.stateObjCopy :: nodes).find? fun m => (s.fsm.dis m).state = state) = some n) :
    s.step (.remove state) = some (s.taken n) := by
  have hn : (s.fsm.dis n).state = state := by simpa using List.find?_some h
  have hhead : (s.fsm.dis s.fsm.stateObjCopy).state = state ↔ n = s.fsm.stateObjCopy := by
    constructor
    · intro e
      rw [List.find?_cons_of_pos (by simpa using e)] at h
      exact (Option.some.inj h).symm
    · intro e
      rw [← e, hn]
  simp only [FsmSys.step, FsmState.stateRemove, FsmState.search_eq state hr, h, FsmSys.taken, hn,
    hhead, Option.bind_eq_bind, Option.bind_some]

theorem FsmSys.one_init : FsmInit .one := ⟨_, _, _, _, rfl⟩

/-- The entry of state 3 is found when those before it have been removed. -/
theorem tran_agrees_three : ∃ s',
    ((((FsmSys.one.added 2).added 3).taken 1).taken 0).step (.tran 3 none) = some s' ∧
      s'.fsm.fsmObj.toStateDis = ⟨3, none, some ""⟩ := by
  have hok₀ := FsmSys.one_init.ok
  have hk₀ : RegistryKept .one (.add 2 none (some "")) := listEnd_eq hok₀.rep
  have hok₁ : FsmOk (FsmSys.one.added 2) [1] := hok₀.add hk₀ rfl
  have hk₁ : RegistryKept (FsmSys.one.added 2) (.add 3 none (some "")) := listEnd_eq hok₁.rep
  have hok₂ : FsmOk ((FsmSys.one.added 2).added 3) [1, 2] := hok₁.add hk₁ rfl
  have hk₂ : RegistryKept ((FsmSys.one.added 2).added 3) (.remove 2) :=
    fun h => absurd h (by decide)
  have hs₂ : _ = some (((FsmSys.one.added 2).added 3).taken 1) :=
    FsmSys.step_taken 2 hok₂.rep (by decide)
  obtain ⟨nodes, hok₃⟩ := hok₂.step hk₂ hs₂
  have hk₃ : RegistryKept (((FsmSys.one.added 2).added 3).taken 1) (.remove 1) :=
    fun h => absurd h (by decide)
  have hs₃ := FsmSys.step_taken 1 hok₃.rep (List.find?_cons_of_pos (by decide))
  have hrun : FsmRun RegistryKept _ ((((FsmSys.one.added 2).added 3).taken 1).taken 0) :=
    .cons (.cons (.cons (.cons (.nil FsmSys.one_init) hk₀ rfl) hk₁ rfl) hk₂ hs₂) hk₃ hs₃
  obtain ⟨htran, hiff⟩ := tran_agrees_iff hrun 3 none
  obtain ⟨s', hs'⟩ := htran (by simp)
  have hagree := (hiff s' hs').mpr fun _ e => absurd e (by decide)
  exact ⟨s', hs', hagree.trans (by decide)⟩

/-- A state that has been added behind a removed last node is not found. -/
theorem not_tran_agrees_three : ¬ ∀ tr s s' state message, FsmRun (fun _ _ => True) tr s →
    s.step (.tran state message) = some s' → s'.fsm.fsmObj.toStateDis = s.lookup state := by
  intro h
  have hok₀ := FsmSys.one_init.ok
  have hk₀ : RegistryKept .one (.add 2 none (some "")) := listEnd_eq hok₀.rep
  have hok₁ : FsmOk (FsmSys.one.added 2) [1] := hok₀.add hk₀ rfl
  have hs₁ : _ = some ((FsmSys.one.added 2).taken 1) :=
    FsmSys.step_taken 2 hok₁.rep (by decide)
  have hrun : FsmRun (fun _ _ => True) _ (((FsmSys.one.added 2).taken 1).added 3) :=
    .cons (.cons (.cons (.nil FsmSys.one_init) trivial (FsmSys.step_added _ 2)) trivial hs₁) trivial
      (FsmSys.step_added _ 3)
  -- the list ends at the first node, and the new node is linked in behind the removed one
  have hr : Represents (((FsmSys.one.added 2).taken 1).added 3).fsm.heap 0 [] :=
    ⟨by decide, rfl⟩
  obtain ⟨s', hs'⟩ := FsmSys.step_tran hr 3 none (by simp)
  have hagree := h _ _ s' 3 none hrun hs'
  obtain ⟨bytes, rfl⟩ := FsmSys.tran_eq hr hs'
  dsimp only at hagree
  rw [toStateDis_found] at hagree
  exact absurd hagree (by decide)

end Fos
