import Fos.Runs.Fsm

/-!
# The message of the state machine

`state_tran` clears the `MSG_LEN` bytes of the message and then copies as many as the new message
has, which it does not compare with `MSG_LEN`. So the copy stays inside, and leaves a NUL, exactly
if the message is shorter than `MSG_LEN` or no copy is made; and a message for a registered state is
there exactly if the state is found, and the message is not the one that has been cleared, which a
state's function gets as its argument (`tran_message_iff`).
-/

namespace Fos

open Links Function Runs

/-- The bytes that are meant to be there: the message, and zeros behind it. -/
def padded (message : List UInt8) : List UInt8 :=
  message ++ List.replicate (MSG_LEN - message.length) 0

/-- The state has an entry that has been added and not removed. -/
def FsmSys.Registered (s : FsmSys) (state : ℤ) : Prop := ∃ e ∈ s.registry, e.state = state

/-- The list has a node of the state. -/
def FsmSys.Found (s : FsmSys) (state : ℤ) : Prop :=
  ∃ n, s.fsm.search state s.fsm.stateObjCopy = some (some n)

/-- The `message` that `state_tran` is called with: `NULL`, a string, or a string in the message of
`fsm_obj`, from an index on. -/
inductive MessageArg where
  | null
  | string (text : List UInt8)
  | own (i : ℕ)

/-- The string, which is empty for `NULL`. -/
def MessageArg.text (s : FsmSys) : MessageArg → List UInt8
  | .null => []
  | .string text => text
  | .own i => (s.fsm.fsmObj.message.drop i).takeWhile (· ≠ 0)

/-- It ends with a NUL: it has none before, and has one inside `fsm_obj` if it starts there. -/
def MessageArg.Terminated (s : FsmSys) : MessageArg → Prop
  | .null => True
  | .string text => 0 ∉ text
  | .own i => 0 ∈ s.fsm.fsmObj.message.drop i

/-- What it points to once the message has been cleared. -/
def MessageArg.cleared : MessageArg → Option (List UInt8)
  | .null => none
  | .string text => some text
  | .own _ => some []

/-- `state_tran` returns, with all that it writes inside the message. It leaves a NUL there, nothing
of an earlier message, and the new message if the state is registered and the message is shorter
than `MSG_LEN`. -/
def Transferred (s : FsmSys) (state : ℤ) (message : MessageArg) : Prop :=
  ∃ s', s.step (.tran state message.cleared) = some s' ∧ 0 ∈ s'.fsm.fsmObj.message ∧
    (s'.fsm.fsmObj.message = padded [] ∨ s'.fsm.fsmObj.message = padded (message.text s)) ∧
    (s.Registered state → (message.text s).length < MSG_LEN →
      s'.fsm.fsmObj.message = padded (message.text s))

/-- A string for a state that is in the list is shorter than `MSG_LEN`. One that is shorter, for a
state that is registered, is empty, or it is not in the message of `fsm_obj` and the state is in the
list. -/
def Suits (s : FsmSys) (state : ℤ) (message : MessageArg) : Prop :=
  (s.Found state → ∀ text, message = .string text → text.length < MSG_LEN) ∧
    (s.Registered state → (message.text s).length < MSG_LEN →
      message.text s = [] ∨ s.Found state ∧ ∀ i, message ≠ .own i)

/-- The list has an end, and `state_obj` is not in it but at its end. -/
structure FsmLinked (f : FsmState) (nodes : List ℕ) : Prop where
  /-- The nodes behind the first one. -/
  rep : Represents f.heap f.stateObjCopy nodes
  /-- The first node has no other before it. -/
  prev : (f.heap f.stateObjCopy).prev = f.stateObjCopy
  /-- `malloc` gives no node that is in use. -/
  fresh : ∀ n ∈ f.stateObj :: f.stateObjCopy :: nodes, n < f.fresh
  /-- If `state_obj` is in the list, it is the last node. -/
  last : f.stateObj ∈ f.stateObjCopy :: nodes →
    f.stateObj = (f.stateObjCopy :: nodes).getLast (List.cons_ne_nil _ _)

variable {s s' : FsmSys} {f : FsmState} {nodes : List ℕ} {state : ℤ} {c : FsmCall}
  {tr : List (FsmSys × FsmCall)} {message : MessageArg}

/-! ## The list in every run -/

/-- After `state_init`. -/
theorem FsmInit.linked (h : FsmInit s) : FsmLinked s.fsm [] := by
  have hok := h.ok
  obtain ⟨s₀, state, func, name, rfl⟩ := h
  exact ⟨hok.rep, hok.prev, by simp [FsmState.stateInit], fun _ => rfl⟩

/-- `state_add`. -/
theorem FsmLinked.add (h : FsmLinked s.fsm nodes) {func : Option ℕ} {name : Option String}
    (hs : s.step (.add state func name) = some s') : ∃ nodes', FsmLinked s'.fsm nodes' := by
  have hfresh : s.fsm.fresh ∉ s.fsm.stateObj :: s.fsm.stateObjCopy :: nodes :=
    fun hm => Nat.lt_irrefl _ (h.fresh _ hm)
  have hobj : s.fsm.stateObj ≠ s.fsm.fresh := fun e => hfresh (e ▸ List.mem_cons_self)
  have hlist : s.fsm.fresh ∉ s.fsm.stateObjCopy :: nodes :=
    fun hm => hfresh (List.mem_cons_of_mem _ hm)
  have hcopy : s.fsm.stateObjCopy ≠ s.fsm.fresh := fun e => hlist (e ▸ List.mem_cons_self)
  cases name with
  | none => simp [FsmSys.step, FsmState.stateAdd] at hs
  | some name =>
    obtain rfl := Option.some.inj hs
    have hnext : (listInsert s.fsm.heap s.fsm.stateObj s.fsm.fresh s.fsm.stateObj).next =
        s.fsm.fresh := by
      simp [listInsert]
    have hprev : (listInsert s.fsm.heap s.fsm.stateObj s.fsm.fresh s.fsm.stateObjCopy).prev =
        s.fsm.stateObjCopy := by
      simp [listInsert, hcopy, h.prev]
    have hbound : ∀ n ∈ s.fsm.stateObjCopy :: nodes, n < s.fsm.fresh + 1 :=
      fun n hn => Nat.lt_succ_of_lt (h.fresh n (List.mem_cons_of_mem _ hn))
    by_cases hin : s.fsm.stateObj ∈ s.fsm.stateObjCopy :: nodes
    -- The new node is linked in last.
    · have happend := h.rep.append hlist
      rw [← h.last hin] at happend
      refine ⟨nodes ++ [s.fsm.fresh], happend, hprev, ?_, fun _ => ?_⟩
      · show ∀ n ∈ (listInsert _ _ _ _).next :: _, n < s.fsm.fresh + 1
        rw [hnext, List.forall_mem_cons, ← List.cons_append, List.forall_mem_append,
          List.forall_mem_singleton]
        exact ⟨Nat.lt_succ_self _, hbound, Nat.lt_succ_self _⟩
      · show (listInsert _ _ _ _).next = _
        rw [hnext]
        simp
    -- It is linked in behind a node that is not in the list.
    · have hsame : ∀ y ∈ s.fsm.stateObjCopy :: nodes,
          listInsert s.fsm.heap s.fsm.stateObj s.fsm.fresh y = s.fsm.heap y := fun y hy => by
        have hne : y ≠ s.fsm.stateObj := fun e => hin (e ▸ hy)
        have hne' : y ≠ s.fsm.fresh := fun e => hlist (e ▸ hy)
        simp [listInsert, Heap.setNext, Heap.setPrev, hne, hne']
      refine ⟨nodes, ?_, hprev, ?_, fun hmem => ?_⟩
      · exact h.rep.congr (fun y hy => congrArg Link.next (hsame y hy))
          fun y hy => congrArg Link.prev (hsame y (List.mem_cons_of_mem _ hy))
      · show ∀ n ∈ (listInsert _ _ _ _).next :: _, n < s.fsm.fresh + 1
        rw [hnext, List.forall_mem_cons]
        exact ⟨Nat.lt_succ_self _, hbound⟩
      · have hmem : (listInsert s.fsm.heap s.fsm.stateObj s.fsm.fresh s.fsm.stateObj).next ∈
            s.fsm.stateObjCopy :: nodes := hmem
        exact absurd (hnext ▸ hmem) hlist

/-- The last node stays the last when another one is taken out. -/
theorem getLast_erase {α : Type} [DecidableEq α] {a x : α} {xs : List α} (hn : (a :: xs).Nodup)
    (hx : x ∈ xs) (hne : (a :: xs).getLast (List.cons_ne_nil _ _) ≠ x) :
    (a :: xs.erase x).getLast (List.cons_ne_nil _ _) =
      (a :: xs).getLast (List.cons_ne_nil _ _) := by
  obtain ⟨ys, zs, rfl⟩ := List.append_of_mem hx
  have hys : x ∉ ys := fun hm =>
    (List.nodup_append.mp (List.nodup_cons.mp hn).2).2.2 x hm x List.mem_cons_self rfl
  rw [List.erase_append_right _ hys, List.erase_cons_head]
  cases zs with
  | nil => simp at hne
  | cons z zs => simp

/-- `state_remove`. -/
theorem FsmLinked.remove (h : FsmLinked s.fsm nodes) (hs : s.step (.remove state) = some s') :
    ∃ nodes', FsmLinked s'.fsm nodes' := by
  obtain ⟨f', hf, hs⟩ := Option.bind_eq_some_iff.mp hs
  obtain rfl := Option.some.inj hs
  rw [FsmState.stateRemove, FsmState.search_eq state h.rep] at hf
  cases hfind : (s.fsm.stateObjCopy :: nodes).find? (fun n => (s.fsm.dis n).state = state) with
  | none =>
    rw [hfind] at hf
    obtain rfl := Option.some.inj hf
    exact ⟨nodes, h⟩
  | some n =>
    rw [hfind] at hf
    obtain rfl := Option.some.inj hf
    rcases List.mem_cons.mp (List.mem_of_find?_eq_some hfind) with rfl | hn
    -- The first node stays linked.
    · have hfirst := listDelete_first h.rep h.prev
      refine ⟨nodes, ?_, ?_, h.fresh, h.last⟩
      · show Represents (listDelete _ _) _ _
        rw [hfirst]
        exact h.rep
      · show (listDelete _ _ _).prev = _
        rw [hfirst]
        exact h.prev
    · have hdelete := listDelete_eq h.rep hn
      have hsub : s.fsm.stateObjCopy :: nodes.erase n ⊆ s.fsm.stateObjCopy :: nodes :=
        List.cons_subset_cons _ List.erase_subset
      refine ⟨nodes.erase n, ?_, ?_, ?_, fun hin => ?_⟩
      · show Represents (listDelete _ _) _ _
        rw [hdelete]
        exact h.rep.unlink hn
      · show (listDelete _ _ _).prev = _
        rw [hdelete]
        exact (unlink_prev_first h.rep hn).trans h.prev
      · exact fun m hm => h.fresh m (List.cons_subset_cons _ hsub hm)
      · have hlast := h.last (hsub hin)
        have hnot : s.fsm.stateObj ≠ n := by
          rintro rfl
          rcases List.mem_cons.mp hin with e | hm
          · exact (List.nodup_cons.mp h.rep.nodup).1 (e ▸ hn)
          · exact (List.nodup_cons.mp h.rep.nodup).2.not_mem_erase hm
        rw [getLast_erase h.rep.nodup hn (hlast ▸ hnot)]
        exact hlast

/-- Every run. -/
theorem FsmRun.linked (h : FsmRun (fun _ _ => True) tr s) : ∃ nodes, FsmLinked s.fsm nodes := by
  refine h.invariant (I := fun _ s => ∃ nodes, FsmLinked s.fsm nodes)
    (fun _ hi => ⟨[], hi.linked⟩) fun _ _ c _ _ ⟨nodes, h⟩ _ hs => ?_
  cases c with
  | add state func name => exact h.add hs
  | remove state => exact h.remove hs
  | tran state message =>
    obtain ⟨bytes, rfl⟩ := FsmSys.tran_eq h.rep hs
    exact ⟨nodes, h.rep, h.prev, h.fresh, h.last⟩

/-! ## `state_tran` -/

/-- Zeros are the message that is empty. -/
theorem padded_eq_nil {message : List UInt8} (h : 0 ∉ message) (heq : padded message = padded []) :
    message = [] := by
  refine List.eq_nil_iff_forall_not_mem.mpr fun b hb => ?_
  have hzero : b ∈ List.replicate MSG_LEN (0 : UInt8) := by
    rw [show List.replicate MSG_LEN (0 : UInt8) = padded message from heq.symm]
    exact List.mem_append_left _ hb
  exact h ((List.mem_replicate.mp hzero).2 ▸ hb)

/-- A message without a NUL of its own has one behind it exactly if it is shorter than `MSG_LEN`. -/
theorem zero_mem_padded {message : List UInt8} (h : 0 ∉ message) :
    0 ∈ padded message ↔ message.length < MSG_LEN := by
  rw [padded, List.mem_append, List.mem_replicate]
  simp only [h, false_or, and_true]
  omega

/-- The copy stays inside `MSG_LEN` bytes, or it is no copy. -/
theorem copyMessage_eq (message : Option (List UInt8)) : FsmState.copyMessage message =
    if (message.getD []).length ≤ MSG_LEN then some (padded (message.getD [])) else none := by
  cases message with
  | none => rfl
  | some message => rfl

/-- What `state_tran` leaves in the message. -/
theorem FsmLinked.tran_eq (h : FsmLinked s.fsm nodes) (state : ℤ)
    (message : Option (List UInt8)) :
    (s.step (.tran state message)).map (·.fsm.fsmObj.message) =
      open Classical in
      if s.Found state then FsmState.copyMessage message else some (padded []) := by
  have hfound : s.Found state ↔
      ∃ n, (s.fsm.stateObjCopy :: nodes).find? (fun n => (s.fsm.dis n).state = state) = some n := by
    unfold FsmSys.Found
    rw [FsmState.search_eq state h.rep]
    simp
  have hsearch := FsmState.search_eq (f := { s.fsm with
    fsmObj.message := List.replicate MSG_LEN 0 }) state h.rep
  simp only [FsmSys.step, FsmState.stateTran, hsearch]
  cases hfind : (s.fsm.stateObjCopy :: nodes).find? (fun n => (s.fsm.dis n).state = state) with
  | none =>
    rw [hfind] at hfound
    rw [if_neg (by simp [hfound])]
    rfl
  | some n =>
    rw [hfind] at hfound
    rw [if_pos (by simp [hfound])]
    cases FsmState.copyMessage message <;> rfl

theorem MessageArg.zero_notMem_text (h : message.Terminated s) : 0 ∉ message.text s := by
  cases message with
  | null => exact List.not_mem_nil
  | string text => exact h
  | own i =>
    intro hm
    simpa using List.all_eq_true.mp List.all_takeWhile 0 hm

/-- Clearing leaves the message, or nothing of it. -/
theorem MessageArg.cleared_eq (message : MessageArg) (s : FsmSys) :
    message.cleared.getD [] = [] ∨ message.cleared.getD [] = message.text s := by
  cases message with
  | null | own => exact Or.inl rfl
  | string text => exact Or.inr rfl

theorem MessageArg.zero_notMem_cleared (h : message.Terminated s) :
    0 ∉ message.cleared.getD [] := by
  rcases message.cleared_eq s with heq | heq
  · rw [heq]
    exact List.not_mem_nil
  · rw [heq]
    exact MessageArg.zero_notMem_text h

/-- A message is shorter than `MSG_LEN` once it has been cleared. -/
theorem MessageArg.cleared_length :
    (message.cleared.getD []).length < MSG_LEN ↔
      ∀ text, message = .string text → text.length < MSG_LEN := by
  cases message with
  | null | own => exact iff_of_true (show 0 < MSG_LEN by decide) fun _ h => by cases h
  | string text => exact ⟨fun h _ heq => MessageArg.string.inj heq ▸ h, fun h => h text rfl⟩

/-- Clearing loses the message where it was. -/
theorem MessageArg.padded_cleared (h : message.Terminated s) :
    padded (message.cleared.getD []) = padded (message.text s) ↔
      message.text s = [] ∨ ∀ i, message ≠ .own i := by
  cases message with
  | null | string => exact iff_of_true rfl (Or.inr fun _ h => by cases h)
  | own i =>
    have hzero := MessageArg.zero_notMem_text h
    constructor
    · intro heq
      refine Or.inl (padded_eq_nil hzero heq.symm)
    · rintro (hempty | hne)
      · rw [hempty]
        rfl
      · exact absurd rfl (hne i)

/-- In every run, a message is transferred exactly if it suits. -/
theorem tran_message_iff (hrun : FsmRun (fun _ _ => True) tr s) (hmessage : message.Terminated s) :
    Transferred s state message ↔ Suits s state message := by
  obtain ⟨nodes, h⟩ := FsmRun.linked hrun
  have htran := h.tran_eq state message.cleared
  have hpadded := MessageArg.padded_cleared hmessage
  have htext := MessageArg.zero_notMem_text hmessage
  rw [copyMessage_eq] at htran
  unfold Transferred Suits
  rw [← MessageArg.cleared_length]
  by_cases hfound : s.Found state
  · rw [if_pos hfound] at htran
    constructor
    · rintro ⟨s', hs, hnul, -, hthere⟩
      rw [hs, Option.map_some] at htran
      split_ifs at htran with hle
      have hcopied := Option.some.inj htran
      refine ⟨fun _ => ?_, fun hreg hlt => ?_⟩
      · rw [hcopied] at hnul
        exact (zero_mem_padded (MessageArg.zero_notMem_cleared hmessage)).mp hnul
      · have := hpadded.mp (hcopied.symm.trans (hthere hreg hlt))
        exact this.imp id fun hne => ⟨hfound, hne⟩
    · rintro ⟨hshort, hreg⟩
      have hlt := hshort hfound
      rw [if_pos (Nat.le_of_lt hlt)] at htran
      obtain ⟨s', hs, hcopied⟩ := Option.map_eq_some_iff.mp htran
      refine ⟨s', hs, ?_, ?_, fun hr hl => ?_⟩
      · rw [hcopied]
        exact (zero_mem_padded (MessageArg.zero_notMem_cleared hmessage)).mpr hlt
      · rw [hcopied]
        exact (message.cleared_eq s).imp (congrArg padded) (congrArg padded)
      · rw [hcopied]
        exact hpadded.mpr ((hreg hr hl).imp id And.right)
  · rw [if_neg hfound] at htran
    obtain ⟨s', hs, hcleared⟩ := Option.map_eq_some_iff.mp htran
    have hnul : (0 : UInt8) ∈ padded [] := (zero_mem_padded List.not_mem_nil).mpr (by decide)
    constructor
    · rintro ⟨s'', hs', -, -, hthere⟩
      obtain rfl := Option.some.inj (hs.symm.trans hs')
      refine ⟨fun hyes => absurd hyes hfound, fun hreg hlt => Or.inl ?_⟩
      -- The message is all zeros, and has none.
      exact padded_eq_nil htext ((hthere hreg hlt).symm.trans hcleared)
    · rintro ⟨-, hempty⟩
      refine ⟨s', hs, by rw [hcleared]; exact hnul, Or.inl hcleared, fun hreg hlt => ?_⟩
      have hnil := (hempty hreg hlt).resolve_right fun hyes => hfound hyes.1
      rw [hcleared, hnil]

/-- The state of `state_init` is found. -/
theorem FsmSys.one_found : FsmSys.one.Found 1 :=
  ⟨0, FsmState.search_eq 1 FsmSys.one_init.linked.rep⟩

/-- Two bytes are transferred. -/
theorem tran_message_two : FsmRun (fun _ _ => True) [] .one ∧
    Transferred .one 1 (.string [104, 105]) := by
  have hrun : FsmRun (fun _ _ => True) [] .one := .nil FsmSys.one_init
  have hterminated : (MessageArg.string [104, 105]).Terminated .one := by
    show (0 : UInt8) ∉ [104, 105]
    decide
  refine ⟨hrun, (tran_message_iff hrun hterminated).mpr ⟨fun _ text heq => ?_, fun _ _ => ?_⟩⟩
  · obtain rfl := MessageArg.string.inj heq
    decide
  · exact Or.inr ⟨FsmSys.one_found, fun i h => by cases h⟩

/-- Of `MSG_LEN + 1` bytes, the last one is written behind the message. -/
theorem not_tran_message_long : FsmRun (fun _ _ => True) [] .one ∧
    FsmSys.one.step (.tran 1 (some (List.replicate (MSG_LEN + 1) 65))) = none ∧
      ¬ Transferred .one 1 (.string (List.replicate (MSG_LEN + 1) 65)) := by
  have hstep : FsmSys.one.step (.tran 1 (some (List.replicate (MSG_LEN + 1) 65))) = none := by
    have htran := FsmSys.one_init.linked.tran_eq 1 (some (List.replicate (MSG_LEN + 1) 65))
    rw [if_pos FsmSys.one_found, copyMessage_eq, if_neg (by simp)] at htran
    exact Option.map_eq_none_iff.mp htran
  refine ⟨.nil FsmSys.one_init, hstep, fun ⟨s', hs, _⟩ => ?_⟩
  rw [show MessageArg.cleared _ = some (List.replicate (MSG_LEN + 1) 65) from rfl, hstep] at hs
  exact Option.some_ne_none _ hs.symm

end Fos
