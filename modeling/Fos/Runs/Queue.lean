import Fos.Lib.Deque
import Fos.Runs.Control

/-!
# Message queues

In every run with passive callbacks the messages linked at `msg_head` are those of a deque that
takes each message of a `msg_put` that returns `TRUE` and gives one out for each `msg_get` that
returns `TRUE` (`msg_deque`). A `msg_get` that finds the queue empty is put to wait, and returns
`EMPTY` once a `msg_put` has released it: it does not look at the queue again (`msg_get_blocked`).
-/

namespace Fos

open Links Function Runs Deques

/-- What a deque makes of a step: it takes the message of a `msg_put` that returns `TRUE`, and gives
one out for a `msg_get` that returns `TRUE`. -/
def observe {κ : Type} [Machine κ] (q : ℕ) (s : Sys κ) (act : Action) (s' : Sys κ)
    (l : Ledger ℕ) : Ledger ℕ :=
  match returned s act s' with
  | some (_, .msgPut (some j) (some m) method, .TRUE) =>
    if j = q then (if method = FIFO then l.back m else l.front m) else l
  | some (_, .msgGet (some j) (some _), .TRUE) => if j = q then l.pop else l
  | _ => l

/-- The deque of a queue in a run so far. -/
def deque {κ : Type} [Machine κ] (q : ℕ) : Trace κ → Sys κ → Ledger ℕ
  | [], _ => .new
  | e :: tr, s => observe q e.1 e.2 s (deque q tr e.1)

/-- The messages of the queue stay as they are. -/
def SameMessages (q : ℕ) (k k' : Kernel) : Prop :=
  (∀ xs, Represents k.heap (.msgHead q) xs → Represents k'.heap (.msgHead q) xs) ∧
    (k'.queue q).count = (k.queue q).count

/-- The queue of a run so far is a deque of at most `length` messages. -/
structure BoundedDeque (q length : ℕ) (tr : Trace Kernel) (s : Sys Kernel) : Prop where
  /-- The messages linked at `msg_head`. -/
  list : Represents s.k.heap (.msgHead q) ((deque q tr s).contents.map .msg)
  /-- `count` counts them. -/
  count : (s.k.queue q).count = (deque q tr s).contents.length
  /-- There are never more than `length`. -/
  count_le : (s.k.queue q).count ≤ length
  /-- No accepted message is lost, or delivered twice. -/
  kept : (deque q tr s).accepted.Perm ((deque q tr s).delivered ++ (deque q tr s).contents)
  /-- If all messages were put behind the others, they are delivered in the order of the puts. -/
  inOrder : (∀ m method, .call (.msgPut (some q) (some m) method) ∈ tr.map Prod.snd →
    method = FIFO) → (deque q tr s).accepted = (deque q tr s).delivered ++ (deque q tr s).contents
  /-- `msg_put` returns `FULL` when there are `length` messages, and leaves them; otherwise it
  returns `TRUE`. -/
  put : ∀ act s' t m method, PassiveUsage tr s act → s.step act = some s' →
    called s act = some (t, .msgPut (some q) (some m) method) →
    if (s.k.queue q).count = length then
      returned s act s' = some (t, .msgPut (some q) (some m) method, .FULL) ∧
        SameMessages q s.k s'.k
    else returned s act s' = some (t, .msgPut (some q) (some m) method, .TRUE)
  /-- `msg_get` returns `TRUE` at once when there is a message, and copies the first one; otherwise
  it does not return at once. -/
  get : ∀ act s' t buf, PassiveUsage tr s act → s.step act = some s' →
    called s act = some (t, .msgGet (some q) (some buf)) →
    match (deque q tr s).contents with
    | [] => returned s act s' = none
    | m :: _ => returned s act s' = some (t, .msgGet (some q) (some buf), .TRUE) ∧
        s'.k.mem = Kernel.memcpy s.k.mem buf (s.k.msg m).buff 5
  /-- A `msg_get` that has not returned at once does not return `TRUE`. -/
  later : ∀ t buf r, s.frame t = some (.call (.msgGet (some q) (some buf)) r) → r = .EMPTY

/-- The task has been released by a `msg_put` on the queue since it last called `msg_get`. -/
def released (t : TcbPtr) (q : ℕ) : Trace Kernel → Bool
  | [] => false
  | e :: tr => match called e.1 e.2 with
    | some (u, .msgGet ..) => u ≠ t && released t q tr
    | some (_, .msgPut (some j) (some _) _) =>
      (j = q && t ∈ firstTask e.1.k (.queue q)) || released t q tr
    | _ => released t q tr

variable {hst hst' : Hist} {tr : Trace Kernel} {s s' : Sys Kernel} {a a' : Abs} {act : Action}
  {t u : TcbPtr} {q m method buf length : ℕ} {r : Ret} {c : Call} {l : Ledger ℕ} {k' : Kernel}

/-! ## What a call does to a queue -/

/-- What `msg_put` returns, and to whom. -/
theorem Abs.exec_msgPut (h : a.exec (.msgPut (some q) (some m) method) = some (a', r)) :
    r = (if (a.queue q).count = (a.queue q).length then .FULL else .TRUE) ∧
      a'.newTask = a.newTask := by
  simp only [Abs.exec, Abs.msgPut, Abs.wakeFirst_vars, Option.some.injEq] at h
  split_ifs at h ⊢
  · obtain ⟨rfl, rfl⟩ := Prod.mk.inj h
    exact ⟨rfl, by simp⟩
  · obtain ⟨rfl, rfl⟩ := Prod.mk.inj h
    exact ⟨rfl, by simp [Abs.enqueue, Abs.setQueue, Abs.setMsgs]⟩

/-- What `msg_get` does when there is a message. -/
theorem Abs.exec_msgGet_cons {ms : List ℕ} (hl : a.msgs q = m :: ms)
    (h : a.exec (.msgGet (some q) (some buf)) = some (a', r)) :
    r = .TRUE ∧ a' = a.receive q buf m ms := by
  simp only [Abs.exec, Abs.msgGet, hl, Option.some.injEq] at h
  obtain ⟨rfl, rfl⟩ := Prod.mk.inj h
  exact ⟨rfl, rfl⟩

/-- What `msg_get` does when there is no message. -/
theorem Abs.exec_msgGet_nil (hl : a.msgs q = [])
    (h : a.exec (.msgGet (some q) (some buf)) = some (a', r)) :
    r = .EMPTY ∧ a'.mem = a.mem ∧ a'.queue = a.queue := by
  obtain ⟨t, hnew⟩ := a.exists_caller
  have hs := Abs.exec_effect hnew h
  refine ⟨?_, ?_, ?_⟩
  · simp only [Abs.exec, Abs.msgGet, hl] at h
    obtain ⟨_, -, h⟩ := Option.bind_eq_some_iff.mp h
    obtain ⟨_, -, h⟩ := Option.bind_eq_some_iff.mp h
    exact (Prod.mk.inj (Option.some.inj h)).2.symm
  · rw [hs.mem]
    simp [Call.effect, hl, Abs.block, Abs.pushTail, Abs.remove]
  · rw [hs.queue]
    simp [Call.effect, hl, Abs.block, Abs.pushTail, Abs.remove]

/-- What `msg_queue_create` makes of a queue. -/
theorem Abs.exec_msgQueueCreate (hlength : 0 < length)
    (h : a.exec (.msgQueueCreate (some q) length) = some (a', r)) :
    (a'.queue q).length = length := by
  have hne : length ≠ 0 := Nat.ne_of_gt hlength
  simp only [Abs.exec, Abs.msgQueueCreate, if_neg hne, Option.some.injEq] at h
  obtain ⟨rfl, -⟩ := Prod.mk.inj h
  simp [Abs.setQueue]

/-- Any other call leaves the length of a queue. -/
theorem Abs.exec_queue_length (h : a.exec c = some (a', r))
    (hc : ∀ n, c ≠ .msgQueueCreate (some q) n) : (a'.queue q).length = (a.queue q).length := by
  obtain ⟨t, hnew⟩ := a.exists_caller
  -- Only `msg_queue_create` writes the length; `msg_put` and `msg_get` write the count.
  by_cases hq : some q = c.queueArg
  · match c with
    | .msgQueueCreate j n => exact absurd (by rw [show j = some q from hq.symm]) (hc n)
    | .msgPut j m method =>
      obtain rfl : some q = j := hq
      rw [(Abs.exec_effect hnew h).queue]
      cases m with
      | none => rfl
      | some m =>
        simp only [Call.effect, Abs.msgPut, Abs.wakeFirst_vars]
        split_ifs
        · simp
        · simp [Abs.enqueue, Abs.setQueue, Abs.setMsgs]
    | .msgGet j buffer =>
      obtain rfl : some q = j := hq
      rw [(Abs.exec_effect hnew h).queue]
      cases buffer with
      | none => rfl
      | some buf =>
        simp only [Call.effect]
        split
        · simp [Abs.block, Abs.pushTail, Abs.remove]
        · simp [Abs.receive, Abs.setQueue, Abs.setMsgs, Abs.setMem]
  · rw [(Abs.exec_frame hnew h).queue q hq]

/-! ## The deque of a run -/

/-- What a task is left inside is never a `msg_put`, and a `msg_get` only if it returns `EMPTY`. -/
def LeftEmpty (s : Sys Kernel) : Prop :=
  ∀ t c r, s.frame t = some (.call c r) → (∀ j m method, c ≠ .msgPut (some j) (some m) method) ∧
    ∀ j buf, c = .msgGet (some j) (some buf) → r = .EMPTY

/-- `LeftEmpty`, after one more step. -/
theorem LeftEmpty.step (h : LeftEmpty s) (hl : Lockstep s a act s' a') (hcore : Core hst s a) :
    LeftEmpty s' := by
  cases hl with
  | main | start => exact h
  | @call t c k' _ r hr hf _ ha hnew =>
    intro u c' r' hu
    rcases Sys.callFrame_cases hf hu with hold | ⟨rfl, rfl, rfl, hne⟩
    · exact h u c' r' hold
    · -- A call that leaves its caller running does not leave it inside.
      have hother : a'.newTask ≠ a.newTask := by
        rw [← hnew, ← hcore.running_eq, hr]
        exact hne
      refine ⟨fun j m method hc => ?_, fun j buf hc => ?_⟩
      · subst hc
        exact hother (Abs.exec_msgPut ha).2
      · subst hc
        cases hm : a.msgs j with
        | nil => exact (Abs.exec_msgGet_nil hm ha).1
        | cons m ms => exact absurd (by rw [(Abs.exec_msgGet_cons hm ha).2]; rfl) hother
  | tick => exact fun u c r hu => h u c r (Sys.frame_of_passFrame hu)
  | ret => exact fun u c r hu => h u c r (Sys.frame_of_passFrame (f := none) hu)
  | pass => exact fun u c r hu => h u c r (Sys.frame_of_passFrame hu)

/-- What a `msg_put` returns is returned when it is called. -/
theorem LeftEmpty.act_of_msgPut (h : LeftEmpty s)
    (hret : returned s act s' = some (t, .msgPut (some q) (some m) method, r)) :
    act = .call (.msgPut (some q) (some m) method) := by
  cases act with
  | call c => rw [(eq_of_returned hret).2]
  | resume o =>
    unfold returned at hret
    split at hret
    · next heq _ => simp at heq
    · split at hret
      · next hf =>
        obtain ⟨rfl, rfl, rfl⟩ := by simpa using hret
        exact absurd rfl ((h _ _ _ hf).1 _ _ _)
      · simp at hret
    · simp at hret
  | tick | start => simp at hret

/-- A step in which no message is accepted or delivered. -/
theorem observe_of_ne (h : ∀ t c r, returned s act s' = some (t, c, r) →
    (∀ j m method, c ≠ .msgPut (some j) (some m) method) ∧
      ∀ j buf, c = .msgGet (some j) (some buf) → r ≠ .TRUE) : observe q s act s' l = l := by
  unfold observe
  split
  · next heq => exact absurd rfl ((h _ _ _ heq).1 _ _ _)
  · next heq => exact absurd rfl ((h _ _ _ heq).2 _ _ rfl)
  · rfl

/-- The messages of the abstract kernel are those of the deque, after one more step. -/
theorem Lockstep.observe_contents (h : Lockstep s a act s' a') (hcore : Core hst s a)
    (hu : Usage hst s act) (hp : Passive act) (hno : ∀ t f, s.frame t ≠ some (.timer f))
    (hleft : LeftEmpty s) (hl : l.contents = a.msgs q) :
    (observe q s act s' l).contents = a'.msgs q := by
  cases h with
  | @main c _ _ _ hr _ ha =>
    have hset := hu.2.1 hr
    rw [observe_of_ne (by simp [returned_main hr]), Abs.exec_msgs ha, hl]
    cases c <;> first | rfl | simp [Call.IsSetUp] at hset
  | @call t c k' _ r hr hf hk ha hnew =>
    have hrun := hcore.running_eq.symm.trans hr
    rw [Abs.exec_msgs ha]
    by_cases hc : (∃ j m method, c = .msgPut (some j) (some m) method) ∨
        ∃ j buf, c = .msgGet (some j) (some buf)
    · rcases hc with ⟨j, m, method, rfl⟩ | ⟨j, buf, rfl⟩
      · obtain ⟨hret, hsame⟩ := Abs.exec_msgPut ha
        rw [observe, returned_callFrame hr hf hk, if_pos (hnew.trans (hsame.trans hrun)), hret]
        by_cases hj : j = q
        · subst hj
          by_cases hfull : (a.queue j).count = (a.queue j).length
          · simp [Call.msgsOf, hfull, hl]
          · by_cases hm : method = FIFO
            · simp [Call.msgsOf, hfull, hm, Ledger.back, hl]
            · simp [Call.msgsOf, hfull, hm, Ledger.front, hl]
        · by_cases hfull : (a.queue j).count = (a.queue j).length
          · simp [Call.msgsOf, hj, hfull, hl]
          · simp [Call.msgsOf, hj, hfull, hl]
      · cases hm : a.msgs j with
        | nil =>
          -- The caller waits, and nothing is returned to it.
          obtain ⟨rfl, -⟩ := Abs.exec_msgGet_nil hm ha
          rw [observe_of_ne, hl]
          · by_cases hj : j = q
            · subst hj
              simp [Call.msgsOf, hm]
            · simp [Call.msgsOf, hj]
          · intro u c r' hret
            rw [returned_callFrame hr hf hk] at hret
            split_ifs at hret
            obtain ⟨-, rfl, rfl⟩ := by simpa using hret
            simp
        | cons m ms =>
          obtain ⟨rfl, hrec⟩ := Abs.exec_msgGet_cons hm ha
          have hself : k'.newTask = some t := by rw [hnew, hrec]; exact hrun
          rw [observe, returned_callFrame hr hf hk, if_pos hself]
          by_cases hj : j = q
          · simp [Call.msgsOf, hj, Ledger.pop, hl]
          · simp [Call.msgsOf, hj, hl]
    · -- Any other call leaves the messages.
      have hother : ∀ u c' r', returned s (.call c) ⟨k', s.callFrame t c k' r, setUp s.live c⟩ =
          some (u, c', r') → c' = c := fun u c' r' hret => (eq_of_returned hret).2
      rw [observe_of_ne, hl]
      · unfold Call.msgsOf
        split
        · exact absurd (Or.inl ⟨_, _, _, rfl⟩) hc
        · exact absurd (Or.inr ⟨_, _, rfl⟩) hc
        · rfl
      · intro u c' r' hret
        obtain rfl := hother u c' r' hret
        exact ⟨fun j m method h => hc (Or.inl ⟨j, m, method, h⟩),
          fun j buf h => absurd (Or.inr ⟨j, buf, h⟩) hc⟩
  | @tick t o k' _ f hr hf _ ha =>
    rw [observe_of_ne (by simp), hl]
    exact congrFun (hcore.sim.wf.passFrom_hardwareTimer ha).1.msgs.symm q
  | @ret t o c r hr hf =>
    rw [observe_of_ne, hl]
    intro u c' r' hret
    rw [returned_ret hr hf] at hret
    obtain ⟨rfl, rfl, rfl⟩ := by simpa using hret
    obtain ⟨hput, hget⟩ := hleft t c r hf
    exact ⟨hput, fun j buf hc => by simp [hget j buf hc]⟩
  | pass _ hf _ _ => exact absurd hf (hno _ _)
  | start => rw [observe_of_ne (by simp), hl]; rfl

/-- A queue that has been created keeps its length. -/
theorem Lockstep.queue_length (h : Lockstep s a act s' a') (hcore : Core hst s a)
    (hu : Usage hst s act) (hp : Passive act) (hno : ∀ t f, s.frame t ≠ some (.timer f))
    (hlive : s.live (.queue q) = true) : (a'.queue q).length = (a.queue q).length := by
  -- A queue that has been created is not created again.
  have hcall : ∀ {c r}, act = .call c → a.exec c = some (a', r) →
      (a'.queue q).length = (a.queue q).length := by
    rintro c r rfl ha
    refine Abs.exec_queue_length ha ?_
    rintro n rfl
    exact absurd (hlive.symm.trans hu.1.1) (by simp)
  cases h with
  | main _ _ ha => exact hcall rfl ha
  | call _ _ _ ha _ => exact hcall rfl ha
  | tick _ _ _ ha =>
    obtain rfl : _ = passive := hp
    rw [hcore.sim.wf.vars_hardwareTimer ha]
  | ret | start => rfl
  | pass _ hf _ _ => exact absurd hf (hno _ _)

/-- What holds of a queue in every run. -/
structure QueueKept (q : ℕ) (tr : Trace Kernel) (s : Sys Kernel) (a : Abs) : Prop where
  left : LeftEmpty s
  /-- The messages of the abstract kernel are those of the deque. -/
  contents : (deque q tr s).contents = a.msgs q
  kept : (deque q tr s).Kept
  inOrder : (∀ m method, .call (.msgPut (some q) (some m) method) ∈ tr.map Prod.snd →
    method = FIFO) → (deque q tr s).InOrder
  /-- A queue that has been created has its length. -/
  length : ∀ n, 0 < n → .call (.msgQueueCreate (some q) n) ∈ tr.map Prod.snd →
    s.live (.queue q) = true ∧ (a.queue q).length = n

/-- What is accepted and delivered in a step is kept. -/
theorem observe_kept (h : l.Kept) : (observe q s act s' l).Kept := by
  unfold observe
  split
  · split_ifs
    · exact h.back _
    · exact h.front _
    · exact h
  · split_ifs
    · exact h.pop
    · exact h
  · exact h

/-- A step that accepts a message only behind the others keeps the order. -/
theorem observe_inOrder (h : l.InOrder) (hleft : LeftEmpty s)
    (hfifo : ∀ m method, act = .call (.msgPut (some q) (some m) method) → method = FIFO) :
    (observe q s act s' l).InOrder := by
  unfold observe
  split
  · next u j m method heq =>
    split_ifs with hj hm
    · exact h.back _
    · subst hj
      exact absurd (hfifo m method (hleft.act_of_msgPut heq)) hm
    · exact h
  · split_ifs
    · exact h.pop
    · exact h
  · exact h

/-- `QueueKept`, after one more step. -/
theorem QueueKept.step (h : QueueKept q tr s a) (hl : Lockstep s a act s' a')
    (hcore : Core (hist tr) s a) (hg : PassiveUsage tr s act)
    (hno : ∀ t f, s.frame t ≠ some (.timer f)) : QueueKept q ((s, act) :: tr) s' a' where
  left := h.left.step hl hcore
  contents := hl.observe_contents hcore hg.1 hg.2 hno h.left h.contents
  kept := observe_kept h.kept
  inOrder hfifo := by
    refine observe_inOrder (h.inOrder fun m method hm => ?_) h.left fun m method hact => ?_
    · exact hfifo m method (List.mem_cons_of_mem _ hm)
    · exact hfifo m method (List.mem_cons.mpr (Or.inl hact.symm))
  length n hn hmem := by
    rcases List.mem_cons.mp hmem with heq | hold
    · obtain rfl : .call (.msgQueueCreate (some q) n) = act := heq
      have hlive : setUp s.live (.msgQueueCreate (some q) n) (.queue q) = true := by
        simp [setUp, Call.setsUp, Nat.ne_of_gt hn]
      cases hl with
      | main _ _ ha | call _ _ _ ha _ => exact ⟨hlive, Abs.exec_msgQueueCreate hn ha⟩
    · obtain ⟨hlive, hlength⟩ := h.length n hn hold
      exact ⟨hl.live_mono hlive, (hl.queue_length hcore hg.1 hg.2 hno hlive).trans hlength⟩

/-- The messages of a queue stay when those of the abstract kernel do. -/
theorem Core.sameMessages (h : Core hst s a) (h' : Core hst' s' a')
    (hlive : s.live (.queue q) = true) (hlive' : s'.live (.queue q) = true)
    (hm : a'.msgs q = a.msgs q) : SameMessages q s.k s'.k := by
  refine ⟨fun xs hxs => ?_, ?_⟩
  · rw [hxs.unique (h.sim.refines.rep_msgs hlive), ← hm]
    exact h'.sim.refines.rep_msgs hlive'
  · rw [h.sim.refines.queue_eq, h'.sim.refines.queue_eq, h.sim.wf.msgs.count q hlive,
      h'.sim.wf.msgs.count q hlive', hm]

/-- Every queue is a bounded deque, in every state of every run. -/
theorem msg_deque (h : SysRun PassiveUsage tr s) (hlength : 0 < length)
    (hcreate : .call (.msgQueueCreate (some q) length) ∈ tr.map Prod.snd) :
    BoundedDeque q length tr s := by
  obtain ⟨a, hcore, -, hkept⟩ := h.passive (P := QueueKept q)
    (fun s k hinit _ _ => ⟨fun t c r hf => by simp [hinit.2.1 t] at hf, rfl, .new, fun _ => rfl,
      by simp⟩)
    (fun tr s a act s' a' _ hcore _ hp hg hno hl _ => hp.step hl hcore hg hno)
  obtain ⟨hlive, hlen⟩ := hkept.length length hlength hcreate
  have href := hcore.sim.refines
  have hmsgs := hcore.sim.wf.msgs
  have hqueue : s.k.queue = a.queue := href.queue_eq
  refine ⟨?_, ?_, ?_, hkept.kept, hkept.inOrder, ?_, ?_, ?_⟩
  · rw [hkept.contents]
    exact href.rep_msgs hlive
  · rw [hkept.contents, hqueue, hmsgs.count q hlive]
  · rw [hqueue, ← hlen]
    exact hmsgs.count_le q hlive
  · intro act s' t m method hg hs hc
    obtain ⟨a', hl, hcore'⟩ := h.lockstep (fun _ _ _ hg => hg) hg hs hcore
    obtain ⟨rfl, hr⟩ := of_called hc
    have hlive' := hl.live_mono hlive
    cases hl with
    | main hr' => simp [hr] at hr'
    | @call t' _ k' _ r hr' hf hk ha hnew =>
      obtain rfl : t = t' := Option.some.inj (hr.symm.trans hr')
      obtain ⟨rfl, hself⟩ := Abs.exec_msgPut ha
      have hrun : k'.newTask = some t := hnew.trans (hself.trans (hcore.running_eq.symm.trans hr))
      have hsame : (a.queue q).count = length → SameMessages q s.k k' := fun hfull => by
        refine hcore.sameMessages hcore' hlive hlive' ?_
        rw [Abs.exec_msgs ha]
        simp [Call.msgsOf, hlen, hfull]
      rw [returned_callFrame hr hf hk, if_pos hrun, hqueue, hlen]
      split_ifs with hfull
      · exact ⟨rfl, hsame hfull⟩
      · rfl
  · intro act s' t buf hg hs hc
    obtain ⟨a', hl, hcore'⟩ := h.lockstep (fun _ _ _ hg => hg) hg hs hcore
    obtain ⟨rfl, hr⟩ := of_called hc
    cases hl with
    | main hr' => simp [hr] at hr'
    | @call t' _ k' _ r hr' hf hk ha hnew =>
      obtain rfl : t = t' := Option.some.inj (hr.symm.trans hr')
      have hrun := hcore.running_eq.symm.trans hr
      rw [hkept.contents, returned_callFrame hr hf hk]
      cases hm : a.msgs q with
      | nil =>
        -- The caller waits, so that another task has been selected.
        refine if_neg fun hself => ?_
        exact hcore.newTask_ne_of_waits (q := .queue q) hcore' hg.1 hrun ha
          (by simp [Call.waitsIn, hm]) (hnew ▸ hself)
      | cons m ms =>
        obtain ⟨rfl, hrec⟩ := Abs.exec_msgGet_cons hm ha
        have hself : k'.newTask = some t := by rw [hnew, hrec]; exact hrun
        refine ⟨if_pos hself, ?_⟩
        show k'.mem = _
        rw [hcore'.sim.refines.mem_eq, href.mem_eq, href.msg_eq, hrec]
        rfl
  · exact fun t buf r hf => (hkept.left t _ r hf).2 q buf rfl

/-- The same deque is observed in a run of the abstract kernel. -/
theorem Shadow.deque_eq {trA : Trace Abs} (h : Shadow tr s trA a) :
    deque q trA (s.over a) = deque q tr s := by
  induction h with
  | nil => rfl
  | @cons tr s s' trA a a' act _ _ hret ih =>
    rw [deque, deque, ih]
    unfold observe
    rw [hret]

/-- Two messages are put, one of them before the other, and one is taken. -/
def mixed : List Move := [
  .call (.taskCreate (some (.task 1)) (some 0) (some 0) 5),
  .call (.msgQueueCreate (some 0) 2),
  .start, .call .schedule,
  .call (.msgPut (some 0) (some 7) FIFO), .call (.msgPut (some 0) (some 8) 0),
  .call (.msgPut (some 0) (some 9) FIFO), .call (.msgGet (some 0) (some 100))]

/-- The queue of `mixed` is a deque of at most two messages. -/
theorem msg_deque_mixed : ∃ tr s, SysRun PassiveUsage tr s ∧
    tr.map Prod.snd = (mixed.map Move.act).reverse ∧ BoundedDeque 0 2 tr s := by
  obtain ⟨tr, s, hrun, hacts⟩ := PassiveUsage.of_replay mixed (by decide)
  exact ⟨tr, s, hrun, hacts, msg_deque hrun (by decide) (by rw [hacts]; simp [mixed, Move.act])⟩

/-! ## Receivers that wait -/

/-- What becomes of a `msg_get` that finds no message, in a step. -/
structure GetBlocked (tr : Trace Kernel) (s : Sys Kernel) (act : Action) (s' : Sys Kernel) :
    Prop where
  /-- When it is called, its caller is left inside it, and no message is taken. -/
  blocks : ∀ t q buf, called s act = some (t, .msgGet (some q) (some buf)) →
    Represents s.k.heap (.msgHead q) [] →
    s'.frame t = some (.call (.msgGet (some q) (some buf)) .EMPTY) ∧ returned s act s' = none ∧
      s'.k.mem = s.k.mem ∧ ∀ j, s.live (.queue j) = true → SameMessages j s.k s'.k
  /-- When it returns, a `msg_put` has released its caller. It returns `EMPTY`, and no message is
  taken. -/
  returns : ∀ t q buf r r', s.frame t = some (.call (.msgGet (some q) (some buf)) r') →
    returned s act s' = some (t, .msgGet (some q) (some buf), r) →
    r = .EMPTY ∧ released t q tr = true ∧ s'.k = s.k

/-- A call that wakes a task of the list of a queue is `msg_put`. -/
theorem Call.eq_msgPut (h : c.wakesFrom = some (.queue q)) :
    ∃ m method, c = .msgPut (some q) (some m) method := by
  unfold Call.wakesFrom at h
  split at h <;> simp_all

/-- A task that is inside `msg_get` waits, or has been released. -/
def WaitsOrReleased (tr : Trace Kernel) (s : Sys Kernel) (a : Abs) : Prop :=
  ∀ t q buf r, s.frame t = some (.call (.msgGet (some q) (some buf)) r) →
    t ∈ a.tasks (.queue q) ∨ released t q tr = true

/-- A task that has been released stays so until it calls `msg_get` again. -/
theorem released_cons (h : released t q tr = true) (hc : ∀ c, called s act ≠ some (t, c)) :
    released t q ((s, act) :: tr) = true := by
  unfold released
  split
  · next u _ _ heq =>
    have hne : u ≠ t := fun e => hc _ (e ▸ heq)
    simp [hne, h]
  · simp [h]
  · exact h

/-- `WaitsOrReleased`, after one more step. -/
theorem WaitsOrReleased.step (h : WaitsOrReleased tr s a) (hl : Lockstep s a act s' a')
    (hcore : Core (hist tr) s a) (hg : PassiveUsage tr s act)
    (hno : ∀ t f, s.frame t ≠ some (.timer f)) : WaitsOrReleased ((s, act) :: tr) s' a' := by
  intro t q buf r hf'
  -- A task that was inside before, over a step in which no task makes a call.
  have hquiet : s.frame t = some (.call (.msgGet (some q) (some buf)) r) →
      (∀ c, called s act ≠ some (t, c)) → a'.tasks (.queue q) = a.tasks (.queue q) →
      t ∈ a'.tasks (.queue q) ∨ released t q ((s, act) :: tr) = true := fun hold hc htasks =>
    (h t q buf r hold).imp (fun hm => htasks ▸ hm) fun hr => released_cons hr hc
  cases hl with
  | @main c k' _ r' hr hk ha =>
    obtain ⟨u, hnew⟩ := a.exists_caller
    refine hquiet hf' (fun c => by simp [hr]) ?_
    rw [hcore.exec_tasks hg.1 hnew ha (by simp), Call.waitsIn_of_isSetUp (hg.1.2.1 hr)]
    have hset := hg.1.2.1 hr
    cases c <;> first | rfl | simp [Call.IsSetUp] at hset
  | @call u c k' _ r' hr hf hk ha hnew =>
    have hrun := hcore.running_eq.symm.trans hr
    have hcaller : ∀ t', a.newTask = some t' → t' = u := fun t' ht' =>
      Option.some.inj (ht'.symm.trans hrun)
    have htasks := hcore.exec_tasks (q := .queue q) hg.1 hcaller ha (by simp)
    rcases Sys.callFrame_cases hf hf' with hold | ⟨rfl, rfl, rfl, hne⟩
    · have htu : u ≠ t := fun e => by simp [← e, hf] at hold
      rcases h t q buf r hold with hm | hrel
      · by_cases hwake : c.wakesFrom = some (.queue q)
        · obtain ⟨m, method, rfl⟩ := Call.eq_msgPut hwake
          have hfirst := hcore.firstTask_eq (q := .queue q) hg.1.1.1
          cases hw : a.tasks (.queue q) with
          | nil => simp [hw] at hm
          | cons x xs =>
            rcases List.mem_cons.mp (hw ▸ hm) with rfl | hx
            · -- The first task that waits is released.
              exact Or.inr (by simp [released, hr, hfirst, hw])
            · exact Or.inl (by simpa [htasks, Call.waitsIn, Call.wakesFrom, hw] using hx)
        · refine Or.inl ?_
          rw [htasks, if_neg hwake]
          split_ifs
          · exact List.mem_append_left _ hm
          · exact hm
      · exact Or.inr (released_cons hrel fun c' hc => by simp [hr, htu] at hc)
    · cases hm : a.msgs q with
      | nil => exact Or.inl (by simp [htasks, Call.waitsIn, hm])
      | cons m ms =>
        refine absurd (hnew.trans ?_) hne
        rw [(Abs.exec_msgGet_cons hm ha).2]
        exact hrun
  | @tick u o k' _ f hr hf _ ha =>
    obtain rfl : o = passive := hg.2
    exact hquiet (Sys.frame_of_passFrame hf') (by simp)
      (hcore.sim.wf.tasks_hardwareTimer ha (by simp))
  | ret => exact hquiet (Sys.frame_of_passFrame (f := none) hf') (by simp) rfl
  | pass _ hf _ _ => exact absurd hf (hno _ _)
  | start => exact hquiet hf' (by simp) rfl

/-- A `msg_get` that finds no message returns `EMPTY` and takes none, in every run. -/
theorem msg_get_blocked (h : SysRun PassiveUsage tr s) (hg : PassiveUsage tr s act)
    (hs : s.step act = some s') : GetBlocked tr s act s' := by
  obtain ⟨a, hcore, -, hleft, hwaits⟩ := h.passive
    (P := fun tr s a => LeftEmpty s ∧ WaitsOrReleased tr s a)
    (fun s k hinit _ _ => ⟨fun t c r hf => by simp [hinit.2.1 t] at hf,
      fun t q buf r hf => by simp [hinit.2.1 t] at hf⟩)
    (fun tr s a act s' a' _ hcore _ hp hg hno hl _ =>
      ⟨hp.1.step hl hcore, hp.2.step hl hcore hg hno⟩)
  obtain ⟨a', hl, hcore'⟩ := h.lockstep (fun _ _ _ hg => hg) hg hs hcore
  refine ⟨fun t q buf hc hempty => ?_, fun t q buf r r' hf hret => ?_⟩
  -- The call: it returns at once only if the caller still runs.
  · obtain ⟨rfl, hr⟩ := of_called hc
    have hlive : s.live (.queue q) = true := hg.1.1
    have hkeep : ∀ j, s.live (.queue j) = true → s'.live (.queue j) = true := fun j => hl.live_mono
    have hm : a.msgs q = [] := by
      simpa using (hempty.unique (hcore.sim.refines.rep_msgs hlive)).symm
    cases hl with
    | main hr' => simp [hr] at hr'
    | @call t' _ k' _ r hr' hf hk ha hnew =>
      obtain rfl : t = t' := Option.some.inj (hr.symm.trans hr')
      obtain ⟨rfl, hmem, -⟩ := Abs.exec_msgGet_nil hm ha
      have hrun := hcore.running_eq.symm.trans hr
      -- The caller waits, so that another task is selected.
      have hother : k'.newTask ≠ some t := hnew ▸
        hcore.newTask_ne_of_waits (q := .queue q) hcore' hg.1 hrun ha (by simp [Call.waitsIn, hm])
      refine ⟨?_, ?_, ?_, fun j hj => hcore.sameMessages hcore' hj (hkeep j hj) ?_⟩
      · show s.callFrame t _ k' _ t = _
        rw [Sys.callFrame_self hf, if_neg hother]
      · rw [returned_callFrame hr hf hk, if_neg hother]
      · show k'.mem = _
        rw [hcore'.sim.refines.mem_eq, hcore.sim.refines.mem_eq, hmem]
      · rw [Abs.exec_msgs ha]
        by_cases hj : q = j
        · subst hj
          simp [Call.msgsOf, hm]
        · simp [Call.msgsOf, hj]
  · -- The task runs, so that it does not wait any more.
    have hrun : s.running = some t := running_of_returned hret
    have hnot : t ∉ a.tasks (.queue q) := fun hm => by
      have hready := hcore.sim.ready t (hcore.running_eq.symm.trans hrun)
      simpa using hcore.sim.wf.tasks.apart _ _ t hm hready
    have hrel := (hwaits t q buf r' hf).resolve_left hnot
    -- The step is the return, and none of the others.
    cases hl with
    | main hr => simp [hrun] at hr
    | call hr hf' =>
      obtain rfl := Option.some.inj (hr.symm.trans hrun)
      simp [hf] at hf'
    | tick | start => simp at hret
    | @ret u o c r₀ hr hf' =>
      rw [returned_ret hr hf'] at hret
      obtain ⟨-, rfl, rfl⟩ : u = t ∧ c = .msgGet (some q) (some buf) ∧ r₀ = r := by simpa using hret
      exact ⟨(hleft u _ r₀ hf').2 q buf rfl, hrel, rfl⟩
    | pass hr hf' => simp [returned_pass hr hf'] at hret

/-- The step takes exactly one message from the queue, and copies its bytes. -/
def Receives (q buf : ℕ) (k k' : Kernel) : Prop :=
  ∃ m ms, Represents k.heap (.msgHead q) (.msg m :: ms) ∧ Represents k'.heap (.msgHead q) ms ∧
    k'.mem = Kernel.memcpy k.mem buf (k.msg m).buff 5

/-- A `msg_get` that has waited takes a message when it returns. -/
def GetDelivers (s : Sys Kernel) (act : Action) (s' : Sys Kernel) : Prop :=
  ∀ t q buf r r', s.frame t = some (.call (.msgGet (some q) (some buf)) r') →
    returned s act s' = some (t, .msgGet (some q) (some buf), r) → Receives q buf s.k s'.k

/-- `task 1` waits for a message, `task 2` puts one, and `task 1` is selected. -/
def emptyHanded : List Move := [
  .call (.taskCreate (some (.task 1)) (some 0) (some 0) 5),
  .call (.taskCreate (some (.task 2)) (some 0) (some 0) 6),
  .call (.msgQueueCreate (some 0) 2),
  .start, .call .schedule,
  .call (.msgGet (some 0) (some 100)), .call (.msgPut (some 0) (some 7) FIFO), .call .schedule]

/-- A run to the end of `emptyHanded`. -/
theorem emptyHanded_run : ∃ tr s, SysRun PassiveUsage tr s ∧
    tr.map Prod.snd = (emptyHanded.map Move.act).reverse ∧ s.running = some (.task 1) ∧
      s.frame (.task 1) = some (.call (.msgGet (some 0) (some 100)) .EMPTY) ∧
      (deque 0 tr s).delivered = [] ∧ Represents s.k.heap (.msgHead 0) [.msg 7] := by
  have hreplay : (replay (fun _ _ _ => true) emptyHanded [] Sys.zero).map (fun r =>
      (r.2.k.newTask, r.2.frame (.task 1), (deque 0 r.1 r.2).delivered, r.2.k.msgs 0,
        r.2.live (.queue 0))) =
      some (some (.task 1), some (.call (.msgGet (some 0) (some 100)) .EMPTY), [], [7], true) := by
    decide
  obtain ⟨⟨trA, sA⟩, hr, hh⟩ := Option.map_eq_some_iff.mp hreplay
  obtain ⟨tr, s, a, hrun, hcore, hs, rfl, hacts⟩ := replay_run PassiveUsage
    (fun _ _ _ _ m _ _ _ hu _ => ⟨hu, m.passive_act⟩) hr
  simp only [Prod.mk.injEq, hs.deque_eq] at hh
  obtain ⟨hnew, hf, hdel, hmsgs, hlive⟩ := hh
  refine ⟨tr, s, hrun, hacts, hcore.running_eq.trans hnew, hf, hdel, ?_⟩
  have hrep := hcore.sim.refines.rep_msgs hlive
  rwa [show a.msgs 0 = [7] from hmsgs] at hrep

/-- `task 1` returns from its `msg_get` with `EMPTY`, although a message has been put. -/
theorem not_delivers_emptyHanded : ∃ tr s s', SysRun PassiveUsage ((s, .resume passive) :: tr) s' ∧
    tr.map Prod.snd = (emptyHanded.map Move.act).reverse ∧ (deque 0 tr s).delivered = [] ∧
      returned s (.resume passive) s' = some (.task 1, .msgGet (some 0) (some 100), .EMPTY) ∧
      Represents s'.k.heap (.msgHead 0) [.msg 7] ∧ ¬ GetDelivers s (.resume passive) s' := by
  obtain ⟨tr, s, hrun, hacts, hr, hf, hdel, hrep⟩ := emptyHanded_run
  have hret : returned s (.resume passive) { s with frame := update s.frame (.task 1) none } =
    some (.task 1, .msgGet (some 0) (some 100), .EMPTY) := returned_ret hr hf
  refine ⟨tr, s, _, .cons hrun ⟨trivial, rfl⟩ (Sys.step_resume_call hr hf), hacts, hdel, hret, hrep,
    fun hdeliver => ?_⟩
  -- The message is still queued.
  obtain ⟨m, ms, hx, hx', -⟩ := hdeliver (.task 1) 0 100 _ _ hf hret
  exact absurd (hx.unique hx') (List.cons_ne_self _ _)

/-- The return of `task 1` takes no message. -/
theorem msg_get_blocked_emptyHanded : ∃ tr s s', SysRun PassiveUsage tr s ∧
    tr.map Prod.snd = (emptyHanded.map Move.act).reverse ∧
      returned s (.resume passive) s' = some (.task 1, .msgGet (some 0) (some 100), .EMPTY) ∧
      GetBlocked tr s (.resume passive) s' := by
  obtain ⟨tr, s, hrun, hacts, hr, hf, -⟩ := emptyHanded_run
  exact ⟨tr, s, _, hrun, hacts, returned_ret hr hf,
    msg_get_blocked hrun ⟨trivial, rfl⟩ (Sys.step_resume_call hr hf)⟩

end Fos
