import Fos.Refinement.Replay

/-!
# What a message carries

`msg_put` passes on the `MSG` and not its bytes, and `msg_get` copies five bytes of them, whatever
`length` says. The line that `msg_put` logs prints the bytes up to the first NUL. So a message
reaches the receive buffer exactly if it has five bytes at least, one of which is NUL, and the
buffer has the rest of them already (`msg_round_trip_iff`).
-/

namespace Fos

open Links Function

/-- The addresses of `n` bytes from `p` on. -/
def bytes (p n : ℕ) : Set ℕ := {x | p ≤ x ∧ x < p + n}

/-- The addresses that `%s` reads: from `p` on, up to the first NUL. -/
def printed (mem : ℕ → ℕ) (p : ℕ) : Set ℕ := {x | p ≤ x ∧ ∀ y, p ≤ y → y < x → mem y ≠ 0}

namespace Kernel

/-- The bytes of messages that `msg_put` reads: the line that it logs prints those of a message that
it accepts. -/
def msgPutReads (k : Kernel) (entry msg : Option ℕ) : Set ℕ :=
  match entry, msg with
  | some q, some m =>
    if (k.queue q).count < (k.queue q).length then printed k.mem (k.msg m).buff else ∅
  | _, _ => ∅

/-- The message that `msg_get` takes. -/
def taken (k : Kernel) (entry : Option ℕ) : Option ℕ := do
  let q ← entry
  if isListLast k.heap (.msgHead q) then none else (k.heap (.msgHead q)).next.msgEntry

/-- The bytes of messages that `msg_get` reads: those that its `memcpy` copies. -/
def msgGetReads (k : Kernel) (entry : Option ℕ) : Set ℕ :=
  match k.taken entry with
  | some m => bytes (k.msg m).buff 5
  | none => ∅

/-- The bytes that `msg_get` writes: those that its `memcpy` copies to. -/
def msgGetWrites (k : Kernel) (entry buffer : Option ℕ) : Set ℕ :=
  match k.taken entry, buffer with
  | some _, some buf => bytes buf 5
  | _, _ => ∅

variable {k k' : Kernel} {q buf m : ℕ} {entry buffer msg : Option ℕ} {method : ℕ} {r : Ret}

theorem memcpy_add {mem : ℕ → ℕ} {dst src n i : ℕ} :
    memcpy mem dst src n (dst + i) = if i < n then mem (src + i) else mem (dst + i) := by
  unfold memcpy
  rw [Nat.add_sub_cancel_left]
  exact if_congr (by omega) rfl rfl

/-- The message that a queue has first is taken. -/
theorem taken_of_first {ms : List Node} (h : Represents k.heap (.msgHead q) (.msg m :: ms)) :
    k.taken (some q) = some m := by
  have hlast : ¬ isListLast k.heap (.msgHead q) = true := by
    rw [isListLast_iff h]
    exact List.cons_ne_nil _ _
  simp only [taken, Option.bind_eq_bind, Option.bind_some, if_neg hlast, h.chain.next_eq,
    List.headD_cons, Node.msgEntry_msg]

/-- A `msg_get` that takes a message copies five bytes of it. -/
theorem mem_msgGet (hm : k.taken (some q) = some m)
    (h : k.exec (.msgGet (some q) (some buf)) = some (k', r)) :
    k'.mem = memcpy k.mem buf (k.msg m).buff 5 := by
  have hlast : ¬ isListLast k.heap (.msgHead q) = true := by
    intro hlast
    simp [taken, hlast] at hm
  have hentry : (k.heap (.msgHead q)).next.msgEntry = some m := by
    simpa [taken, hlast] using hm
  have h : k.msgGet (some q) (some buf) = some (k', r) := h
  rw [msgGet_eq, if_neg hlast, msgTake, hentry] at h
  simp only [Option.bind_eq_bind, Option.bind_some] at h
  split_ifs at h <;>
    · obtain rfl := (Prod.mk.inj (Option.some.inj h)).1
      rfl

theorem msgRelease_vars (h : k.msgRelease q = some k') : k'.toVars = k.toVars := by
  unfold msgRelease at h
  split_ifs at h
  · rw [Option.some.inj h]
  · obtain ⟨tcb, -, h⟩ := Option.bind_eq_some_iff.mp h
    exact (prioReadyQueueInsertHead_vars h :)

/-- What `msg_get` does not write to stays. -/
theorem mem_msgGet_of_not_written {x : ℕ} (hm : k.taken (some q) = some m)
    (h : k.exec (.msgGet (some q) (some buf)) = some (k', r))
    (hx : x ∉ k.msgGetWrites (some q) (some buf)) : k'.mem x = k.mem x := by
  simp only [msgGetWrites, hm] at hx
  rw [mem_msgGet hm h]
  exact if_neg hx

/-- A `msg_put` that returns `TRUE` has found room. -/
theorem count_lt_of_msgPut (h : k.exec (.msgPut (some q) (some m) method) = some (k', .TRUE)) :
    (k.queue q).count < (k.queue q).length := by
  have h : k.msgPut (some q) (some m) method = some (k', .TRUE) := h
  rw [msgPut_eq] at h
  split_ifs at h with hfull
  · exact absurd (Prod.mk.inj (Option.some.inj h)).2 (by simp)
  · obtain ⟨k₁, hrel, hins⟩ := Option.bind_eq_some_iff.mp h
    have hqueue : k₁.queue = k.queue := congrArg Vars.queue (msgRelease_vars hrel)
    unfold msgInsert at hins
    split_ifs at hins with hroom
    · exact absurd (Prod.mk.inj (Option.some.inj hins)).2 (by simp)
    all_goals
      rw [hqueue] at hroom
      omega

end Kernel

section Runs

variable {hst : Hist} {tr later earlier : Trace Kernel} {s₀ s s' : Sys Kernel} {a a' : Abs}
  {act : Action} {guard : Trace Kernel → Sys Kernel → Action → Prop}

/-- No step changes the fields of a message. -/
theorem Lockstep.msg_eq (h : Lockstep s a act s' a') (hcore : Core hst s a)
    (hcore' : Core ((s.running, act) :: hst) s' a') : s'.k.msg = s.k.msg := by
  rw [hcore'.sim.refines.msg_eq, hcore.sim.refines.msg_eq]
  obtain ⟨t, hnew⟩ := a.exists_caller
  cases h with
  | main hr hk ha => exact (Abs.exec_frame hnew ha).msg
  | call hr hf hk ha hnew' => exact (Abs.exec_frame hnew ha).msg
  | tick hr hf hk ha =>
    have hvars := (hcore.sim.wf.passFrom_hardwareTimer ha).1.vars
    rw [hvars]
  | ret hr hf => rfl
  | pass hr hf hk ha =>
    obtain ⟨hentry, hmem, -⟩ := hcore.timer _ _ hf
    have hvars := (hcore.sim.wf.passFrom_hardwareTimerResume hentry hmem ha).1.vars
    rw [hvars]
  | start hr => rfl

/-- No run changes the fields of a message. -/
theorem SysRun.msg_eq (hguard : ∀ tr s act, guard tr s act → Orderly (hist tr) s act)
    (h : SysRun guard (later ++ (s₀, act) :: earlier) s) : s.k.msg = s₀.k.msg := by
  induction later generalizing s with
  | nil =>
    cases h with
    | cons hr hg hs =>
      obtain ⟨a, hcore⟩ := SysRun.core hr hguard
      obtain ⟨a', hl, hcore'⟩ := hcore.lockstep (hguard _ _ _ hg) hs
      exact hl.msg_eq hcore hcore'
  | cons e later ih =>
    cases h with
    | cons hr hg hs =>
      obtain ⟨a, hcore⟩ := SysRun.core hr hguard
      obtain ⟨a', hl, hcore'⟩ := hcore.lockstep (hguard _ _ _ hg) hs
      exact (hl.msg_eq hcore hcore').trans (ih hr)

end Runs

/-- A `msg_put` in `k₀` and a `msg_get` from `k` to `k'` pass on the message. -/
structure RoundTrip (k₀ : Kernel) (q m : ℕ) (k : Kernel) (buf : ℕ) (k' : Kernel) : Prop where
  /-- The first `length` bytes of the buffer are those that the message had when it was put. -/
  delivered : ∀ i < (k₀.msg m).length, k'.mem (buf + i) = k₀.mem ((k₀.msg m).buff + i)
  /-- Nothing is written behind them. -/
  written : k.msgGetWrites (some q) (some buf) ⊆ bytes buf (k₀.msg m).length
  /-- `msg_put` reads nothing behind the message. -/
  logged : k₀.msgPutReads (some q) (some m) ⊆ bytes (k₀.msg m).buff (k₀.msg m).length
  /-- Nor does `msg_get`. -/
  copied : k.msgGetReads (some q) ⊆ bytes (k₀.msg m).buff (k₀.msg m).length

/-- The message has five bytes at least and a NUL, and when it is taken, its first five bytes are
those that it was put with, and the buffer has the other ones. -/
structure Fits (k₀ : Kernel) (m : ℕ) (k : Kernel) (buf : ℕ) : Prop where
  five : 5 ≤ (k₀.msg m).length
  terminated : ∃ i < (k₀.msg m).length, k₀.mem ((k₀.msg m).buff + i) = 0
  first : ∀ i < 5, k.mem ((k₀.msg m).buff + i) = k₀.mem ((k₀.msg m).buff + i)
  rest : ∀ i, 5 ≤ i → i < (k₀.msg m).length → k.mem (buf + i) = k₀.mem ((k₀.msg m).buff + i)

/-- Five bytes lie within `n` bytes exactly if `n` is at least five. -/
theorem bytes_subset {p n l : ℕ} (h : 0 < n) : bytes p n ⊆ bytes p l ↔ n ≤ l := by
  constructor
  · intro hsub
    have hlast : p + (n - 1) ∈ bytes p n := ⟨by omega, by omega⟩
    have := (hsub hlast).2
    omega
  · rintro hle x ⟨hp, hx⟩
    exact ⟨hp, by omega⟩

/-- `%s` reads no more than `n` bytes exactly if one of them is NUL. -/
theorem printed_subset {mem : ℕ → ℕ} {p n : ℕ} :
    printed mem p ⊆ bytes p n ↔ ∃ i < n, mem (p + i) = 0 := by
  constructor
  · intro hsub
    by_contra hno
    push Not at hno
    have hbehind : p + n ∈ printed mem p := by
      refine ⟨Nat.le_add_right p n, fun y hy hlt => ?_⟩
      obtain ⟨i, rfl⟩ := Nat.exists_eq_add_of_le hy
      exact hno i (by omega)
    have := (hsub hbehind).2
    omega
  · rintro ⟨i, hi, hzero⟩ x ⟨hp, hx⟩
    refine ⟨hp, ?_⟩
    by_contra hlt
    exact hx (p + i) (by omega) (by omega) hzero

/-- In every run, a message that is put and taken makes the round trip exactly if it fits. -/
theorem msg_round_trip_iff {later earlier : Trace Kernel} {s₀ s : Sys Kernel}
    {q m method buf : ℕ} {k₁ k' : Kernel} {r : Ret} {ms : List Node}
    (hrun : SysRun (fun tr s act => Orderly (hist tr) s act)
      (later ++ (s₀, .call (.msgPut (some q) (some m) method)) :: earlier) s)
    (hput : s₀.k.exec (.msgPut (some q) (some m) method) = some (k₁, .TRUE))
    (hfirst : Represents s.k.heap (.msgHead q) (.msg m :: ms))
    (hget : s.k.exec (.msgGet (some q) (some buf)) = some (k', r)) :
    RoundTrip s₀.k q m s.k buf k' ↔ Fits s₀.k m s.k buf := by
  -- Nothing writes to a message between its put and its get.
  have hmsg : s.k.msg = s₀.k.msg := SysRun.msg_eq (fun _ _ _ hg => hg) hrun
  have htaken := Kernel.taken_of_first hfirst
  have hmem := Kernel.mem_msgGet htaken hget
  rw [hmsg] at hmem
  -- Whatever the length is, five bytes are copied.
  have hwrites : s.k.msgGetWrites (some q) (some buf) = bytes buf 5 := by
    simp only [Kernel.msgGetWrites, htaken]
  have hreads : s.k.msgGetReads (some q) = bytes (s₀.k.msg m).buff 5 := by
    simp only [Kernel.msgGetReads, htaken, hmsg]
  have hlog : s₀.k.msgPutReads (some q) (some m) = printed s₀.k.mem (s₀.k.msg m).buff :=
    if_pos (Kernel.count_lt_of_msgPut hput)
  constructor
  · rintro ⟨hdelivered, hwritten, hlogged, -⟩
    have hfive : 5 ≤ (s₀.k.msg m).length := (bytes_subset (by decide)).mp (hwrites ▸ hwritten)
    refine ⟨hfive, printed_subset.mp (hlog ▸ hlogged), fun i hi => ?_, fun i h5 hi => ?_⟩
    · have := hdelivered i (by omega)
      rwa [hmem, Kernel.memcpy_add, if_pos hi] at this
    · have := hdelivered i hi
      -- Behind the first five bytes the buffer is as it was.
      rwa [hmem, Kernel.memcpy_add, if_neg (by omega)] at this
  · rintro ⟨hfive, hnul, hsame, hrest⟩
    refine ⟨fun i hi => ?_, hwrites ▸ (bytes_subset (by decide)).mpr hfive,
      hlog ▸ printed_subset.mpr hnul, hreads ▸ (bytes_subset (by decide)).mpr hfive⟩
    rw [hmem, Kernel.memcpy_add]
    split_ifs with h5
    · exact hsame i h5
    · exact hrest i (by omega) hi

/-- A task runs, and a queue is empty. -/
def empty : List Move := [
  .call (.taskCreate (some (.task 1)) (some 0) (some 0) 5),
  .call (.msgQueueCreate (some 0) 1),
  .start, .call .schedule]

/-- Whatever the messages and the memory are, the task can put a message and take it. -/
theorem put_get_empty (msg : ℕ → Msg) (mem : ℕ → ℕ) : ∃ tr s₀ s k₁ k',
    SysRun (fun tr s act => Orderly (hist tr) s act)
      ([] ++ (s₀, .call (.msgPut (some 0) (some 1) FIFO)) :: tr) s ∧
      s₀.k.exec (.msgPut (some 0) (some 1) FIFO) = some (k₁, .TRUE) ∧
        Represents s.k.heap (.msgHead 0) [.msg 1] ∧
          s.k.exec (.msgGet (some 0) (some 100)) = some (k', .TRUE) ∧
            s₀.k.msg = msg ∧ s₀.k.mem = mem ∧ s.k.mem = mem := by
  have hreplay : (replay (fun _ _ _ => true) empty [] (Sys.filled msg mem)).map (fun r =>
      ((Move.call (.msgPut (some 0) (some 1) FIFO)).check (hist r.1) r.2, r.2.k.msg, r.2.k.mem,
        r.2.live (.queue 0), r.2.running, r.2.frame (.task 1),
        (r.2.k.exec (.msgPut (some 0) (some 1) FIFO)).map fun p =>
          (p.2, p.1.msgs 0, p.1.mem, p.1.newTask,
          (p.1.exec (.msgGet (some 0) (some 100))).map Prod.snd))) =
        some (true, msg, mem, true, some (.task 1), none,
          some (.TRUE, [1], mem, some (.task 1), some .TRUE)) := rfl
  obtain ⟨⟨trA, sA⟩, hr, hh⟩ := Option.map_eq_some_iff.mp hreplay
  obtain ⟨tr, s₀, a, hrun, hcore, rfl, -, hnext⟩ :=
    replay_orderly (Sys.filled_init msg mem) hr
  simp only [Prod.mk.injEq] at hh
  obtain ⟨hcheck, hmsg, hmem, hlive, hrunning, hframe, hput⟩ := hh
  rw [hcore.running_over] at hrunning
  -- The message is put.
  have ho := hnext _ hcheck
  obtain ⟨s, a₁, hl, hcore'⟩ := hcore.step ho fun t ht => by
    obtain rfl : t = .task 1 := Option.some.inj (ht.symm.trans hrunning)
    exact hframe
  have hrun' := Runs.Run.cons hrun ho hl.step
  cases hl with
  | main hr' => simp [hrunning] at hr'
  | call hr' hf hk ha hnew =>
    rw [show (s₀.over a).k.exec _ = _ from ha, Option.map_some, Option.some.injEq] at hput
    simp only [Prod.mk.injEq] at hput
    obtain ⟨rfl, hmsgs, hmem', hnew', hget⟩ := hput
    have hrep := hcore'.sim.refines.rep_msgs (i := 0) hlive
    rw [hmsgs] at hrep
    -- The message is taken.
    obtain ⟨k', a₂, r, ek, ea, -⟩ :=
      hcore'.sim.msgGet hnew' (by decide) (i := 0) hlive (some 100)
    rw [show Abs.exec (.msgGet (some 0) (some 100)) _ = _ from ea, Option.map_some,
      Option.some.injEq] at hget
    obtain rfl := hget
    exact ⟨tr, s₀, _, _, k', hrun', hk, hrep, ek, hcore.sim.refines.msg_eq.trans hmsg,
      hcore.sim.refines.mem_eq.trans hmem, hcore'.sim.refines.mem_eq.trans hmem'⟩

/-- A memory with the message `AB\0CD` in it, and all ones elsewhere. -/
def nulInside (x : ℕ) : ℕ := if 1000 ≤ x then [65, 66, 0, 67, 68].getD (x - 1000) 255 else 255

/-- The message `AB\0CD` makes the round trip. The buffer is all ones before. -/
theorem msg_round_trip_nulInside : ∃ tr s₀ s k₁ k',
    SysRun (fun tr s act => Orderly (hist tr) s act)
      ([] ++ (s₀, .call (.msgPut (some 0) (some 1) FIFO)) :: tr) s ∧
      s₀.k.exec (.msgPut (some 0) (some 1) FIFO) = some (k₁, .TRUE) ∧
        Represents s.k.heap (.msgHead 0) [.msg 1] ∧
          s.k.exec (.msgGet (some 0) (some 100)) = some (k', .TRUE) ∧
            RoundTrip s₀.k 0 1 s.k 100 k' ∧
              (List.range 5).map (fun i => s.k.mem (100 + i)) = [255, 255, 255, 255, 255] ∧
                (List.range 5).map (fun i => k'.mem (100 + i)) = [65, 66, 0, 67, 68] := by
  obtain ⟨tr, s₀, s, k₁, k', hrun, hput, hfirst, hget, hmsg, hmem, hmem'⟩ :=
    put_get_empty (fun _ => ⟨5, 1000⟩) nulInside
  have htrip := (msg_round_trip_iff hrun hput hfirst hget).mpr
    ⟨by simp [hmsg], ⟨2, by simp [hmsg], by rw [hmsg, hmem]; rfl⟩, fun i _ => by rw [hmem, hmem'],
      fun i h5 hi => absurd h5 (by simpa [hmsg] using hi)⟩
  have hmsg' : s.k.msg = fun _ => ⟨5, 1000⟩ := (SysRun.msg_eq (fun _ _ _ hg => hg) hrun).trans hmsg
  refine ⟨tr, s₀, s, k₁, k', hrun, hput, hfirst, hget, htrip, by rw [hmem']; rfl, ?_⟩
  rw [Kernel.mem_msgGet (Kernel.taken_of_first hfirst) hget, hmem', hmsg']
  rfl

/-- The sixth byte of a message of six bytes does not reach a buffer of zeros. -/
theorem not_msg_round_trip_sixth : ∃ tr s₀ s k₁ k',
    SysRun (fun tr s act => Orderly (hist tr) s act)
      ([] ++ (s₀, .call (.msgPut (some 0) (some 1) FIFO)) :: tr) s ∧
      s₀.k.exec (.msgPut (some 0) (some 1) FIFO) = some (k₁, .TRUE) ∧
        Represents s.k.heap (.msgHead 0) [.msg 1] ∧
          s.k.exec (.msgGet (some 0) (some 100)) = some (k', .TRUE) ∧
            s₀.k.msg 1 = ⟨6, 1000⟩ ∧ s₀.k.mem 1005 = 33 ∧ k'.mem 105 = 0 ∧
              ¬ RoundTrip s₀.k 0 1 s.k 100 k' := by
  obtain ⟨tr, s₀, s, k₁, k', hrun, hput, hfirst, hget, hmsg, hmem, hmem'⟩ :=
    put_get_empty (fun _ => ⟨6, 1000⟩) (update (fun _ => 0) 1005 33)
  have hsixth : k'.mem 105 = 0 := by
    rw [Kernel.mem_msgGet (Kernel.taken_of_first hfirst) hget, hmem']
    rfl
  refine ⟨tr, s₀, s, k₁, k', hrun, hput, hfirst, hget, by rw [hmsg], by rw [hmem]; rfl, hsixth, ?_⟩
  intro h
  have hcopy := h.delivered 5 (by simp [hmsg])
  rw [hsixth, hmsg, hmem] at hcopy
  exact absurd hcopy (by decide)

end Fos
