import Fos.Lib.Loops

/-!
# Code that interrupts may come into

A `Prog` is code that runs statement by statement on a processor. Between two statements there is a
point. Where the status register has interrupts enabled, a handler may run at the point, and other
code with it, and leave the memory changed. The same happens where the code hands the processor
over. What others leave is part of the `Cpu` that the code starts on, so that a `Prog` is a
function, and a statement about every `Cpu` is one about all that can happen in between.

`Triple` is partial correctness, with a rule for each way to build a `Prog`. `Restores` and `Keeps`
are the triples of code that leaves the status register as it found it, and of code that keeps an
invariant of the memory which others keep too. The `_masked` lemmas run code that no interrupt comes
into.
-/

namespace Interrupts

open Loops

/-- A status register, with the bits that enable interrupts. -/
class Status (ρ : Type) where
  /-- Some interrupt is enabled. -/
  enabled : ρ → Bool
  /-- The bits cleared. -/
  mask : ρ → ρ
  /-- None is enabled then. -/
  enabled_mask : ∀ r, enabled (mask r) = false
  /-- They may have been cleared before. -/
  mask_of_masked : ∀ r, enabled r = false → mask r = r

/-- Why code stops before its end. -/
inductive Stop where
  /-- It indexes an array out of its bounds. -/
  | outOfBounds
  /-- It spins, or does what has no meaning. -/
  | stuck
  /-- It has handed the processor over, and has not got it back. -/
  | switched
  deriving DecidableEq

/-- The processor that code runs on. -/
structure Cpu (ρ σ : Type) where
  mem : σ
  sr : ρ
  /-- What others leave in memory at the places where they may run, or `none` where they do not. -/
  others : ℕ → Option σ
  /-- How many of these places have been passed. -/
  clock : ℕ
  /-- The memory at the points at which interrupts were enabled, the latest first. -/
  points : List σ

/-- What there is behind a point between two statements. -/
def Cpu.passed {ρ σ : Type} [Status ρ] (c : Cpu ρ σ) : Cpu ρ σ :=
  if Status.enabled c.sr then
    { c with
      mem := (c.others c.clock).getD c.mem
      clock := c.clock + 1
      points := c.mem :: c.points }
  else c

@[simp] theorem Cpu.passed_sr {ρ σ : Type} [Status ρ] (c : Cpu ρ σ) : c.passed.sr = c.sr := by
  unfold Cpu.passed
  split_ifs <;> rfl

@[simp] theorem Cpu.passed_others {ρ σ : Type} [Status ρ] (c : Cpu ρ σ) :
    c.passed.others = c.others := by
  unfold Cpu.passed
  split_ifs <;> rfl

/-- Masked code passes its points by. -/
theorem Cpu.passed_masked {ρ σ : Type} [Status ρ] {c : Cpu ρ σ}
    (h : Status.enabled c.sr = false) : c.passed = c := by
  unfold Cpu.passed
  rw [if_neg (by simp [h])]

/-- Code that gives an `α`. It is `none` where it does not end. -/
def Prog (ρ σ α : Type) : Type := Cpu ρ σ → Option (Except Stop α × Cpu ρ σ)

namespace Prog

variable {ρ σ α β : Type}

/-- Code that does nothing. -/
protected def pure (a : α) : Prog ρ σ α := fun c => some (.ok a, c)

/-- Code, and then more code. -/
protected def bind (m : Prog ρ σ α) (f : α → Prog ρ σ β) : Prog ρ σ β := fun c =>
  match m c with
  | none => none
  | some (.ok a, c) => f a c
  | some (.error e, c) => some (.error e, c)

instance : Monad (Prog ρ σ) where
  pure := Prog.pure
  bind := Prog.bind

/-- Code that stops. -/
def stop (e : Stop) : Prog ρ σ α := fun c => some (.error e, c)

/-- One round of a loop, on the value that the rounds pass on and the processor. -/
def round (body : β → Prog ρ σ (β ⊕ α)) (s : β × Cpu ρ σ) :
    Option ((β × Cpu ρ σ) ⊕ (Except Stop α × Cpu ρ σ)) :=
  (body s.1 s.2).map fun
    | (.ok (.inl b), c) => .inl (b, c)
    | (.ok (.inr a), c) => .inr (.ok a, c)
    | (.error e, c) => .inr (.error e, c)

/-- A loop: one round after the other, until one gives an `α`. -/
def loop (body : β → Prog ρ σ (β ⊕ α)) (b : β) : Prog ρ σ α :=
  fun c => repeatUntil (round body) (b, c)

/-- An access to an array. -/
def inBounds (b : Bool) : Prog ρ σ Unit :=
  if b then pure () else stop .outOfBounds

/-- An access to what the code runs on. -/
def step (f : Cpu ρ σ → α × Cpu ρ σ) : Prog ρ σ α := fun c => some (.ok (f c).1, (f c).2)

/-- The processor is handed over, and comes back with the status register as it was. -/
def handOver : Prog ρ σ Unit := fun c =>
  match c.others c.clock with
  | some s => some (.ok (), { c with mem := s, clock := c.clock + 1 })
  | none => some (.error .switched, c)

section Statements

variable [Status ρ]

/-- A point between two statements. -/
def point : Prog ρ σ Unit := step fun c => ((), c.passed)

/-- A statement: a point, and an access to the memory. -/
def access (f : σ → α × σ) : Prog ρ σ α := do
  point
  step fun c => ((f c.mem).1, { c with mem := (f c.mem).2 })

/-- A statement that reads. -/
def read (f : σ → α) : Prog ρ σ α := access fun s => (f s, s)

/-- A condition. -/
def test (p : σ → Prop) [DecidablePred p] : Prog ρ σ Bool := read fun s => decide (p s)

/-- A statement that writes. -/
def write (f : σ → σ) : Prog ρ σ Unit := access fun s => ((), f s)

/-- A statement that reads through what may not be there. -/
def readSome (f : σ → Option α) : Prog ρ σ α := do
  match ← read f with
  | some a => pure a
  | none => stop .stuck

/-- The end of a function. -/
def ret (a : α) : Prog ρ σ α := do
  point
  pure a

/-- The status register is read. -/
def getSr : Prog ρ σ ρ := do
  point
  step fun c => (c.sr, c)

/-- The status register is written. -/
def setSr (r : ρ) : Prog ρ σ Unit := do
  point
  step fun c => ((), { c with sr := r })

/-- The trap with which the processor is handed over. -/
def switch : Prog ρ σ Unit := do
  point
  handOver

/-- Interrupts are masked, and the status register before is returned. -/
def disable : Prog ρ σ ρ := do
  let r ← getSr
  setSr (Status.mask r)
  ret r

/-- Masked code in between. -/
def critical (m : Prog ρ σ α) : Prog ρ σ α := do
  let r ← disable
  let a ← m
  setSr r
  pure a

end Statements

/-! ## Where one part ends the next begins -/

section Bind

variable {m : Prog ρ σ α} {f : α → Prog ρ σ β} {c c' : Cpu ρ σ} {a : α} {e : Stop}

theorem bind_apply (m : Prog ρ σ α) (f : α → Prog ρ σ β) (c : Cpu ρ σ) : (m >>= f) c =
    match m c with
    | none => none
    | some (.ok a, c) => f a c
    | some (.error e, c) => some (.error e, c) := rfl

/-- Code that ends gives way to the code behind it. -/
theorem bind_of_ok (h : m c = some (.ok a, c')) : (m >>= f) c = f a c' := by
  rw [bind_apply, h]

/-- A round that gives a value ends a loop. -/
theorem loop_of_inr {body : β → Prog ρ σ (β ⊕ α)} {b : β} (h : body b c = some (.ok (.inr a), c')) :
    loop body b c = some (.ok a, c') := by
  apply repeatUntil_of_inr
  rw [round, h]
  rfl

end Bind

/-! ## Partial correctness -/

/-- From a state with `P`, code ends or stops in one with `Q`. -/
def Triple (P : Cpu ρ σ → Prop) (m : Prog ρ σ α) (Q : Except Stop α → Cpu ρ σ → Prop) : Prop :=
  ∀ c, P c → ∀ r c', m c = some (r, c') → Q r c'

section Triple

variable {P P' : Cpu ρ σ → Prop} {Q Q' : Except Stop α → Cpu ρ σ → Prop}
  {R : Except Stop β → Cpu ρ σ → Prop} {m : Prog ρ σ α} {f : α → Prog ρ σ β}

theorem Triple.pure {a : α} (h : ∀ c, P c → Q (.ok a) c) : Triple P (Pure.pure a) Q := by
  intro c hc r c' hr
  obtain ⟨rfl, rfl⟩ := Prod.mk.inj (Option.some.inj hr)
  exact h _ hc

theorem Triple.stop {e : Stop} (h : ∀ c, P c → Q (.error e) c) : Triple P (Prog.stop e) Q := by
  intro c hc r c' hr
  obtain ⟨rfl, rfl⟩ := Prod.mk.inj (Option.some.inj hr)
  exact h _ hc

theorem Triple.step {f : Cpu ρ σ → α × Cpu ρ σ} (h : ∀ c, P c → Q (.ok (f c).1) (f c).2) :
    Triple P (Prog.step f) Q := by
  intro c hc r c' hr
  obtain ⟨rfl, rfl⟩ := Prod.mk.inj (Option.some.inj hr)
  exact h _ hc

/-- The rule of composition. -/
theorem Triple.bind (hm : Triple P m Q) (hf : ∀ a, Triple (Q (.ok a)) (f a) R)
    (he : ∀ e c, Q (.error e) c → R (.error e) c) : Triple P (m >>= f) R := by
  intro c hc r c' hr
  rw [bind_apply] at hr
  split at hr
  · simp at hr
  · next a c₁ h₁ => exact hf a c₁ (hm c hc _ _ h₁) r c' hr
  · next e c₁ h₁ =>
    obtain ⟨rfl, rfl⟩ := Prod.mk.inj (Option.some.inj hr)
    exact he e c₁ (hm c hc _ _ h₁)

/-- The rule of consequence. -/
theorem Triple.conseq (h : Triple P m Q) (hP : ∀ c, P' c → P c) (hQ : ∀ r c, Q r c → Q' r c) :
    Triple P' m Q' :=
  fun c hc r c' hr => hQ r c' (h c (hP c hc) r c' hr)

/-- The rule of loops: a round that goes on keeps the invariant. -/
theorem Triple.loop {body : β → Prog ρ σ (β ⊕ α)} {I : β → Cpu ρ σ → Prop}
    (h : ∀ b, Triple (I b) (body b) fun r c =>
      match r with
      | .ok (.inl b) => I b c
      | .ok (.inr a) => Q (.ok a) c
      | .error e => Q (.error e) c) (b : β) : Triple (I b) (Prog.loop body b) Q := by
  intro c hc r c' hr
  refine repeatUntil_induct (P := fun s out => I s.1 s.2 → Q out.1 out.2) ?_ ?_ hr hc
  · -- The last round, which gives a value or stops.
    rintro ⟨b, c⟩ out hround hI
    obtain ⟨⟨e | b' | a, c₁⟩, h₁, hout⟩ := Option.map_eq_some_iff.mp hround
    · obtain rfl := Sum.inr.inj hout
      exact h b c hI _ _ h₁
    · cases hout
    · obtain rfl := Sum.inr.inj hout
      exact h b c hI _ _ h₁
  · rintro ⟨b, c⟩ ⟨b', c'⟩ hround out ih hI
    obtain ⟨⟨e | b'' | a, c₁⟩, h₁, hout⟩ := Option.map_eq_some_iff.mp hround
    · cases hout
    · obtain ⟨rfl, rfl⟩ := Prod.mk.inj (Sum.inl.inj hout)
      exact ih (h b c hI _ _ h₁)
    · cases hout

end Triple

/-! ## The status register -/

/-- Code that ends leaves the status register as it found it. -/
def Restores (m : Prog ρ σ α) : Prop :=
  ∀ r : ρ, Triple (fun c => c.sr = r) m fun res c => ∀ a, res = .ok a → c.sr = r

theorem Restores.pure (a : α) : Restores (Pure.pure a : Prog ρ σ α) :=
  fun _ => Triple.pure fun _ hc _ _ => hc

theorem Restores.stop (e : Stop) : Restores (Prog.stop e : Prog ρ σ α) :=
  fun _ => Triple.stop fun _ _ _ h => by simp at h

theorem Restores.step {f : Cpu ρ σ → α × Cpu ρ σ} (h : ∀ c, (f c).2.sr = c.sr) :
    Restores (Prog.step f) :=
  fun _ => Triple.step fun c hc _ _ => (h c).trans hc

theorem Restores.bind {m : Prog ρ σ α} {f : α → Prog ρ σ β} (hm : Restores m)
    (hf : ∀ a, Restores (f a)) : Restores (m >>= f) :=
  fun r => Triple.bind (hm r)
    (fun a => (hf a r).conseq (fun _ hc => hc a rfl) fun _ _ h => h)
    fun _ _ _ _ h => by simp at h

theorem Restores.ite {p : Prop} [Decidable p] {m m' : Prog ρ σ α} (h : Restores m)
    (h' : Restores m') : Restores (if p then m else m') := by
  split_ifs
  · exact h
  · exact h'

theorem Restores.inBounds (b : Bool) : Restores (Prog.inBounds b : Prog ρ σ Unit) := by
  unfold Prog.inBounds
  split_ifs
  · exact .pure ()
  · exact .stop _

theorem Restores.handOver : Restores (Prog.handOver : Prog ρ σ Unit) := by
  intro r c hc res c' hr a ha
  unfold Prog.handOver at hr
  split at hr
  · obtain ⟨-, rfl⟩ := Prod.mk.inj (Option.some.inj hr)
    exact hc
  · obtain ⟨rfl, -⟩ := Prod.mk.inj (Option.some.inj hr)
    simp at ha

theorem Restores.loop {body : β → Prog ρ σ (β ⊕ α)} (h : ∀ b, Restores (body b)) (b : β) :
    Restores (Prog.loop body b) := by
  intro r
  refine Triple.loop (I := fun _ c => c.sr = r) (fun b => (h b r).conseq (fun _ hc => hc) ?_) b
  rintro (e | b | a) c hc
  · exact fun _ h => by simp at h
  · exact hc _ rfl
  · exact fun _ _ => hc _ rfl

/-- Code that ends leaves `r` in the status register. -/
def Leaves (r : ρ) (m : Prog ρ σ α) : Prop :=
  Triple (fun _ => True) m fun res c => ∀ a, res = .ok a → c.sr = r

section Leaves

variable {r : ρ} {m : Prog ρ σ α} {f : α → Prog ρ σ β}

/-- It counts what the code does last. -/
theorem Leaves.last (hf : ∀ a, Leaves r (f a)) : Leaves r (m >>= f) :=
  Triple.bind (fun _ _ _ _ _ => trivial)
    (fun a => (hf a).conseq (fun _ _ => trivial) fun _ _ h => h)
    fun _ _ _ _ h => by simp at h

/-- What restores the status register may come behind. -/
theorem Leaves.bind (hm : Leaves r m) (hf : ∀ a, Restores (f a)) : Leaves r (m >>= f) :=
  Triple.bind hm (fun a => (hf a r).conseq (fun _ hc => hc a rfl) fun _ _ h => h)
    fun _ _ _ _ h => by simp at h

end Leaves

/-! ## Invariants of the memory -/

/-- The memory satisfies `I`, now, at the points behind, and wherever others will leave it. -/
structure Inv (I : σ → Prop) (c : Cpu ρ σ) : Prop where
  mem : I c.mem
  others : ∀ i s, c.others i = some s → I s
  points : ∀ s ∈ c.points, I s

/-- Where others keep `I`, the code keeps it too, and indexes no array out of its bounds. What it
gives satisfies `V`. -/
def Keeps (I : σ → Prop) (m : Prog ρ σ α) (V : α → Prop) : Prop :=
  Triple (Inv I) m fun r c => Inv I c ∧ r ≠ .error .outOfBounds ∧ ∀ a, r = .ok a → V a

section Keeps

variable {I : σ → Prop} {V V' : α → Prop} {W : β → Prop} {m : Prog ρ σ α} {f : α → Prog ρ σ β}

theorem Keeps.pure {a : α} (h : V a) : Keeps I (Pure.pure a : Prog ρ σ α) V :=
  Triple.pure fun _ hc => ⟨hc, by simp, fun _ ha => Except.ok.inj ha ▸ h⟩

theorem Keeps.stop {e : Stop} (h : e ≠ .outOfBounds) : Keeps I (Prog.stop e : Prog ρ σ α) V :=
  Triple.stop fun _ hc => ⟨hc, by simpa using h, fun _ ha => by simp at ha⟩

theorem Keeps.step {f : Cpu ρ σ → α × Cpu ρ σ} (h : ∀ c, Inv I c → Inv I (f c).2 ∧ V (f c).1) :
    Keeps I (Prog.step f) V :=
  Triple.step fun c hc => ⟨(h c hc).1, by simp, fun _ ha => Except.ok.inj ha ▸ (h c hc).2⟩

theorem Keeps.bind (hm : Keeps I m V) (hf : ∀ a, V a → Keeps I (f a) W) :
    Keeps I (m >>= f) W :=
  Triple.bind hm (fun a c hc => hf a (hc.2.2 a rfl) c hc.1)
    fun _ _ hc => ⟨hc.1, by simpa using hc.2.1, fun _ ha => by simp at ha⟩

theorem Keeps.ite {p : Prop} [Decidable p] {m m' : Prog ρ σ α} (h : p → Keeps I m V)
    (h' : ¬ p → Keeps I m' V) : Keeps I (if p then m else m') V := by
  split_ifs with hp
  · exact h hp
  · exact h' hp

theorem Keeps.mono (hm : Keeps I m V) (h : ∀ a, V a → V' a) : Keeps I m V' :=
  hm.conseq (fun _ hc => hc) fun _ _ hr => ⟨hr.1, hr.2.1, fun a ha => h a (hr.2.2 a ha)⟩

theorem Keeps.inBounds {b : Bool} (h : b = true) :
    Keeps I (Prog.inBounds b : Prog ρ σ Unit) fun _ => True := by
  rw [h]
  exact Keeps.pure trivial

theorem Keeps.handOver : Keeps I (Prog.handOver : Prog ρ σ Unit) fun _ => True := by
  intro c hc r c' hr
  unfold Prog.handOver at hr
  split at hr
  · next s hs =>
    obtain ⟨rfl, rfl⟩ := Prod.mk.inj (Option.some.inj hr)
    exact ⟨⟨hc.others _ s hs, hc.others, hc.points⟩, by simp, fun _ _ => trivial⟩
  · obtain ⟨rfl, rfl⟩ := Prod.mk.inj (Option.some.inj hr)
    exact ⟨hc, by simp, fun _ _ => trivial⟩

theorem Keeps.loop {body : β → Prog ρ σ (β ⊕ α)} {B : β → Prop}
    (h : ∀ b, B b → Keeps I (body b) (Sum.elim B V)) {b : β} (hb : B b) :
    Keeps I (Prog.loop body b) V := by
  have hloop : ∀ b, Triple (fun c : Cpu ρ σ => B b ∧ Inv I c) (Prog.loop body b)
      fun r c => Inv I c ∧ r ≠ .error .outOfBounds ∧ ∀ a, r = .ok a → V a := by
    refine Triple.loop fun b c hc r c' hr => ?_
    obtain ⟨hinv, hbounds, hval⟩ := h b hc.1 c hc.2 r c' hr
    match r with
    | .ok (.inl b') => exact ⟨hval _ rfl, hinv⟩
    | .ok (.inr a) => exact ⟨hinv, by simp, fun _ ha => Except.ok.inj ha ▸ hval _ rfl⟩
    | .error e => exact ⟨hinv, by simpa using hbounds, fun _ ha => by simp at ha⟩
  exact (hloop b).conseq (fun _ hc => ⟨hb, hc⟩) fun _ _ hr => hr

end Keeps

section Statements

variable [Status ρ]

/-! What the statements do, each behind its point. -/

theorem read_apply (f : σ → α) (c : Cpu ρ σ) :
    (Prog.read f : Prog ρ σ α) c = some (.ok (f c.passed.mem), c.passed) := rfl

theorem write_apply (f : σ → σ) (c : Cpu ρ σ) : (Prog.write f : Prog ρ σ Unit) c =
    some (.ok (), { c.passed with mem := f c.passed.mem }) := rfl

theorem ret_apply (a : α) (c : Cpu ρ σ) :
    (Prog.ret a : Prog ρ σ α) c = some (.ok a, c.passed) := rfl

theorem getSr_apply (c : Cpu ρ σ) :
    (Prog.getSr : Prog ρ σ ρ) c = some (.ok c.passed.sr, c.passed) := rfl

theorem setSr_apply (r : ρ) (c : Cpu ρ σ) :
    (Prog.setSr r : Prog ρ σ Unit) c = some (.ok (), { c.passed with sr := r }) := rfl

theorem Restores.point : Restores (Prog.point : Prog ρ σ Unit) :=
  .step fun c => c.passed_sr

theorem Restores.access (f : σ → α × σ) : Restores (Prog.access f : Prog ρ σ α) :=
  .bind .point fun _ => .step fun _ => rfl

theorem Restores.read (f : σ → α) : Restores (Prog.read f : Prog ρ σ α) := .access _

theorem Restores.test (p : σ → Prop) [DecidablePred p] :
    Restores (Prog.test p : Prog ρ σ Bool) := .read _

theorem Restores.write (f : σ → σ) : Restores (Prog.write f : Prog ρ σ Unit) := .access _

theorem Restores.readSome (f : σ → Option α) : Restores (Prog.readSome f : Prog ρ σ α) :=
  .bind (.read _) fun a => by
    cases a with
    | none => exact .stop _
    | some a => exact .pure a

theorem Restores.ret (a : α) : Restores (Prog.ret a : Prog ρ σ α) := .bind .point fun _ => .pure a

theorem Restores.getSr : Restores (Prog.getSr : Prog ρ σ ρ) :=
  .bind .point fun _ => .step fun _ => rfl

theorem Restores.switch : Restores (Prog.switch : Prog ρ σ Unit) := .bind .point fun _ => .handOver

theorem Leaves.setSr (r : ρ) : Leaves r (Prog.setSr r : Prog ρ σ Unit) :=
  .last fun _ => Triple.step fun _ _ _ _ => rfl

/-- What was in the status register is returned. -/
theorem Triple.disable (r : ρ) :
    Triple (fun c => c.sr = r) (Prog.disable : Prog ρ σ ρ)
      fun res _ => ∀ a, res = .ok a → a = r := by
  have hread : Triple (fun c => c.sr = r) (Prog.getSr : Prog ρ σ ρ)
      fun res _ => ∀ a, res = .ok a → a = r :=
    Triple.bind (Restores.point r)
      (fun _ => Triple.step fun c hc a ha => (Except.ok.inj ha).symm.trans (hc _ rfl))
      fun _ _ _ _ h => by simp at h
  refine Triple.bind hread (fun r' => ?_) fun _ _ _ _ h => by simp at h
  refine Triple.bind (Q := fun _ _ => r' = r) (fun _ hc _ _ _ => hc r' rfl) (fun _ => ?_)
    fun _ _ _ _ h => by simp at h
  exact Triple.bind (Q := fun _ _ => r' = r) (fun _ hc _ _ _ => hc)
    (fun _ => Triple.pure fun c hc a ha => (Except.ok.inj ha).symm.trans hc)
    fun _ _ _ _ h => by simp at h

/-- What is in the status register then. -/
theorem disable_eq (c : Cpu ρ σ) : ∃ c' : Cpu ρ σ,
    (Prog.disable : Prog ρ σ ρ) c = some (.ok c.sr, c') ∧ c'.sr = Status.mask c.sr := by
  refine ⟨({ c.passed.passed with sr := Status.mask c.passed.sr } : Cpu ρ σ).passed, ?_, ?_⟩
  · unfold Prog.disable
    rw [bind_of_ok (getSr_apply c), bind_of_ok (setSr_apply _ c.passed), ret_apply, Cpu.passed_sr]
  · rw [Cpu.passed_sr, Cpu.passed_sr]

/-- Code that masks interrupts restores the status register when it ends by writing it back. -/
theorem Restores.disable {f : ρ → Prog ρ σ α} (hf : ∀ r, Leaves r (f r)) :
    Restores (Prog.disable >>= f) :=
  fun r => Triple.bind (Triple.disable r)
    (fun r' c hc res c' hr a ha => (hf r' c trivial res c' hr a ha).trans (hc r' rfl))
    fun _ _ _ _ h => by simp at h

/-- Whatever is in between. -/
theorem Restores.critical (m : Prog ρ σ α) : Restores (Prog.critical m) :=
  .disable fun r => .last fun a => (Leaves.setSr r).bind fun _ => .pure a

section Keeps

variable {I : σ → Prop} {V : α → Prop} {m : Prog ρ σ α}

theorem Keeps.point : Keeps I (Prog.point : Prog ρ σ Unit) fun _ => True := by
  refine Keeps.step fun c hc => ⟨?_, trivial⟩
  unfold Cpu.passed
  split_ifs
  · refine ⟨?_, hc.others, fun s hs => ?_⟩
    · dsimp only
      cases ho : c.others c.clock with
      | none => exact hc.mem
      | some s => exact hc.others _ s ho
    · rcases List.mem_cons.mp hs with rfl | hs
      · exact hc.mem
      · exact hc.points s hs
  · exact hc

theorem Keeps.access {f : σ → α × σ} (h : ∀ s, I s → I (f s).2 ∧ V (f s).1) :
    Keeps I (Prog.access f : Prog ρ σ α) V :=
  .bind .point fun _ _ => .step fun _ hc =>
    ⟨⟨(h _ hc.mem).1, hc.others, hc.points⟩, (h _ hc.mem).2⟩

theorem Keeps.read {f : σ → α} (h : ∀ s, I s → V (f s)) : Keeps I (Prog.read f : Prog ρ σ α) V :=
  .access fun s hs => ⟨hs, h s hs⟩

/-- Nothing need be known of what is read. -/
theorem Keeps.readAny (f : σ → α) : Keeps I (Prog.read f : Prog ρ σ α) fun _ => True :=
  .read fun _ _ => trivial

theorem Keeps.test (p : σ → Prop) [DecidablePred p] :
    Keeps I (Prog.test p : Prog ρ σ Bool) fun _ => True := .readAny _

theorem Keeps.write {f : σ → σ} (h : ∀ s, I s → I (f s)) :
    Keeps I (Prog.write f : Prog ρ σ Unit) fun _ => True :=
  .access fun s hs => ⟨h s hs, trivial⟩

theorem Keeps.readSome {f : σ → Option α} (h : ∀ s, I s → ∀ a, f s = some a → V a) :
    Keeps I (Prog.readSome f : Prog ρ σ α) V :=
  .bind (.read (V := fun a => ∀ b, a = some b → V b) h) fun a ha => by
    cases a with
    | none => exact .stop (by simp)
    | some a => exact .pure (ha a rfl)

theorem Keeps.readSomeAny (f : σ → Option α) :
    Keeps I (Prog.readSome f : Prog ρ σ α) fun _ => True := .readSome fun _ _ _ _ => trivial

theorem Keeps.ret {a : α} (h : V a) : Keeps I (Prog.ret a : Prog ρ σ α) V :=
  .bind .point fun _ _ => .pure h

theorem Keeps.getSr : Keeps I (Prog.getSr : Prog ρ σ ρ) fun _ => True :=
  .bind .point fun _ _ => .step fun _ hc => ⟨hc, trivial⟩

theorem Keeps.setSr (r : ρ) : Keeps I (Prog.setSr r : Prog ρ σ Unit) fun _ => True :=
  .bind .point fun _ _ => .step fun _ hc => ⟨⟨hc.mem, hc.others, hc.points⟩, trivial⟩

theorem Keeps.switch : Keeps I (Prog.switch : Prog ρ σ Unit) fun _ => True :=
  .bind .point fun _ _ => .handOver

theorem Keeps.disable : Keeps I (Prog.disable : Prog ρ σ ρ) fun _ => True :=
  .bind .getSr fun _ _ => .bind (.setSr _) fun _ _ => .ret trivial

theorem Keeps.critical (hm : Keeps I m V) : Keeps I (Prog.critical m) V :=
  .bind .disable fun r _ => .bind hm fun _ ha => .bind (.setSr r) fun _ _ => .pure ha

end Keeps

/-! ## Masked code -/

section Masked

variable {c c' : Cpu ρ σ} {a : α}

theorem read_masked (h : Status.enabled c.sr = false) (f : σ → α) :
    (read f : Prog ρ σ α) c = some (.ok (f c.mem), c) := by
  rw [read_apply, Cpu.passed_masked h]

theorem write_masked (h : Status.enabled c.sr = false) (f : σ → σ) :
    (write f : Prog ρ σ Unit) c = some (.ok (), { c with mem := f c.mem }) := by
  rw [write_apply, Cpu.passed_masked h]

theorem test_masked (h : Status.enabled c.sr = false) (p : σ → Prop) [DecidablePred p] :
    (test p : Prog ρ σ Bool) c = some (.ok (decide (p c.mem)), c) := read_masked h _

end Masked

end Statements

end Prog

end Interrupts
