import Fos.Lib.Interrupts
import Mathlib.Data.Set.Insert

/-!
# Code that nothing comes into

Where nothing else runs, code is a function of the memory that it finds. `Walk V m s r s'` says what
the function is, and what the memory is at the points on the way: the code `m`, begun in `s`, comes
to its end `r` in `s'`, and where interrupts are enabled, `V` is the set of the memories that one
could come into. `Course` keeps a property of them only, and `Computes` nothing, for masked code has
no such points. There is a rule for each way to build a `Prog`.
-/

namespace Interrupts

open Loops

variable {ρ σ α β : Type} [Status ρ]

/-- Nothing else runs on the processor. -/
def Cpu.Quiet (c : Cpu ρ σ) : Prop := ∀ i, c.others i = none

/-- What a processor is left with: the memory `s'`, the status register as it was where the code has
ended, and the points passed, at which the memory was in `V`. -/
structure Walked (V : Set σ) (c : Cpu ρ σ) (r : Except Stop α) (s' : σ) (c' : Cpu ρ σ) : Prop where
  mem : c'.mem = s'
  others : c'.others = c.others
  sr : ∀ a, r = .ok a → c'.sr = c.sr
  points : ∃ new, c'.points = new ++ c.points ∧
    ∀ x, x ∈ new ↔ Status.enabled c.sr = true ∧ x ∈ V

/-- Masked code passes no points. -/
theorem Walked.points_of_masked {V : Set σ} {c c' : Cpu ρ σ} {r : Except Stop α} {s' : σ}
    (h : Walked V c r s' c') (hmask : Status.enabled c.sr = false) : c'.points = c.points := by
  obtain ⟨new, hnew, hV⟩ := h.points
  have hnil : new = [] := List.eq_nil_iff_forall_not_mem.mpr fun x hx => by
    simp [hmask] at hV
    exact hV x hx
  rw [hnew, hnil, List.nil_append]

/-- From the memory `s`, the code comes to its end `r` in the memory `s'`, past points at which the
memory is in `V`. -/
def Walk (V : Set σ) (m : Prog ρ σ α) (s : σ) (r : Except Stop α) (s' : σ) : Prop :=
  ∀ c : Cpu ρ σ, c.Quiet → c.mem = s → ∃ c', m c = some (r, c') ∧ Walked V c r s' c'

/-- From the memory `s`, the code comes to its end `r` in the memory `s'`, past points at which the
memory satisfies `P`. -/
def Course (P : σ → Prop) (m : Prog ρ σ α) (s : σ) (r : Except Stop α) (s' : σ) : Prop :=
  ∃ V, Walk V m s r s' ∧ ∀ x ∈ V, P x

/-- From the memory `s`, the code gives `a` and leaves `s'`. -/
abbrev Computes (m : Prog ρ σ α) (s : σ) (a : α) (s' : σ) : Prop :=
  Course (fun _ => True) m s (.ok a) s'

/-- A point between two statements leaves the memory as it is. -/
theorem Cpu.Quiet.passed {c : Cpu ρ σ} (h : c.Quiet) :
    c.passed.Quiet ∧ c.passed.mem = c.mem ∧
      ∃ new, c.passed.points = new ++ c.points ∧
        ∀ x, x ∈ new ↔ Status.enabled c.sr = true ∧ x = c.mem := by
  by_cases hs : Status.enabled c.sr = true
  · have hp : c.passed = { c with clock := c.clock + 1, points := c.mem :: c.points } := by
      unfold Cpu.passed
      rw [if_pos hs, h]
      rfl
    rw [hp]
    exact ⟨h, rfl, [c.mem], rfl, fun x => by simp [hs]⟩
  · rw [Cpu.passed_masked (Bool.eq_false_iff.mpr hs)]
    exact ⟨h, rfl, [], rfl, fun x => by simp [hs]⟩

namespace Walk

open Prog

variable {V W : Set σ} {m : Prog ρ σ α} {f : α → Prog ρ σ β} {s s₁ s₂ : σ} {a : α} {e : Stop}
  {r : Except Stop β}

theorem pure (a : α) (s : σ) : Walk ∅ (Pure.pure a : Prog ρ σ α) s (.ok a) s :=
  fun c _ hmem => ⟨c, rfl, hmem, rfl, fun _ _ => rfl, [], rfl, by simp⟩

theorem stop (e : Stop) (s : σ) : Walk ∅ (Prog.stop e : Prog ρ σ α) s (.error e) s :=
  fun c _ hmem => ⟨c, rfl, hmem, rfl, fun _ _ => rfl, [], rfl, by simp⟩

/-- The points of both parts are passed. -/
theorem bind (hm : Walk V m s (.ok a) s₁) (hf : Walk W (f a) s₁ r s₂) :
    Walk (V ∪ W) (m >>= f) s r s₂ := by
  intro c hc hmem
  obtain ⟨c₁, e₁, h₁⟩ := hm c hc hmem
  have hsr := h₁.sr a rfl
  have hc₁ : c₁.Quiet := by
    rw [Cpu.Quiet, h₁.others]
    exact hc
  obtain ⟨c₂, e₂, h₂⟩ := hf c₁ hc₁ h₁.mem
  obtain ⟨new₁, hp₁, hV⟩ := h₁.points
  obtain ⟨new₂, hp₂, hW⟩ := h₂.points
  refine ⟨c₂, (bind_of_ok e₁).trans e₂, h₂.mem, h₂.others.trans h₁.others,
    fun b hb => (h₂.sr b hb).trans hsr, new₂ ++ new₁, ?_, fun x => ?_⟩
  · rw [hp₂, hp₁, List.append_assoc]
  · rw [List.mem_append, hW, hV, hsr, Set.mem_union]
    tauto

/-- Nothing comes behind code that stops. -/
theorem bind_error (hm : Walk V m s (.error e) s₁) :
    Walk V (m >>= f) s (.error e) s₁ := by
  intro c hc hmem
  obtain ⟨c₁, e₁, h₁⟩ := hm c hc hmem
  exact ⟨c₁, by rw [bind_apply, e₁], h₁.mem, h₁.others, by simp, h₁.points⟩

theorem inBounds {b : Bool} (h : b = true) (s : σ) :
    Walk ∅ (Prog.inBounds b : Prog ρ σ Unit) s (.ok ()) s := by
  rw [h]
  exact pure () s

theorem point (s : σ) : Walk {s} (Prog.point : Prog ρ σ Unit) s (.ok ()) s := by
  rintro c hc rfl
  obtain ⟨-, hmem, hpoints⟩ := hc.passed
  exact ⟨c.passed, rfl, hmem, c.passed_others, fun _ _ => c.passed_sr, hpoints⟩

theorem access (f : σ → α × σ) (s : σ) :
    Walk {s} (Prog.access f : Prog ρ σ α) s (.ok (f s).1) (f s).2 := by
  have hstep : Walk ∅ (Prog.step fun c : Cpu ρ σ => ((f c.mem).1, { c with mem := (f c.mem).2 }))
      s (.ok (f s).1) (f s).2 := by
    rintro c - rfl
    exact ⟨_, rfl, rfl, rfl, fun _ _ => rfl, [], rfl, by simp⟩
  have h := (point s).bind (f := fun _ => _) hstep
  rwa [Set.union_empty] at h

theorem read (f : σ → α) (s : σ) : Walk {s} (Prog.read f : Prog ρ σ α) s (.ok (f s)) s := access _ s

theorem write (f : σ → σ) (s : σ) : Walk {s} (Prog.write f : Prog ρ σ Unit) s (.ok ()) (f s) :=
  access _ s

theorem test (p : σ → Prop) [DecidablePred p] (s : σ) :
    Walk {s} (Prog.test p : Prog ρ σ Bool) s (.ok (decide (p s))) s := read _ s

theorem readSome {f : σ → Option α} (h : f s = some a) :
    Walk {s} (Prog.readSome f : Prog ρ σ α) s (.ok a) s := by
  have hread := read (ρ := ρ) f s
  rw [h] at hread
  unfold Prog.readSome
  rw [← Set.union_empty {s}]
  exact hread.bind (pure a s)

theorem ret (a : α) (s : σ) : Walk {s} (Prog.ret a : Prog ρ σ α) s (.ok a) s := by
  have h := (point s).bind (f := fun _ => _) (pure (ρ := ρ) a s)
  rwa [Set.union_empty] at h

section Loop

variable {body : β → Prog ρ σ (β ⊕ α)} {b b' : β} {r : Except Stop α}

/-- The last round of a loop. -/
theorem loop_last (h : Walk V (body b) s (.ok (.inr a)) s₁) :
    Walk V (Prog.loop body b) s (.ok a) s₁ := by
  intro c hc hmem
  obtain ⟨c₁, e₁, h₁⟩ := h c hc hmem
  exact ⟨c₁, loop_of_inr e₁, h₁.mem, h₁.others, fun _ _ => h₁.sr _ rfl, h₁.points⟩

/-- A round of a loop, and the rest of it. -/
theorem loop_round (h : Walk V (body b) s (.ok (.inl b')) s₁)
    (hloop : Walk W (Prog.loop body b') s₁ r s₂) :
    Walk (V ∪ W) (Prog.loop body b) s r s₂ := by
  intro c hc hmem
  -- The loop is its first round, and then the loop from what the round passes on.
  have hbind := h.bind (f := Sum.elim (Prog.loop body) Pure.pure) hloop
  obtain ⟨c₂, e₂, h₂⟩ := hbind c hc hmem
  refine ⟨c₂, ?_, h₂⟩
  rw [← e₂]
  obtain ⟨c₁, e₁, -⟩ := h c hc hmem
  rw [bind_of_ok e₁]
  exact repeatUntil_of_inl (by rw [Prog.round, e₁]; rfl)

end Loop

/-- Interrupts are masked at the end of two points. -/
theorem disable {c : Cpu ρ σ} (h : c.Quiet) :
    ∃ c', (Prog.disable : Prog ρ σ ρ) c = some (.ok c.sr, c') ∧ c'.sr = Status.mask c.sr ∧
      c'.mem = c.mem ∧ c'.others = c.others ∧ ∃ new, c'.points = new ++ c.points ∧
        ∀ x, x ∈ new ↔ Status.enabled c.sr = true ∧ x = c.mem := by
  obtain ⟨h₁, hmem₁, new₁, hp₁, hV₁⟩ := h.passed
  obtain ⟨-, hmem₂, new₂, hp₂, hV₂⟩ := h₁.passed
  have hmask : Status.enabled (Status.mask c.sr) = false := Status.enabled_mask c.sr
  refine ⟨{ c.passed.passed with sr := Status.mask c.sr }, ?_, rfl, hmem₂.trans hmem₁,
    c.passed.passed_others.trans c.passed_others, new₂ ++ new₁, ?_, fun x => ?_⟩
  · unfold Prog.disable
    rw [bind_of_ok (getSr_apply c), bind_of_ok (setSr_apply _ c.passed), ret_apply, Cpu.passed_sr,
      Cpu.passed_masked hmask]
  · rw [hp₂, hp₁, List.append_assoc]
  · rw [List.mem_append, hV₂, hV₁, Cpu.passed_sr, hmem₁, or_self]

/-- Code between two accesses to the status register, which masks interrupts first. -/
theorem critical {r : Except Stop α} (h : Walk V m s r s₁) :
    Walk {s} (Prog.critical m) s r s₁ := by
  rintro c hc rfl
  obtain ⟨c₁, e₁, hsr₁, hmem₁, hothers₁, new₁, hp₁, hV₁⟩ := disable hc
  have hmask : Status.enabled c₁.sr = false := hsr₁ ▸ Status.enabled_mask c.sr
  obtain ⟨c₂, e₂, h₂⟩ := h c₁ (fun i => by rw [hothers₁, hc]) hmem₁
  have hpoints : c₂.points = new₁ ++ c.points := (h₂.points_of_masked hmask).trans hp₁
  unfold Prog.critical
  cases r with
  | error e =>
    refine ⟨c₂, ?_, h₂.mem, h₂.others.trans hothers₁, by simp, new₁, hpoints, hV₁⟩
    rw [bind_of_ok e₁, bind_apply, e₂]
  | ok a =>
    have hmask₂ : Status.enabled c₂.sr = false := (h₂.sr a rfl) ▸ hmask
    refine ⟨{ c₂ with sr := c.sr }, ?_, h₂.mem, h₂.others.trans hothers₁, fun _ _ => rfl, new₁,
      hpoints, hV₁⟩
    rw [bind_of_ok e₁, bind_of_ok e₂, bind_of_ok (setSr_apply _ c₂), Cpu.passed_masked hmask₂]
    rfl

/-- Masked code is critical where the status register is written back behind it. -/
theorem restored {g : ρ → α → Prog ρ σ β} (hm : Walk V m s (.ok a) s₁)
    (hg : ∀ sr, g sr a = Prog.setSr sr >>= fun _ => f a) (hf : Walk W (f a) s₁ r s₂) :
    Walk ({s} ∪ W) (Prog.disable >>= fun sr => m >>= g sr) s r s₂ := by
  intro c hc hmem
  obtain ⟨c', e', h'⟩ := hm.critical.bind hf c hc hmem
  refine ⟨c', ?_, h'⟩
  rw [← e']
  obtain ⟨c₁, e₁, hsr₁, hmem₁, hothers₁, -⟩ := disable hc
  obtain ⟨c₂, e₂, -⟩ := hm c₁ (fun i => by rw [hothers₁, hc]) (hmem₁.trans hmem)
  have hcritical : Prog.critical m c = some (.ok a, { c₂.passed with sr := c.sr }) := by
    unfold Prog.critical
    rw [bind_of_ok e₁, bind_of_ok e₂, bind_of_ok (setSr_apply _ c₂)]
    rfl
  rw [bind_of_ok e₁, bind_of_ok e₂, hg, bind_of_ok (setSr_apply _ c₂), bind_of_ok hcritical]

/-- Nothing comes back where the processor is handed over. -/
theorem switch (s : σ) : Walk {s} (Prog.switch : Prog ρ σ Unit) s (.error .switched) s := by
  have hover : Walk ∅ (Prog.handOver : Prog ρ σ Unit) s (.error .switched) s := by
    rintro c hc rfl
    refine ⟨c, ?_, rfl, rfl, by simp, [], rfl, by simp⟩
    unfold Prog.handOver
    rw [hc]
  have h := (point s).bind (f := fun _ => _) hover
  rwa [Set.union_empty] at h

/-- Masked code that stops. -/
theorem disable_error {g : ρ → Prog ρ σ α} (h : ∀ sr, Walk V (g sr) s (.error e) s₁) :
    Walk {s} (Prog.disable >>= g) s (.error e) s₁ := by
  rintro c hc rfl
  obtain ⟨c₁, e₁, hsr₁, hmem₁, hothers₁, new₁, hp₁, hV₁⟩ := disable hc
  obtain ⟨c₂, e₂, h₂⟩ := h c.sr c₁ (fun i => by rw [hothers₁, hc]) hmem₁
  have hmask : Status.enabled c₁.sr = false := hsr₁ ▸ Status.enabled_mask c.sr
  exact ⟨c₂, (bind_of_ok e₁).trans e₂, h₂.mem, h₂.others.trans hothers₁, by simp, new₁,
    (h₂.points_of_masked hmask).trans hp₁, hV₁⟩

end Walk

namespace Course

open Prog

variable {P Q : σ → Prop} {m : Prog ρ σ α} {f : α → Prog ρ σ β} {s s₁ s₂ : σ} {a : α} {e : Stop}
  {r : Except Stop β}

theorem mono {r : Except Stop α} (h : Course P m s r s₁) (hPQ : ∀ x, P x → Q x) :
    Course Q m s r s₁ :=
  h.imp fun _ ⟨hw, hV⟩ => ⟨hw, fun x hx => hPQ x (hV x hx)⟩

theorem pure (a : α) (s : σ) : Course P (Pure.pure a : Prog ρ σ α) s (.ok a) s :=
  ⟨_, .pure a s, by simp⟩

theorem bind (hm : Course P m s (.ok a) s₁) (hf : Course P (f a) s₁ r s₂) :
    Course P (m >>= f) s r s₂ := by
  obtain ⟨V, hm, hV⟩ := hm
  obtain ⟨W, hf, hW⟩ := hf
  exact ⟨_, hm.bind hf, fun x hx => hx.elim (hV x) (hW x)⟩

theorem bind_error (hm : Course P m s (.error e) s₁) : Course P (m >>= f) s (.error e) s₁ := by
  obtain ⟨V, hm, hV⟩ := hm
  exact ⟨V, hm.bind_error, hV⟩

theorem inBounds {b : Bool} (h : b = true) (s : σ) :
    Course P (Prog.inBounds b : Prog ρ σ Unit) s (.ok ()) s := ⟨_, .inBounds h s, by simp⟩

theorem read (h : P s) (f : σ → α) : Course P (Prog.read f : Prog ρ σ α) s (.ok (f s)) s :=
  ⟨_, .read f s, by simpa using h⟩

theorem write (h : P s) (f : σ → σ) : Course P (Prog.write f : Prog ρ σ Unit) s (.ok ()) (f s) :=
  ⟨_, .write f s, by simpa using h⟩

theorem test (h : P s) (p : σ → Prop) [DecidablePred p] :
    Course P (Prog.test p : Prog ρ σ Bool) s (.ok (decide (p s))) s :=
  ⟨_, .test p s, by simpa using h⟩

theorem readSome {f : σ → Option α} (h : P s) (ha : f s = some a) :
    Course P (Prog.readSome f : Prog ρ σ α) s (.ok a) s := ⟨_, .readSome ha, by simpa using h⟩

theorem ret (h : P s) (a : α) : Course P (Prog.ret a : Prog ρ σ α) s (.ok a) s :=
  ⟨_, .ret a s, by simpa using h⟩

theorem loop_last {body : β → Prog ρ σ (β ⊕ α)} {b : β}
    (h : Course P (body b) s (.ok (.inr a)) s₁) : Course P (Prog.loop body b) s (.ok a) s₁ := by
  obtain ⟨V, h, hV⟩ := h
  exact ⟨V, h.loop_last, hV⟩

theorem loop_round {body : β → Prog ρ σ (β ⊕ α)} {b b' : β} {r : Except Stop α}
    (h : Course P (body b) s (.ok (.inl b')) s₁) (hloop : Course P (Prog.loop body b') s₁ r s₂) :
    Course P (Prog.loop body b) s r s₂ := by
  obtain ⟨V, h, hV⟩ := h
  obtain ⟨W, hloop, hW⟩ := hloop
  exact ⟨_, h.loop_round hloop, fun x hx => hx.elim (hV x) (hW x)⟩

/-- Between the accesses to the status register there are no points. -/
theorem critical {r : Except Stop α} (h : P s) (hm : Course Q m s r s₁) :
    Course P (Prog.critical m) s r s₁ := by
  obtain ⟨V, hm, -⟩ := hm
  exact ⟨_, hm.critical, by simpa using h⟩

/-- They need not be written as one. -/
theorem restored {g : ρ → α → Prog ρ σ β} (h : P s) (hm : Course Q m s (.ok a) s₁)
    (hg : ∀ sr, g sr a = Prog.setSr sr >>= fun _ => f a) (hf : Course P (f a) s₁ r s₂) :
    Course P (Prog.disable >>= fun sr => m >>= g sr) s r s₂ := by
  obtain ⟨V, hm, -⟩ := hm
  obtain ⟨W, hf, hW⟩ := hf
  exact ⟨_, hm.restored hg hf, fun x hx => hx.elim (fun e => e ▸ h) (hW x)⟩

theorem switch (h : P s) : Course P (Prog.switch : Prog ρ σ Unit) s (.error .switched) s :=
  ⟨_, .switch s, by simpa using h⟩

theorem disable_error {V : Set σ} {g : ρ → Prog ρ σ α} (h : P s)
    (hg : ∀ sr, Walk V (g sr) s (.error e) s₁) :
    Course P (Prog.disable >>= g) s (.error e) s₁ := ⟨_, .disable_error hg, by simpa using h⟩

end Course

end Interrupts
