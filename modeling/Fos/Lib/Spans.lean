import Mathlib.Data.List.Basic
import Mathlib.Tactic.Common

/-!
# Spans carved off a region

A region is handed out in spans, from its start upwards. Spans that lie below a mark do not overlap
with one that is carved at the mark or above it (`Carved.carve`), and to give a span back changes
nothing for the others (`Carved.sublist`).
-/

namespace Spans

/-- The addresses from `start` on, `len` of them. -/
structure Span where
  start : ℕ
  len : ℕ

/-- The first address behind a span. -/
def Span.stop (s : Span) : ℕ := s.start + s.len

/-- Two spans have no address in common. -/
def Span.Apart (s s' : Span) : Prop := s.stop ≤ s'.start ∨ s'.stop ≤ s.start

/-- The spans lie between `lo` and `mark`, and apart from each other. -/
structure Carved (lo mark : ℕ) (spans : List Span) : Prop where
  /-- Between `lo` and `mark`. -/
  within : ∀ s ∈ spans, lo ≤ s.start ∧ s.stop ≤ mark
  /-- Apart. -/
  apart : spans.Pairwise Span.Apart

variable {lo mark mark' : ℕ} {spans spans' : List Span}

/-- Nothing has been carved. -/
theorem Carved.nil : Carved lo mark [] := ⟨by simp, .nil⟩

/-- The mark may rise. -/
theorem Carved.mono (h : Carved lo mark spans) (hm : mark ≤ mark') : Carved lo mark' spans :=
  ⟨fun s hs => ⟨(h.within s hs).1, Nat.le_trans (h.within s hs).2 hm⟩, h.apart⟩

/-- A span is carved at the mark or above it, and the mark rises past its end. -/
theorem Carved.carve (h : Carved lo mark spans) {s : Span} (hlo : lo ≤ s.start)
    (hs : mark ≤ s.start) (hm : s.stop ≤ mark') : Carved lo mark' (s :: spans) := by
  have hle : s.start ≤ s.stop := Nat.le_add_right _ _
  have hbelow : ∀ s' ∈ spans, s'.stop ≤ s.start := fun s' hs' => Nat.le_trans (h.within s' hs').2 hs
  refine ⟨?_, List.pairwise_cons.mpr ⟨fun s' hs' => Or.inr (hbelow s' hs'), h.apart⟩⟩
  intro s' hs'
  rcases List.mem_cons.mp hs' with rfl | hs'
  · exact ⟨hlo, hm⟩
  · have hmark : mark ≤ mark' := Nat.le_trans hs (Nat.le_trans hle hm)
    exact (h.mono hmark).within s' hs'

/-- Spans are given back. -/
theorem Carved.sublist (h : Carved lo mark spans) (hs : List.Sublist spans' spans) :
    Carved lo mark spans' :=
  ⟨fun s hs' => h.within s (hs.subset hs'), h.apart.sublist hs⟩

end Spans
