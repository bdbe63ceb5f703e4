import Fos.Kernel.List

/-!
# The operations on lists, on sequences

The lists of the kernel are a family of sequences in one heap of `LIST` nodes (`Links.Family`). Each
operation of `kernel/list.c` edits the sequence of the head that it is called for, and leaves every
other sequence of the family as it is (`list_sequences`). That the tail is a node which is its own
successor makes two cases of every edit, which `Lib/Links.lean` treats; the loop of
`list_insert_behind` ends since it comes to the tail (`listEnd_eq`).
-/

namespace Fos

open Links Function

variable {α : Type} [DecidableEq α] {h : Heap α} {H : α → Prop} {L : α → List α} {a x y : α}
  {xs ys : List α}

/-- The operations do to the sequence of the head `a` what they should, and nothing to the others.
A node that is linked in is in none of the lists. -/
structure EditsSequence (h : Heap α) (H : α → Prop) (L : α → List α) (a : α) : Prop where
  /-- `is_list_last` tells an empty sequence. -/
  last : isListLast h a = true ↔ L a = []
  /-- `list_insert_behind` returns, with the node linked in last. -/
  behind : ∀ x, Free H L x → ∃ h', listInsertBehind h a x = some h' ∧
    Family h' H (update L a (L a ++ [x]))
  /-- `list_insert_spec` links the node in first. -/
  spec : ∀ x, Free H L x → Family (listInsertSpec h a x) H (update L a (x :: L a))
  /-- `list_delete` takes a node out, wherever it is. -/
  delete : ∀ xs y ys, L a = xs ++ y :: ys → Family (listDelete h y) H (update L a (xs ++ ys))
  /-- A node that was taken out still leads to its old successor, or to itself if it was last. -/
  deleted : ∀ xs y ys, L a = xs ++ y :: ys → (listDelete h y y).next = ys.headD y

/-- `list_delete` leaves the links of the node itself. -/
theorem listDelete_next_self (hr : Represents h a (xs ++ y :: ys)) :
    (listDelete h y y).next = (h y).next := by
  have hprev : y ≠ (h y).prev := by
    intro heq
    have hmem : (h y).prev ∈ a :: xs := by
      rw [hr.chain.prev_eq]
      exact List.getLast_mem _
    have hnodup := hr.nodup
    rw [← List.cons_append] at hnodup
    exact (List.nodup_append.mp hnodup).2.2 _ hmem y List.mem_cons_self heq.symm
  unfold listDelete
  split_ifs
  · simp [hprev]
  · simp [hprev]

/-- In every heap with any number of disjoint lists, the operations edit the sequence of the head
that they are called for. -/
theorem list_sequences (hf : Family h H L) (ha : H a) : EditsSequence h H L a where
  last := isListLast_iff (hf.rep a ha)
  behind x hx := ⟨_, listInsertBehind_eq (hf.rep a ha), hf.append ha hx⟩
  spec x hx := by
    have hxa : x ≠ a := by
      intro heq
      rw [heq] at hx
      exact hx.1 ha
    rw [listInsertSpec_eq hxa]
    exact hf.prepend ha hx
  delete xs y ys hL := by
    have hy : y ∈ L a := by
      rw [hL]
      exact List.mem_append_right _ List.mem_cons_self
    rw [listDelete_eq (hf.rep a ha) hy]
    exact (hf.unlink ha hy).congr (hf.update_eq_erase ha hL)
  deleted xs y ys hL := by
    have hrep := hf.rep a ha
    rw [hL] at hrep
    rw [listDelete_next_self hrep]
    exact hrep.chain.suffix.next_eq

/-- Two lists in one heap: behind the head `0` are `2` and `3`, and behind the head `1` is
nothing. -/
theorem list_sequences_twoLists :
    EditsSequence (fun n : ℕ => if n = 0 then ⟨0, 2⟩ else if n = 2 then ⟨0, 3⟩
      else if n = 3 then ⟨2, 3⟩ else ⟨n, n⟩) (· < 2) (fun n => if n = 0 then [2, 3] else []) 0 := by
  apply list_sequences
  · constructor
    · intro b hb
      rcases Nat.le_one_iff_eq_zero_or_eq_one.mp (Nat.le_of_lt_succ hb) with rfl | rfl
      · exact ⟨by decide, rfl, rfl, rfl, rfl, rfl⟩
      · exact ⟨by decide, rfl⟩
    · intro b c n _ _ hb hc
      have hb0 : b = 0 := by
        by_contra hne
        simp [hne] at hb
      have hc0 : c = 0 := by
        by_contra hne
        simp [hne] at hc
      rw [hb0, hc0]
    · intro b n _ hn
      have hn : n = 2 ∨ n = 3 := by
        by_cases hb : b = 0
        · simpa [hb] using hn
        · simp [hb] at hn
      omega
  · decide

end Fos
