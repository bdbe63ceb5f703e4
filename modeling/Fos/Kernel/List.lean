import Fos.Lib.Links
import Fos.Lib.Loops

/-!
# The list operations of `kernel/list.c`

The operations are written statement by statement, over the links of any type of nodes. The loop of
`list_insert_behind` follows `next` to a node that is its own successor; on links that never reach
one it does not end, and `listInsertBehind` is `none`.

`listInsertBehind_eq`, `listInsertSpec_eq`, and `listDelete_eq` say that on a represented sequence
the operations are the edits of `Lib/Links.lean`, so that its rules apply to them.
-/

namespace Fos

open Links Loops

variable {α : Type} [DecidableEq α]

/-- `list_init`. -/
def listInit (h : Heap α) (head : α) : Heap α :=
  (h.setNext head head).setPrev head head

/-- `is_list_last`. -/
def isListLast (h : Heap α) (head : α) : Bool :=
  (h head).next = head

/-- `list_insert`. -/
def listInsert (h : Heap α) (head node : α) : Heap α :=
  let h := h.setNext node node
  let h := h.setPrev node head
  h.setNext head node

/-- `list_insert_spec`. -/
def listInsertSpec (h : Heap α) (head node : α) : Heap α :=
  if isListLast h head then listInsert h head node
  else
    let h := h.setNext node (h head).next
    let h := h.setPrev node head
    let h := h.setPrev (h head).next node
    h.setNext head node

/-- `list_delete`. -/
def listDelete (h : Heap α) (node : α) : Heap α :=
  if isListLast h node then h.setNext (h node).prev (h node).prev
  else
    let h := h.setNext (h node).prev (h node).next
    h.setPrev (h node).next (h node).prev

/-- The loop of `list_insert_behind`: the node at which `next` stops. -/
def listEnd (h : Heap α) (list : α) : Option α :=
  repeatUntil (fun list =>
    if isListLast h list then some (.inr list) else some (.inl (h list).next)) list

/-- `list_insert_behind`. -/
def listInsertBehind (h : Heap α) (head node : α) : Option (Heap α) := do
  let list ← listEnd h head
  some (listInsert h list node)

/-! ## On represented sequences -/

variable {h : Heap α} {a x : α} {xs : List α}

/-- The test of the source on a head: no node follows it. -/
theorem isListLast_iff (hr : Represents h a xs) : isListLast h a = true ↔ xs = [] := by
  simp [isListLast, hr.next_eq_self_iff]

/-- One round of the loop. -/
theorem listEnd_unfold (h : Heap α) (list : α) :
    listEnd h list = if isListLast h list then some list else listEnd h (h list).next := by
  unfold listEnd
  rw [repeatUntil_eq]
  split_ifs <;> rfl

/-- The loop stops at the last node. -/
theorem listEnd_eq (hr : Represents h a xs) :
    listEnd h a = some ((a :: xs).getLast (List.cons_ne_nil _ _)) := by
  obtain ⟨hn, hc⟩ := hr
  induction xs generalizing a with
  | nil =>
    have hnext : (h a).next = a := hc
    rw [listEnd_unfold, if_pos (by simp [isListLast, hnext])]
    rfl
  | cons y ys ih =>
    obtain ⟨h1, -, h3⟩ := hc
    have hya : y ≠ a := fun e => (List.nodup_cons.mp hn).1 (by simp [e])
    rw [listEnd_unfold, if_neg (by simp [isListLast, h1, hya]), h1, ih (List.nodup_cons.mp hn).2 h3]
    rfl

/-- On a represented sequence, `list_insert_behind` returns, with the node linked in last. -/
theorem listInsertBehind_eq (hr : Represents h a xs) :
    listInsertBehind h a x =
      some (h.linkLast ((a :: xs).getLast (List.cons_ne_nil _ _)) x) := by
  rw [listInsertBehind, listEnd_eq hr]
  rfl

/-- `list_insert_spec` links the node in first, at any head but the node itself. -/
theorem listInsertSpec_eq (hxa : x ≠ a) : listInsertSpec h a x = h.linkFirst a x := by
  unfold listInsertSpec Heap.linkFirst
  simp [isListLast, hxa.symm, listInsert, Heap.linkLast]

/-- `list_delete` unlinks a node of a represented sequence. -/
theorem listDelete_eq (hr : Represents h a xs) (hx : x ∈ xs) : listDelete h x = h.unlink x := by
  obtain ⟨ys, zs, rfl⟩ := List.append_of_mem hx
  have hprev : x ≠ (h x).prev := by
    rw [hr.chain.prev_eq]
    intro e
    have hm := List.getLast_mem (List.cons_ne_nil a ys)
    rw [← e] at hm
    have hn := hr.nodup
    rw [← List.cons_append] at hn
    exact (List.nodup_append.mp hn).2.2 x hm x (by simp) rfl
  unfold listDelete Heap.unlink
  simp [isListLast, hprev]

end Fos
