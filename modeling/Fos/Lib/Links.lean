import Mathlib.Data.List.Nodup
import Mathlib.Data.List.Lattice
import Mathlib.Logic.Function.Basic
import Mathlib.Tactic.Common

/-!
# Sequences in a heap of doubly linked nodes

A heap gives every node a `prev` and a `next` link. A head `a` represents the sequence `xs` when
following `next` from `a` visits `xs` in order, every `prev` points one node back, and the last node
is its own successor (`Represents`). The end of a sequence is this self-loop, so that no node plays
the part of a null pointer, and an empty sequence is a head whose `next` is itself.

`Represents` has one rule for each edit: a node linked in after the last one
(`Represents.append`), a node linked in before the first one (`Represents.prepend`), and a node
unlinked (`Represents.unlink`). A `Family` is a set of heads whose sequences share no node and
contain no head, and the same edits, made to one sequence of a family, leave the others as they are
(`Family.append`, `Family.prepend`, `Family.unlink`, and `Family.adopt` for a new, empty one).
-/

namespace Links

/-- The two links of a node. -/
structure Link (α : Type) where
  /-- The node before, or the head for the first node. -/
  prev : α
  /-- The node after, or the node itself for the last one. -/
  next : α

/-- The links of all nodes. -/
abbrev Heap (α : Type) := α → Link α

variable {α : Type}

/-! ## Chains -/

/-- From `a`, the `next` links visit `xs` and stop at its last node, and the `prev` links lead
back. -/
def Chain (h : Heap α) : α → List α → Prop
  | a, [] => (h a).next = a
  | a, x :: xs => (h a).next = x ∧ (h x).prev = a ∧ Chain h x xs

/-- A chain reads the `next` links of all its nodes, and the `prev` links of all but the first. -/
theorem Chain.congr {h h' : Heap α} {a : α} {xs : List α} (hc : Chain h a xs)
    (hn : ∀ y ∈ a :: xs, (h' y).next = (h y).next) (hp : ∀ y ∈ xs, (h' y).prev = (h y).prev) :
    Chain h' a xs := by
  induction xs generalizing a with
  | nil =>
    simp only [Chain] at hc ⊢
    rw [hn a (by simp), hc]
  | cons x xs ih =>
    obtain ⟨h1, h2, h3⟩ := hc
    refine ⟨by rw [hn a (by simp), h1], by rw [hp x (by simp), h2], ih h3 ?_ ?_⟩
    · exact fun y hy => hn y (List.mem_cons_of_mem _ hy)
    · exact fun y hy => hp y (List.mem_cons_of_mem _ hy)

/-- What follows a node of a chain is a chain from that node. -/
theorem Chain.suffix {h : Heap α} {a y : α} {xs ys : List α} (hc : Chain h a (xs ++ y :: ys)) :
    Chain h y ys := by
  induction xs generalizing a with
  | nil => exact hc.2.2
  | cons x xs ih => exact ih hc.2.2

/-- The successor of a chain's first node: the next one, or itself at the end. -/
theorem Chain.next_eq {h : Heap α} {a : α} {xs : List α} (hc : Chain h a xs) :
    (h a).next = xs.headD a := by
  cases xs with
  | nil => exact hc
  | cons x xs => exact hc.1

/-- The predecessor of a node of a chain. -/
theorem Chain.prev_eq {h : Heap α} {a y : α} {xs ys : List α} (hc : Chain h a (xs ++ y :: ys)) :
    (h y).prev = (a :: xs).getLast (List.cons_ne_nil _ _) := by
  induction xs generalizing a with
  | nil => exact hc.2.1
  | cons x xs ih => simpa using ih hc.2.2

/-- A chain without repetition is determined by its first node. -/
theorem Chain.unique {h : Heap α} {a : α} {xs ys : List α} (hx : Chain h a xs) (hy : Chain h a ys)
    (nx : (a :: xs).Nodup) (ny : (a :: ys).Nodup) : xs = ys := by
  induction xs generalizing a ys with
  | nil =>
    cases ys with
    | nil => rfl
    | cons y ys =>
      have hay : y = a := hy.1.symm.trans hx
      simp [hay] at ny
  | cons x xs ih =>
    cases ys with
    | nil =>
      have hax : x = a := hx.1.symm.trans hy
      simp [hax] at nx
    | cons y ys =>
      have hxy : x = y := hx.1.symm.trans hy.1
      subst hxy
      rw [ih hx.2.2 hy.2.2 (List.nodup_cons.mp nx).2 (List.nodup_cons.mp ny).2]

/-- Links that lead to a node as before make no chain when its `prev` is not a node before it. -/
theorem Chain.not_of_prev {h h' : Heap α} {a x : α} {xs ys zs : List α}
    (hc : Chain h a (ys ++ x :: zs)) (hn : (a :: (ys ++ x :: zs)).Nodup)
    (hnext : ∀ y ∈ a :: ys, (h' y).next = (h y).next) (hprev : (h' x).prev ∉ a :: ys) :
    ¬ Chain h' a xs := by
  induction ys generalizing a xs with
  | nil =>
    have hx : (h' a).next = x := (hnext a (by simp)).trans hc.1
    intro hc'
    cases xs with
    | nil => exact (List.nodup_cons.mp hn).1 (by simp [hx.symm.trans hc'])
    | cons y xs =>
      obtain rfl : y = x := hc'.1.symm.trans hx
      exact hprev (by simp [hc'.2.1])
  | cons y ys ih =>
    have hy : (h' a).next = y := (hnext a (by simp)).trans hc.1
    intro hc'
    cases xs with
    | nil => exact (List.nodup_cons.mp hn).1 (by simp [hy.symm.trans hc'])
    | cons z xs =>
      obtain rfl : z = y := hc'.1.symm.trans hy
      exact ih hc.2.2 (List.nodup_cons.mp hn).2 (fun w hw => hnext w (List.mem_cons_of_mem a hw))
        (fun hm => hprev (List.mem_cons_of_mem a hm)) hc'.2.2

/-- The last node of a sequence, or the head when there is none. -/
theorem getLast_mem_cons (a : α) (xs : List α) :
    (a :: xs).getLast (List.cons_ne_nil _ _) = a ∨
      (a :: xs).getLast (List.cons_ne_nil _ _) ∈ xs :=
  List.mem_cons.mp (List.getLast_mem _)

/-! ## Represented sequences -/

/-- The head `a` represents the sequence `xs`. -/
structure Represents (h : Heap α) (a : α) (xs : List α) : Prop where
  /-- The nodes are distinct, and none is the head. -/
  nodup : (a :: xs).Nodup
  /-- The links run through them. -/
  chain : Chain h a xs

/-- A head represents at most one sequence. -/
theorem Represents.unique {h : Heap α} {a : α} {xs ys : List α} (hx : Represents h a xs)
    (hy : Represents h a ys) : xs = ys :=
  hx.chain.unique hy.chain hx.nodup hy.nodup

/-- A represented sequence depends on the links of its head and nodes only. -/
theorem Represents.congr {h h' : Heap α} {a : α} {xs : List α} (hr : Represents h a xs)
    (hn : ∀ y ∈ a :: xs, (h' y).next = (h y).next) (hp : ∀ y ∈ xs, (h' y).prev = (h y).prev) :
    Represents h' a xs :=
  ⟨hr.nodup, hr.chain.congr hn hp⟩

/-- A node is not behind itself. -/
theorem Represents.prev_ne {h : Heap α} {a x : α} {xs : List α} (hr : Represents h a xs)
    (hx : x ∈ xs) : (h x).prev ≠ x := by
  obtain ⟨ys, zs, rfl⟩ := List.append_of_mem hx
  have hn := hr.nodup
  rw [hr.chain.prev_eq]
  intro heq
  have hm := List.getLast_mem (List.cons_ne_nil a ys)
  rw [heq] at hm
  rw [← List.cons_append] at hn
  exact (List.nodup_append.mp hn).2.2 x hm x List.mem_cons_self rfl

/-- A head leads to a node of its sequence, or to itself. -/
theorem Represents.next_ne {h : Heap α} {a x : α} {xs : List α} (hr : Represents h a xs)
    (hx : x ∉ a :: xs) : (h a).next ≠ x := by
  rintro rfl
  rw [hr.chain.next_eq] at hx
  cases xs with
  | nil => simp at hx
  | cons y ys => simp at hx

/-- The head's `next` is itself exactly when the sequence is empty. -/
theorem Represents.next_eq_self_iff {h : Heap α} {a : α} {xs : List α} (hr : Represents h a xs) :
    (h a).next = a ↔ xs = [] := by
  cases xs with
  | nil => exact ⟨fun _ => rfl, fun _ => hr.chain⟩
  | cons x xs =>
    have hx : (h a).next = x := hr.chain.1
    have hax : x ≠ a := fun e => (List.nodup_cons.mp hr.nodup).1 (by simp [e])
    simp [hx, hax]

/-! ## Families -/

/-- The heads `H` represent the sequences `L`, which share no node and contain no head. -/
structure Family (h : Heap α) (H : α → Prop) (L : α → List α) : Prop where
  /-- Each head represents its sequence. -/
  rep : ∀ a, H a → Represents h a (L a)
  /-- No node is in two sequences. -/
  apart : ∀ a b x, H a → H b → x ∈ L a → x ∈ L b → a = b
  /-- No head is in a sequence. -/
  not_head : ∀ a x, H a → x ∈ L a → ¬ H x

/-- A node that is in no sequence of the family and is no head of it. -/
def Free (H : α → Prop) (L : α → List α) (x : α) : Prop :=
  ¬ H x ∧ ∀ a, H a → x ∉ L a

/-- Only the sequences at the heads matter. -/
theorem Family.congr {h : Heap α} {H : α → Prop} {L L' : α → List α} (hf : Family h H L)
    (hL : ∀ a, H a → L' a = L a) : Family h H L' where
  rep a ha := hL a ha ▸ hf.rep a ha
  apart a b x ha hb := by rw [hL a ha, hL b hb]; exact hf.apart a b x ha hb
  not_head a x ha := by rw [hL a ha]; exact hf.not_head a x ha

/-- The links of a free node do not matter. -/
theorem Family.congr_free {h h' : Heap α} {H : α → Prop} {L : α → List α} (hf : Family h H L)
    {x : α} (hx : Free H L x) (hh : ∀ y, y ≠ x → h' y = h y) : Family h' H L where
  rep a ha := by
    have hne : ∀ y ∈ a :: L a, y ≠ x := by
      rintro y hy rfl
      rcases List.mem_cons.mp hy with rfl | hm
      · exact hx.1 ha
      · exact hx.2 a ha hm
    refine (hf.rep a ha).congr (fun y hy => ?_) (fun y hy => ?_)
    · rw [hh y (hne y hy)]
    · rw [hh y (hne y (List.mem_cons_of_mem _ hy))]
  apart := hf.apart
  not_head := hf.not_head

/-- The heads may be named in another way. -/
theorem Family.congr_heads {h : Heap α} {H H' : α → Prop} {L : α → List α} (hf : Family h H L)
    (hH : ∀ a, H' a ↔ H a) : Family h H' L where
  rep a ha := hf.rep a ((hH a).mp ha)
  apart a b x ha hb := hf.apart a b x ((hH a).mp ha) ((hH b).mp hb)
  not_head a x ha hx hx' := hf.not_head a x ((hH a).mp ha) hx ((hH x).mp hx')

/-! ## Edits of a sequence -/

variable [DecidableEq α]

/-- Write the `next` link of `a`. -/
def Heap.setNext (h : Heap α) (a b : α) : Heap α :=
  fun x => if x = a then { h a with next := b } else h x

/-- Write the `prev` link of `a`. -/
def Heap.setPrev (h : Heap α) (a b : α) : Heap α :=
  fun x => if x = a then { h a with prev := b } else h x

@[simp] theorem Heap.setNext_next (h : Heap α) (a b x : α) :
    (h.setNext a b x).next = if x = a then b else (h x).next := by
  unfold Heap.setNext; split_ifs <;> simp_all

@[simp] theorem Heap.setNext_prev (h : Heap α) (a b x : α) :
    (h.setNext a b x).prev = (h x).prev := by
  unfold Heap.setNext; split_ifs <;> simp_all

@[simp] theorem Heap.setPrev_prev (h : Heap α) (a b x : α) :
    (h.setPrev a b x).prev = if x = a then b else (h x).prev := by
  unfold Heap.setPrev; split_ifs <;> simp_all

@[simp] theorem Heap.setPrev_next (h : Heap α) (a b x : α) :
    (h.setPrev a b x).next = (h x).next := by
  unfold Heap.setPrev; split_ifs <;> simp_all

/-- A link that is written as it was. -/
theorem Heap.setNext_self (h : Heap α) {a b : α} (hb : (h a).next = b) : h.setNext a b = h := by
  funext x
  unfold Heap.setNext
  split_ifs with e
  · rw [e, ← hb]
  · rfl

/-- A link that is written as it was. -/
theorem Heap.setPrev_self (h : Heap α) {a b : α} (hb : (h a).prev = b) : h.setPrev a b = h := by
  funext x
  unfold Heap.setPrev
  split_ifs with e
  · rw [e, ← hb]
  · rfl

/-- Link `x` in after `l`, as the new last node. -/
def Heap.linkLast (h : Heap α) (l x : α) : Heap α :=
  ((h.setNext x x).setPrev x l).setNext l x

/-- Link `x` in between `a` and its successor, if it has one. -/
def Heap.linkFirst (h : Heap α) (a x : α) : Heap α :=
  if (h a).next = a then h.linkLast a x
  else (((h.setNext x (h a).next).setPrev x a).setPrev (h a).next x).setNext a x

/-- Join the predecessor of `x` to its successor, if it has one. The links of `x` stay. -/
def Heap.unlink (h : Heap α) (x : α) : Heap α :=
  if (h x).next = x then h.setNext (h x).prev (h x).prev
  else (h.setNext (h x).prev (h x).next).setPrev (h x).next (h x).prev

/-- A node linked in last ends the sequence. -/
theorem Represents.append {h : Heap α} {a x : α} {xs : List α} (hr : Represents h a xs)
    (hx : x ∉ a :: xs) :
    Represents (h.linkLast ((a :: xs).getLast (List.cons_ne_nil _ _)) x) a (xs ++ [x]) := by
  obtain ⟨hn, hc⟩ := hr
  constructor
  · rw [← List.cons_append]
    exact List.nodup_append.mpr ⟨hn, List.nodup_singleton x, by
      rintro y hy z hz rfl
      exact hx (List.mem_singleton.mp hz ▸ hy)⟩
  · -- By induction along the chain; only its last step meets the new links.
    unfold Heap.linkLast
    induction xs generalizing a with
    | nil =>
      have hxa : x ≠ a := by simpa using hx
      simp [Chain, hxa]
    | cons y ys ih =>
      obtain ⟨h1, h2, h3⟩ := hc
      have hal : a ≠ (y :: ys).getLast (List.cons_ne_nil _ _) := fun e =>
        (List.nodup_cons.mp hn).1 (e ▸ List.getLast_mem _)
      have hax : a ≠ x := fun e => hx (by simp [e])
      have hyx : y ≠ x := fun e => hx (by simp [e])
      have hrec := ih (fun hm => hx (List.mem_cons_of_mem _ hm)) (List.nodup_cons.mp hn).2 h3
      rw [List.getLast_cons_cons]
      exact ⟨by simp [hal, hax, h1], by simp [hyx, h2], hrec⟩

/-- A node linked in first starts the sequence. -/
theorem Represents.prepend {h : Heap α} {a x : α} {xs : List α} (hr : Represents h a xs)
    (hx : x ∉ a :: xs) : Represents (h.linkFirst a x) a (x :: xs) := by
  unfold Heap.linkFirst
  cases xs with
  | nil =>
    rw [if_pos (hr.next_eq_self_iff.mpr rfl)]
    exact hr.append hx
  | cons y ys =>
    rw [if_neg (fun e => by simpa using hr.next_eq_self_iff.mp e), hr.chain.1]
    obtain ⟨hn, h1, h2, h3⟩ := hr
    obtain ⟨ha, hys⟩ := List.nodup_cons.mp hn
    have hxa : x ≠ a := fun e => hx (by simp [e])
    have hxy : x ≠ y := fun e => hx (by simp [e])
    have hnd : (a :: x :: y :: ys).Nodup := by
      refine List.nodup_cons.mpr ⟨?_, List.nodup_cons.mpr ⟨?_, hys⟩⟩
      · simpa [hxa.symm] using ha
      · exact fun hm => hx (List.mem_cons_of_mem _ hm)
    refine ⟨hnd, by simp, by simp [hxy], by simp [hxa], by simp, h3.congr ?_ ?_⟩
    · intro z hz
      have hza : z ≠ a := fun e => ha (e ▸ hz)
      have hzx : z ≠ x := fun e => hx (List.mem_cons_of_mem _ (e ▸ hz))
      simp [hza, hzx]
    · intro z hz
      have hzy : z ≠ y := fun e => (List.nodup_cons.mp hys).1 (e ▸ hz)
      have hzx : z ≠ x := fun e => hx (by simp [← e, hz])
      simp [hzy, hzx]

/-- The case of `Represents.unlink` for the last node. -/
theorem Represents.unlink_last {h : Heap α} {a x : α} {xs : List α}
    (hr : Represents h a (xs ++ [x])) :
    Represents (h.setNext (h x).prev (h x).prev) a xs := by
  obtain ⟨hn, hc⟩ := hr
  have hn' : (a :: xs).Nodup := hn.sublist ((List.sublist_append_left xs [x]).cons_cons a)
  refine ⟨hn', ?_⟩
  rw [hc.prev_eq]
  induction xs generalizing a with
  | nil => simp [Chain]
  | cons y ys ih =>
    obtain ⟨h1, h2, h3⟩ := hc
    have hne : a ≠ (y :: ys).getLast (List.cons_ne_nil _ _) := fun e =>
      (List.nodup_cons.mp hn').1 (e ▸ List.getLast_mem _)
    have hrec := ih (List.nodup_cons.mp hn).2 h3 (List.nodup_cons.mp hn').2
    rw [List.getLast_cons_cons]
    exact ⟨by simp [hne, h1], by simp [h2], hrec⟩

/-- The case of `Represents.unlink` for a node that has a successor. -/
theorem Represents.unlink_inner {h : Heap α} {a x z : α} {xs zs : List α}
    (hr : Represents h a (xs ++ x :: z :: zs)) :
    Represents ((h.setNext (h x).prev z).setPrev z (h x).prev) a (xs ++ z :: zs) := by
  obtain ⟨hn, hc⟩ := hr
  have hn' : (a :: (xs ++ z :: zs)).Nodup :=
    hn.sublist (((List.Sublist.refl xs).append (List.sublist_cons_self x _)).cons_cons a)
  refine ⟨hn', ?_⟩
  rw [hc.prev_eq]
  clear hn
  -- The induction is on what comes before the node, so that the last node before it is `a` in the
  -- end.
  induction xs generalizing a with
  | nil =>
    obtain ⟨-, -, -, -, h5⟩ := hc
    obtain ⟨ha, hz⟩ := List.nodup_cons.mp hn'
    refine ⟨by simp, by simp, h5.congr ?_ ?_⟩
    · intro y hy
      have : y ≠ a := fun e => ha (e ▸ hy)
      simp [this]
    · intro y hy
      have : y ≠ z := fun e => (List.nodup_cons.mp hz).1 (e ▸ hy)
      simp [this]
  | cons y ys ih =>
    obtain ⟨h1, h2, h3⟩ := hc
    obtain ⟨ha, hy⟩ := List.nodup_cons.mp hn'
    -- The first node keeps its links, for the node that is unlinked comes later.
    have hne : a ≠ (y :: ys).getLast (List.cons_ne_nil _ _) := fun e =>
      ha (List.mem_append_left _ (e ▸ List.getLast_mem _))
    have hyz : y ≠ z := fun e => (List.nodup_cons.mp hy).1 (by simp [e])
    rw [List.getLast_cons_cons]
    exact ⟨by simp [hne, h1], by simp [hyz, h2], ih h3 hy⟩

/-- An unlinked node is gone from the sequence, and the others keep their order. -/
theorem Represents.unlink {h : Heap α} {a x : α} {xs : List α} (hr : Represents h a xs)
    (hx : x ∈ xs) : Represents (h.unlink x) a (xs.erase x) := by
  obtain ⟨ys, zs, rfl⟩ := List.append_of_mem hx
  have hxys : x ∉ ys := fun hm =>
    (List.nodup_append.mp (List.nodup_cons.mp hr.nodup).2).2.2 x hm x (by simp) rfl
  have hnext := hr.chain.suffix.next_eq
  rw [List.erase_append_right _ hxys, List.erase_cons_head]
  unfold Heap.unlink
  cases zs with
  | nil =>
    rw [if_pos (by simpa using hnext), List.append_nil]
    exact hr.unlink_last
  | cons z zs =>
    have hzx : z ≠ x := fun e => by
      have := (List.nodup_append.mp (List.nodup_cons.mp hr.nodup).2).2.1
      exact (List.nodup_cons.mp this).1 (by simp [e])
    rw [List.headD_cons] at hnext
    rw [hnext, if_neg hzx]
    exact hr.unlink_inner

/-! ## Edits of a family -/

/-- Replace the sequence of one head by another made of its own nodes and free ones. An edit that
touches only the head, its old nodes and its new ones leaves all others as they are. -/
theorem Family.replace {h h' : Heap α} {H : α → Prop} {L : α → List α} (hf : Family h H L) {a : α}
    {xs : List α} (ha : H a) (hr : Represents h' a xs) (hxs : ∀ x ∈ xs, x ∈ L a ∨ Free H L x)
    (hframe : ∀ y, y ≠ a → y ∉ L a → y ∉ xs → h' y = h y) :
    Family h' H (Function.update L a xs) := by
  have hmem : ∀ b x, H b → x ∈ Function.update L a xs b → x ∈ L b ∨ Free H L x := by
    intro b x hb hx
    rcases eq_or_ne b a with rfl | hba
    · exact hxs x (by simpa using hx)
    · exact Or.inl (by simpa [hba] using hx)
  -- A node of another head's sequence is not among the edited ones.
  have hother : ∀ b, H b → b ≠ a → ∀ y ∈ b :: L b, h' y = h y := by
    intro b hb hba y hy
    have hya : y ≠ a := by
      rintro rfl
      rcases List.mem_cons.mp hy with e | hm
      · exact hba e.symm
      · exact hf.not_head b y hb hm ha
    have hyL : y ∉ L a := by
      intro hm
      rcases List.mem_cons.mp hy with rfl | hm'
      · exact hf.not_head a y ha hm hb
      · exact hba (hf.apart b a y hb ha hm' hm)
    refine hframe y hya hyL (fun hm => ?_)
    rcases hxs y hm with hL | ⟨hH, hfree⟩
    · exact hyL hL
    · rcases List.mem_cons.mp hy with rfl | hm'
      · exact hH hb
      · exact hfree b hb hm'
  constructor
  · intro b hb
    rcases eq_or_ne b a with rfl | hba
    · simpa using hr
    · rw [Function.update_of_ne hba]
      refine (hf.rep b hb).congr (fun y hy => ?_) (fun y hy => ?_)
      · rw [hother b hb hba y hy]
      · rw [hother b hb hba y (List.mem_cons_of_mem _ hy)]
  · intro b c x hb hc hxb hxc
    rcases hmem b x hb hxb with hb' | hfree
    · rcases hmem c x hc hxc with hc' | hfree
      · exact hf.apart b c x hb hc hb' hc'
      · exact absurd hb' (hfree.2 b hb)
    · -- A node that was free is in the new sequence only.
      have hba : b = a := by
        by_contra hba
        exact hfree.2 b hb (by simpa [hba] using hxb)
      have hca : c = a := by
        by_contra hca
        exact hfree.2 c hc (by simpa [hca] using hxc)
      rw [hba, hca]
  · intro b x hb hx
    rcases hmem b x hb hx with hL | hfree
    · exact hf.not_head b x hb hL
    · exact hfree.1

/-- Link a free node in last. -/
theorem Family.append {h : Heap α} {H : α → Prop} {L : α → List α} (hf : Family h H L) {a x : α}
    (ha : H a) (hx : Free H L x) :
    Family (h.linkLast ((a :: L a).getLast (List.cons_ne_nil _ _)) x) H
      (Function.update L a (L a ++ [x])) := by
  have hxa : x ∉ a :: L a := by
    rintro (_ | ⟨_, hm⟩)
    · exact hx.1 ha
    · exact hx.2 a ha hm
  refine hf.replace ha ((hf.rep a ha).append hxa) ?_ ?_
  · simp only [List.mem_append, List.mem_singleton]
    rintro y (hy | rfl)
    · exact Or.inl hy
    · exact Or.inr hx
  · intro y hya hyL hy
    have hyx : y ≠ x := fun e => hy (by simp [e])
    have hyl : y ≠ (a :: L a).getLast (List.cons_ne_nil _ _) := by
      rcases getLast_mem_cons a (L a) with e | hm
      · rwa [e]
      · exact fun e => hyL (e ▸ hm)
    simp [Heap.linkLast, Heap.setNext, Heap.setPrev, hyx, hyl]

/-- Link a free node in first. -/
theorem Family.prepend {h : Heap α} {H : α → Prop} {L : α → List α} (hf : Family h H L) {a x : α}
    (ha : H a) (hx : Free H L x) :
    Family (h.linkFirst a x) H (Function.update L a (x :: L a)) := by
  have hxa : x ∉ a :: L a := by
    rintro (_ | ⟨_, hm⟩)
    · exact hx.1 ha
    · exact hx.2 a ha hm
  refine hf.replace ha ((hf.rep a ha).prepend hxa) ?_ ?_
  · simp only [List.mem_cons]
    rintro y (rfl | hy)
    · exact Or.inr hx
    · exact Or.inl hy
  · intro y hya hyL hy
    have hyx : y ≠ x := fun e => hy (by simp [e])
    have hyn : (h a).next ≠ a → y ≠ (h a).next := by
      intro hne e
      rw [(hf.rep a ha).chain.next_eq] at hne e
      cases hLa : L a with
      | nil => simp [hLa] at hne
      | cons z zs => exact hyL (by simp [e, hLa])
    unfold Heap.linkFirst
    split_ifs with hnext
    · simp [Heap.linkLast, Heap.setNext, Heap.setPrev, hyx, hya]
    · simp [Heap.setNext, Heap.setPrev, hyx, hya, hyn hnext]

/-- Unlink a node. -/
theorem Family.unlink {h : Heap α} {H : α → Prop} {L : α → List α} (hf : Family h H L) {a x : α}
    (ha : H a) (hx : x ∈ L a) :
    Family (h.unlink x) H (fun b => (L b).erase x) := by
  refine (hf.replace ha ((hf.rep a ha).unlink hx) ?_ ?_).congr ?_
  · exact fun y hy => Or.inl (List.mem_of_mem_erase hy)
  · intro y hya hyL _
    obtain ⟨ys, zs, hL⟩ := List.append_of_mem hx
    have hrep := hL ▸ hf.rep a ha
    have hprev : y ≠ (h x).prev := by
      rw [hrep.chain.prev_eq]
      rcases getLast_mem_cons a ys with e | hm
      · rwa [e]
      · exact fun e => hyL (by simp [hL, e ▸ hm])
    have hnext : y ≠ (h x).next := by
      rw [hrep.chain.suffix.next_eq]
      cases zs with
      | nil => exact fun e => hyL (by simp_all)
      | cons z zs => exact fun e => hyL (by simp_all)
    unfold Heap.unlink
    split_ifs <;> simp [Heap.setNext, Heap.setPrev, hprev, hnext]
  · intro b hb
    rcases eq_or_ne b a with rfl | hba
    · simp
    · have hxb : x ∉ L b := fun hm => hba (hf.apart b a x hb ha hm hx)
      simp [hba, List.erase_of_not_mem hxb]

/-- The sequences once one of them has lost a node. -/
theorem Family.update_eq_erase {h : Heap α} {H : α → Prop} {L : α → List α} (hf : Family h H L)
    {a y : α} {xs ys : List α} (ha : H a) (hL : L a = xs ++ y :: ys) (b : α) (hb : H b) :
    Function.update L a (xs ++ ys) b = (L b).erase y := by
  have hy : y ∈ L a := by
    rw [hL]
    exact List.mem_append_right _ List.mem_cons_self
  rcases eq_or_ne b a with rfl | hba
  · -- In its own sequence the node is once.
    have hn := (List.nodup_cons.mp (hf.rep b hb).nodup).2
    rw [hL] at hn
    have hxs : y ∉ xs := fun hm => (List.nodup_append.mp hn).2.2 y hm y List.mem_cons_self rfl
    rw [Function.update_self, hL, List.erase_append_right _ hxs, List.erase_cons_head]
  · have hyb : y ∉ L b := fun hm => hba (hf.apart b a y hb ha hm hy)
    rw [Function.update_of_ne hba, List.erase_of_not_mem hyb]

/-- A free node whose links are made to point at itself is the head of a new, empty sequence. -/
theorem Family.adopt {h : Heap α} {H : α → Prop} {L : α → List α} (hf : Family h H L) {x : α}
    (hx : Free H L x) (hL : L x = []) :
    Family ((h.setNext x x).setPrev x x) (fun a => a = x ∨ H a) L := by
  have hold : Family ((h.setNext x x).setPrev x x) H L :=
    hf.congr_free hx fun y hy => by simp [Heap.setNext, Heap.setPrev, hy]
  constructor
  · rintro a (rfl | ha)
    · rw [hL]
      exact ⟨by simp, by simp [Chain]⟩
    · exact hold.rep a ha
  · rintro a b y (rfl | ha) (rfl | hb) hya hyb
    · rfl
    · simp [hL] at hya
    · simp [hL] at hyb
    · exact hf.apart a b y ha hb hya hyb
  · rintro a y (rfl | ha) hy
    · simp [hL] at hy
    · rintro (rfl | hH)
      · exact hx.2 a ha hy
      · exact hf.not_head a y ha hy hH

end Links
