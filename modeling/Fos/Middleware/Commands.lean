import Fos.Middleware.Shell

/-!
# The table of commands

Up to ten `export`s make a list of the commands, the latest first, so that `parser` calls the
command of a name that has been exported last (`Exported.parser_eq`). The next `export` writes
behind `_malloc`, for nothing looks at `temp` (`command_table_iff`).
-/

namespace Fos

open Loops Arrays Function

/-- `export` of the functions and names, one after the other. -/
def exportAll (s : ShellState) : List (ℕ × ℕ) → Option ShellState
  | [] => some s
  | e :: es => (s.export e.1 e.2).bind fun s => exportAll s es

/-- From a `next` on, the list has the symbols with these functions and names. -/
def ShellState.Lists (s : ShellState) : Option SymbolNode → List (ℕ × ℕ) → Prop
  | next, [] => next = none
  | next, e :: es => ∃ node sym, next = some node ∧ s.symbol node = some sym ∧
      (sym.func, sym.name) = e ∧ s.next node = some sym.next ∧ s.Lists sym.next es

/-- The commands `es`, and strings at their names, as a table. -/
structure CommandTable (mem : ℕ → UInt8) (es : List (ℕ × ℕ)) (s : ShellState) : Prop where
  /-- Every symbol is on the list. -/
  list : s.Lists s.symHead es.reverse
  /-- `parser` of a string calls the function that has been exported last under this name, once, or
  none if there is no such. -/
  parser : ∀ cmd text, IsString mem cmd text → s.parser mem cmd =
    some (match es.reverse.find? fun e => IsString mem e.2 text with
      | some e => ([e.1], true)
      | none => ([], false))

/-- What the `next` of a symbol is: the one before, or none for the first. -/
def nodeBefore : ℕ → Option SymbolNode
  | 0 => none
  | i + 1 => some (.malloc i)

/-- The invariant: the symbols are in `_malloc` in order, each with the one before as its `next`. -/
structure Exported (s : ShellState) (es : List (ℕ × ℕ)) : Prop where
  size : s.malloc.size = 10
  temp : s.temp = es.length
  room : es.length ≤ 10
  head : s.symHead = nodeBefore es.length
  cell : ∀ i (hi : i < es.length), s.malloc.cell i = ⟨nodeBefore i, es[i].1, es[i].2⟩

variable {mem : ℕ → UInt8} {s s' : ShellState} {es : List (ℕ × ℕ)} {e : ℕ × ℕ} {cmd : ℕ}
  {text : List UInt8} {node : SymbolNode} {next : Option SymbolNode}

/-! ## `export` -/

/-- Before the first `export`. -/
theorem exported_init : Exported .init [] :=
  ⟨rfl, rfl, by decide, rfl, fun i hi => absurd hi (Nat.not_lt_zero i)⟩

/-- What `export` does, if the next symbol is inside of the array. -/
theorem export_eq (s : ShellState) (func name : ℕ) : s.export func name =
    if s.malloc.Inside s.temp then some {
      symHead := some (.malloc s.temp)
      malloc := { s.malloc with cell := update s.malloc.cell s.temp ⟨s.symHead, func, name⟩ }
      temp := s.temp + 1 }
    else none := by
  unfold ShellState.export
  split_ifs with h
  · obtain ⟨h0, hsize⟩ := h
    simp [ShellState.listInsert, ShellState.next, ShellState.setNext, Arr.read, Arr.write,
      Arr.Inside, h0, hsize]
  · simp [Arr.read, h]

/-- `export`, while there is room. -/
theorem Exported.export (h : Exported s es) (e : ℕ × ℕ) (hroom : es.length < 10) :
    ∃ s', s.export e.1 e.2 = some s' ∧ Exported s' (es ++ [e]) := by
  have hinside : s.malloc.Inside s.temp := by
    unfold Arr.Inside
    rw [h.size, h.temp]
    omega
  refine ⟨_, (export_eq s e.1 e.2).trans (if_pos hinside), ?_⟩
  constructor
  · exact h.size
  · simp [h.temp]
  · simp
    omega
  · rw [List.length_append, List.length_singleton, nodeBefore, h.temp]
  · intro i hi
    rw [List.length_append, List.length_singleton] at hi
    by_cases hlast : i = es.length
    · subst hlast
      dsimp only
      rw [h.temp, update_self, h.head]
      simp only [List.getElem_concat_length]
    · have hi : i < es.length := by omega
      dsimp only
      rw [update_of_ne (by rw [h.temp]; omega), List.getElem_append_left hi]
      exact h.cell i hi

/-- When ten commands have been exported, `export` writes behind the array. -/
theorem Exported.export_full (h : Exported s es) (func name : ℕ) (hfull : es.length = 10) :
    s.export func name = none := by
  have hinside : ¬ s.malloc.Inside s.temp := by
    unfold Arr.Inside
    rw [h.size, h.temp]
    omega
  exact (export_eq s func name).trans (if_neg hinside)

/-! ## The list -/

/-- The symbol at an index below the number of commands. -/
theorem Exported.symbol_eq (h : Exported s es) {i : ℕ} (hi : i < es.length) :
    s.symbol (.malloc i) = some ⟨nodeBefore i, es[i].1, es[i].2⟩ := by
  have hinside : s.malloc.Inside i := by
    have hroom := h.room
    unfold Arr.Inside
    rw [h.size]
    omega
  exact (Arr.read_of_inside hinside).trans (congrArg some (h.cell i hi))

/-- The `next` of a symbol is the one in its list. -/
theorem ShellState.next_malloc (s : ShellState) (i : ℤ) :
    s.next (.malloc i) = (s.symbol (.malloc i)).map (·.next) := rfl

/-- From the symbol before a place on, the list has the commands before that place. -/
theorem Exported.lists (h : Exported s es) {n : ℕ} (hn : n ≤ es.length) :
    s.Lists (nodeBefore n) (es.take n).reverse := by
  induction n with
  | zero => exact rfl
  | succ n ih =>
    have hsymbol := h.symbol_eq hn
    rw [List.take_succ_eq_append_getElem hn, List.reverse_append]
    refine ⟨.malloc n, _, rfl, hsymbol, rfl, ?_, ih (by omega)⟩
    rw [ShellState.next_malloc, hsymbol]
    rfl

/-! ## `parser` -/

/-- `parser` goes through the list to the first command of the name. -/
theorem parser_lists (hcmd : IsString mem cmd text) {tmp : SymbolNode}
    (hnames : ∀ e ∈ es, ∃ t, IsString mem e.2 t) (htmp : s.next tmp = some next)
    (hlist : s.Lists next es) : repeatUntil (s.parserRound mem cmd) tmp =
      some (match es.find? fun e => IsString mem e.2 text with
        | some e => ([e.1], true)
        | none => ([], false)) := by
  induction es generalizing tmp next with
  | nil =>
    obtain rfl : next = none := hlist
    apply repeatUntil_of_inr
    unfold ShellState.parserRound
    rw [htmp]
    rfl
  | cons e es ih =>
    obtain ⟨node, sym, rfl, hsym, rfl, hnext, hlist⟩ := hlist
    obtain ⟨⟨t, ht⟩, hnames⟩ := List.forall_mem_cons.mp hnames
    obtain ⟨c, hc, hiff⟩ := strcmp_eq hcmd ht
    have hround : s.parserRound mem cmd tmp =
        if c = 0 then some (.inr ([sym.func], true)) else some (.inl node) := by
      unfold ShellState.parserRound
      simp only [htmp, hsym, hc, Option.bind_eq_bind, Option.bind_some]
    have hfound : IsString mem sym.name text ↔ c = 0 := by
      rw [hiff]
      exact ⟨fun h => h.unique ht, fun h => h ▸ ht⟩
    by_cases h0 : c = 0
    · rw [repeatUntil_of_inr (hround.trans (if_pos h0)),
        List.find?_cons_of_pos (by simpa [hfound] using h0)]
    · rw [repeatUntil_of_inl (hround.trans (if_neg h0)), ih hnames hnext hlist,
        List.find?_cons_of_neg (by simpa [hfound] using h0)]

/-- The commands that have been exported are a table, if there are strings at their names. -/
theorem Exported.table (h : Exported s es) (hnames : ∀ e ∈ es, ∃ t, IsString mem e.2 t) :
    CommandTable mem es s := by
  have hlist : s.Lists s.symHead es.reverse := by
    rw [h.head]
    have hall := h.lists le_rfl
    rwa [List.take_length] at hall
  refine ⟨hlist, fun cmd text hcmd => parser_lists hcmd ?_ rfl hlist⟩
  exact fun e he => hnames e (List.mem_reverse.mp he)

/-! ## All exports -/

/-- From some exports on, the others fit exactly if there are no more than ten together. -/
theorem Exported.exportAll (h : Exported s es) (es' : List (ℕ × ℕ)) :
    if (es ++ es').length ≤ 10 then ∃ s', Fos.exportAll s es' = some s' ∧ Exported s' (es ++ es')
    else Fos.exportAll s es' = none := by
  induction es' generalizing s es with
  | nil =>
    rw [List.append_nil, if_pos h.room]
    exact ⟨s, rfl, h⟩
  | cons e es' ih =>
    have hlen : (es ++ e :: es').length = (es ++ [e] ++ es').length := by simp
    by_cases hroom : es.length < 10
    · obtain ⟨s₁, hs₁, h₁⟩ := h.export e hroom
      have hih := ih h₁
      rw [List.append_assoc, List.singleton_append] at hih
      rw [Fos.exportAll, hs₁]
      exact hih
    · have hfull : es.length = 10 := le_antisymm h.room (not_lt.mp hroom)
      rw [if_neg (by simp; omega), Fos.exportAll, h.export_full e.1 e.2 hfull]
      rfl

/-- The commands that are exported make a table exactly if there are no more than ten. -/
theorem command_table_iff (hnames : ∀ e ∈ es, ∃ t, IsString mem e.2 t) :
    (∃ s, exportAll .init es = some s ∧ CommandTable mem es s) ↔ es.length ≤ 10 := by
  have hall := exported_init.exportAll es
  rw [List.nil_append] at hall
  constructor
  · rintro ⟨s, hs, -⟩
    by_contra hlen
    rw [if_neg hlen, hs] at hall
    cases hall
  · intro hlen
    rw [if_pos hlen] at hall
    obtain ⟨s, hs, h⟩ := hall
    exact ⟨s, hs, h.table hnames⟩

/-- The name `a`, exported before and after the name `b`. -/
theorem command_table_twice : ∃ s, exportAll .init [(5, 0), (6, 2), (7, 0)] = some s ∧
    CommandTable (fun p => [97, 0, 98].getD p 0) [(5, 0), (6, 2), (7, 0)] s ∧
      s.parser (fun p => [97, 0, 98].getD p 0) 0 = some ([7], true) := by
  have ha : IsString (fun p => [97, 0, 98].getD p 0) 0 [97] := by decide
  have hb : IsString (fun p => [97, 0, 98].getD p 0) 2 [98] := by decide
  have hnames : ∀ e ∈ [(5, 0), (6, 2), (7, 0)], ∃ t,
      IsString (fun p => [97, 0, 98].getD p 0) e.2 t := by
    simp only [List.forall_mem_cons, List.not_mem_nil, false_implies, implies_true, and_true]
    exact ⟨⟨_, ha⟩, ⟨_, hb⟩, ⟨_, ha⟩⟩
  obtain ⟨s, hs, h⟩ := (command_table_iff hnames).mpr (by decide)
  exact ⟨s, hs, h, h.parser 0 [97] ha⟩

/-- Eleven exports of the name `a`: the last one writes behind the array. -/
theorem not_command_table_eleven : IsString (fun p => [97].getD p 0) 0 [97] ∧
    exportAll .init (List.replicate 11 (5, 0)) = none ∧
      ¬ ∃ s, exportAll .init (List.replicate 11 (5, 0)) = some s ∧
        CommandTable (fun p => [97].getD p 0) (List.replicate 11 (5, 0)) s := by
  have hnone := exported_init.exportAll (List.replicate 11 (5, 0))
  rw [List.nil_append, if_neg (by decide)] at hnone
  refine ⟨by decide, hnone, ?_⟩
  rintro ⟨s, hs, -⟩
  cases hnone.symm.trans hs

end Fos
