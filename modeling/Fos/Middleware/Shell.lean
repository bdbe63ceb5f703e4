import Fos.Lib.Arrays
import Fos.Libc.String

/-!
# The shell, from `middleware/shell_parser`

The commands are `SYMBOL`s of the array `_malloc`, in a list whose head is `sym_head`. A read or a
write outside of an array is `none`. The function of a command is called with `NULL`, and `os_delay`
and the messages to the user are left out.
-/

namespace Fos

open Loops Arrays

/-! ## The commands -/

/-- The address of a `_LIST` node of `shell.c`; the list is the first member of a `SYMBOL`. -/
inductive SymbolNode where
  /-- `sym_head.list`. -/
  | symHead
  /-- `_malloc[i].list`. -/
  | malloc (i : ℤ)
  deriving DecidableEq

/-- `SYMBOL`, with the `next` of its list, and without the `arg`. -/
structure Symbol where
  next : Option SymbolNode
  func : ℕ
  name : ℕ

/-- The variables of `shell.c` for the commands. -/
structure ShellState where
  /-- `sym_head.list.next`. -/
  symHead : Option SymbolNode
  /-- `_malloc`. -/
  malloc : Arr Symbol
  /-- The static `temp` of `export`. -/
  temp : ℤ

namespace ShellState

/-- The variables at the start. `SYMBOL`s hold zeros then. -/
def init : ShellState where
  symHead := none
  malloc := ⟨10, fun _ => ⟨none, 0, 0⟩⟩
  temp := 0

/-- `node->next`. -/
def next (s : ShellState) : SymbolNode → Option (Option SymbolNode)
  | .symHead => some s.symHead
  | .malloc i => (s.malloc.read i).map (·.next)

/-- `node->next = n`. -/
def setNext (s : ShellState) (n : Option SymbolNode) : SymbolNode → Option ShellState
  | .symHead => some { s with symHead := n }
  | .malloc i => do
    let sym ← s.malloc.read i
    let malloc ← s.malloc.write i { sym with next := n }
    some { s with malloc := malloc }

/-- `_list_insert`. -/
def listInsert (s : ShellState) (head node : SymbolNode) : Option ShellState := do
  let n ← s.next head
  let s ← s.setNext n node
  s.setNext (some node) head

/-- `export`. -/
def «export» (s : ShellState) (func name : ℕ) : Option ShellState := do
  let token := s.temp
  let s := { s with temp := s.temp + 1 }
  let sym ← s.malloc.read token
  let malloc ← s.malloc.write token { sym with func := func }
  let s := { s with malloc := malloc }
  let sym ← s.malloc.read token
  let malloc ← s.malloc.write token { sym with name := name }
  let s := { s with malloc := malloc }
  s.listInsert .symHead (.malloc token)

/-- The `SYMBOL` that a node is in. -/
def symbol (s : ShellState) : SymbolNode → Option Symbol
  | .symHead => none
  | .malloc i => s.malloc.read i

/-- A round of the loop of `parser`. -/
def parserRound (s : ShellState) (mem : ℕ → UInt8) (cmd : ℕ) (tmp : SymbolNode) :
    Option (SymbolNode ⊕ (List ℕ × Bool)) := do
  match ← s.next tmp with
  | none => some (.inr ([], false))
  | some node =>
    let sym ← s.symbol node
    let c ← strcmp mem cmd sym.name
    if c = 0 then some (.inr ([sym.func], true)) else some (.inl node)

/-- `parser`: the functions that it calls, and what it returns. -/
def parser (s : ShellState) (mem : ℕ → UInt8) (cmd : ℕ) : Option (List ℕ × Bool) :=
  repeatUntil (s.parserRound mem cmd) .symHead

end ShellState

/-! ## The lines -/

/-- What `getchar` gives at a place of the input, as a byte; at the end of the input it is -1. -/
def getchar (input : ℕ → Option UInt8) (pos : ℕ) : UInt8 := (input pos).getD 255

/-- A round of the loop that reads a line: `i` is the index into `buff_cmd`. -/
def readRound (input : ℕ → Option UInt8) (s : Arr UInt8 × UInt8 × ℕ) :
    Option ((Arr UInt8 × UInt8 × ℕ) ⊕ (Arr UInt8 × UInt8 × ℕ)) := do
  let (buffCmd, i, pos) := s
  let buffCmd ← buffCmd.write i.toNat (getchar input pos)
  let c ← buffCmd.read i.toNat
  if c = chr '\n' then some (.inr (buffCmd, i, pos + 1))
  else some (.inl (buffCmd, i + 1, pos + 1))

/-- A round of the loop of `shell_thread`, with what `parser` gets. -/
def shellRound (input : ℕ → Option UInt8) (buffCmd : Arr UInt8) (pos : ℕ) :
    Option (Arr UInt8 × ℕ × Option (Arr UInt8)) := do
  let (buffCmd, i, pos) ← repeatUntil (readRound input) (buffCmd, 0, pos)
  let c ← buffCmd.read 0
  if c = chr '\n' then some (buffCmd, pos, none)
  else do
    let buffCmd ← buffCmd.write i.toNat 0
    let cmd := buffCmd
    let buffCmd ← buffCmd.writeAll 0 (List.replicate 128 0)
    some (buffCmd, pos, some cmd)

end Fos
