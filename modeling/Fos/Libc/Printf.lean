import Fos.Lib.Arrays
import Fos.Libc.String
import Mathlib.Algebra.Group.Nat.Defs

/-!
# `itoa` and `print`, from `libc/printf.c`

A local array is an `Arr`, and a pointer into it an offset; what lies outside of it is not the
function's, so that a write there is `none`. `int` and `unsigned` have 32 bits, and
`unsigned long` has as many as the compiler gives it. `putc` appends to the output, and `print`
returns zero, which is left out.
-/

namespace Fos

open Loops Arrays

/-! ## `itoa` -/

/-- The character of a digit. -/
def digitChar (digval : ℕ) : UInt8 :=
  if 9 < digval then UInt8.ofNat (digval - 10 + (chr 'a').toNat)
  else UInt8.ofNat (digval + (chr '0').toNat)

/-- The first loop of `itoa`: it stores the digits, the least significant first, and gives the
pointer behind them. -/
def itoaDigits (radix : ℕ) (s : ℕ × Arr UInt8 × ℤ) :
    Option ((ℕ × Arr UInt8 × ℤ) ⊕ (Arr UInt8 × ℤ)) :=
  let (val, buf, p) := s
  if radix = 0 then none
  else do
    let digval := val % radix % 2^32
    let val := val / radix
    let buf ← buf.write p (digitChar digval)
    if 0 < val then some (.inl (val, buf, p + 1)) else some (.inr (buf, p + 1))

/-- The second loop of `itoa`: it swaps the characters at the two pointers. -/
def itoaReverse (s : Arr UInt8 × ℤ × ℤ) : Option ((Arr UInt8 × ℤ × ℤ) ⊕ Arr UInt8) := do
  let (buf, p, firstdig) := s
  let temp ← buf.read p
  let c ← buf.read firstdig
  let buf ← buf.write p c
  let buf ← buf.write firstdig temp
  let p := p - 1
  let firstdig := firstdig + 1
  if firstdig < p then some (.inl (buf, p, firstdig)) else some (.inr buf)

/-- `itoa`, with the pointer `p` into the array that `buf` is. -/
def itoa (val : ℕ) (buf : Arr UInt8) (p : ℤ) (radix : ℕ) : Option (Arr UInt8) := do
  let firstdig := p
  let (buf, p) ← repeatUntil (itoaDigits radix) (val, buf, p)
  let buf ← buf.write p 0
  let p := p - 1
  repeatUntil itoaReverse (buf, p, firstdig)

/-! ## `print` -/

/-- The sizes of the integer types: `int` has 32 bits, and `unsigned long` has 32 or 64. -/
inductive LongModel where
  | ilp32 | lp64
  deriving DecidableEq

/-- The number of bits of `unsigned long`. -/
def LongModel.bits : LongModel → ℕ
  | .ilp32 => 32
  | .lp64 => 64

/-- An `int`, converted to `unsigned long`. -/
def LongModel.ofInt (m : LongModel) (i : BitVec 32) : ℕ := (i.toInt % 2^m.bits).toNat

/-- An argument of `print`. -/
inductive Arg where
  /-- An `int`. -/
  | int (i : BitVec 32)
  /-- A `char *`. -/
  | str (p : ℕ)
  deriving DecidableEq

/-- Where `print` has come to. -/
structure PrintState where
  /-- `format`. -/
  format : ℕ
  /-- `arg`: the arguments that have not been taken. -/
  arg : List Arg
  /-- What `putc` has written. -/
  out : List UInt8
  /-- The places that `format` has been read at, for statements; the code does not read it. -/
  reads : List ℕ
  /-- The arguments that have been taken, each with the conversion that has taken it, for
  statements; the code does not read it. -/
  taken : List (UInt8 × Arg)

/-- `va_arg(arg, int)`, for the conversion `f`. -/
def PrintState.vaInt (s : PrintState) (f : UInt8) : Option (BitVec 32 × PrintState) :=
  match s.arg with
  | .int i :: arg => some (i, { s with arg := arg, taken := s.taken ++ [(f, .int i)] })
  | _ => none

/-- `va_arg(arg, char *)`, for the conversion `f`. -/
def PrintState.vaStr (s : PrintState) (f : UInt8) : Option (ℕ × PrintState) :=
  match s.arg with
  | .str p :: arg => some (p, { s with arg := arg, taken := s.taken ++ [(f, .str p)] })
  | _ => none

/-- `putc`, of one character after the other. -/
def PrintState.putc (s : PrintState) (text : List UInt8) : PrintState :=
  { s with out := s.out ++ text }

/-- A round of `while (*str != '\0') putc(*str++, stdout)`, with what has been written. -/
def putStringRound (read : ℕ → Option UInt8) (s : ℕ × List UInt8) :
    Option ((ℕ × List UInt8) ⊕ List UInt8) := do
  let (str, text) := s
  let c ← read str
  if c = 0 then some (.inr text) else some (.inl (str + 1, text ++ [c]))

/-- The characters that this loop writes. -/
def putString (read : ℕ → Option UInt8) (str : ℕ) : Option (List UInt8) :=
  repeatUntil (putStringRound read) (str, [])

/-- The conversion `f` of an integer: `store` is what the local array holds before. -/
def printInt (m : LongModel) (store : ℤ → UInt8) (radix : ℕ) (f : UInt8) (s : PrintState) :
    Option PrintState := do
  let (i, s) ← s.vaInt f
  let store ← itoa (m.ofInt i) ⟨20, store⟩ 0 radix
  let text ← putString (fun str => store.read str) 0
  some (s.putc text)

/-- What `print` does when `%` and `f` come. -/
def printConversion (m : LongModel) (mem : ℕ → UInt8) (store : ℤ → UInt8) (f : UInt8)
    (s : PrintState) : Option PrintState :=
  if f = chr 'c' then do
    let (i, s) ← s.vaInt f
    some (s.putc [UInt8.ofNat i.toNat])
  else if f = chr 'd' ∨ f = chr 'i' then printInt m store 10 f s
  else if f = chr 'o' then printInt m store 8 f s
  else if f = chr 'x' then printInt m store 16 f s
  else if f = chr 's' then do
    let (str, s) ← s.vaStr f
    let text ← putString (fun p => some (mem p)) str
    some (s.putc text)
  else some s

/-- A round of the loop of `print`. -/
def printRound (m : LongModel) (mem : ℕ → UInt8) (store : ℤ → UInt8) (s : PrintState) :
    Option (PrintState ⊕ PrintState) :=
  let s := { s with reads := s.format :: s.reads }
  if mem s.format = 0 then some (.inr s)
  else if mem s.format = chr '%' then do
    let s := { s with reads := (s.format + 1) :: s.reads }
    let s ← printConversion m mem store (mem (s.format + 1)) s
    some (.inl { s with format := s.format + 2 })
  else some (.inl { s.putc [mem s.format] with format := s.format + 1 })

/-- `print`. -/
def print (m : LongModel) (mem : ℕ → UInt8) (store : ℤ → UInt8) (format : ℕ) (arg : List Arg) :
    Option PrintState :=
  repeatUntil (printRound m mem store) ⟨format, arg, [], [], []⟩

end Fos
