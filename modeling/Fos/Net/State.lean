import Fos.Lib.Loops
import Fos.Net.Packet

/-!
# The state of the TCP/IP stack, from `uip/uip.h` and `uip/uip.c`

`Uip` has the variables of `uip.c` that outlive a call, as `uip-conf.h` configures the stack: 40
connections and 40 listening ports, no UDP, no reassembly, no urgent data. Added to them are two
histories, which only statements read. Left out are the statistics and the log.

The application is not under the stack's control. All that a call of `UIP_APPCALL` does to the stack
is a sequence of calls of `uip.h`, an `AppCall` each.
-/

namespace Fos.Net

open Function Loops

/-! ## Constants -/

/-- `UIP_CONNS`, and `UIP_LISTENPORTS`. -/
abbrev uipConns : ℕ := 40

/-- `UIP_BUFSIZE`. `uip_buf` has two more bytes. -/
abbrev uipBufsize : ℕ := 420

/-- `UIP_TCP_MSS`, and `UIP_RECEIVE_WINDOW`: the bytes of `uip_buf` without those of the headers. -/
abbrev uipTcpMss : BitVec 16 := 366

/-- `UIP_RTO`. -/
abbrev uipRto : BitVec 8 := 3

abbrev uipMaxrtx : BitVec 8 := 8
abbrev uipMaxsynrtx : BitVec 8 := 5
abbrev uipTimeWaitTimeout : BitVec 8 := 120

/-- `ICMP_ECHO`, and `ICMP_ECHO_REPLY`. -/
abbrev icmpEcho : BitVec 8 := 8

@[inherit_doc icmpEcho]
abbrev icmpEchoReply : BitVec 8 := 0

namespace Flag

-- The flags of `uip_flags`.
@[simp] abbrev ackdata : BitVec 8 := 1
@[simp] abbrev newdata : BitVec 8 := 2
@[simp] abbrev rexmit : BitVec 8 := 4
@[simp] abbrev poll : BitVec 8 := 8
@[simp] abbrev close : BitVec 8 := 16
@[simp] abbrev abort : BitVec 8 := 32
@[simp] abbrev connected : BitVec 8 := 64
@[simp] abbrev timedout : BitVec 8 := 128

end Flag

namespace Tcp

-- The flags of the TCP header, of which `ctl` masks the defined ones.
@[simp] abbrev fin : BitVec 8 := 0x01
@[simp] abbrev syn : BitVec 8 := 0x02
@[simp] abbrev rst : BitVec 8 := 0x04
@[simp] abbrev psh : BitVec 8 := 0x08
@[simp] abbrev ack : BitVec 8 := 0x10
@[simp] abbrev urg : BitVec 8 := 0x20
@[simp] abbrev ctl : BitVec 8 := 0x3f

end Tcp

namespace Ts

-- The states of `tcpstateflags`, their mask, and the flag of `uip_stop`.
@[simp] abbrev closed : BitVec 8 := 0
@[simp] abbrev synRcvd : BitVec 8 := 1
@[simp] abbrev synSent : BitVec 8 := 2
@[simp] abbrev established : BitVec 8 := 3
@[simp] abbrev finWait1 : BitVec 8 := 4
@[simp] abbrev finWait2 : BitVec 8 := 5
@[simp] abbrev closing : BitVec 8 := 6
@[simp] abbrev timeWait : BitVec 8 := 7
@[simp] abbrev lastAck : BitVec 8 := 8
@[simp] abbrev mask : BitVec 8 := 15
@[simp] abbrev stopped : BitVec 8 := 16

end Ts

/-! ## Connections -/

/-- `struct uip_conn`, without the state of the application. -/
structure Conn where
  ripaddr : BitVec 32
  lport : BitVec 16
  rport : BitVec 16
  rcvNxt : BitVec 32
  sndNxt : BitVec 32
  len : BitVec 16
  mss : BitVec 16
  initialmss : BitVec 16
  sa : BitVec 8
  sv : BitVec 8
  rto : BitVec 8
  tcpstateflags : BitVec 8
  timer : BitVec 8
  nrtx : BitVec 8
  deriving Inhabited

/-- `tcpstateflags & UIP_TS_MASK`. -/
def Conn.state (c : Conn) : BitVec 8 := c.tcpstateflags &&& Ts.mask

/-- `tcpstateflags & UIP_STOPPED`. -/
def Conn.stopped (c : Conn) : Bool := c.tcpstateflags &&& Ts.stopped ≠ 0

/-- `uip_outstanding`. -/
def Conn.outstanding (c : Conn) : Bool := c.len ≠ 0

/-- What the application finds when it is called: the connection and its number, `uip_flags`, and
the `uip_len` bytes at `uip_appdata`. -/
structure View where
  conn : Fin uipConns
  tcb : Conn
  flags : BitVec 8
  data : List (BitVec 8)

/-- The variables of `uip.c` that sending a packet leaves alone. `seen` and `opened` are histories:
what the application has been called with in the last call of `uip_process`, and how often each
entry of `uip_conns` has been taken for a new connection. -/
structure Tables where
  conn : Fin uipConns
  conns : Fin uipConns → Conn
  listenports : Fin uipConns → BitVec 16
  iss : BitVec 32
  lastport : BitVec 16
  hostaddr : BitVec 32
  draddr : BitVec 32
  netmask : BitVec 32
  seen : Option View
  opened : Fin uipConns → ℕ
  deriving Inhabited

/-- The variables of `uip.c`. `appdata` is the offset in the buffer of what `uip_appdata` points to;
`uip_sappdata` always points to `At.optdata`. -/
structure Uip extends Tables where
  buf : Buf
  len : BitVec 16
  slen : BitVec 16
  flags : BitVec 8
  appdata : ℕ
  ipid : BitVec 16
  deriving Inhabited

namespace Uip

/-- `*uip_connr`, which is `*uip_conn` wherever it is used. -/
def connr (s : Uip) : Conn := s.conns s.conn

/-- Assignments to fields of `*uip_connr`. -/
def setConnr (s : Uip) (c : Conn) : Uip := { s with conns := update s.conns s.conn c }

/-- Assignments to the buffer. -/
def put8 (s : Uip) (k : ℕ) (v : BitVec 8) : Uip := { s with buf := Net.put8 s.buf k v }

@[inherit_doc put8]
def put16 (s : Uip) (k : ℕ) (v : BitVec 16) : Uip := { s with buf := Net.put16 s.buf k v }

@[inherit_doc put8]
def put32 (s : Uip) (k : ℕ) (v : BitVec 32) : Uip := { s with buf := Net.put32 s.buf k v }

variable (s : Uip) (k : ℕ)

@[simp] theorem put8_toTables (v : BitVec 8) : (s.put8 k v).toTables = s.toTables := rfl

@[simp] theorem put8_buf (v : BitVec 8) : (s.put8 k v).buf = Net.put8 s.buf k v := rfl

@[simp] theorem put8_len (v : BitVec 8) : (s.put8 k v).len = s.len := rfl

@[simp] theorem put16_toTables (v : BitVec 16) : (s.put16 k v).toTables = s.toTables := rfl

@[simp] theorem put16_len (v : BitVec 16) : (s.put16 k v).len = s.len := rfl

@[simp] theorem put32_toTables (v : BitVec 32) : (s.put32 k v).toTables = s.toTables := rfl

@[simp] theorem put32_len (v : BitVec 32) : (s.put32 k v).len = s.len := rfl

end Uip

/-! ## Sequence numbers -/

/-- `++x[3]`, and the carries that the source brings on to `x[2]`, `x[1]` and `x[0]`. -/
def inc32 (x : BitVec 32) : BitVec 32 :=
  let x0 := x.extractLsb' 24 8
  let x1 := x.extractLsb' 16 8
  let x2 := x.extractLsb' 8 8
  let x3 := x.extractLsb' 0 8 + 1
  if x3 = 0 then
    let x2 := x2 + 1
    if x2 = 0 then
      let x1 := x1 + 1
      if x1 = 0 then x0 + 1 ++ x1 ++ x2 ++ x3 else x0 ++ x1 ++ x2 ++ x3
    else x0 ++ x1 ++ x2 ++ x3
  else x0 ++ x1 ++ x2 ++ x3

/-- `uip_add32`, whose result the source leaves in `uip_acc32`. -/
def uipAdd32 (op32 : BitVec 32) (op16 : BitVec 16) : BitVec 32 :=
  let a3 := op32.extractLsb' 0 8 + (op16 &&& 0xff).setWidth 8
  let a2 := op32.extractLsb' 8 8 + (op16 >>> 8).setWidth 8
  let a1 := op32.extractLsb' 16 8
  let a0 := op32.extractLsb' 24 8
  let (a0, a1) :=
    if a2 < (op16 >>> 8).setWidth 8 then
      let a1 := a1 + 1
      (if a1 = 0 then a0 + 1 else a0, a1)
    else (a0, a1)
  if a3 < (op16 &&& 0xff).setWidth 8 then
    let a2 := a2 + 1
    if a2 = 0 then
      let a1 := a1 + 1
      (if a1 = 0 then a0 + 1 else a0) ++ a1 ++ a2 ++ a3
    else a0 ++ a1 ++ a2 ++ a3
  else a0 ++ a1 ++ a2 ++ a3

theorem toNat_bytes (x : BitVec 32) : x.toNat = ((x.extractLsb' 24 8).toNat * 256 +
    (x.extractLsb' 16 8).toNat) * 65536 + (x.extractLsb' 8 8).toNat * 256 +
    (x.extractLsb' 0 8).toNat := by
  have hx := x.isLt
  simp only [BitVec.extractLsb'_toNat, Nat.shiftRight_eq_div_pow]
  omega

theorem toNat_append4 (x0 x1 x2 x3 : BitVec 8) : (x0 ++ x1 ++ x2 ++ x3 : BitVec 32).toNat =
    (x0.toNat * 256 + x1.toNat) * 65536 + x2.toNat * 256 + x3.toNat := by
  have h1 := x1.isLt
  have h2 := x2.isLt
  have h3 := x3.isLt
  rw [BitVec.toNat_append, BitVec.toNat_append, BitVec.toNat_append,
    ← Nat.shiftLeft_add_eq_or_of_lt h1, ← Nat.shiftLeft_add_eq_or_of_lt h2,
    ← Nat.shiftLeft_add_eq_or_of_lt h3]
  simp only [Nat.shiftLeft_eq]
  omega

/-- The carries add one to the 32-bit number. -/
theorem inc32_eq (x : BitVec 32) : inc32 x = x + 1 := by
  have hx := toNat_bytes x
  unfold inc32
  generalize x.extractLsb' 24 8 = x0 at hx ⊢
  generalize x.extractLsb' 16 8 = x1 at hx ⊢
  generalize x.extractLsb' 8 8 = x2 at hx ⊢
  generalize x.extractLsb' 0 8 = x3 at hx ⊢
  have h0 := x0.isLt
  have h1 := x1.isLt
  have h2 := x2.isLt
  have h3 := x3.isLt
  apply BitVec.eq_of_toNat_eq
  simp only [← BitVec.toNat_inj, BitVec.toNat_add, BitVec.ofNat_eq_ofNat, BitVec.toNat_ofNat]
  split_ifs with h3 h2 h1 <;>
    simp only [toNat_append4, BitVec.toNat_add, BitVec.toNat_ofNat] <;> omega

/-- `uip_add32` adds 32-bit numbers. -/
theorem uipAdd32_eq (x : BitVec 32) (n : BitVec 16) : uipAdd32 x n = x + n.setWidth 32 := by
  have hx := toNat_bytes x
  have hn := n.isLt
  have hlow : ((n &&& 0xff).setWidth 8).toNat = n.toNat % 256 := by
    rw [BitVec.toNat_setWidth, BitVec.toNat_and]
    exact (congrArg (· % 2^8) (Nat.and_two_pow_sub_one_eq_mod n.toNat 8)).trans (by omega)
  have hhigh : ((n >>> 8).setWidth 8).toNat = n.toNat / 256 := by
    rw [BitVec.toNat_setWidth, BitVec.toNat_ushiftRight, Nat.shiftRight_eq_div_pow]
    omega
  unfold uipAdd32
  generalize (n &&& 0xff).setWidth 8 = lo at hlow ⊢
  generalize (n >>> 8).setWidth 8 = hi at hhigh ⊢
  generalize x.extractLsb' 24 8 = x0 at hx ⊢
  generalize x.extractLsb' 16 8 = x1 at hx ⊢
  generalize x.extractLsb' 8 8 = x2 at hx ⊢
  generalize x.extractLsb' 0 8 = x3 at hx ⊢
  have h0 := x0.isLt
  have h1 := x1.isLt
  have h2 := x2.isLt
  have h3 := x3.isLt
  apply BitVec.eq_of_toNat_eq
  simp only [← BitVec.toNat_inj, BitVec.lt_def, BitVec.toNat_add, BitVec.ofNat_eq_ofNat,
    BitVec.toNat_ofNat, BitVec.toNat_setWidth]
  split_ifs <;> simp only [toNat_append4, BitVec.toNat_add, BitVec.toNat_ofNat] at * <;> omega

end Fos.Net
