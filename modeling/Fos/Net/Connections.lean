import Fos.Net.State
import Mathlib.Data.Fintype.Card

/-!
# What an application calls, from `uip/uip.c` and `uip/uip.h`

A call is a function to `Option`, which is `none` where it never returns. `uip_connect` tries local
ports until one is free, and always finds one (`nextPort_isSome`).
-/

namespace Fos.Net

open Function Loops

/-- `uip_init`. -/
def uipInit (s : Uip) : Uip :=
  { s with
    listenports := fun _ => 0
    conns := fun i => { s.conns i with tcpstateflags := Ts.closed }
    lastport := 1024 }

/-- `uip_connect` finds the local port `htons(lastport)` in use. -/
def portInUse (conns : Fin uipConns → Conn) (lastport : BitVec 16) : Bool :=
  (List.finRange uipConns).any fun c =>
    (conns c).tcpstateflags ≠ Ts.closed ∧ (conns c).lport = htons lastport

/-- `++lastport`, which `uip_connect` keeps below 32000. -/
def incPort (lastport : BitVec 16) : BitVec 16 :=
  if 32000 ≤ lastport + 1 then 4096 else lastport + 1

/-- The loop that jumps back to `again` in `uip_connect`. -/
def nextPort (conns : Fin uipConns → Conn) (lastport : BitVec 16) : Option (BitVec 16) :=
  repeatUntil (fun lastport =>
    let lastport := incPort lastport
    if portInUse conns lastport then some (.inl lastport) else some (.inr lastport)) lastport

/-- The loop in `uip_connect` and at `found_listen` that looks for a connection to use: a closed
one, or else the one that has been in `TIME_WAIT` for the longest time. `conn` is the one found so
far. -/
def findConn (conns : Fin uipConns → Conn) :
    List (Fin uipConns) → Option (Fin uipConns) → Option (Fin uipConns)
  | [], conn => conn
  | c :: cs, conn =>
    if (conns c).tcpstateflags = Ts.closed then some c
    else if (conns c).tcpstateflags = Ts.timeWait ∧
        conn.all (fun conn => (conns conn).timer < (conns c).timer) then
      findConn conns cs (some c)
    else findConn conns cs conn

/-- The connection to use. -/
def unusedConn (conns : Fin uipConns → Conn) : Option (Fin uipConns) :=
  findConn conns (List.finRange uipConns) none

/-- `uip_connect`. The application is left to find the connection that it returns. -/
def uipConnect (s : Uip) (ripaddr : BitVec 32) (rport : BitVec 16) : Option Uip := do
  let lastport ← nextPort s.conns s.lastport
  let s := { s with lastport := lastport }
  match unusedConn s.conns with
  | none => some s
  | some conn =>
    let c : Conn := { s.conns conn with
      tcpstateflags := Ts.synSent
      sndNxt := s.iss
      initialmss := uipTcpMss
      mss := uipTcpMss
      len := 1
      nrtx := 0
      timer := 1
      rto := uipRto
      sa := 0
      sv := 16
      lport := htons lastport
      rport := rport
      ripaddr := ripaddr }
    some { s with
      conns := update s.conns conn c
      opened := update s.opened conn (s.opened conn + 1) }

/-- `uip_unlisten`. -/
def uipUnlisten (s : Uip) (port : BitVec 16) : Uip :=
  match (List.finRange uipConns).find? fun c => s.listenports c = port with
  | none => s
  | some c => { s with listenports := update s.listenports c 0 }

/-- `uip_listen`. -/
def uipListen (s : Uip) (port : BitVec 16) : Uip :=
  match (List.finRange uipConns).find? fun c => s.listenports c = 0 with
  | none => s
  | some c => { s with listenports := update s.listenports c port }

/-- `uip_send`. -/
def uipSend (s : Uip) (data : List (BitVec 8)) : Uip :=
  if 0 < data.length then
    let s := { s with slen := BitVec.ofNat 16 data.length }
    { s with buf := putBytes s.buf At.optdata (data.take s.slen.toNat) }
  else s

/-- What the application does to the stack. -/
inductive AppCall where
  | send (data : List (BitVec 8))
  | close
  | abort
  | stop
  | restart
  | connect (ripaddr : BitVec 32) (rport : BitVec 16)
  | listen (port : BitVec 16)
  | unlisten (port : BitVec 16)

/-- A call of `uip.h` by the application, `none` where `uip_send` copies its data over the end of
`uip_buf`. -/
def AppCall.run (s : Uip) : AppCall → Option Uip
  | .send data =>
    if At.optdata + (BitVec.ofNat 16 data.length).toNat ≤ uipBufsize + 2 then some (uipSend s data)
    else none
  -- `uip_close`, `uip_abort`, `uip_stop` and `uip_restart` are macros.
  | .close => some { s with flags := Flag.close }
  | .abort => some { s with flags := Flag.abort }
  | .stop => some (s.setConnr { s.connr with
      tcpstateflags := s.connr.tcpstateflags ||| Ts.stopped })
  | .restart =>
    let s := { s with flags := s.flags ||| Flag.newdata }
    some (s.setConnr { s.connr with tcpstateflags := s.connr.tcpstateflags &&& ~~~ Ts.stopped })
  | .connect ripaddr rport => uipConnect s ripaddr rport
  | .listen port => some (uipListen s port)
  | .unlisten port => some (uipUnlisten s port)

/-- What the application has handed to `uip_send`, after a further call. -/
def AppCall.sent (data : List (BitVec 8)) : AppCall → List (BitVec 8)
  | .send d => if d = [] then data else d
  | _ => data

/-- What the application has handed to `uip_send` the last time that it has handed it anything. -/
def lastSend (calls : List AppCall) : List (BitVec 8) := calls.foldl AppCall.sent []

/-- `UIP_APPCALL`. The application finds what `seen` keeps, and makes the calls `calls`. -/
def uipAppcall (calls : List AppCall) (s : Uip) : Option Uip :=
  calls.foldlM AppCall.run { s with
    seen := some ⟨s.conn, s.connr, s.flags, getBytes s.buf s.appdata s.len.toNat⟩ }

/-! ## The search for a port ends -/

theorem toNat_incPort (p : BitVec 16) : (incPort p).toNat =
    if (p + 1).toNat < 32000 then (p + 1).toNat else 4096 := by
  have hle : 32000 ≤ p + 1 ↔ ¬ (p + 1).toNat < 32000 := by
    rw [BitVec.le_def, not_lt]
    rfl
  unfold incPort
  split_ifs with h h' h'
  · exact absurd h' (hle.mp h)
  · rfl
  · rfl
  · exact absurd (hle.mpr h') h

/-- The ports that `uip_connect` tries, in order. -/
theorem toNat_iterate_incPort (p : BitVec 16) (k : ℕ) (hk : k ≤ uipConns) :
    ((incPort^[k]) (incPort p)).toNat = if (incPort p).toNat + k < 32000 then (incPort p).toNat + k
      else (incPort p).toNat + k - 32000 + 4096 := by
  have hlt : (incPort p).toNat < 32000 := by
    rw [toNat_incPort]
    split_ifs <;> omega
  have hk' : k ≤ 40 := hk
  clear hk
  induction k with
  | zero => simp [hlt]
  | succ k ih =>
    have ih := ih (by omega)
    have hsucc : ((incPort^[k]) (incPort p) + 1).toNat = ((incPort^[k]) (incPort p)).toNat + 1 := by
      rw [BitVec.toNat_add, ih]
      exact Nat.mod_eq_of_lt (by simp; split_ifs <;> omega)
    rw [iterate_succ_apply', toNat_incPort, hsucc, ih]
    split_ifs <;> omega

theorem incPort_injOn (p : BitVec 16) {i j : ℕ} (hi : i ≤ uipConns) (hj : j ≤ uipConns)
    (h : (incPort^[i]) (incPort p) = (incPort^[j]) (incPort p)) : i = j := by
  have hi' : i ≤ 40 := hi
  have hj' : j ≤ 40 := hj
  have heq := congrArg BitVec.toNat h
  rw [toNat_iterate_incPort p i hi, toNat_iterate_incPort p j hj] at heq
  split_ifs at heq <;> omega

theorem htons_injective : Injective htons := fun _ _ h => by
  simpa using congrArg htons h

/-- The search ends: no more ports are in use than there are connections. -/
theorem nextPort_isSome (conns : Fin uipConns → Conn) (p : BitVec 16) :
    ∃ q, nextPort conns p = some q ∧ portInUse conns q = false := by
  by_contra hno
  -- Every port that is tried is in use, so the search never ends.
  have hused : ∀ k, nextPort conns p = nextPort conns ((incPort^[k]) p) ∧
      portInUse conns ((incPort^[k]) (incPort p)) = true := fun k => by
    have hround : ∀ r, nextPort conns p = nextPort conns r →
        portInUse conns (incPort r) = true := fun r hr => by
      by_contra hfree
      rw [Bool.not_eq_true] at hfree
      exact hno ⟨incPort r, by rw [hr]; exact repeatUntil_of_inr (by simp [hfree]), hfree⟩
    induction k with
    | zero => exact ⟨rfl, hround p rfl⟩
    | succ k ih =>
      have hnext : nextPort conns p = nextPort conns ((incPort^[k + 1]) p) := by
        rw [ih.1]
        have hk := ih.2
        rw [← iterate_succ_apply, iterate_succ_apply'] at hk
        rw [iterate_succ_apply']
        exact repeatUntil_of_inl (by simp [hk])
      refine ⟨hnext, ?_⟩
      have hinc := hround _ hnext
      rwa [← iterate_succ_apply, iterate_succ_apply']
  have hconn : ∀ k, ∃ c, (conns c).lport = htons ((incPort^[k]) (incPort p)) := fun k => by
    have hk := (hused k).2
    simp only [portInUse, List.any_eq_true, decide_eq_true_eq] at hk
    obtain ⟨c, -, -, hc⟩ := hk
    exact ⟨c, hc⟩
  choose f hf using hconn
  have hinj : Injective fun k : Fin (uipConns + 1) => f k := fun i j hij => by
    have hport : htons ((incPort^[i]) (incPort p)) = htons ((incPort^[j]) (incPort p)) := by
      rw [← hf i, ← hf j]
      exact congrArg (fun c => (conns c).lport) hij
    exact Fin.ext (incPort_injOn p (Nat.le_of_lt_succ i.isLt) (Nat.le_of_lt_succ j.isLt)
      (htons_injective hport))
  have hcard := Fintype.card_le_of_injective _ hinj
  rw [Fintype.card_fin, Fintype.card_fin] at hcard
  omega

end Fos.Net
