import Fos.Lib.Runs
import Fos.Net.Turns

/-!
# A host, from `fos/main.c`

The loop of `uip_thread` reads a packet and hands it to `uip_input`, or calls `uip_periodic` for
each connection. Whatever `uip_process` leaves in the buffer is sent. ARP uses the same buffer, and
the application may open and close ports at any time.
-/

namespace Fos.Net

open Function Relation Runs Tables Loops

/-- What happens at a host. -/
inductive Event where
  /-- A packet has been read into the buffer. -/
  | input (b : Buf) (len : BitVec 16) (calls : List AppCall)
  /-- `uip_periodic`. -/
  | periodic (k : Fin uipConns) (calls : List AppCall)
  /-- The buffer has been used for an ARP packet. -/
  | arp (b : Buf) (len : BitVec 16)
  | connect (ripaddr : BitVec 32) (rport : BitVec 16)
  | listen (port : BitVec 16)
  | unlisten (port : BitVec 16)

/-- What the application calls when it is called. -/
def Event.calls : Event → List AppCall
  | input _ _ calls => calls
  | periodic _ calls => calls
  | _ => []

/-- A step of the host. -/
def Uip.handle (s : Uip) : Event → Option Uip
  | .input b len calls => uipProcess calls { s with buf := b, len := len } .data
  | .periodic k calls => uipProcess calls { s with conn := k } .timer
  | .arp b len => some { s with buf := b, len := len }
  | .connect ripaddr rport => uipConnect s ripaddr rport
  | .listen port => some (uipListen s port)
  | .unlisten port => some (uipUnlisten s port)

/-- The packet that is sent behind a step, without the link-level header. -/
def Uip.packet (s : Uip) : Event → List (BitVec 8)
  | .input .. | .periodic .. => getBytes s.buf At.ip s.len.toNat
  | _ => []

/-- The memory holds zeros when the host starts. -/
def Uip.Starts (s : Uip) : Prop :=
  ∃ hostaddr draddr netmask, s = { uipInit default with
    hostaddr := hostaddr, draddr := draddr, netmask := netmask }

/-- The application does not stop closed connections. -/
def Courteous (s : Uip) (e : Event) : Prop :=
  ∀ s', s.handle e = some s' → ∀ v, s'.seen = some v → Polite e.calls v.tcb

/-- The runs of a host. -/
abbrev HostRun : List (Uip × Event) → Uip → Prop :=
  Run Uip.Starts Uip.handle fun _ => Courteous

variable {s s' : Uip} {e : Event} {tr : List (Uip × Event)}

/-- What the application does outside of `UIP_APPCALL`. -/
theorem run_steps (call : AppCall) (h : call.run s = some s') (hstop : call ≠ .stop) :
    Steps { s.toTables with conn := s'.conn } s'.toTables := by
  have hfold : [call].foldlM AppCall.run s = some s' := by simpa using h
  have hpolite : Polite [call] s.connr := fun hmem =>
    absurd (List.mem_singleton.mp hmem).symm hstop
  exact (foldlM_run_steps hfold hpolite).1.of_conn

/-- A step of the host, from what its tables are when its connection has been found. -/
theorem handle_steps (h : s.handle e = some s') (hcourteous : Courteous s e) :
    Steps { s.toTables with conn := s'.conn } s'.toTables := by
  have hpolite := hcourteous s' h
  cases e with
  | input b len calls =>
    have h : uipProcess calls { s with buf := b, len := len } .data = some s' := h
    have hsteps := uipProcess_steps h hpolite
    exact hsteps
  | periodic k calls =>
    have h : uipProcess calls { s with conn := k } .timer = some s' := h
    have hsteps := uipProcess_steps h hpolite
    exact hsteps
  | arp b len =>
    obtain rfl := Option.some.inj h
    exact .refl
  | connect ripaddr rport =>
    exact run_steps (.connect ripaddr rport) h fun hstop => by cases hstop
  | listen port => exact run_steps (.listen port) h fun hstop => by cases hstop
  | unlisten port => exact run_steps (.unlisten port) h fun hstop => by cases hstop

/-! ## Invariants -/

theorem Uip.Starts.invariant (h : s.Starts) :
    s.toTables.Distinct ∧ ∀ k, (s.conns k).Bounded := by
  obtain ⟨hostaddr, draddr, netmask, rfl⟩ := h
  refine ⟨fun i j hi => absurd rfl hi, fun k => ⟨BitVec.le_refl _, ?_, ?_⟩⟩
  · exact (by decide : (0 : BitVec 16) ≤ uipTcpMss)
  · exact (by decide : (0 : BitVec 16) ≤ uipTcpMss)

theorem handle_invariant (h : s.handle e = some s') (hcourteous : Courteous s e)
    (hinv : s.toTables.Distinct ∧ ∀ k, (s.conns k).Bounded) :
    s'.toTables.Distinct ∧ ∀ k, (s'.conns k).Bounded := by
  have hsteps := handle_steps h hcourteous
  exact ⟨hsteps.distinct hinv.1, hsteps.bounded hinv.2⟩

theorem hostRun_invariant (h : HostRun tr s) :
    s.toTables.Distinct ∧ ∀ k, (s.conns k).Bounded :=
  h.invariant (I := fun _ s => s.toTables.Distinct ∧ ∀ k, (s.conns k).Bounded)
    (fun _ => Uip.Starts.invariant) fun _ _ _ _ _ hinv hguard hstep =>
      handle_invariant hstep hguard hinv

/-! ## The packets that a host sends -/

/-- The buffer holds the packet. Behind the packet there may be anything. -/
def Holds (b : Buf) (packet : List (BitVec 8)) : Prop := getBytes b At.ip packet.length = packet

/-- What passes the checks goes to its connection, or it asks for one. -/
theorem uipInput_of_passes (calls : List AppCall) (h : Passes s.buf s.len s.hostaddr) :
    uipInput calls s = (connOf s.conns s.buf).elim
      (if s.buf At.flags &&& Tcp.ctl = Tcp.syn ∧ ∃ c, get16 s.buf At.destport = s.listenports c then
        foundListen { s with len := word (s.buf At.len) (s.buf (At.len + 1)) }
      else some (reset { s with len := word (s.buf At.len) (s.buf (At.len + 1)) }))
      (found calls { s with len := word (s.buf At.len) (s.buf (At.len + 1)) }) := by
  have hfrag : ¬ (s.buf At.ipoffset &&& 0x3f ≠ 0 ∨ s.buf (At.ipoffset + 1) ≠ 0) := by
    rw [h.ipoffset.1, h.ipoffset.2]
    decide
  have haddr : ¬ (s.hostaddr ≠ 0 ∧ get32 s.buf At.destipaddr ≠ s.hostaddr) := fun hne =>
    h.destipaddr.elim hne.1 hne.2
  unfold uipInput tcpInput
  dsimp only
  rw [if_neg (not_not.mpr h.vhl), if_pos h.len, if_neg hfrag, if_neg haddr,
    if_neg (not_not.mpr h.ipchksum), if_pos h.proto, if_neg (not_not.mpr h.tcpchksum)]
  cases connOf s.conns s.buf with
  | some k => rfl
  | none =>
    dsimp only [Option.elim]
    by_cases hsyn : s.buf At.flags &&& Tcp.ctl = Tcp.syn
    · rw [if_neg (not_not.mpr hsyn)]
      simp only [hsyn, true_and]
    · rw [if_pos hsyn, if_neg fun h => hsyn h.1]

variable {b b' : Buf} {n len : BitVec 16}

/-- Two buffers hold the same packet where their bytes are the same. -/
theorem Holds.apply (h : Holds b' (getBytes b At.ip n.toNat)) {j : ℕ} (hj : At.ip ≤ j)
    (hn : j < At.ip + n.toNat) : b' j = b j := by
  unfold Holds at h
  rw [length_getBytes] at h
  have hget := congrArg (fun l => l[j - At.ip]?) h
  have hlt : j - At.ip < n.toNat := by omega
  simpa [getBytes, hlt, Nat.add_sub_cancel' hj] using hget

theorem TcpHeader.of_holds (h : TcpHeader b n) (hn : 40 ≤ n.toNat)
    (hholds : Holds b' (getBytes b At.ip n.toNat)) : TcpHeader b' n := by
  have hb : ∀ j, 14 ≤ j → j < 54 → b' j = b j := fun j hj hlt => hholds.apply hj (by simp; omega)
  have hword : word (b' At.len) (b' (At.len + 1)) = n := by
    rw [hb _ (by decide) (by decide), hb _ (by decide) (by decide)]
    exact h.len
  have hupper : upperLayerLen b = n - 20 := by rw [upperLayerLen, h.len]
  have hupper' : upperLayerLen b' = n - 20 := by rw [upperLayerLen, hword]
  have hsub : (n - 20).toNat = n.toNat - 20 := by
    have hlt := n.isLt
    rw [BitVec.toNat_sub]
    simp
    omega
  refine ⟨⟨?_, ⟨?_, ?_⟩, ?_⟩, ?_, hword, ⟨?_, ?_⟩, fun _ => ?_⟩
  · rw [hb _ (by decide) (by decide)]
    exact h.vhl
  · rw [hb _ (by decide) (by decide)]
    exact h.ipoffset.1
  · rw [hb _ (by decide) (by decide)]
    exact h.ipoffset.2
  · rw [← h.ipchksum, uipIpchksum_eq, uipIpchksum_eq,
      chksum_congr fun i hi => hb _ (by simp) (by simp; omega)]
  · rw [hb _ (by decide) (by decide)]
    exact h.ttl
  · rw [hb _ (by decide) (by decide)]
    exact h.urgp.1
  · rw [hb _ (by decide) (by decide)]
    exact h.urgp.2
  · rw [← h.tcpchksum hn, uipTcpchksum_eq, uipTcpchksum_eq, hupper, hupper',
      chksum_congr (k := At.srcipaddr) fun i hi => hb _ (by simp; omega) (by simp; omega),
      chksum_congr (k := At.upper) fun i hi => hholds.apply (by simp; omega) (by simp; omega)]

/-- A TCP packet with the header that the stack writes passes every check where it is sent to. -/
theorem TcpHeader.passes (h : TcpHeader b n) (hn : 40 ≤ n.toNat) (hproto : b At.proto = 6)
    (hholds : Holds b' (getBytes b At.ip n.toNat)) (hlen : n ≤ len) :
    Passes b' len (get32 b' At.destipaddr) := by
  have h' := h.of_holds hn hholds
  refine ⟨h'.vhl, by rwa [h'.len], ?_, .inr rfl, h'.ipchksum, ?_, h'.tcpchksum hn⟩
  · rw [h'.ipoffset.1, h'.ipoffset.2]
    decide
  · rw [hholds.apply (by decide) (by simp; omega)]
    exact hproto

theorem packet_eq (hpacket : s.packet e ≠ []) :
    s.packet e = getBytes s.buf At.ip s.len.toNat ∧ s.len ≠ 0 := by
  have heq : s.packet e = getBytes s.buf At.ip s.len.toNat := by
    cases e with
    | input | periodic => rfl
    | _ => exact absurd rfl hpacket
  refine ⟨heq, fun h0 => hpacket ?_⟩
  rw [heq, h0]
  rfl

/-- What a step leaves in the buffer, if it may be sent. -/
theorem handle_emits (h : s.handle e = some s') (hcourteous : Courteous s e)
    (hb : ∀ k, (s'.conns k).Bounded) (hpacket : s'.packet e ≠ []) : Emits s' := by
  have hpolite := hcourteous s' h
  have hemits : ∀ {g calls p o i n}, Result g calls p o i n s' → Emits s' := fun hresult => by
    rcases hresult with ⟨-, hemits⟩ | ⟨-, hsends⟩
    · exact hemits
    · exact hsends.emits (hb _)
  cases e with
  | input b len calls =>
    have h : uipProcess calls { s with buf := b, len := len } .data = some s' := h
    have hresult := uipProcess_result (o := []) (i := []) h (by decide) hpolite
    rcases hresult with hall | ⟨-, -, -, hresult⟩
    · exact hemits (hall ⟨0, 0, 0, []⟩)
    · exact hemits hresult
  | periodic k calls =>
    have h : uipProcess calls { s with conn := k } .timer = some s' := h
    have hresult := uipProcess_result (o := []) (i := []) h (by decide) hpolite
    rcases hresult with hall | ⟨-, -, -, hresult⟩
    · exact hemits (hall ⟨0, 0, 0, []⟩)
    · exact hemits hresult
  | _ => exact absurd rfl hpacket

/-- Every TCP packet that a host sends fits into the buffer and passes every check where it is sent
to, whatever stands behind it in the buffer there. -/
theorem packet_passes (h : HostRun tr s) (hcourteous : Courteous s e) (hstep : s.handle e = some s')
    (hpacket : s'.packet e ≠ []) (hproto : s'.buf At.proto = 6) :
    40 ≤ (s'.packet e).length ∧ (s'.packet e).length ≤ uipTcpMss.toNat + 40 ∧
      ∀ b : Buf, ∀ len : BitVec 16, Holds b (s'.packet e) → (s'.packet e).length ≤ len.toNat →
        Passes b len (get32 b At.destipaddr) := by
  have hb := (handle_invariant hstep hcourteous (hostRun_invariant h)).2
  obtain ⟨hpacket', hlen⟩ := packet_eq hpacket
  have hheader : TcpHeader s'.buf s'.len ∧ 40 ≤ s'.len.toNat ∧
      s'.len.toNat ≤ uipTcpMss.toNat + 40 := by
    cases handle_emits hstep hcourteous hb hpacket with
    | nothing h0 => exact absurd h0 hlen
    | segment hsent _ hn => exact ⟨hsent.toTcpHeader, hn⟩
    | rst hheader hn _ _ =>
      rw [hn]
      exact ⟨hheader, by decide⟩
    | icmp hne => exact absurd hproto hne
  rw [hpacket', length_getBytes]
  exact ⟨hheader.2.1, hheader.2.2, fun b len hholds hle =>
    hheader.1.passes hheader.2.1 hproto hholds hle⟩

/-- The host `192.168.0.2`, when it starts. -/
def firstHost : Uip := { uipInit default with
  hostaddr := 0xc0a80002, draddr := 0xc0a80001, netmask := 0xffffff00 }

theorem firstHost_run : HostRun [] firstHost := .nil ⟨_, _, _, rfl⟩

/-- A segment from `192.168.0.1` to `firstHost`, at a port where nobody listens. -/
def strayBuf : Buf := fun k =>
  ([0, 0, 0, 0, 0, 0, 0, 0, 0, 0, 0, 0, 0, 0,
    0x45, 0, 0, 40, 0, 0, 0, 0, 64, 6, 0xf9, 0x7c, 192, 168, 0, 1, 192, 168, 0, 2,
    4, 0, 0, 80, 0, 0, 0, 1, 0, 0, 0, 0, 0x50, 0x10, 1, 0, 0x29, 0x30, 0, 0] :
      List (BitVec 8)).getD k 0

/-- The host answers the segment with a reset. -/
def strayReset : Uip :=
  reset { firstHost with buf := strayBuf, len := 40, appdata := At.optdata, seen := none }

theorem handle_stray : firstHost.handle (.input strayBuf 40 []) = some strayReset := by
  have hpasses : Passes strayBuf 40 0xc0a80002 :=
    ⟨by decide +kernel, by decide +kernel, by decide +kernel, by decide +kernel, by decide +kernel,
      by decide +kernel, by decide +kernel⟩
  have hconn : connOf firstHost.conns strayBuf = none := by decide +kernel
  have hsyn : ¬ (strayBuf At.flags &&& Tcp.ctl = Tcp.syn ∧
      ∃ c, get16 strayBuf At.destport = firstHost.listenports c) := by decide +kernel
  have hinput := uipInput_of_passes [] (s := { firstHost with
    buf := strayBuf, len := 40, appdata := At.optdata, seen := none }) hpasses
  dsimp only at hinput
  rw [hconn, Option.elim_none, if_neg hsyn] at hinput
  exact hinput

/-- The reset that answers a packet for no connection is such a packet. -/
theorem packet_passes_reset : 40 ≤ (strayReset.packet (.input strayBuf 40 [])).length ∧
    (strayReset.packet (.input strayBuf 40 [])).length ≤ uipTcpMss.toNat + 40 ∧
      ∀ b : Buf, ∀ len : BitVec 16, Holds b (strayReset.packet (.input strayBuf 40 [])) →
        (strayReset.packet (.input strayBuf 40 [])).length ≤ len.toNat →
          Passes b len (get32 b At.destipaddr) :=
  packet_passes firstHost_run (fun _ _ _ _ hstop => by cases hstop) handle_stray
    (by decide +kernel) (by decide +kernel)

/-! ## The connections of a host -/

/-- In every run of a host no two active connections have the same ends. From any state of the run
on, each entry is taken for another connection, or it keeps its ends and moves along the diagram of
the states. -/
theorem connections_move (h : HostRun tr s) : s.toTables.Distinct ∧ ∀ e ∈ tr, ∀ k,
    e.1.opened k < s.opened k ∨ s.opened k = e.1.opened k ∧
      ((s.conns k).Active → (e.1.conns k).Active) ∧ (s.conns k).SameEnds (e.1.conns k) ∧
      ReflTransGen Moves (e.1.conns k).state (s.conns k).state := by
  refine ⟨(hostRun_invariant h).1, ?_⟩
  induction h with
  | nil => exact fun e he => absurd he List.not_mem_nil
  | @cons tr s s' a hrun hguard hstep ih =>
    intro e he k
    have hentry := (handle_steps hstep hguard).entry k
    rcases List.mem_cons.mp he with rfl | he
    · rcases hentry with hlt | ⟨hopened, -, hrest⟩
      · exact .inl hlt
      · exact .inr ⟨hopened, hrest⟩
    · rcases hentry with hlt | ⟨hopened, -, hactive, hends, hmoves⟩
      · have hlt : s.opened k < s'.opened k := hlt
        rcases ih e he k with hlt' | ⟨hopened, -⟩ <;> exact .inl (by omega)
      · have hopened : s'.opened k = s.opened k := hopened
        rcases ih e he k with hlt | ⟨hopened', hactive', hends', hmoves'⟩
        · exact .inl (by omega)
        · exact .inr ⟨by omega, fun h => hactive' (hactive h), hends.trans hends',
            hmoves'.trans hmoves⟩

/-- `firstHost`, when the application has called `uip_connect` for port 80 of `192.168.0.1`. -/
def askedHost : Uip := { firstHost with
  lastport := 1025
  conns := update firstHost.conns 0 { firstHost.conns 0 with
    tcpstateflags := Ts.synSent
    sndNxt := firstHost.iss
    initialmss := uipTcpMss
    mss := uipTcpMss
    len := 1
    nrtx := 0
    timer := 1
    rto := uipRto
    sa := 0
    sv := 16
    lport := htons 1025
    rport := 0x5000
    ripaddr := 0xc0a80001 }
  opened := update firstHost.opened 0 (firstHost.opened 0 + 1) }

theorem handle_ask : firstHost.handle (.connect 0xc0a80001 0x5000) = some askedHost := by
  have hport : nextPort firstHost.conns firstHost.lastport = some 1025 :=
    repeatUntil_of_inr (by decide +kernel)
  have hunused : unusedConn firstHost.conns = some 0 := by decide +kernel
  show uipConnect firstHost 0xc0a80001 0x5000 = _
  unfold uipConnect
  rw [hport]
  simp only [Option.bind_eq_bind, Option.bind_some]
  rw [hunused]
  rfl

/-- The host `192.168.0.1`, when it has accepted. -/
def servingHost : Uip := { uipInit default with
  hostaddr := 0xc0a80001
  conns := update (uipInit default).conns 0 { (default : Conn) with
    ripaddr := 0xc0a80002
    lport := 0x5000
    rport := htons 1025
    rcvNxt := 1
    len := 1
    mss := uipTcpMss
    initialmss := uipTcpMss
    sv := 4
    rto := uipRto
    timer := uipRto
    tcpstateflags := Ts.synRcvd }
  opened := update (uipInit default).opened 0 1 }

/-- The answer to the `SYN` comes, and the application has two bytes to say. -/
def answer : Event := .input (tcpSendSynack servingHost).buf 44 [.send [104, 105]]

theorem answer_passes : Passes (tcpSendSynack servingHost).buf 44 askedHost.hostaddr := by
  have hseg := tcpSendSynack_segment servingHost
  have hpasses : Passes (tcpSendSynack servingHost).buf 44
      (get32 (tcpSendSynack servingHost).buf At.destipaddr) :=
    hseg.sent.toTcpHeader.passes (by decide) hseg.sent.proto (by rw [Holds, length_getBytes])
      (by decide)
  rwa [hseg.sent.destipaddr] at hpasses

/-- The connection is established. -/
theorem found_synSent {k : Fin uipConns} {S : Uip} {mss : Option (BitVec 16)}
    (hS : acknowledge { s with
      conn := k
      flags := 0
      len := s.len - (tcpHlen s.buf).setWidth 16 - 20 } = S)
    (hctl : s.buf At.flags &&& Tcp.ctl = Tcp.syn ||| Tcp.ack)
    (hst : (s.conns k).state = Ts.synSent) (hst' : S.connr.state = Ts.synSent)
    (hflags : S.flags = Flag.ackdata) (hctl' : S.buf At.flags &&& Tcp.ctl = Tcp.syn ||| Tcp.ack)
    (hmss : parseMss S.buf = some mss) :
    found calls s k = (uipAppcall calls { uipAddRcvNxt ((S.setConnr (S.connr.setMss mss)).setConnr
      { S.connr.setMss mss with
        tcpstateflags := Ts.established
        rcvNxt := get32 S.buf At.seqno
        len := 0 }) 1 with
      flags := Flag.connected ||| Flag.newdata
      len := 0
      slen := 0 }).bind fun s => some (appsend s) := by
  have hrst : s.buf At.flags &&& Tcp.rst = 0 := by
    have hmask : s.buf At.flags &&& Tcp.rst = (s.buf At.flags &&& Tcp.ctl) &&& Tcp.rst := by
      rw [BitVec.and_assoc]
      rfl
    rw [hmask, hctl]
    decide
  unfold found
  dsimp only
  rw [if_neg (not_not.mpr hrst), if_neg ?_, hS, switchState, if_neg (by rw [hst']; decide),
    if_pos hst', caseSynSent, if_pos ⟨by rw [hflags]; decide, hctl'⟩, hmss]
  · simp [Uip.setConnr, uipAddRcvNxt, Uip.connr]
  · unfold outOfOrder
    rw [decide_eq_true_eq]
    exact fun h => h.1 ⟨hst, hctl⟩

theorem uipProcess_of_passes {len : BitVec 16} {k : Fin uipConns}
    (hpasses : Passes b len s.hostaddr) (hconn : connOf s.conns b = some k) :
    uipProcess calls { s with buf := b, len := len } .data = found calls { s with
      buf := b
      len := word (b At.len) (b (At.len + 1))
      appdata := At.optdata
      seen := none } k := by
  have hinput := uipInput_of_passes calls (s := { s with
    buf := b
    len := len
    appdata := At.optdata
    seen := none }) hpasses
  dsimp only at hinput
  rw [hconn, Option.elim_some] at hinput
  exact hinput

/-- `askedHost`, when it has looked for what the answer acknowledges. -/
def ackedHost : Uip := acknowledge { askedHost with
  buf := (tcpSendSynack servingHost).buf
  conn := 0
  flags := 0
  len := 0
  appdata := At.optdata
  seen := none }

/-- `askedHost`, when it calls the application. -/
def connectedHost : Uip := { uipAddRcvNxt ((ackedHost.setConnr (ackedHost.connr.setMss
  (some 366))).setConnr { ackedHost.connr.setMss (some 366) with
    tcpstateflags := Ts.established
    rcvNxt := get32 ackedHost.buf At.seqno
    len := 0 }) 1 with
  flags := Flag.connected ||| Flag.newdata
  len := 0
  slen := 0 }

/-- `askedHost`, when it has handled the answer. -/
def answeredHost : Uip :=
  ((uipAppcall answer.calls connectedHost).bind fun s => some (appsend s)).getD default

/-- The host that has asked processes the answer, and its connection is established. -/
theorem handle_answer : askedHost.handle answer = some answeredHost := by
  have hlen : word ((tcpSendSynack servingHost).buf At.len)
      ((tcpSendSynack servingHost).buf (At.len + 1)) -
      (tcpHlen (tcpSendSynack servingHost).buf).setWidth 16 - 20 = 0 := by decide +kernel
  have hprocess : askedHost.handle answer = _ :=
    uipProcess_of_passes (k := 0) (s := askedHost) answer_passes (by decide +kernel)
  have hfound : askedHost.handle answer =
      (uipAppcall answer.calls connectedHost).bind fun s => some (appsend s) := by
    refine hprocess.trans (found_synSent (S := ackedHost) ?_ ?_ ?_ ?_ ?_ ?_ ?_)
    · show acknowledge _ = acknowledge _
      dsimp only
      rw [hlen]
    · decide +kernel
    · decide +kernel
    · decide +kernel
    · decide +kernel
    · decide +kernel
    · rw [parseMss, if_pos (by decide +kernel)]
      exact repeatUntil_of_inr (by decide +kernel)
  have hsome : ((uipAppcall answer.calls connectedHost).bind
      fun s => some (appsend s)).isSome = true := by decide +kernel
  rw [hfound, answeredHost, Option.getD_of_ne_none (Option.isSome_iff_ne_none.mp hsome)]

/-- A host that connects and then hears the answer: its entry is taken for the connection and moves
from `SYN_SENT` to `ESTABLISHED`. -/
theorem connections_move_answer : HostRun [(askedHost, answer),
      (firstHost, .connect 0xc0a80001 0x5000)] answeredHost ∧
    (askedHost.conns 0).state = Ts.synSent ∧ (answeredHost.conns 0).state = Ts.established ∧
    answeredHost.opened 0 = askedHost.opened 0 ∧ answeredHost.toTables.Distinct ∧
    ∀ e ∈ [(askedHost, answer), (firstHost, Event.connect 0xc0a80001 0x5000)], ∀ k,
      e.1.opened k < answeredHost.opened k ∨ answeredHost.opened k = e.1.opened k ∧
        ((answeredHost.conns k).Active → (e.1.conns k).Active) ∧
        (answeredHost.conns k).SameEnds (e.1.conns k) ∧
        ReflTransGen Moves (e.1.conns k).state (answeredHost.conns k).state := by
  have hrun : HostRun [(askedHost, answer), (firstHost, .connect 0xc0a80001 0x5000)]
      answeredHost := by
    refine .cons (.cons firstHost_run (fun _ _ _ _ hstop => by cases hstop) handle_ask) ?_
      handle_answer
    intro s hs v hv hstop
    cases List.mem_singleton.mp hstop
  exact ⟨hrun, by decide +kernel, by decide +kernel, by decide +kernel, connections_move hrun⟩

end Fos.Net
