import Fos.Net.Checksum

/-!
# `uip_process`, from `uip/uip.c`

`uip_process` is one function with jumps. Here every label that is jumped to is a function from the
state at the label to the state at the return, `none` where the source never returns, and so is
every case of the `switch` on the state of the connection. The labels stand in the order of the
source from `drop` upwards, since a function is defined before it is used. The application is called
at most once on every way, and makes the calls `calls`.
-/

namespace Fos.Net

open Function Loops

/-! ## Output -/

/-- `drop`. -/
def drop (s : Uip) : Uip := { s with len := 0, flags := 0 }

/-- `send`. -/
def send (s : Uip) : Uip := { s with flags := 0 }

/-- `ip_send_nolen`. -/
def ipSendNolen (s : Uip) : Uip :=
  let s := s.put8 At.vhl 0x45
  let s := s.put8 At.tos 0
  let s := s.put8 At.ipoffset 0
  let s := s.put8 (At.ipoffset + 1) 0
  let s := { s with ipid := s.ipid + 1 }
  let s := s.put8 At.ipid ((s.ipid >>> 8).setWidth 8)
  let s := s.put8 (At.ipid + 1) ((s.ipid &&& 0xff).setWidth 8)
  let s := s.put16 At.ipchksum 0
  let s := s.put16 At.ipchksum (~~~ uipIpchksum s.buf)
  send s

/-- `tcp_send_noconn`. -/
def tcpSendNoconn (s : Uip) : Uip :=
  let s := s.put8 At.ttl 64
  let s := s.put8 At.len ((s.len >>> 8).setWidth 8)
  let s := s.put8 (At.len + 1) ((s.len &&& 0xff).setWidth 8)
  let s := s.put8 At.urgp 0
  let s := s.put8 (At.urgp + 1) 0
  let s := s.put16 At.tcpchksum 0
  let s := s.put16 At.tcpchksum (~~~ uipTcpchksum s.buf)
  ipSendNolen s

/-- `tcp_send`. -/
def tcpSend (s : Uip) : Uip :=
  let s := s.put32 At.ackno s.connr.rcvNxt
  let s := s.put32 At.seqno s.connr.sndNxt
  let s := s.put8 At.proto 6
  let s := s.put16 At.srcport s.connr.lport
  let s := s.put16 At.destport s.connr.rport
  let s := s.put32 At.srcipaddr s.hostaddr
  let s := s.put32 At.destipaddr s.connr.ripaddr
  -- A stopped connection advertises a zero window.
  let wnd : BitVec 16 := if s.connr.stopped then 0 else uipTcpMss
  let s := s.put8 At.wnd ((wnd >>> 8).setWidth 8)
  let s := s.put8 (At.wnd + 1) ((wnd &&& 0xff).setWidth 8)
  tcpSendNoconn s

/-- `tcp_send_noopts`. -/
def tcpSendNoopts (s : Uip) : Uip := tcpSend (s.put8 At.tcpoffset 0x50)

/-- `tcp_send_nodata`. -/
def tcpSendNodata (s : Uip) : Uip := tcpSendNoopts { s with len := 40 }

/-- `tcp_send_ack`. -/
def tcpSendAck (s : Uip) : Uip := tcpSendNodata (s.put8 At.flags Tcp.ack)

/-- `tcp_send_finack`. -/
def tcpSendFinack (s : Uip) : Uip := tcpSendNodata (s.put8 At.flags (Tcp.fin ||| Tcp.ack))

/-- `tcp_send_syn`. The option is the maximum segment size, `UIP_TCP_MSS`. -/
def tcpSendSyn (s : Uip) : Uip :=
  let s := s.put8 At.flags (s.buf At.flags ||| Tcp.syn)
  let s := s.put8 At.optdata 2
  let s := s.put8 (At.optdata + 1) 4
  let s := s.put8 (At.optdata + 2) ((uipTcpMss >>> 8).setWidth 8)
  let s := s.put8 (At.optdata + 3) ((uipTcpMss &&& 0xff).setWidth 8)
  let s := { s with len := 44 }
  tcpSend (s.put8 At.tcpoffset 0x60)

/-- `tcp_send_synack`. -/
def tcpSendSynack (s : Uip) : Uip := tcpSendSyn (s.put8 At.flags Tcp.ack)

/-- `apprexmit`. -/
def apprexmit (s : Uip) : Uip :=
  let s := { s with appdata := At.optdata }
  if 0 < s.slen ∧ 0 < s.connr.len then
    let s := { s with len := s.connr.len + 40 }
    tcpSendNoopts (s.put8 At.flags (Tcp.ack ||| Tcp.psh))
  else if s.flags &&& Flag.newdata ≠ 0 then
    tcpSendNoopts ({ s with len := 40 }.put8 At.flags Tcp.ack)
  else drop s

/-- Where `appsend` cuts what the application has to send to what may be sent. -/
def takeData (s : Uip) : Uip :=
  if 0 < s.slen then
    let s := if s.flags &&& Flag.ackdata ≠ 0 then s.setConnr { s.connr with len := 0 } else s
    if s.connr.len = 0 then
      let s := if s.connr.mss < s.slen then { s with slen := s.connr.mss } else s
      s.setConnr { s.connr with len := s.slen }
    else { s with slen := s.connr.len }
  else s

/-- `appsend`. -/
def appsend (s : Uip) : Uip :=
  if s.flags &&& Flag.abort ≠ 0 then
    let s := { s with slen := 0 }.setConnr { s.connr with tcpstateflags := Ts.closed }
    tcpSendNodata (s.put8 At.flags (Tcp.rst ||| Tcp.ack))
  else if s.flags &&& Flag.close ≠ 0 then
    let s := { s with slen := 0 }.setConnr { s.connr with
      len := 1, tcpstateflags := Ts.finWait1, nrtx := 0 }
    tcpSendNodata (s.put8 At.flags (Tcp.fin ||| Tcp.ack))
  else
    let s := takeData s
    apprexmit (s.setConnr { s.connr with nrtx := 0 })

/-! ## Input -/

/-- `reset`. -/
def reset (s : Uip) : Uip :=
  if s.buf At.flags &&& Tcp.rst ≠ 0 then drop s
  else
    let s := s.put8 At.flags (Tcp.rst ||| Tcp.ack)
    let s := { s with len := 40 }
    let s := s.put8 At.tcpoffset 0x50
    -- The sequence number and the acknowledgement change places.
    let seqno := get32 s.buf At.seqno
    let s := s.put32 At.seqno (get32 s.buf At.ackno)
    let s := s.put32 At.ackno (inc32 seqno)
    let srcport := get16 s.buf At.srcport
    let s := s.put16 At.srcport (get16 s.buf At.destport)
    let s := s.put16 At.destport srcport
    let s := s.put32 At.destipaddr (get32 s.buf At.srcipaddr)
    let s := s.put32 At.srcipaddr s.hostaddr
    tcpSendNoconn s

/-- The loops that parse the options of a segment: `none` where the loop never ends, and else the
maximum segment size, if there is one. The index `c` is a `u8_t`. -/
def parseMss (b : Buf) : Option (Option (BitVec 16)) :=
  if 0x50 < b At.tcpoffset &&& 0xf0 then
    repeatUntil (fun c : BitVec 8 =>
      if c.toNat < ((b At.tcpoffset >>> 4).toNat - 5) * 4 then
        let opt := b (At.optdata + c.toNat)
        let optlen := b (At.optdata + 1 + c.toNat)
        if opt = 0 then some (.inr none)
        else if opt = 1 then some (.inl (c + 1))
        else if opt = 2 ∧ optlen = 4 then
          some (.inr (some (word (b (At.optdata + 2 + c.toNat)) (b (At.optdata + 3 + c.toNat)))))
        else if optlen = 0 then some (.inr none)
        else some (.inl (c + optlen))
      else some (.inr none)) 0
  else some none

/-- The assignments to `initialmss` and `mss` where the options are parsed. -/
def Conn.setMss (c : Conn) : Option (BitVec 16) → Conn
  | none => c
  | some tmp16 =>
    let mss := if uipTcpMss < tmp16 then uipTcpMss else tmp16
    { c with initialmss := mss, mss := mss }

/-- `uip_add_rcv_nxt`. -/
def uipAddRcvNxt (s : Uip) (n : BitVec 16) : Uip :=
  s.setConnr { s.connr with rcvNxt := uipAdd32 s.connr.rcvNxt n }

/-- `found_listen`. -/
def foundListen (s : Uip) : Option Uip :=
  match unusedConn s.conns with
  | none => some (drop s)
  | some conn => do
    let s := { s with conn := conn, opened := update s.opened conn (s.opened conn + 1) }
    let s := s.setConnr { s.connr with
      rto := uipRto
      timer := uipRto
      sa := 0
      sv := 4
      nrtx := 0
      lport := get16 s.buf At.destport
      rport := get16 s.buf At.srcport
      ripaddr := get32 s.buf At.srcipaddr
      tcpstateflags := Ts.synRcvd
      sndNxt := s.iss
      len := 1
      rcvNxt := get32 s.buf At.seqno }
    let s := uipAddRcvNxt s 1
    let mss ← parseMss s.buf
    some (tcpSendSynack (s.setConnr (s.connr.setMss mss)))

/-- The estimation of the round trip time. `m` is a `signed char`. -/
def Conn.estimate (c : Conn) : Conn :=
  let m := c.rto - c.timer
  let m := m - c.sa >>> 3
  let sa := c.sa + m
  let m := if m.msb then -m else m
  let m := m - c.sv >>> 2
  let sv := c.sv + m
  { c with sa := sa, sv := sv, rto := sa >>> 3 + sv }

/-- The assignments to a connection when its outstanding data has been acknowledged. -/
def Conn.acked (c : Conn) (acc32 : BitVec 32) : Conn :=
  let c := { c with sndNxt := acc32 }
  let c := if c.nrtx = 0 then c.estimate else c
  { c with timer := c.rto, len := 0 }

/-- Where an acceptable segment may acknowledge outstanding data. -/
def acknowledge (s : Uip) : Uip :=
  if s.buf At.flags &&& Tcp.ack ≠ 0 ∧ s.connr.outstanding then
    let acc32 := uipAdd32 s.connr.sndNxt s.connr.len
    if get32 s.buf At.ackno = acc32 then
      { s.setConnr (s.connr.acked acc32) with flags := Flag.ackdata }
    else s
  else s

/-- `case UIP_SYN_RCVD`. -/
def caseSynRcvd (calls : List AppCall) (s : Uip) : Option Uip :=
  if s.flags &&& Flag.ackdata ≠ 0 then do
    let s := s.setConnr { s.connr with tcpstateflags := Ts.established, len := 0 }
    let s := { s with flags := Flag.connected }
    let s := if 0 < s.len then uipAddRcvNxt { s with flags := s.flags ||| Flag.newdata } s.len
      else s
    let s ← uipAppcall calls { s with slen := 0 }
    some (appsend s)
  else some (drop s)

/-- `case UIP_SYN_SENT`. -/
def caseSynSent (calls : List AppCall) (s : Uip) : Option Uip :=
  if s.flags &&& Flag.ackdata ≠ 0 ∧ s.buf At.flags &&& Tcp.ctl = Tcp.syn ||| Tcp.ack then do
    let mss ← parseMss s.buf
    let s := s.setConnr (s.connr.setMss mss)
    let s := s.setConnr { s.connr with
      tcpstateflags := Ts.established, rcvNxt := get32 s.buf At.seqno }
    let s := uipAddRcvNxt s 1
    let s := { s with flags := Flag.connected ||| Flag.newdata }
    let s := s.setConnr { s.connr with len := 0 }
    let s ← uipAppcall calls { s with len := 0, slen := 0 }
    some (appsend s)
  else do
    let s ← uipAppcall calls { s with flags := Flag.abort }
    some (reset (s.setConnr { s.connr with tcpstateflags := Ts.closed }))

/-- Where `case UIP_ESTABLISHED` skips urgent data. -/
def skipUrgent (s : Uip) : Uip :=
  if s.buf At.flags &&& Tcp.urg ≠ 0 then
    let urgp := word (s.buf At.urgp) (s.buf (At.urgp + 1))
    { s with appdata := s.appdata + urgp.toNat, len := s.len - urgp }
  else s

/-- Where `case UIP_ESTABLISHED` accepts the data of a segment. -/
def acceptData (s : Uip) : Uip :=
  if 0 < s.len ∧ ¬ s.connr.stopped then
    uipAddRcvNxt { s with flags := s.flags ||| Flag.newdata } s.len
  else s

/-- Where `case UIP_ESTABLISHED` sets `mss` to the window of the other end. -/
def updateMss (s : Uip) : Uip :=
  let tmp16 := word (s.buf At.wnd) (s.buf (At.wnd + 1))
  let tmp16 := if s.connr.initialmss < tmp16 ∨ tmp16 = 0 then s.connr.initialmss else tmp16
  s.setConnr { s.connr with mss := tmp16 }

/-- `case UIP_ESTABLISHED`. -/
def caseEstablished (calls : List AppCall) (s : Uip) : Option Uip :=
  if s.buf At.flags &&& Tcp.fin ≠ 0 ∧ ¬ s.connr.stopped then
    if s.connr.outstanding then some (drop s)
    else do
      let s := uipAddRcvNxt s (1 + s.len)
      let s := { s with flags := s.flags ||| Flag.close }
      let s := if 0 < s.len then { s with flags := s.flags ||| Flag.newdata } else s
      let s ← uipAppcall calls s
      some (tcpSendFinack (s.setConnr { s.connr with
        len := 1, tcpstateflags := Ts.lastAck, nrtx := 0 }))
  else
    let s := updateMss (acceptData (skipUrgent s))
    if s.flags &&& (Flag.newdata ||| Flag.ackdata) ≠ 0 then do
      let s ← uipAppcall calls { s with slen := 0 }
      some (appsend s)
    else some (drop s)

/-- `case UIP_LAST_ACK`. -/
def caseLastAck (calls : List AppCall) (s : Uip) : Option Uip :=
  if s.flags &&& Flag.ackdata ≠ 0 then do
    let s := s.setConnr { s.connr with tcpstateflags := Ts.closed }
    let s ← uipAppcall calls { s with flags := Flag.close }
    some (drop s)
  else some (drop s)

/-- `case UIP_FIN_WAIT_1`. -/
def caseFinWait1 (calls : List AppCall) (s : Uip) : Option Uip :=
  let s := if 0 < s.len then uipAddRcvNxt s s.len else s
  if s.buf At.flags &&& Tcp.fin ≠ 0 then do
    let s :=
      if s.flags &&& Flag.ackdata ≠ 0 then
        s.setConnr { s.connr with tcpstateflags := Ts.timeWait, timer := 0, len := 0 }
      else s.setConnr { s.connr with tcpstateflags := Ts.closing }
    let s := uipAddRcvNxt s 1
    let s ← uipAppcall calls { s with flags := Flag.close }
    some (tcpSendAck s)
  else if s.flags &&& Flag.ackdata ≠ 0 then
    some (drop (s.setConnr { s.connr with tcpstateflags := Ts.finWait2, len := 0 }))
  else if 0 < s.len then some (tcpSendAck s)
  else some (drop s)

/-- `case UIP_FIN_WAIT_2`. -/
def caseFinWait2 (calls : List AppCall) (s : Uip) : Option Uip :=
  let s := if 0 < s.len then uipAddRcvNxt s s.len else s
  if s.buf At.flags &&& Tcp.fin ≠ 0 then do
    let s := s.setConnr { s.connr with tcpstateflags := Ts.timeWait, timer := 0 }
    let s := uipAddRcvNxt s 1
    let s ← uipAppcall calls { s with flags := Flag.close }
    some (tcpSendAck s)
  else if 0 < s.len then some (tcpSendAck s)
  else some (drop s)

/-- `case UIP_CLOSING`. -/
def caseClosing (s : Uip) : Uip :=
  if s.flags &&& Flag.ackdata ≠ 0 then
    drop (s.setConnr { s.connr with tcpstateflags := Ts.timeWait, timer := 0 })
  else drop s

/-- The `switch` on the state of the connection. -/
def switchState (calls : List AppCall) (s : Uip) : Option Uip :=
  if s.connr.state = Ts.synRcvd then caseSynRcvd calls s
  else if s.connr.state = Ts.synSent then caseSynSent calls s
  else if s.connr.state = Ts.established then caseEstablished calls s
  else if s.connr.state = Ts.lastAck then caseLastAck calls s
  else if s.connr.state = Ts.finWait1 then caseFinWait1 calls s
  else if s.connr.state = Ts.finWait2 then caseFinWait2 calls s
  else if s.connr.state = Ts.timeWait then some (tcpSendAck s)
  else if s.connr.state = Ts.closing then some (caseClosing s)
  else some (drop s)

/-- A segment is out of order: it takes up sequence numbers, and they are not the next ones. In
`SYN_SENT` there are no next ones yet. -/
def outOfOrder (s : Uip) : Bool :=
  ¬ (s.connr.state = Ts.synSent ∧ s.buf At.flags &&& Tcp.ctl = Tcp.syn ||| Tcp.ack) ∧
    (0 < s.len ∨ s.buf At.flags &&& (Tcp.syn ||| Tcp.fin) ≠ 0) ∧
    get32 s.buf At.seqno ≠ s.connr.rcvNxt

/-- `(BUF->tcpoffset >> 4) << 2`, the length of the TCP header. -/
def tcpHlen (b : Buf) : BitVec 8 := b At.tcpoffset >>> 4 <<< 2

/-- `found`, with `conn` for `uip_connr`. -/
def found (calls : List AppCall) (s : Uip) (conn : Fin uipConns) : Option Uip :=
  let s := { s with conn := conn, flags := 0 }
  if s.buf At.flags &&& Tcp.rst ≠ 0 then do
    let s := s.setConnr { s.connr with tcpstateflags := Ts.closed }
    let s ← uipAppcall calls { s with flags := Flag.abort }
    some (drop s)
  else
    let s := { s with len := s.len - (tcpHlen s.buf).setWidth 16 - 20 }
    if outOfOrder s then some (tcpSendAck s)
    else switchState calls (acknowledge s)

/-- An active connection to which a segment belongs. -/
def Conn.isOf (c : Conn) (b : Buf) : Bool :=
  c.tcpstateflags ≠ Ts.closed ∧ get16 b At.destport = c.lport ∧ get16 b At.srcport = c.rport ∧
    get32 b At.srcipaddr = c.ripaddr

/-- The loop at `tcp_input` that looks for the connection of a segment. -/
def connOf (conns : Fin uipConns → Conn) (b : Buf) : Option (Fin uipConns) :=
  (List.finRange uipConns).find? fun c => (conns c).isOf b

/-- `tcp_input`. -/
def tcpInput (calls : List AppCall) (s : Uip) : Option Uip :=
  if uipTcpchksum s.buf ≠ 0xffff then some (drop s)
  else
    match connOf s.conns s.buf with
    | some conn => found calls s conn
    | none =>
      if s.buf At.flags &&& Tcp.ctl ≠ Tcp.syn then some (reset s)
      else if ∃ c, get16 s.buf At.destport = s.listenports c then foundListen s
      else some (reset s)

/-- The processing of an ICMP packet. -/
def icmpInput (s : Uip) : Uip :=
  if s.buf At.type ≠ icmpEcho then drop s
  else
    let s := s.put8 At.type icmpEchoReply
    -- A comparison and a sum of the words as they stand in the memory.
    let icmpchksum := get16 s.buf At.icmpchksum
    let echo := icmpEcho.setWidth 16 <<< 8
    let s := s.put16 At.icmpchksum
      (if htons (0xffff - echo) ≤ icmpchksum then icmpchksum + htons echo + 1
      else icmpchksum + htons echo)
    let s := s.put32 At.destipaddr (get32 s.buf At.srcipaddr)
    let s := s.put32 At.srcipaddr s.hostaddr
    send s

/-- The input processing of a packet of `uip_len` bytes. -/
def uipInput (calls : List AppCall) (s : Uip) : Option Uip :=
  if s.buf At.vhl ≠ 0x45 then some (drop s)
  else
    let len := word (s.buf At.len) (s.buf (At.len + 1))
    if len ≤ s.len then
      let s := { s with len := len }
      if s.buf At.ipoffset &&& 0x3f ≠ 0 ∨ s.buf (At.ipoffset + 1) ≠ 0 then some (drop s)
      else if s.hostaddr ≠ 0 ∧ get32 s.buf At.destipaddr ≠ s.hostaddr then some (drop s)
      else if uipIpchksum s.buf ≠ 0xffff then some (drop s)
      else if s.buf At.proto = 6 then tcpInput calls s
      else if s.buf At.proto ≠ 1 then some (drop s)
      else some (icmpInput s)
    else some (drop s)

/-! ## The timer -/

/-- The retransmission in the state of the connection. -/
def retransmit (calls : List AppCall) (s : Uip) : Option Uip :=
  if s.connr.state = Ts.synRcvd then some (tcpSendSynack s)
  else if s.connr.state = Ts.synSent then some (tcpSendSyn (s.put8 At.flags 0))
  else if s.connr.state = Ts.established then do
    let s ← uipAppcall calls { s with flags := Flag.rexmit }
    some (apprexmit s)
  else if s.connr.state = Ts.finWait1 ∨ s.connr.state = Ts.closing ∨ s.connr.state = Ts.lastAck then
    some (tcpSendFinack s)
  else some (drop s)

/-- The poll of the application. -/
def pollConn (calls : List AppCall) (s : Uip) : Option Uip := do
  let s ← uipAppcall calls { s with flags := Flag.poll }
  some (appsend s)

/-- `UIP_TIMER`. -/
def uipTimer (calls : List AppCall) (s : Uip) : Option Uip :=
  let s := { s with iss := inc32 s.iss, len := 0, slen := 0 }
  if s.connr.tcpstateflags = Ts.timeWait ∨ s.connr.tcpstateflags = Ts.finWait2 then
    let s := s.setConnr { s.connr with timer := s.connr.timer + 1 }
    if s.connr.timer = uipTimeWaitTimeout then
      some (drop (s.setConnr { s.connr with tcpstateflags := Ts.closed }))
    else some (drop s)
  else if s.connr.tcpstateflags ≠ Ts.closed then
    if s.connr.outstanding then
      let timer := s.connr.timer
      let s := s.setConnr { s.connr with timer := timer - 1 }
      if timer = 0 then
        if s.connr.nrtx = uipMaxrtx ∨ ((s.connr.tcpstateflags = Ts.synSent ∨
            s.connr.tcpstateflags = Ts.synRcvd) ∧ s.connr.nrtx = uipMaxsynrtx) then do
          let s := s.setConnr { s.connr with tcpstateflags := Ts.closed }
          let s ← uipAppcall calls { s with flags := Flag.timedout }
          some (tcpSendNodata (s.put8 At.flags (Tcp.rst ||| Tcp.ack)))
        else
          -- Exponential backoff.
          let nrtx := s.connr.nrtx
          let s := s.setConnr { s.connr with
            timer := uipRto <<< (if 4 < nrtx then 4 else nrtx), nrtx := nrtx + 1 }
          retransmit calls s
      else some (drop s)
    else if s.connr.state = Ts.established then pollConn calls s
    else some (drop s)
  else some (drop s)

/-! ## `uip_process` -/

/-- What `uip_process` is called for: `UIP_DATA`, `UIP_TIMER`, or `UIP_POLL_REQUEST`. -/
inductive Request where
  | data
  | timer
  | pollRequest
  deriving DecidableEq

/-- `uip_process`. -/
def uipProcess (calls : List AppCall) (s : Uip) (flag : Request) : Option Uip :=
  let s := { s with appdata := At.optdata, seen := none }
  match flag with
  | .pollRequest =>
    if s.connr.state = Ts.established ∧ ¬ s.connr.outstanding then pollConn calls s
    else some (drop s)
  | .timer => uipTimer calls s
  | .data => uipInput calls s

end Fos.Net
