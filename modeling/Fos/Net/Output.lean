import Fos.Net.Process

/-!
# The packets that are sent
-/

namespace Fos.Net

open Function OnesComplement

variable {s : Uip} {k : ℕ}

/-! ## Checksums -/

/-- What `uip_ipchksum` and `upper_layer_chksum` return for a sum. -/
def chksumResult (sum : BitVec 16) : BitVec 16 := if sum = 0 then 0xffff else htons sum

theorem htons_not (v : BitVec 16) : htons (~~~ v) = ~~~ htons v := by
  have hv := v.isLt
  apply BitVec.eq_of_toNat_eq
  rw [toNat_htons, BitVec.toNat_not, BitVec.toNat_not, toNat_htons]
  omega

theorem chksum_congr {b b' : Buf} {sum : BitVec 16} {k len : ℕ}
    (h : ∀ i < len, b (k + i) = b' (k + i)) : chksum b sum k len = chksum b' sum k len := by
  rw [chksum_eq, chksum_eq, total_congr h]

/-- A sum over bytes in which its complement has been put where zeros were is all ones. -/
theorem chksum_complement {b : Buf} {sum : BitVec 16} {k i len : ℕ} (hi : i % 2 = 0)
    (hlen : i + 1 < len) (h0 : get16 b (k + i) = 0) :
    chksumResult (chksum (put16 b (k + i) (~~~ chksumResult (chksum b sum k len))) sum k len) =
      0xffff := by
  have htotal := total_put16 (b := b) (k := k) (~~~ chksumResult (chksum b sum k len)) hi hlen
  rw [h0, show (htons 0).toNat = 0 from rfl, Nat.add_zero] at htotal
  rw [chksum_eq (put16 _ _ _), htotal]
  by_cases hsum : chksum b sum k len = 0
  · have hnone : htons (~~~ chksumResult (chksum b sum k len)) = 0 := by
      rw [hsum]
      decide
    rw [hnone, show (0 : BitVec 16).toNat = 0 from rfl, Nat.add_zero, ← chksum_eq, hsum]
    rfl
  · have hcompl : htons (~~~ chksumResult (chksum b sum k len)) = ~~~ chksum b sum k len := by
      rw [chksumResult, if_neg hsum, htons_not, htons_htons]
    rw [hcompl, chksum_eq b, ← Nat.add_assoc, fold_add_complement (by decide)]
    decide

theorem uipIpchksum_eq (b : Buf) : uipIpchksum b = chksumResult (chksum b 0 At.ip 20) := rfl

/-- `upper_layer_len`. -/
def upperLayerLen (b : Buf) : BitVec 16 := word (b At.len) (b (At.len + 1)) - 20

theorem uipTcpchksum_eq (b : Buf) : uipTcpchksum b = chksumResult (chksum b
    (chksum b (upperLayerLen b + 6) At.srcipaddr 8) At.upper (upperLayerLen b).toNat) := rfl

/-! ## Headers -/

/-- The header fields that `ip_send_nolen` leaves alone. -/
theorem ipSendNolen_of_ne (h : k = 16 ∨ k = 17 ∨ k = 22 ∨ k = 23 ∨ 26 ≤ k) :
    (ipSendNolen s).buf k = s.buf k := by
  simp (disch := omega) only [ipSendNolen, send, Uip.put8, Uip.put16, At.vhl, At.tos, At.ipoffset,
    At.ipid, At.ipchksum, put16_of_ne, put8_of_ne]

/-- The header fields that `tcp_send_noconn` leaves alone. -/
theorem tcpSendNoconn_of_ne (h : k = 23 ∨ 26 ≤ k ∧ k < 50 ∨ 54 ≤ k) :
    (tcpSendNoconn s).buf k = s.buf k := by
  rw [tcpSendNoconn, ipSendNolen_of_ne (by omega)]
  simp (disch := omega) only [Uip.put8, Uip.put16, At.ttl, At.len, At.urgp, At.tcpchksum,
    put16_of_ne, put8_of_ne]

/-- What `ip_send_nolen` writes. -/
structure IpHeader (b : Buf) : Prop where
  vhl : b At.vhl = 0x45
  ipoffset : b At.ipoffset = 0 ∧ b (At.ipoffset + 1) = 0
  ipchksum : uipIpchksum b = 0xffff

theorem ipSendNolen_header (s : Uip) : IpHeader (ipSendNolen s).buf where
  vhl := by
    simp (disch := omega) only [ipSendNolen, send, Uip.put8, Uip.put16, At.vhl, At.tos, At.ipoffset,
      At.ipid, At.ipchksum, put16_of_ne, put8_of_ne, put8_self]
  ipoffset := by
    constructor <;>
      simp (disch := omega) only [ipSendNolen, send, Uip.put8, Uip.put16, At.vhl, At.tos,
        At.ipoffset, At.ipid, At.ipchksum, put16_of_ne, put8_of_ne, put8_self]
  ipchksum := by
    rw [uipIpchksum_eq]
    exact chksum_complement (i := 10) (by decide) (by decide) (get16_put16 0)

theorem uipTcpchksum_congr {b b' : Buf} (h : ∀ k, k = 16 ∨ k = 17 ∨ 26 ≤ k → b k = b' k) :
    uipTcpchksum b = uipTcpchksum b' := by
  have hlen : upperLayerLen b = upperLayerLen b' := by
    rw [upperLayerLen, upperLayerLen, h 16 (by omega), h 17 (by omega)]
  rw [uipTcpchksum_eq, uipTcpchksum_eq, hlen,
    chksum_congr (k := At.srcipaddr) fun i _ => h _ (by simp),
    chksum_congr (k := At.upper) fun i _ => h _ (by simp; omega)]

/-- What `tcp_send_noconn` writes for a packet of `n` bytes. -/
structure TcpHeader (b : Buf) (n : BitVec 16) : Prop extends IpHeader b where
  ttl : b At.ttl = 64
  len : word (b At.len) (b (At.len + 1)) = n
  urgp : b At.urgp = 0 ∧ b (At.urgp + 1) = 0
  tcpchksum : 40 ≤ n.toNat → uipTcpchksum b = 0xffff

theorem word_bytes (v : BitVec 16) : word ((v >>> 8).setWidth 8) ((v &&& 0xff).setWidth 8) = v := by
  have hv := v.isLt
  have hlow : ((v &&& 0xff).setWidth 8).toNat = v.toNat % 256 := by
    rw [BitVec.toNat_setWidth, BitVec.toNat_and]
    exact (congrArg (· % 2^8) (Nat.and_two_pow_sub_one_eq_mod v.toNat 8)).trans (by omega)
  have hhigh : ((v >>> 8).setWidth 8).toNat = v.toNat / 256 := by
    rw [BitVec.toNat_setWidth, BitVec.toNat_ushiftRight, Nat.shiftRight_eq_div_pow]
    omega
  apply BitVec.eq_of_toNat_eq
  rw [toNat_word, hlow, hhigh]
  omega

/-- A checksum that is put where zeros were is right. -/
theorem uipTcpchksum_put16 {b : Buf} (hlen : 18 ≤ (upperLayerLen b).toNat)
    (h0 : get16 b At.tcpchksum = 0) :
    uipTcpchksum (put16 b At.tcpchksum (~~~ uipTcpchksum b)) = 0xffff := by
  have hsame : upperLayerLen (put16 b At.tcpchksum (~~~ uipTcpchksum b)) = upperLayerLen b := by
    rw [upperLayerLen, put16_of_ne _ (by decide), put16_of_ne _ (by decide), upperLayerLen]
  rw [uipTcpchksum_eq, hsame,
    chksum_congr (k := At.srcipaddr) fun i hi => put16_of_ne _ (by simp; omega), uipTcpchksum_eq]
  exact chksum_complement (i := 16) (by decide) (by omega) h0

theorem tcpSendNoconn_header (s : Uip) : TcpHeader (tcpSendNoconn s).buf s.len := by
  refine ⟨ipSendNolen_header _, ?_, ?_, ?_, ?_⟩
  · rw [tcpSendNoconn, ipSendNolen_of_ne (by decide)]
    simp (disch := omega) only [Uip.put8, Uip.put16, At.ttl, At.len, At.urgp, At.tcpchksum,
      put16_of_ne, put8_of_ne, put8_self]
  · rw [tcpSendNoconn, ipSendNolen_of_ne (by decide), ipSendNolen_of_ne (by decide)]
    simp (disch := omega) only [Uip.put8, Uip.put16, At.ttl, At.len, At.urgp, At.tcpchksum,
      put16_of_ne, put8_of_ne, put8_self, word_bytes]
  · rw [tcpSendNoconn, ipSendNolen_of_ne (by decide), ipSendNolen_of_ne (by decide)]
    constructor <;>
      simp (disch := omega) only [Uip.put8, Uip.put16, At.ttl, At.len, At.urgp, At.tcpchksum,
        put16_of_ne, put8_of_ne, put8_self]
  · intro hlen
    rw [tcpSendNoconn, uipTcpchksum_congr fun k hk => ipSendNolen_of_ne (by omega)]
    apply uipTcpchksum_put16
    · have hword : upperLayerLen (put16 (put8 (put8 (put8 (put8 (put8 s.buf At.ttl 64) At.len
          ((s.len >>> 8).setWidth 8)) (At.len + 1) ((s.len &&& 0xff).setWidth 8)) At.urgp 0)
          (At.urgp + 1) 0) At.tcpchksum 0) = s.len - 20 := by
        rw [upperLayerLen]
        simp (disch := omega) only [At.ttl, At.len, At.urgp, At.tcpchksum, put16_of_ne, put8_of_ne,
          put8_self, word_bytes]
      have hn := s.len.isLt
      refine le_of_le_of_eq ?_ (congrArg BitVec.toNat hword).symm
      rw [BitVec.toNat_sub]
      simp
      omega
    · exact get16_put16 0

/-- A segment of the connection `c` of the host `host`, in a packet of `n` bytes. -/
structure Sent (c : Conn) (host : BitVec 32) (b : Buf) (n : BitVec 16) : Prop
    extends TcpHeader b n where
  proto : b At.proto = 6
  srcipaddr : get32 b At.srcipaddr = host
  destipaddr : get32 b At.destipaddr = c.ripaddr
  srcport : get16 b At.srcport = c.lport
  destport : get16 b At.destport = c.rport
  seqno : get32 b At.seqno = c.sndNxt
  ackno : get32 b At.ackno = c.rcvNxt

theorem tcpSend_sent (s : Uip) : Sent s.connr s.hostaddr (tcpSend s).buf s.len := by
  have h16 : ∀ {k}, 26 ≤ k → k < 49 → ∀ s, get16 (tcpSendNoconn s).buf k = get16 s.buf k :=
    fun h h' _ => get16_congr (tcpSendNoconn_of_ne (by omega)) (tcpSendNoconn_of_ne (by omega))
  have h32 : ∀ {k}, 26 ≤ k → k < 47 → ∀ s, get32 (tcpSendNoconn s).buf k = get32 s.buf k :=
    fun h h' _ => get32_congr fun _ _ _ => tcpSendNoconn_of_ne (by omega)
  refine ⟨tcpSendNoconn_header _, ?_, ?_, ?_, ?_, ?_, ?_, ?_⟩
  · rw [tcpSend, tcpSendNoconn_of_ne (by decide)]
    simp (disch := omega) only [Uip.put8, Uip.put16, Uip.put32, At.ackno, At.seqno, At.proto,
      At.srcport, At.destport, At.srcipaddr, At.destipaddr, At.wnd, put32_of_ne, put16_of_ne,
      put8_of_ne, put8_self]
  · rw [tcpSend, h32 (by decide) (by decide)]
    simp (disch := omega) only [Uip.put8, Uip.put16, Uip.put32, At.srcipaddr, At.destipaddr, At.wnd,
      get32_put8_of_ne, get32_put32_of_ne, get32_put32]
  · rw [tcpSend, h32 (by decide) (by decide)]
    simp (disch := omega) only [Uip.put8, Uip.put16, Uip.put32, At.destipaddr, At.wnd,
      get32_put8_of_ne, get32_put32, Uip.connr]
  · rw [tcpSend, h16 (by decide) (by decide)]
    simp (disch := omega) only [Uip.put8, Uip.put16, Uip.put32, At.srcport, At.destport,
      At.srcipaddr, At.destipaddr, At.wnd, get16_put8_of_ne, get16_put16_of_ne, get16_put32_of_ne,
      get16_put16, Uip.connr]
  · rw [tcpSend, h16 (by decide) (by decide)]
    simp (disch := omega) only [Uip.put8, Uip.put16, Uip.put32, At.destport, At.srcipaddr,
      At.destipaddr, At.wnd, get16_put8_of_ne, get16_put32_of_ne, get16_put16, Uip.connr]
  · rw [tcpSend, h32 (by decide) (by decide)]
    simp (disch := omega) only [Uip.put8, Uip.put16, Uip.put32, At.seqno, At.proto, At.srcport,
      At.destport, At.srcipaddr, At.destipaddr, At.wnd, get32_put8_of_ne, get32_put16_of_ne,
      get32_put32_of_ne, get32_put32, Uip.connr]
  · rw [tcpSend, h32 (by decide) (by decide)]
    simp (disch := omega) only [Uip.put8, Uip.put16, Uip.put32, At.ackno, At.seqno, At.proto,
      At.srcport, At.destport, At.srcipaddr, At.destipaddr, At.wnd, get32_put8_of_ne,
      get32_put16_of_ne, get32_put32_of_ne, get32_put32, Uip.connr]

/-- The rest of the packet is the state's. -/
theorem tcpSend_of_ne (h : k = 46 ∨ k = 47 ∨ 54 ≤ k) : (tcpSend s).buf k = s.buf k := by
  rw [tcpSend, tcpSendNoconn_of_ne (by omega)]
  simp (disch := omega) only [Uip.put8, Uip.put16, Uip.put32, At.ackno, At.seqno, At.proto,
    At.srcport, At.destport, At.srcipaddr, At.destipaddr, At.wnd, put32_of_ne, put16_of_ne,
    put8_of_ne]

/-! ## The labels -/

@[simp] theorem drop_toTables (s : Uip) : (drop s).toTables = s.toTables := rfl

@[simp] theorem tcpSendNoconn_toTables (s : Uip) : (tcpSendNoconn s).toTables = s.toTables := by
  simp [tcpSendNoconn, ipSendNolen, send]

@[simp] theorem tcpSendNoconn_len (s : Uip) : (tcpSendNoconn s).len = s.len := by
  simp [tcpSendNoconn, ipSendNolen, send]

@[simp] theorem tcpSend_toTables (s : Uip) : (tcpSend s).toTables = s.toTables := by simp [tcpSend]

@[simp] theorem tcpSendNoopts_toTables (s : Uip) : (tcpSendNoopts s).toTables = s.toTables := by
  simp [tcpSendNoopts]

@[simp] theorem tcpSendNodata_toTables (s : Uip) : (tcpSendNodata s).toTables = s.toTables := by
  simp [tcpSendNodata]

@[simp] theorem tcpSendAck_toTables (s : Uip) : (tcpSendAck s).toTables = s.toTables := by
  simp [tcpSendAck]

@[simp] theorem tcpSendFinack_toTables (s : Uip) : (tcpSendFinack s).toTables = s.toTables := by
  simp [tcpSendFinack]

@[simp] theorem tcpSendSyn_toTables (s : Uip) : (tcpSendSyn s).toTables = s.toTables := by
  simp [tcpSendSyn]

@[simp] theorem tcpSendSynack_toTables (s : Uip) : (tcpSendSynack s).toTables = s.toTables := by
  simp [tcpSendSynack]

@[simp] theorem apprexmit_toTables (s : Uip) : (apprexmit s).toTables = s.toTables := by
  unfold apprexmit
  dsimp only
  split_ifs <;> simp

@[simp] theorem reset_toTables (s : Uip) : (reset s).toTables = s.toTables := by
  unfold reset
  split_ifs <;> simp

@[simp] theorem icmpInput_toTables (s : Uip) : (icmpInput s).toTables = s.toTables := by
  unfold icmpInput
  dsimp only
  split_ifs <;> simp [send]

/-- The state has a segment to send, of the current connection, with the flags `f` and the header
length in `offset`. -/
structure Segment (s : Uip) (f offset : BitVec 8) (n : BitVec 16) : Prop where
  len : s.len = n
  sent : Sent s.connr s.hostaddr s.buf n
  flags : s.buf At.flags = f
  tcpoffset : s.buf At.tcpoffset = offset

theorem tcpSend_segment (s : Uip) :
    Segment (tcpSend s) (s.buf At.flags) (s.buf At.tcpoffset) s.len where
  len := by simp [tcpSend]
  sent := by
    have h := tcpSend_sent s
    rwa [Uip.connr, ← tcpSend_toTables s] at h
  flags := tcpSend_of_ne (by decide)
  tcpoffset := tcpSend_of_ne (by decide)

theorem tcpSendNoopts_segment (s : Uip) :
    Segment (tcpSendNoopts s) (s.buf At.flags) 0x50 s.len := by
  have h := tcpSend_segment (s.put8 At.tcpoffset 0x50)
  rwa [Uip.put8_buf, put8_self, put8_of_ne _ (by decide), Uip.put8_len] at h

/-- A segment with the flags that have just been put into the header. -/
theorem tcpSendNoopts_put8_segment (s : Uip) (f : BitVec 8) :
    Segment (tcpSendNoopts (s.put8 At.flags f)) f 0x50 s.len := by
  have h := tcpSendNoopts_segment (s.put8 At.flags f)
  rwa [Uip.put8_buf, put8_self, Uip.put8_len] at h

theorem tcpSendNodata_put8_segment (s : Uip) (f : BitVec 8) :
    Segment (tcpSendNodata (s.put8 At.flags f)) f 0x50 40 :=
  tcpSendNoopts_put8_segment { s with len := 40 } f

theorem tcpSendAck_segment (s : Uip) : Segment (tcpSendAck s) Tcp.ack 0x50 40 :=
  tcpSendNodata_put8_segment s _

theorem tcpSendFinack_segment (s : Uip) :
    Segment (tcpSendFinack s) (Tcp.fin ||| Tcp.ack) 0x50 40 :=
  tcpSendNodata_put8_segment s _

theorem tcpSendSyn_segment (s : Uip) :
    Segment (tcpSendSyn s) (s.buf At.flags ||| Tcp.syn) 0x60 44 := by
  have h := tcpSend_segment ({ ((((s.put8 At.flags (s.buf At.flags ||| Tcp.syn)).put8 At.optdata
    2).put8 (At.optdata + 1) 4).put8 (At.optdata + 2) ((uipTcpMss >>> 8).setWidth 8)).put8
    (At.optdata + 3) ((uipTcpMss &&& 0xff).setWidth 8) with len := 44 }.put8 At.tcpoffset 0x60)
  simp (disch := omega) only [Uip.put8_buf, At.flags, At.optdata, At.tcpoffset, put8_of_ne,
    put8_self] at h
  exact h

theorem tcpSendSynack_segment (s : Uip) :
    Segment (tcpSendSynack s) (Tcp.ack ||| Tcp.syn) 0x60 44 := by
  have h := tcpSendSyn_segment (s.put8 At.flags Tcp.ack)
  rwa [Uip.put8_buf, put8_self] at h

end Fos.Net
