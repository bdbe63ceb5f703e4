import Fos.Net.Tables

/-!
# What a call does for one connection

What the other end of a connection depends on is its state, its two sequence numbers and how much is
outstanding (`Pcb`). A call of `uip_process` with the segment `g` takes these through a sequence of
moves, a `Turn` each, in which the bytes go along that the application is given and that it has had
sent. Together with what is in the buffer at the end (`Sends`), this is what a call does for its
connection (`Result`), and the lemmas show it of one label after the other, up to
`uipProcess_result`.
-/

namespace Fos.Net

open Function Relation Tables

/-- What a segment says. -/
structure Seg where
  flags : BitVec 8
  seqno : BitVec 32
  ackno : BitVec 32
  data : List (BitVec 8)

/-- The segment in the buffer, with `len` bytes of data at `appdata`. -/
structure Reads (b : Buf) (appdata : ℕ) (len : BitVec 16) (g : Seg) : Prop where
  flags : b At.flags = g.flags
  seqno : get32 b At.seqno = g.seqno
  ackno : get32 b At.ackno = g.ackno
  data : getBytes b appdata len.toNat = g.data

/-- What the other end depends on. -/
structure Pcb where
  st : BitVec 8
  snd : BitVec 32
  rcv : BitVec 32
  len : BitVec 16

def Conn.pcb (c : Conn) : Pcb := ⟨c.state, c.sndNxt, c.rcvNxt, c.len⟩

/-- A connection, with the bytes that its application has had sent and has been given. -/
structure Ep where
  pcb : Pcb
  taken : List (BitVec 8)
  given : List (BitVec 8)

/-- The connection is being closed. -/
def Late (st : BitVec 8) : Prop :=
  st = Ts.finWait1 ∨ st = Ts.finWait2 ∨ st = Ts.closing ∨ st = Ts.timeWait ∨ st = Ts.lastAck

/-- The length of the data, as it is added to a sequence number. -/
def Seg.len (g : Seg) : BitVec 32 := BitVec.ofNat 32 g.data.length

/-- The data is the next that the connection waits for. -/
def Seg.Next (g : Seg) (p : Pcb) : Prop := g.data ≠ [] → g.seqno = p.rcv

/-- The segment resets the connection. -/
def Seg.Resets (g : Seg) : Prop := g.flags &&& Tcp.rst ≠ 0

/-- There is no urgent data in the segment, and no more than fits into a packet. -/
structure Seg.Plain (g : Seg) : Prop where
  urg : g.flags &&& Tcp.urg = 0
  short : g.data.length + 1 < 2^16

/-- A move of a connection that has the segment `g`. -/
inductive Turn (g : Seg) : Ep → Ep → Prop where
  | ack {p : Pcb} {o i : List (BitVec 8)} (hrst : ¬ g.Resets)
    (hack : g.flags &&& Tcp.ack ≠ 0) (hlen : p.len ≠ 0)
    (hno : g.ackno = p.snd + p.len.setWidth 32) :
    Turn g ⟨p, o, i⟩ ⟨{ p with snd := g.ackno, len := 0 }, o, i⟩
  | accept {p : Pcb} {o i : List (BitVec 8)} (hst : p.st = Ts.synRcvd) (hlen : p.len = 0) :
    Turn g ⟨p, o, i⟩ ⟨{ p with st := Ts.established }, o, i⟩
  | connect {p : Pcb} {o i : List (BitVec 8)} (hrst : ¬ g.Resets) (hst : p.st = Ts.synSent)
    (hlen : p.len = 0) (hctl : g.flags &&& Tcp.ctl = Tcp.syn ||| Tcp.ack) :
    Turn g ⟨p, o, i⟩ ⟨{ p with st := Ts.established, rcv := g.seqno + 1 }, o, i⟩
  /-- The application is given the data. -/
  | give {p : Pcb} {o i : List (BitVec 8)} (hrst : ¬ g.Resets) (hst : p.st = Ts.established)
    (hnext : g.Next p) :
    Turn g ⟨p, o, i⟩ ⟨{ p with rcv := p.rcv + g.len }, o, i ++ g.data⟩
  /-- The data is acknowledged, but the application is not given it. -/
  | skip {p : Pcb} {o i : List (BitVec 8)} (hrst : ¬ g.Resets) (hst : Late p.st)
    (hnext : g.Next p) :
    Turn g ⟨p, o, i⟩ ⟨{ p with rcv := p.rcv + g.len }, o, i⟩
  /-- The other end has closed the connection. -/
  | finish {p : Pcb} {o i : List (BitVec 8)} (hrst : ¬ g.Resets) (hst : p.st = Ts.established)
    (hlen : p.len = 0) (hfin : g.flags &&& Tcp.fin ≠ 0) (hseq : g.seqno + g.len = p.rcv) :
    Turn g ⟨p, o, i⟩ ⟨{ p with st := Ts.lastAck, rcv := p.rcv + 1, len := 1 }, o, i⟩
  | fin {p : Pcb} {o i : List (BitVec 8)} {st : BitVec 8} (hrst : ¬ g.Resets) (hst : Late p.st)
    (hst' : Late st) (hfin : g.flags &&& Tcp.fin ≠ 0) (hseq : g.seqno + g.len = p.rcv) :
    Turn g ⟨p, o, i⟩ ⟨{ p with st := st, rcv := p.rcv + 1 }, o, i⟩
  /-- The application has had data sent. -/
  | take {p : Pcb} {o i data : List (BitVec 8)} {n : BitVec 16} (hst : p.st = Ts.established)
    (hlen : p.len = 0) (hn : data.length = n.toNat) :
    Turn g ⟨p, o, i⟩ ⟨{ p with len := n }, o ++ data, i⟩
  | close {p : Pcb} {o i : List (BitVec 8)} (hst : p.st = Ts.established) :
    Turn g ⟨p, o, i⟩ ⟨{ p with st := Ts.finWait1, len := 1 }, o, i⟩
  | move {p : Pcb} {o i : List (BitVec 8)} {st : BitVec 8} (hst : Late p.st) (hst' : Late st) :
    Turn g ⟨p, o, i⟩ ⟨{ p with st := st }, o, i⟩
  | closed {p : Pcb} {o i : List (BitVec 8)} : Turn g ⟨p, o, i⟩ ⟨{ p with st := Ts.closed }, o, i⟩
  /-- Nothing is said about other segments than plain ones. -/
  | other {e e' : Ep} (hrst : ¬ g.Resets) (h : ¬ g.Plain) : Turn g e e'

/-- The moves that a connection makes in a call. -/
abbrev Turns (g : Seg) : Ep → Ep → Prop := ReflTransGen (Turn g)

/-! ## The application -/

/-- What the application is given when it is called with the view `v`. -/
def View.given (v : View) : List (BitVec 8) := if v.flags &&& Flag.newdata ≠ 0 then v.data else []

/-- What is taken for sending of what the application has handed to `uip_send`, if the connection is
`c` at the end: nothing while something else is outstanding. -/
def View.taken (v : View) (calls : List AppCall) (c : Conn) : List (BitVec 8) :=
  if v.tcb.len = 0 ∧ c.state = Ts.established then (lastSend calls).take c.len.toNat else []

/-- What the application has been given in the last call of `uip_process`. -/
def Tables.given (t : Tables) : List (BitVec 8) := t.seen.elim [] View.given

/-- What has been taken of what the application has handed over in the last call of
`uip_process`. -/
def Tables.taken (t : Tables) (calls : List AppCall) : List (BitVec 8) :=
  t.seen.elim [] fun v => v.taken calls (t.conns t.conn)

/-- What is to be sent is `data`. -/
structure Hands (s : Uip) (data : List (BitVec 8)) : Prop where
  slen : s.slen = BitVec.ofNat 16 data.length
  bytes : ∀ n ≤ s.slen.toNat, getBytes s.buf At.optdata n = data.take n

variable {s s' : Uip} {calls : List AppCall} {g : Seg} {e : Ep} {o i data : List (BitVec 8)}

theorem Hands.ne_nil (h : Hands s data) (hslen : 0 < s.slen) : data ≠ [] := by
  rintro rfl
  rw [h.slen] at hslen
  exact absurd hslen (by decide)

theorem Hands.le (h : Hands s data) : s.slen.toNat ≤ data.length := by
  rw [h.slen, BitVec.toNat_ofNat]
  exact Nat.mod_le ..

theorem AppCall.Does.hands {call : AppCall} (h : call.Does s s') (hands : Hands s data) :
    Hands s' (call.sent data) := by
  cases h with
  | @send d =>
    by_cases hd : d = []
    · simpa [hd, AppCall.sent, uipSend] using hands
    · have hpos : 0 < d.length := List.length_pos_iff.mpr hd
      rw [uipSend, if_pos hpos, AppCall.sent, if_neg hd]
      refine ⟨rfl, fun n hn => ?_⟩
      have hle : n ≤ (d.take (BitVec.ofNat 16 d.length).toNat).length := by
        rw [List.length_take]
        have := Nat.mod_le d.length (2^16)
        rw [BitVec.toNat_ofNat] at hn ⊢
        omega
      dsimp only
      rw [getBytes_putBytes hle, List.take_take, min_eq_left hn]
  | flags hcall | mark hcall | other hcall | take hcall =>
    rw [hcall]
    exact ⟨hands.slen, hands.bytes⟩

/-- What the application hands over is what is to be sent. -/
theorem uipAppcall_hands (h : uipAppcall calls s = some s') (hslen : s.slen = 0) :
    Hands s' (lastSend calls) := by
  have hfold : ∀ (s₁ : Uip) (d : List (BitVec 8)), calls.foldlM AppCall.run s₁ = some s' →
      Hands s₁ d → Hands s' (calls.foldl AppCall.sent d) := by
    clear h
    induction calls with
    | nil =>
      intro s₁ d h hands
      obtain rfl := Option.some.inj h
      exact hands
    | cons call calls ih =>
      intro s₁ d h hands
      rw [List.foldlM_cons] at h
      obtain ⟨s₂, h₂, h⟩ := Option.bind_eq_some_iff.mp h
      exact ih s₂ _ h ((AppCall.run_does h₂).hands hands)
  refine hfold _ _ h ⟨hslen, fun n hn => ?_⟩
  have hn0 : n = 0 := by simpa [hslen] using hn
  rw [hn0]
  rfl

/-- Only the stack tells the application that its data has been acknowledged. -/
theorem uipAppcall_ackdata (h : uipAppcall calls s = some s')
    (hack : s'.flags &&& Flag.ackdata ≠ 0) : s.flags &&& Flag.ackdata ≠ 0 := by
  have hrel := foldlM_run_rel (R := fun s s' => s'.flags &&& Flag.ackdata ≠ 0 →
    s.flags &&& Flag.ackdata ≠ 0) (fun _ => id) (fun _ _ _ h h' h'' => h (h' h'')) ?_ h
  · exact hrel hack
  · intro call s s₁ _ hdoes h₁
    cases hdoes with
    | @send data =>
      obtain ⟨slen, buf, heq, -⟩ := uipSend_spec s data
      rwa [heq] at h₁
    | flags _ hf => exact absurd hf h₁
    | mark _ hf _ _ => rwa [← hf]
    | other => exact h₁
    | take => exact h₁

/-! ## What is sent -/

/-- What a call leaves in the buffer, to be sent. The segment `g` is the one that has come in. -/
inductive Sends (g : Seg) (calls : List AppCall) (s : Uip) : Prop where
  | nothing (hlen : s.len = 0)
  /-- In `SYN_SENT` this is the answer to a segment that is out of order. -/
  | ack (h : Segment s Tcp.ack 0x50 40) (hactive : s.connr.Active)
    (hsyn : s.connr.state = Ts.synSent → ¬ g.Resets ∧ g.flags &&& Tcp.ctl ≠ Tcp.syn ||| Tcp.ack ∧
      (g.data ≠ [] ∨ g.flags &&& (Tcp.syn ||| Tcp.fin) ≠ 0))
  | fin (h : Segment s (Tcp.fin ||| Tcp.ack) 0x50 40) (hst : Late s.connr.state)
    (hlen : s.connr.len ≠ 0)
  | syn (h : Segment s Tcp.syn 0x60 44) (hst : s.connr.state = Ts.synSent)
    (hlen : s.connr.len ≠ 0)
  | synack (h : Segment s (Tcp.ack ||| Tcp.syn) 0x60 44) (hst : s.connr.state = Ts.synRcvd)
    (hlen : s.connr.len ≠ 0)
  /-- What is outstanding, as the application has handed it over. -/
  | data {v : View} (h : Segment s (Tcp.ack ||| Tcp.psh) 0x50 (s.connr.len + 40))
    (hst : s.connr.state = Ts.established) (hlen : s.connr.len ≠ 0) (hseen : s.seen = some v)
    (hsome : lastSend calls ≠ []) (hold : v.tcb.len ≠ 0 → s.connr.len = v.tcb.len)
    (hnew : v.tcb.len = 0 → s.connr.len.toNat ≤ (lastSend calls).length % 2^16)
    (hdata : s.connr.len.toNat ≤ (lastSend calls).length % 2^16 →
      getBytes s.buf At.optdata s.connr.len.toNat = (lastSend calls).take s.connr.len.toNat)
  | rst (h : TcpHeader s.buf 40) (hlen : s.len = 40)
    (hflags : s.buf At.flags = Tcp.rst ||| Tcp.ack) (hproto : s.buf At.proto = 6)
  | icmp (hproto : s.buf At.proto ≠ 6)

/-- All that every call leaves in the buffer: a segment of an active connection, a reset, or
something that is no TCP packet. -/
inductive Emits (s : Uip) : Prop where
  | nothing (hlen : s.len = 0)
  | segment (h : Sent s.connr s.hostaddr s.buf s.len) (hactive : s.connr.Active)
    (hlen : 40 ≤ s.len.toNat ∧ s.len.toNat ≤ uipTcpMss.toNat + 40)
  | rst (h : TcpHeader s.buf 40) (hlen : s.len = 40)
    (hflags : s.buf At.flags = Tcp.rst ||| Tcp.ack) (hproto : s.buf At.proto = 6)
  | icmp (hproto : s.buf At.proto ≠ 6)

/-- What a call does for a connection that has been `p` with the histories `o` and `i`: the entry is
taken again, or the connection makes its moves. -/
def Result (g : Seg) (calls : List AppCall) (p : Pcb) (o i : List (BitVec 8)) (n : ℕ) (s : Uip) :
    Prop :=
  n < s.opened s.conn ∧ Emits s ∨
    Turns g ⟨p, o, i⟩ ⟨s.connr.pcb, o ++ s.taken calls, i ++ s.given⟩ ∧ Sends g calls s

variable {p : Pcb} {n : ℕ}

theorem pos_iff (x : BitVec 16) : 0 < x ↔ x ≠ 0 := by
  rw [BitVec.lt_def, ne_eq, ← BitVec.toNat_inj]
  simp
  omega

theorem Conn.open_of_late {c : Conn} (h : Late c.state) : c.Open := by
  rcases h with h | h | h | h | h <;> exact Conn.open_of_state h (by decide)

theorem Segment.emits {f offset : BitVec 8} {n : BitVec 16} (h : Segment s f offset n)
    (hactive : s.connr.Active) (hn : 40 ≤ n.toNat ∧ n.toNat ≤ uipTcpMss.toNat + 40) : Emits s := by
  refine .segment ?_ hactive (by rwa [h.len])
  rw [h.len]
  exact h.sent

theorem Sends.emits (h : Sends g calls s) (hb : s.connr.Bounded) : Emits s := by
  have hopen : ∀ {st}, s.connr.state = st → st ≠ Ts.closed → s.connr.Active := fun h h' =>
    (Conn.open_of_state h h').active
  cases h with
  | nothing hlen => exact .nothing hlen
  | ack h hactive _ => exact h.emits hactive (by decide)
  | fin h hst _ => exact h.emits (Conn.open_of_late hst).active (by decide)
  | syn h hst _ => exact h.emits (hopen hst (by decide)) (by decide)
  | synack h hst _ => exact h.emits (hopen hst (by decide)) (by decide)
  | data h hst _ _ _ _ _ _ =>
    refine h.emits (hopen hst (by decide)) ?_
    have hlen : s.connr.len.toNat ≤ 366 := hb.len
    have hsum : (s.connr.len + 40).toNat = s.connr.len.toNat + 40 := by
      rw [BitVec.toNat_add]
      exact Nat.mod_eq_of_lt (by simp; omega)
    rw [hsum]
    exact ⟨by omega, Nat.add_le_add_right hlen 40⟩
  | rst h hlen hflags hproto => exact .rst h hlen hflags hproto
  | icmp h => exact .icmp h

theorem tcpSend_getBytes (s : Uip) (n : ℕ) :
    getBytes (tcpSend s).buf At.optdata n = getBytes s.buf At.optdata n :=
  getBytes_congr fun _ hj _ => tcpSend_of_ne (.inr (.inr hj))

theorem apprexmit_sends {v : View} (hst : s.connr.state = Ts.established) (hseen : s.seen = some v)
    (hsome : 0 < s.slen → lastSend calls ≠ [])
    (hold : v.tcb.len ≠ 0 → s.connr.len = v.tcb.len)
    (hnew : v.tcb.len = 0 → s.connr.len.toNat ≤ (lastSend calls).length % 2^16)
    (hdata : s.connr.len.toNat ≤ (lastSend calls).length % 2^16 →
      getBytes s.buf At.optdata s.connr.len.toNat = (lastSend calls).take s.connr.len.toNat) :
    Sends g calls (apprexmit s) := by
  have hopen : s.connr.Open := Conn.open_of_state hst (by decide)
  have hconnr : (apprexmit s).connr = s.connr := by rw [Uip.connr, apprexmit_toTables, Uip.connr]
  have htables : (apprexmit s).toTables = s.toTables := apprexmit_toTables s
  generalize heq : apprexmit s = s₁ at hconnr htables
  unfold apprexmit at heq
  dsimp only at heq
  split_ifs at heq with hslen hflags
  · rw [← heq] at hconnr htables ⊢
    refine .data ?_ (by rwa [hconnr]) ?_ (v := v) ?_ (hsome hslen.1) ?_ ?_ ?_
    · rw [hconnr]
      exact tcpSendNoopts_put8_segment { s with appdata := At.optdata, len := s.connr.len + 40 } _
    · rw [hconnr]
      exact (pos_iff _).mp hslen.2
    · rw [htables, hseen]
    · rwa [hconnr]
    · rwa [hconnr]
    · rw [hconnr]
      intro hle
      rw [← hdata hle]
      refine (tcpSend_getBytes _ _).trans (getBytes_congr fun j hj _ => ?_)
      simp (disch := simp at hj ⊢; omega) [put8_of_ne]
  · rw [← heq] at hconnr ⊢
    refine .ack ?_ (by rw [hconnr]; exact hopen.active) ?_
    · exact tcpSendNoopts_put8_segment { s with appdata := At.optdata, len := 40 } _
    · rw [hconnr, hst]
      exact fun h => absurd h (by decide)
  · rw [← heq]
    exact .nothing rfl

/-! ## Calling the application -/

theorem pcb_of_kept {c c' : Conn} (h : c.Kept c') : c'.pcb = c.pcb := by
  rw [Conn.pcb, h.state, h.eq]
  rfl

/-- The application leaves the connection as it is, or takes the entry for another one. -/
theorem uipAppcall_pcb (h : uipAppcall calls s = some s') :
    s.opened s.conn < s'.opened s'.conn ∨ s'.connr.pcb = s.connr.pcb ∧ s'.seen = some s.view := by
  rcases uipAppcall_kept_or h with hkept | ⟨-, hlt⟩
  · exact .inr ⟨pcb_of_kept hkept, (uipAppcall_sameHeader h).seen⟩
  · exact .inl hlt

theorem Tables.given_of_seen {t : Tables} {v : View} (h : t.seen = some v) : t.given = v.given := by
  rw [Tables.given, h]
  rfl

theorem Tables.taken_of_seen {t : Tables} {v : View} (h : t.seen = some v) :
    t.taken calls = v.taken calls (t.conns t.conn) := by
  rw [Tables.taken, h]
  rfl

theorem View.taken_of_ne {v : View} {c : Conn} (h : c.state ≠ Ts.established) :
    v.taken calls c = [] := if_neg fun h' => h h'.2

theorem View.given_of_flags {v : View} (h : v.flags &&& Flag.newdata = 0) : v.given = [] :=
  if_neg (not_not.mpr h)

theorem Conn.state_of_flags {c : Conn} (st : BitVec 8) (h : c.tcpstateflags = st)
    (hmask : st &&& Ts.mask = st := by decide) : c.state = st := by rw [Conn.state, h, hmask]

theorem Conn.pcb_of_flags {c : Conn} (st : BitVec 8) (h : c.tcpstateflags = st)
    (hmask : st &&& Ts.mask = st := by decide) : c.pcb = ⟨st, c.sndNxt, c.rcvNxt, c.len⟩ := by
  rw [Conn.pcb, Conn.state_of_flags st h hmask]

/-- A call has done its moves when it sends. -/
theorem Result.of_toTables {v : View} (htables : s'.toTables = s.toTables) (hseen : s.seen = some v)
    (h : Turns g ⟨p, o, i⟩ ⟨s.connr.pcb, o ++ v.taken calls s.connr, i ++ v.given⟩)
    (hsends : Sends g calls s') : Result g calls p o i n s' := by
  refine .inr ⟨?_, hsends⟩
  rwa [Uip.connr, htables, Tables.given_of_seen hseen, Tables.taken_of_seen hseen]

/-- What is there to send is new if nothing else is outstanding, and is the same as before
otherwise. -/
theorem takeData_turns {v : View} (hst : s.connr.state = Ts.established)
    (hlen : v.tcb.len = s.connr.len) (hands : Hands s (lastSend calls))
    (hack : s.flags &&& Flag.ackdata ≠ 0 → s.connr.len = 0)
    (h : Turns g e ⟨s.connr.pcb, o, i⟩) :
    Turns g e ⟨(takeData s).connr.pcb, o ++ v.taken calls (takeData s).connr, i⟩ ∧
      (v.tcb.len ≠ 0 → (takeData s).connr.len = v.tcb.len) ∧
      (v.tcb.len = 0 → (takeData s).connr.len.toNat ≤ (lastSend calls).length % 2^16) := by
  have hslen : s.slen.toNat = (lastSend calls).length % 2^16 := by
    rw [hands.slen, BitVec.toNat_ofNat]
  have hsame : v.taken calls s.connr = [] := by
    unfold View.taken
    split_ifs with h0
    · rw [← hlen, h0.1]
      rfl
    · rfl
  rw [takeData_eq]
  by_cases hpos : 0 < s.slen
  · rw [if_pos hpos]
    by_cases h0 : s.connr.len = 0
    · rw [if_pos (.inr h0)]
      have hconnr : ({ s.setConnr { s.connr with len := newLen s } with
          slen := newLen s } : Uip).connr = { s.connr with len := newLen s } := setConnr_connr _
      rw [hconnr]
      have hle : (newLen s).toNat ≤ (lastSend calls).length % 2^16 := by
        rw [← hslen]
        exact (newLen_le s).2
      refine ⟨?_, fun hne => absurd (hlen.trans h0) hne, fun _ => hle⟩
      have htaken : v.taken calls { s.connr with len := newLen s } =
          (lastSend calls).take (newLen s).toNat := if_pos ⟨hlen.trans h0, hst⟩
      rw [htaken]
      refine h.tail (.take hst h0 ?_)
      rw [List.length_take]
      exact min_eq_left (hle.trans (Nat.mod_le ..))
    · rw [if_neg (not_or.mpr ⟨fun hne => h0 (hack hne), h0⟩)]
      refine ⟨?_, fun _ => hlen.symm, fun heq => absurd (hlen.symm.trans heq) h0⟩
      rw [show ({ s with slen := s.connr.len } : Uip).connr = s.connr from rfl, hsame,
        List.append_nil]
      exact h
  · rw [if_neg hpos, hsame, List.append_nil]
    refine ⟨h, fun _ => hlen.symm, fun heq => ?_⟩
    rw [← hlen, heq]
    exact Nat.zero_le _

theorem takeData_pos (h : 0 < (takeData s).slen) : 0 < s.slen := by
  by_contra hslen
  rw [takeData_eq, if_neg hslen] at h
  exact hslen h

theorem takeData_same (s : Uip) : (takeData s).seen = s.seen ∧ (takeData s).buf = s.buf ∧
    (takeData s).connr.state = s.connr.state := by
  rw [takeData_eq]
  split_ifs
  · refine ⟨rfl, rfl, ?_⟩
    show (s.setConnr _).connr.state = _
    rw [setConnr_connr]
    rfl
  · exact ⟨rfl, rfl, rfl⟩
  · exact ⟨rfl, rfl, rfl⟩

/-- What a call does that ends with `appsend` in `ESTABLISHED`. -/
theorem appsend_result {v : View} (hst : s.connr.state = Ts.established) (hseen : s.seen = some v)
    (hlen : v.tcb.len = s.connr.len) (hands : Hands s (lastSend calls))
    (hack : s.flags &&& Flag.ackdata ≠ 0 → s.connr.len = 0)
    (h : Turns g ⟨p, o, i⟩ ⟨s.connr.pcb, o, i ++ v.given⟩) :
    Result g calls p o i n (appsend s) := by
  have hpcb : s.connr.pcb.st = Ts.established := hst
  unfold appsend
  dsimp only
  split_ifs with habort hclose
  · have hseg := tcpSendNodata_put8_segment ({ s with slen := 0 }.setConnr { s.connr with
      tcpstateflags := Ts.closed }) (Tcp.rst ||| Tcp.ack)
    refine .of_toTables (s := { s with slen := 0 }.setConnr { s.connr with
      tcpstateflags := Ts.closed }) (by simp) hseen ?_ (.rst hseg.sent.toTcpHeader hseg.len
      hseg.flags hseg.sent.proto)
    rw [setConnr_connr, View.taken_of_ne, List.append_nil, Conn.pcb_of_flags Ts.closed rfl]
    · exact h.tail .closed
    · rw [Conn.state_of_flags Ts.closed rfl]
      decide
  · have hseg := tcpSendNodata_put8_segment ({ s with slen := 0 }.setConnr { s.connr with
      len := 1, tcpstateflags := Ts.finWait1, nrtx := 0 }) (Tcp.fin ||| Tcp.ack)
    have hconnr : (tcpSendNodata (({ s with slen := 0 }.setConnr { s.connr with
        len := 1, tcpstateflags := Ts.finWait1, nrtx := 0 }).put8 At.flags
          (Tcp.fin ||| Tcp.ack))).connr =
        { s.connr with len := 1, tcpstateflags := Ts.finWait1, nrtx := 0 } := by
      rw [Uip.connr, tcpSendNodata_toTables, Uip.put8_toTables, ← Uip.connr, setConnr_connr]
    refine .of_toTables (s := { s with slen := 0 }.setConnr { s.connr with
      len := 1, tcpstateflags := Ts.finWait1, nrtx := 0 }) (by simp) hseen ?_ (.fin hseg ?_ ?_)
    · rw [setConnr_connr, View.taken_of_ne, List.append_nil, Conn.pcb_of_flags Ts.finWait1 rfl]
      · exact h.tail (.close hpcb)
      · rw [Conn.state_of_flags Ts.finWait1 rfl]
        decide
    · rw [hconnr, Conn.state_of_flags Ts.finWait1 rfl]
      exact .inl rfl
    · rw [hconnr]
      exact (by decide : (1 : BitVec 16) ≠ 0)
  · have htake := takeData_turns hst hlen hands hack h
    have hkeep := takeData_same s
    rw [hseen, hst] at hkeep
    refine .of_toTables (s := (takeData s).setConnr { (takeData s).connr with nrtx := 0 })
      (apprexmit_toTables _) hkeep.1 ?_ (apprexmit_sends ?_ hkeep.1
        (fun hpos => hands.ne_nil (takeData_pos hpos)) ?_ ?_ ?_)
    · rw [setConnr_connr]
      exact htake.1
    · rw [setConnr_connr]
      exact hkeep.2.2
    · rw [setConnr_connr]
      exact htake.2.1
    · rw [setConnr_connr]
      exact htake.2.2
    · rw [setConnr_connr]
      intro hle
      refine (congrArg (getBytes · At.optdata _) hkeep.2.1).trans (hands.bytes _ ?_)
      rw [hands.slen, BitVec.toNat_ofNat]
      exact hle

/-- The application is called in `ESTABLISHED`, and may send. -/
theorem appcall_appsend_result {s₁ : Uip} {c : Conn} {f : BitVec 8}
    (hcall : uipAppcall calls s = some s₁) (hconnr : s.connr = c) (hflags : s.flags = f)
    (hslen : s.slen = 0) (hdata : getBytes s.buf s.appdata s.len.toNat = data)
    (hst : c.state = Ts.established) (hack : f &&& Flag.ackdata ≠ 0 → c.len = 0)
    (h : Turns g ⟨p, o, i⟩ ⟨c.pcb, o, i ++ if f &&& Flag.newdata ≠ 0 then data else []⟩) :
    Result g calls p o i n (appsend s₁) := by
  subst hconnr hflags hdata
  have hkept := uipAppcall_kept hcall (by rw [hst]; decide) (by rw [hst]; decide)
  have hlen : s₁.connr.len = s.connr.len := congrArg Pcb.len (pcb_of_kept hkept)
  refine appsend_result (hkept.state.trans hst) (uipAppcall_sameHeader hcall).seen hlen.symm
    (uipAppcall_hands hcall hslen) (fun hne => ?_) ?_
  · rw [hlen]
    exact hack (uipAppcall_ackdata hcall hne)
  · rw [pcb_of_kept hkept]
    exact h

/-- The application is told, in a state in which it may not send, and then something is sent. -/
theorem appcall_result {s₁ : Uip} (hcall : uipAppcall calls s = some s₁)
    (hn : s.opened s.conn = n) (htables : s'.toTables = s₁.toTables)
    (hst : s.connr.state ≠ Ts.established) (hflags : s.flags &&& Flag.newdata = 0)
    (h : Turns g ⟨p, o, i⟩ ⟨s.connr.pcb, o, i⟩) (hemits : Emits s')
    (hsends : s₁.connr.pcb = s.connr.pcb → Sends g calls s') :
    Result g calls p o i n s' := by
  subst hn
  rcases uipAppcall_pcb hcall with hlt | ⟨hpcb, hseen⟩
  · refine .inl ⟨?_, hemits⟩
    rwa [htables]
  · refine .of_toTables htables hseen ?_ (hsends hpcb)
    have hst₁ : s₁.connr.state ≠ Ts.established := by
      rwa [show s₁.connr.state = s.connr.state from congrArg Pcb.st hpcb]
    rw [hpcb, View.taken_of_ne hst₁, View.given_of_flags hflags, List.append_nil, List.append_nil]
    exact h

/-! ## The labels -/

theorem Reads.len {b : Buf} {appdata : ℕ} {len : BitVec 16} (h : Reads b appdata len g) :
    len.setWidth 32 = g.len := by
  apply BitVec.eq_of_toNat_eq
  rw [Seg.len, ← h.data, length_getBytes, BitVec.toNat_ofNat, BitVec.toNat_setWidth]

theorem Reads.pos {b : Buf} {appdata : ℕ} {len : BitVec 16} (h : Reads b appdata len g) :
    0 < len ↔ g.data ≠ [] := by
  rw [← List.length_pos_iff, ← h.data, length_getBytes, BitVec.lt_def]
  rfl

theorem Reads.len_eq_zero {b : Buf} {appdata : ℕ} {len : BitVec 16} (h : Reads b appdata len g)
    (hpos : ¬ 0 < len) : g.len = 0 ∧ g.data = [] := by
  have hdata : g.data = [] := not_not.mp (mt h.pos.mpr hpos)
  exact ⟨by rw [Seg.len, hdata]; rfl, hdata⟩

@[simp] theorem uipAddRcvNxt_connr (s : Uip) (n : BitVec 16) : (uipAddRcvNxt s n).connr =
    { s.connr with rcvNxt := s.connr.rcvNxt + n.setWidth 32 } := by
  rw [uipAddRcvNxt, setConnr_connr, uipAdd32_eq]

theorem acknowledge_turns (hrst : ¬ g.Resets) (hreads : Reads s.buf s.appdata s.len g)
    (hflags : s.flags = 0) (h : Turns g e ⟨s.connr.pcb, o, i⟩) :
    Turns g e ⟨(acknowledge s).connr.pcb, o, i⟩ ∧
      ((acknowledge s).flags = 0 ∨ (acknowledge s).flags = Flag.ackdata) ∧
      ((acknowledge s).flags &&& Flag.ackdata ≠ 0 → (acknowledge s).connr.len = 0) := by
  rcases acknowledge_spec s with heq | ⟨hack, hlen, hno, heq⟩
  · rw [heq, hflags]
    exact ⟨h, .inl rfl, fun hne => absurd rfl hne⟩
  · rw [heq]
    have hconnr : ({ s.setConnr (s.connr.acked (s.connr.sndNxt + s.connr.len.setWidth 32)) with
        flags := Flag.ackdata } : Uip).connr =
        s.connr.acked (s.connr.sndNxt + s.connr.len.setWidth 32) := setConnr_connr _
    rw [hconnr, Conn.acked_eq]
    refine ⟨h.tail ?_, .inr rfl, fun _ => rfl⟩
    rw [hreads.ackno] at hno
    rw [← hno]
    exact .ack hrst (by rwa [← hreads.flags]) hlen hno

/-- The application has not been called. -/
theorem Result.of_none (hseen : s.seen = none) (h : Turns g ⟨p, o, i⟩ ⟨s.connr.pcb, o, i⟩)
    (hsends : Sends g calls s) : Result g calls p o i n s := by
  refine .inr ⟨?_, hsends⟩
  rw [Tables.given, Tables.taken, hseen]
  simpa using h

/-- What holds at the `switch` on the state. -/
structure Switch (s : Uip) (g : Seg) (p : Pcb) (o i : List (BitVec 8)) : Prop where
  proto : s.buf At.proto = 6
  rst : ¬ g.Resets
  reads : Reads s.buf s.appdata s.len g
  flags : s.flags = 0 ∨ s.flags = Flag.ackdata
  acked : s.flags &&& Flag.ackdata ≠ 0 → s.connr.len = 0
  seen : s.seen = none
  next : s.connr.state ≠ Ts.synSent → g.data ≠ [] ∨ g.flags &&& (Tcp.syn ||| Tcp.fin) ≠ 0 →
    g.seqno = s.connr.rcvNxt
  turns : Turns g ⟨p, o, i⟩ ⟨s.connr.pcb, o, i⟩

theorem Switch.drop (h : Switch s g p o i) : Result g calls p o i n (drop s) :=
  .of_none h.seen h.turns (.nothing rfl)

/-- The data is next where segments that are out of order have been sorted out. -/
theorem Switch.Next (h : Switch s g p o i) (hst : s.connr.state ≠ Ts.synSent) :
    g.Next s.connr.pcb := fun hdata => h.next hst (.inl hdata)

theorem caseSynRcvd_result (h : Switch s g p o i) (hst : s.connr.state = Ts.synRcvd)
    (hcase : caseSynRcvd calls s = some s') : Result g calls p o i (s.opened s.conn) s' := by
  unfold caseSynRcvd at hcase
  split_ifs at hcase with hack
  · obtain ⟨s₁, hcall, rfl⟩ := bind_some_eq hcase
    have hne : s.connr.state ≠ Ts.synSent := by
      rw [hst]
      decide
    have hpcb : s.connr.pcb = ⟨Ts.synRcvd, s.connr.sndNxt, s.connr.rcvNxt, 0⟩ := by
      rw [Conn.pcb, hst, h.acked hack]
    have hnext := h.Next hne
    have hturns := h.turns
    rw [hpcb] at hturns hnext
    have haccept := hturns.tail (.accept rfl rfl)
    have hgive := haccept.tail (.give h.rst rfl hnext)
    have hconnr : (s.setConnr { s.connr with tcpstateflags := Ts.established, len := 0 }).connr =
        { s.connr with tcpstateflags := Ts.established, len := 0 } := setConnr_connr _
    dsimp only at hcall
    split_ifs at hcall with hpos
    · refine appcall_appsend_result hcall (c := { s.connr with
        tcpstateflags := Ts.established, len := 0, rcvNxt := s.connr.rcvNxt + g.len })
        (f := Flag.connected ||| Flag.newdata) ?_ rfl rfl h.reads.data
        (Conn.state_of_flags Ts.established rfl) (fun hne => absurd rfl hne) ?_
      · rw [← h.reads.len]
        refine (uipAddRcvNxt_connr _ _).trans ?_
        simp [Uip.connr, Uip.setConnr]
      · rw [if_pos (by decide), Conn.pcb_of_flags Ts.established rfl]
        exact hgive
    · refine appcall_appsend_result hcall (c := { s.connr with
        tcpstateflags := Ts.established, len := 0 }) (f := Flag.connected) hconnr rfl rfl
        h.reads.data (Conn.state_of_flags Ts.established rfl) (fun hne => absurd rfl hne) ?_
      rw [if_neg (by decide), List.append_nil, Conn.pcb_of_flags Ts.established rfl]
      exact haccept
  · obtain rfl := Option.some.inj hcase
    exact h.drop

theorem reset_sends (hproto : s.buf At.proto = 6) : Sends g calls (reset s) := by
  unfold reset
  split_ifs
  · exact .nothing rfl
  · refine .rst (tcpSendNoconn_header _) (by simp) ?_ ?_
    · dsimp only
      rw [tcpSendNoconn_of_ne (by decide)]
      simp (disch := omega) only [Uip.put8, Uip.put16, Uip.put32, At.flags, At.tcpoffset, At.seqno,
        At.ackno, At.srcport, At.destport, At.destipaddr, At.srcipaddr, put32_of_ne, put16_of_ne,
        put8_of_ne, put8_self]
    · dsimp only
      rw [tcpSendNoconn_of_ne (by decide), ← hproto]
      simp (disch := omega) only [Uip.put8, Uip.put16, Uip.put32, At.flags, At.tcpoffset, At.seqno,
        At.ackno, At.srcport, At.destport, At.destipaddr, At.srcipaddr, At.proto, put32_of_ne,
        put16_of_ne, put8_of_ne]

theorem caseSynSent_result (h : Switch s g p o i) (hst : s.connr.state = Ts.synSent)
    (hcase : caseSynSent calls s = some s') : Result g calls p o i (s.opened s.conn) s' := by
  unfold caseSynSent at hcase
  split_ifs at hcase with hack
  · obtain ⟨mss, -, hcase⟩ := Option.bind_eq_some_iff.mp hcase
    obtain ⟨s₁, hcall, rfl⟩ := bind_some_eq hcase
    have hpcb : s.connr.pcb = ⟨Ts.synSent, s.connr.sndNxt, s.connr.rcvNxt, 0⟩ := by
      rw [Conn.pcb, hst, h.acked hack.1]
    have hturns := h.turns
    rw [hpcb] at hturns
    have hconnect := hturns.tail (.connect h.rst rfl rfl (by rw [← h.reads.flags]; exact hack.2))
    refine appcall_appsend_result hcall (c := { s.connr.setMss mss with
      tcpstateflags := Ts.established, rcvNxt := g.seqno + 1, len := 0 })
      (f := Flag.connected ||| Flag.newdata) ?_ rfl rfl rfl (Conn.state_of_flags Ts.established rfl)
      (fun hne => absurd rfl hne) ?_
    · rw [← h.reads.seqno]
      simp only [Uip.connr, Uip.setConnr, uipAddRcvNxt, update_self, uipAdd32_eq]
      rfl
    · have hsnd : (s.connr.setMss mss).sndNxt = s.connr.sndNxt := by cases mss <;> rfl
      rw [Conn.pcb_of_flags Ts.established rfl]
      dsimp only
      rw [hsnd]
      simpa [getBytes] using hconnect
  · obtain ⟨s₁, hcall, rfl⟩ := bind_some_eq hcase
    have hne : ∀ st, Ts.synSent ≠ st → s.connr.state ≠ st := fun st h => hst ▸ h
    have hkept := uipAppcall_kept hcall (by exact hne _ (by decide)) (by exact hne _ (by decide))
    have hpcb : s₁.connr.pcb = s.connr.pcb := pcb_of_kept hkept
    refine .of_toTables (s := s₁.setConnr { s₁.connr with tcpstateflags := Ts.closed })
      (reset_toTables _) (uipAppcall_sameHeader hcall).seen ?_ (reset_sends ?_)
    have hclosed : ({ s₁.connr with tcpstateflags := Ts.closed } : Conn).pcb =
        { s.connr.pcb with st := Ts.closed } := by
      rw [← hpcb, Conn.pcb_of_flags Ts.closed rfl]
      rfl
    rw [setConnr_connr, View.taken_of_ne, List.append_nil, View.given_of_flags, List.append_nil,
      hclosed]
    · exact h.turns.tail .closed
    · exact (by decide : Flag.abort &&& Flag.newdata = 0)
    · rw [Conn.state_of_flags Ts.closed rfl]
      decide
    · exact ((uipAppcall_sameHeader hcall).buf _ (by decide)).trans h.proto

/-- The other end's `FIN` comes behind its data. -/
theorem Switch.fin (h : Switch s g p o i) (hst : s.connr.state ≠ Ts.synSent)
    (hfin : s.buf At.flags &&& Tcp.fin ≠ 0) :
    g.flags &&& Tcp.fin ≠ 0 ∧ g.seqno = s.connr.rcvNxt := by
  rw [h.reads.flags] at hfin
  have hor : ∀ x : BitVec 8, x &&& Tcp.fin ≠ 0 → x &&& (Tcp.syn ||| Tcp.fin) ≠ 0 := by decide
  exact ⟨hfin, h.next hst (.inr (hor _ hfin))⟩

theorem add_len_one {b : Buf} {appdata : ℕ} {len : BitVec 16} (h : Reads b appdata len g)
    (hplain : g.Plain) (x : BitVec 32) : x + (1 + len).setWidth 32 = x + g.len + 1 := by
  have hlen : (1 + len).setWidth 32 = len.setWidth 32 + 1 := by
    have hshort := hplain.short
    rw [← h.data, length_getBytes] at hshort
    apply BitVec.eq_of_toNat_eq
    simp only [BitVec.toNat_setWidth, BitVec.toNat_add, BitVec.ofNat_eq_ofNat, BitVec.toNat_ofNat]
    omega
  rw [hlen, h.len, BitVec.add_assoc]

theorem or_newdata (x : BitVec 8) : (x ||| Flag.newdata) &&& Flag.newdata ≠ 0 ∧
    (x ||| Flag.newdata) &&& Flag.ackdata = x &&& Flag.ackdata := by
  revert x
  decide

/-- The data of a segment is accepted, or nothing happens. -/
theorem acceptData_spec (s : Uip) : acceptData s = s ∨
    acceptData s = uipAddRcvNxt { s with flags := s.flags ||| Flag.newdata } s.len := by
  unfold acceptData
  split_ifs
  · exact .inr rfl
  · exact .inl rfl

theorem updateMss_connr (s : Uip) :
    (updateMss s).connr = { s.connr with mss := (updateMss s).connr.mss } := by
  unfold updateMss
  rw [setConnr_connr]

theorem skipUrgent_same (s : Uip) : (skipUrgent s).buf = s.buf ∧
    (skipUrgent s).flags = s.flags ∧ (skipUrgent s).connr = s.connr := by
  unfold skipUrgent
  split_ifs <;> exact ⟨rfl, rfl, rfl⟩

/-- The other end has closed the connection, and so does this one. -/
theorem finish_result {s₁ s₂ : Uip} (hcall : uipAppcall calls s₁ = some s₂)
    (hst : s₁.connr.state = Ts.established)
    (h : Turns g ⟨p, o, i⟩ ⟨⟨Ts.lastAck, s₁.connr.sndNxt, s₁.connr.rcvNxt, 1⟩, o,
      i ++ s₁.view.given⟩) :
    Result g calls p o i n (tcpSendFinack (s₂.setConnr { s₂.connr with
      len := 1, tcpstateflags := Ts.lastAck, nrtx := 0 })) := by
  have hkept := uipAppcall_kept hcall (by rw [hst]; decide) (by rw [hst]; decide)
  have hpcb : ({ s₂.connr with len := 1, tcpstateflags := Ts.lastAck, nrtx := 0 } : Conn).pcb =
      ⟨Ts.lastAck, s₁.connr.sndNxt, s₁.connr.rcvNxt, 1⟩ := by
    rw [Conn.pcb_of_flags Ts.lastAck rfl, hkept.eq]
  have hconnr : (tcpSendFinack (s₂.setConnr { s₂.connr with
      len := 1, tcpstateflags := Ts.lastAck, nrtx := 0 })).connr =
      { s₂.connr with len := 1, tcpstateflags := Ts.lastAck, nrtx := 0 } := by
    rw [Uip.connr, tcpSendFinack_toTables, ← Uip.connr, setConnr_connr]
  refine .of_toTables (s := s₂.setConnr { s₂.connr with
    len := 1, tcpstateflags := Ts.lastAck, nrtx := 0 }) (tcpSendFinack_toTables _)
    (uipAppcall_sameHeader hcall).seen ?_ (.fin (tcpSendFinack_segment _) ?_ ?_)
  · rw [setConnr_connr, View.taken_of_ne, List.append_nil, hpcb]
    · exact h
    · rw [Conn.state_of_flags Ts.lastAck rfl]
      decide
  · rw [hconnr, Conn.state_of_flags Ts.lastAck rfl]
    exact .inr (.inr (.inr (.inr rfl)))
  · rw [hconnr]
    exact (by decide : (1 : BitVec 16) ≠ 0)

/-- In `ESTABLISHED` a segment that is not plain is handled like a plain one, as far as that
goes. -/
theorem caseEstablished_other (h : Switch s g p o i) (hst : s.connr.state = Ts.established)
    (hplain : ¬ g.Plain) (hcase : caseEstablished calls s = some s') :
    Result g calls p o i (s.opened s.conn) s' := by
  have hany : ∀ e, Turns g ⟨p, o, i⟩ e := fun e => .single (.other h.rst hplain)
  obtain ⟨-, hflags, hconnr⟩ := skipUrgent_same s
  unfold caseEstablished at hcase
  dsimp only at hcase
  split_ifs at hcase with hfin hout hlen hnew
  · obtain rfl := Option.some.inj hcase
    exact h.drop
  · obtain ⟨s₁, hcall, rfl⟩ := bind_some_eq hcase
    exact finish_result hcall ((uipAddRcvNxt_state _).trans hst) (hany _)
  · obtain ⟨s₁, hcall, rfl⟩ := bind_some_eq hcase
    exact finish_result hcall ((uipAddRcvNxt_state _).trans hst) (hany _)
  · obtain ⟨s₁, hcall, rfl⟩ := bind_some_eq hcase
    rcases acceptData_spec (skipUrgent s) with heq | heq
    · rw [heq] at hcall
      refine appcall_appsend_result hcall (updateMss_connr _) hflags rfl rfl ?_ ?_ (hany _)
      · rw [hconnr]
        exact hst
      · rw [hconnr]
        exact h.acked
    · rw [heq] at hcall
      refine appcall_appsend_result hcall (f := (skipUrgent s).flags ||| Flag.newdata)
        (updateMss_connr _) rfl rfl rfl ?_ ?_ (hany _)
      · refine (uipAddRcvNxt_state (s := { skipUrgent s with flags := _ }) _).trans ?_
        refine (congrArg Conn.state hconnr).trans hst
      · rw [(or_newdata _).2, hflags]
        intro hack
        refine (congrArg Conn.len (uipAddRcvNxt_connr { skipUrgent s with flags := _ } _)).trans ?_
        exact (congrArg Conn.len hconnr).trans (h.acked hack)
  · obtain rfl := Option.some.inj hcase
    refine .inr ⟨hany _, .nothing rfl⟩

theorem caseEstablished_result (h : Switch s g p o i) (hst : s.connr.state = Ts.established)
    (hcase : caseEstablished calls s = some s') : Result g calls p o i (s.opened s.conn) s' := by
  by_cases hplain : g.Plain
  swap
  · exact caseEstablished_other h hst hplain hcase
  have hne : s.connr.state ≠ Ts.synSent := by
    rw [hst]
    decide
  have hpcb : s.connr.pcb = ⟨Ts.established, s.connr.sndNxt, s.connr.rcvNxt, s.connr.len⟩ := by
    rw [Conn.pcb, hst]
  have hurg : skipUrgent s = s := by
    unfold skipUrgent
    rw [h.reads.flags, hplain.urg]
    rfl
  have hnext := h.Next hne
  have hturns := h.turns
  rw [hpcb] at hnext hturns
  have hgive := hturns.tail (.give h.rst rfl hnext)
  -- The application has been given the data of the last segment.
  have hfinish : s.buf At.flags &&& Tcp.fin ≠ 0 → s.connr.len = 0 → ∀ s₁ s₂ : Uip,
      uipAppcall calls s₁ = some s₂ → s₁.connr = (uipAddRcvNxt s (1 + s.len)).connr →
      s₁.view.given = g.data → Result g calls p o i (s.opened s.conn)
        (tcpSendFinack (s₂.setConnr { s₂.connr with
          len := 1, tcpstateflags := Ts.lastAck, nrtx := 0 })) := by
    intro hfin hzero s₁ s₂ hcall hconnr hgiven
    obtain ⟨hfin', hseq⟩ := h.fin hne hfin
    rw [uipAddRcvNxt_connr, add_len_one h.reads hplain] at hconnr
    refine finish_result hcall ?_ ?_
    · rw [hconnr]
      exact hst
    · rw [hgiven, hconnr]
      refine hgive.tail (.finish h.rst rfl hzero hfin' ?_)
      rw [hseq]
  unfold caseEstablished at hcase
  rw [hurg] at hcase
  dsimp only at hcase
  split_ifs at hcase with hfin hout hlen hnew
  · obtain rfl := Option.some.inj hcase
    exact h.drop
  · obtain ⟨s₁, hcall, rfl⟩ := bind_some_eq hcase
    refine hfinish hfin.1 (by simpa [Conn.outstanding] using hout) _ _ hcall rfl ?_
    exact (if_pos (or_newdata _).1).trans h.reads.data
  · obtain ⟨s₁, hcall, rfl⟩ := bind_some_eq hcase
    refine hfinish hfin.1 (by simpa [Conn.outstanding] using hout) _ _ hcall rfl ?_
    have hnone := (h.reads.len_eq_zero hlen).2
    unfold View.given
    split_ifs
    · exact h.reads.data
    · exact hnone.symm
  · obtain ⟨s₁, hcall, rfl⟩ := bind_some_eq hcase
    have hflags : s.flags &&& Flag.newdata = 0 := by
      rcases h.flags with hf | hf <;> rw [hf] <;> decide
    rcases acceptData_spec s with heq | heq
    · rw [heq] at hcall
      refine appcall_appsend_result hcall (f := s.flags) (setConnr_connr _) rfl rfl h.reads.data hst
        h.acked ?_
      rw [if_neg (not_not.mpr hflags), List.append_nil]
      exact h.turns
    · rw [heq] at hcall
      refine appcall_appsend_result hcall (f := s.flags ||| Flag.newdata)
        (c := { s.connr with
          rcvNxt := s.connr.rcvNxt + g.len
          mss := (updateMss (uipAddRcvNxt { s with flags := s.flags ||| Flag.newdata }
            s.len)).connr.mss }) ?_ rfl rfl h.reads.data hst ?_ ?_
      · refine (updateMss_connr _).trans ?_
        rw [uipAddRcvNxt_connr, h.reads.len]
        rfl
      · rw [(or_newdata _).2]
        exact h.acked
      · rw [if_pos (or_newdata _).1]
        rw [← hst] at hgive
        exact hgive
  · obtain rfl := Option.some.inj hcase
    rcases acceptData_spec s with heq | heq
    · rw [heq]
      refine .of_none (s := drop (updateMss s)) h.seen ?_ (.nothing rfl)
      rw [show (drop (updateMss s)).connr = (updateMss s).connr from rfl, updateMss_connr]
      exact h.turns
    · refine absurd ?_ hnew
      rw [heq]
      have hor : ∀ x : BitVec 8, (x ||| Flag.newdata) &&& (Flag.newdata ||| Flag.ackdata) ≠ 0 := by
        decide
      exact hor s.flags

theorem closed_turns {c : Conn} (h : Turns g e ⟨c.pcb, o, i⟩) :
    Turns g e ⟨({ c with tcpstateflags := Ts.closed } : Conn).pcb, o, i⟩ := by
  rw [Conn.pcb_of_flags Ts.closed rfl]
  exact h.tail .closed

/-- The connection is closed, and the application is told. -/
theorem closed_result {s₁ : Uip} {f : BitVec 8} (hcall : uipAppcall calls
      { s.setConnr { s.connr with tcpstateflags := Ts.closed } with flags := f } = some s₁)
    (htables : s'.toTables = s₁.toTables) (hf : f &&& Flag.newdata = 0)
    (h : Turns g ⟨p, o, i⟩ ⟨s.connr.pcb, o, i⟩) (hemits : Emits s') (hsends : Sends g calls s') :
    Result g calls p o i (s.opened s.conn) s' := by
  have hconnr : ({ s.setConnr { s.connr with tcpstateflags := Ts.closed } with
      flags := f } : Uip).connr = { s.connr with tcpstateflags := Ts.closed } := setConnr_connr _
  refine appcall_result hcall rfl htables ?_ hf ?_ hemits fun _ => hsends
  · rw [hconnr, Conn.state_of_flags Ts.closed rfl]
    decide
  · rw [hconnr]
    exact closed_turns h

theorem caseLastAck_result (h : Switch s g p o i) (hcase : caseLastAck calls s = some s') :
    Result g calls p o i (s.opened s.conn) s' := by
  unfold caseLastAck at hcase
  split_ifs at hcase with hack
  · obtain ⟨s₁, hcall, rfl⟩ := bind_some_eq hcase
    exact closed_result hcall rfl (by decide) h.turns (.nothing rfl) (.nothing rfl)
  · obtain rfl := Option.some.inj hcase
    exact h.drop

/-- An acknowledgement of a connection that is open. -/
theorem tcpSendAck_sends (hopen : s.connr.Open) (hst : s.connr.state ≠ Ts.synSent) :
    Sends g calls (tcpSendAck s) := by
  have hconnr : (tcpSendAck s).connr = s.connr := by
    rw [Uip.connr, tcpSendAck_toTables, ← Uip.connr]
  refine .ack (tcpSendAck_segment s) ?_ ?_
  · rw [hconnr]
    exact hopen.active
  · rw [hconnr]
    exact fun h => absurd h hst

/-- An acknowledgement is all that a call does. -/
theorem tcpSendAck_result (hseen : s.seen = none) (h : Turns g ⟨p, o, i⟩ ⟨s.connr.pcb, o, i⟩)
    (hopen : s.connr.Open) (hst : s.connr.state ≠ Ts.synSent) :
    Result g calls p o i n (tcpSendAck s) := by
  have hconnr : (tcpSendAck s).connr = s.connr := by
    rw [Uip.connr, tcpSendAck_toTables, ← Uip.connr]
  refine .of_none ?_ ?_ (tcpSendAck_sends hopen hst)
  · rwa [tcpSendAck_toTables]
  · rwa [hconnr]

/-- The `FIN` of the other end has come in, and the connection waits for no more. -/
theorem fin_result (st : BitVec 8) {s₁ : Uip} {c : Conn}
    (hcall : uipAppcall calls { uipAddRcvNxt (s.setConnr c) 1 with flags := Flag.close } = some s₁)
    (hst : c.tcpstateflags = st) (hlate : Late st)
    (h : Turns g ⟨p, o, i⟩ ⟨⟨st, c.sndNxt, c.rcvNxt + 1, c.len⟩, o, i⟩) :
    Result g calls p o i (s.opened s.conn) (tcpSendAck s₁) := by
  have hmask : st &&& Ts.mask = st := by rcases hlate with rfl | rfl | rfl | rfl | rfl <;> decide
  have hconnr : ({ uipAddRcvNxt (s.setConnr c) 1 with flags := Flag.close } : Uip).connr =
      { c with rcvNxt := c.rcvNxt + 1 } := by
    refine (uipAddRcvNxt_connr _ _).trans ?_
    rw [setConnr_connr]
    rfl
  have hstate : ({ c with rcvNxt := c.rcvNxt + 1 } : Conn).state = st :=
    Conn.state_of_flags st hst hmask
  refine appcall_result hcall rfl (tcpSendAck_toTables _) ?_
    (by decide : Flag.close &&& Flag.newdata = 0) ?_ ?_ fun hpcb => ?_
  · rw [hconnr, hstate]
    rcases hlate with rfl | rfl | rfl | rfl | rfl <;> decide
  · rw [hconnr, Conn.pcb, hstate]
    exact h
  · have hopen : ({ uipAddRcvNxt (s.setConnr c) 1 with flags := Flag.close } : Uip).connr.Open := by
      rw [hconnr]
      exact Conn.open_of_late (by rwa [hstate])
    refine (tcpSendAck_segment s₁).emits ?_ (by decide)
    rw [Uip.connr, tcpSendAck_toTables]
    exact (foldlM_run_steps hcall (Conn.Open.polite hopen)).2.2 hopen |>.active
  · have hst₁ : s₁.connr.state = st := by
      rw [show s₁.connr.state = s₁.connr.pcb.st from rfl, hpcb, hconnr]
      exact hstate
    refine tcpSendAck_sends (Conn.open_of_late (by rwa [hst₁])) ?_
    rw [hst₁]
    rcases hlate with rfl | rfl | rfl | rfl | rfl <;> decide

/-- What holds in `FIN_WAIT_1` and `FIN_WAIT_2` when the data of the segment has been skipped. -/
structure Skipped (s : Uip) (g : Seg) (st : BitVec 8) (p : Pcb) (o i : List (BitVec 8)) : Prop where
  seen : s.seen = none
  state : s.connr.state = st
  acked : s.flags &&& Flag.ackdata ≠ 0 → s.connr.len = 0
  fin : s.buf At.flags &&& Tcp.fin ≠ 0 →
    g.flags &&& Tcp.fin ≠ 0 ∧ g.seqno + g.len = s.connr.rcvNxt
  turns : Turns g ⟨p, o, i⟩ ⟨s.connr.pcb, o, i⟩

theorem skipData {st : BitVec 8} (h : Switch s g p o i) (hst : s.connr.state = st)
    (hlate : Late st) :
    Skipped (if 0 < s.len then uipAddRcvNxt s s.len else s) g st p o i := by
  subst hst
  have hne : s.connr.state ≠ Ts.synSent := by
    rcases hlate with h | h | h | h | h <;> rw [h] <;> decide
  have hturns := h.turns.tail (.skip h.rst hlate (h.Next hne))
  split_ifs with hpos
  · have hconnr := uipAddRcvNxt_connr s s.len
    rw [h.reads.len] at hconnr
    refine ⟨h.seen, ?_, fun hack => ?_, fun hfin => ?_, ?_⟩
    · rw [hconnr]
      rfl
    · rw [hconnr]
      exact h.acked hack
    · obtain ⟨hfin, hseq⟩ := h.fin hne hfin
      rw [hconnr, hseq]
      exact ⟨hfin, rfl⟩
    · rw [hconnr]
      exact hturns
  · refine ⟨h.seen, rfl, h.acked, fun hfin => ?_, h.turns⟩
    obtain ⟨hfin, hseq⟩ := h.fin hne hfin
    rw [(h.reads.len_eq_zero hpos).1, hseq]
    exact ⟨hfin, BitVec.add_zero _⟩

theorem skipData_same (s : Uip) :
    (if 0 < s.len then uipAddRcvNxt s s.len else s).opened = s.opened ∧
      (if 0 < s.len then uipAddRcvNxt s s.len else s).conn = s.conn := by
  split_ifs <;> exact ⟨rfl, rfl⟩

theorem caseFinWait1_result (h : Switch s g p o i) (hst : s.connr.state = Ts.finWait1)
    (hcase : caseFinWait1 calls s = some s') : Result g calls p o i (s.opened s.conn) s' := by
  have hskip := skipData h hst (.inl rfl)
  obtain ⟨hopened, hconn⟩ := skipData_same s
  rw [← hopened, ← hconn]
  unfold caseFinWait1 at hcase
  dsimp only at hcase
  generalize (if 0 < s.len then uipAddRcvNxt s s.len else s) = s₁ at hcase hskip
  have hpcb : s₁.connr.pcb =
      ⟨Ts.finWait1, s₁.connr.sndNxt, s₁.connr.rcvNxt, s₁.connr.len⟩ := by
    rw [Conn.pcb, hskip.state]
  have hturns := hskip.turns
  rw [hpcb] at hturns
  split_ifs at hcase with hfin hack hack hdata
  · obtain ⟨s₂, hcall, rfl⟩ := bind_some_eq hcase
    obtain ⟨hfin', hseq⟩ := hskip.fin hfin
    refine fin_result Ts.timeWait hcall rfl (.inr (.inr (.inr (.inl rfl)))) ?_
    rw [hskip.acked hack] at hturns
    exact hturns.tail (.fin h.rst (.inl rfl) (.inr (.inr (.inr (.inl rfl)))) hfin' hseq)
  · obtain ⟨s₂, hcall, rfl⟩ := bind_some_eq hcase
    obtain ⟨hfin', hseq⟩ := hskip.fin hfin
    refine fin_result Ts.closing hcall rfl (.inr (.inr (.inl rfl))) ?_
    exact hturns.tail (.fin h.rst (.inl rfl) (.inr (.inr (.inl rfl))) hfin' hseq)
  · obtain rfl := Option.some.inj hcase
    refine .of_none (s := drop (s₁.setConnr _)) hskip.seen ?_ (.nothing rfl)
    rw [show (drop (s₁.setConnr _)).connr = (s₁.setConnr _).connr from rfl, setConnr_connr,
      Conn.pcb_of_flags Ts.finWait2 rfl]
    rw [hskip.acked hack] at hturns
    exact hturns.tail (.move (.inl rfl) (.inr (.inl rfl)))
  · obtain rfl := Option.some.inj hcase
    refine tcpSendAck_result hskip.seen hskip.turns (Conn.open_of_late (.inl hskip.state)) ?_
    rw [hskip.state]
    decide
  · obtain rfl := Option.some.inj hcase
    exact .of_none (s := drop s₁) hskip.seen hskip.turns (.nothing rfl)

theorem caseFinWait2_result (h : Switch s g p o i) (hst : s.connr.state = Ts.finWait2)
    (hcase : caseFinWait2 calls s = some s') : Result g calls p o i (s.opened s.conn) s' := by
  have hskip := skipData h hst (.inr (.inl rfl))
  obtain ⟨hopened, hconn⟩ := skipData_same s
  rw [← hopened, ← hconn]
  unfold caseFinWait2 at hcase
  dsimp only at hcase
  generalize (if 0 < s.len then uipAddRcvNxt s s.len else s) = s₁ at hcase hskip
  have hpcb : s₁.connr.pcb =
      ⟨Ts.finWait2, s₁.connr.sndNxt, s₁.connr.rcvNxt, s₁.connr.len⟩ := by
    rw [Conn.pcb, hskip.state]
  have hturns := hskip.turns
  rw [hpcb] at hturns
  split_ifs at hcase with hfin hdata
  · obtain ⟨s₂, hcall, rfl⟩ := bind_some_eq hcase
    obtain ⟨hfin', hseq⟩ := hskip.fin hfin
    refine fin_result Ts.timeWait hcall rfl (.inr (.inr (.inr (.inl rfl)))) ?_
    exact hturns.tail (.fin h.rst (.inr (.inl rfl)) (.inr (.inr (.inr (.inl rfl)))) hfin' hseq)
  · obtain rfl := Option.some.inj hcase
    refine tcpSendAck_result hskip.seen hskip.turns (Conn.open_of_late (.inr (.inl hskip.state))) ?_
    rw [hskip.state]
    decide
  · obtain rfl := Option.some.inj hcase
    exact .of_none (s := drop s₁) hskip.seen hskip.turns (.nothing rfl)

theorem caseClosing_result (h : Switch s g p o i) (hst : s.connr.state = Ts.closing) :
    Result g calls p o i n (caseClosing s) := by
  have hpcb : s.connr.pcb = ⟨Ts.closing, s.connr.sndNxt, s.connr.rcvNxt, s.connr.len⟩ := by
    rw [Conn.pcb, hst]
  have hturns := h.turns
  rw [hpcb] at hturns
  unfold caseClosing
  split_ifs with hack
  · refine .of_none (s := drop (s.setConnr _)) h.seen ?_ (.nothing rfl)
    rw [show (drop (s.setConnr _)).connr = (s.setConnr _).connr from rfl, setConnr_connr,
      Conn.pcb_of_flags Ts.timeWait rfl]
    exact hturns.tail (.move (.inr (.inr (.inl rfl))) (.inr (.inr (.inr (.inl rfl)))))
  · exact h.drop

theorem switchState_result (h : Switch s g p o i) (hcase : switchState calls s = some s') :
    Result g calls p o i (s.opened s.conn) s' := by
  unfold switchState at hcase
  split_ifs at hcase with h1 h2 h3 h4 h5 h6 h7 h8
  · exact caseSynRcvd_result h h1 hcase
  · exact caseSynSent_result h h2 hcase
  · exact caseEstablished_result h h3 hcase
  · exact caseLastAck_result h hcase
  · exact caseFinWait1_result h h5 hcase
  · exact caseFinWait2_result h h6 hcase
  · obtain rfl := Option.some.inj hcase
    exact tcpSendAck_result h.seen h.turns (Conn.open_of_state h7 (by decide)) h2
  · obtain rfl := Option.some.inj hcase
    exact caseClosing_result h h8
  · obtain rfl := Option.some.inj hcase
    exact h.drop

/-! ## `uip_process` -/

theorem acknowledge_same (s : Uip) : (acknowledge s).buf = s.buf ∧
    (acknowledge s).appdata = s.appdata ∧ (acknowledge s).len = s.len ∧
    (acknowledge s).seen = s.seen ∧ (acknowledge s).conn = s.conn ∧
    (acknowledge s).opened = s.opened ∧ (acknowledge s).connr.rcvNxt = s.connr.rcvNxt := by
  rcases acknowledge_spec s with heq | ⟨-, -, -, heq⟩
  · rw [heq]
    exact ⟨rfl, rfl, rfl, rfl, rfl, rfl, rfl⟩
  · rw [heq]
    refine ⟨rfl, rfl, rfl, rfl, rfl, rfl, ?_⟩
    show (s.setConnr _).connr.rcvNxt = _
    rw [setConnr_connr, Conn.acked_eq]

/-- The segment at `found`, where `uip_len` is still the length of the packet. -/
def Uip.Holds (s : Uip) (g : Seg) : Prop :=
  Reads s.buf s.appdata (s.len - (tcpHlen s.buf).setWidth 16 - 20) g

theorem outOfOrder_iff (hreads : Reads s.buf s.appdata s.len g) : outOfOrder s = true ↔
    ¬ (s.connr.state = Ts.synSent ∧ g.flags &&& Tcp.ctl = Tcp.syn ||| Tcp.ack) ∧
      (g.data ≠ [] ∨ g.flags &&& (Tcp.syn ||| Tcp.fin) ≠ 0) ∧ g.seqno ≠ s.connr.rcvNxt := by
  rw [outOfOrder, ← hreads.flags, ← hreads.seqno, ← hreads.pos]
  exact decide_eq_true_iff

/-- A segment that is in order comes to the `switch`. -/
theorem acknowledge_switch (hproto : s.buf At.proto = 6) (hrst : ¬ g.Resets)
    (hreads : Reads s.buf s.appdata s.len g) (hflags : s.flags = 0)
    (hseen : s.seen = none) (hout : ¬ outOfOrder s = true) :
    Switch (acknowledge s) g s.connr.pcb o i := by
  obtain ⟨hbuf, happdata, hlen, hseen', -, -, hrcv⟩ := acknowledge_same s
  obtain ⟨hturns, hack, hzero⟩ := acknowledge_turns (o := o) (i := i) hrst hreads hflags .refl
  refine ⟨by rwa [hbuf], hrst, ?_, hack, hzero, hseen'.trans hseen, fun hst hdata => ?_, hturns⟩
  · rwa [hbuf, happdata, hlen]
  · rw [(acknowledge_state s).1] at hst
    rw [outOfOrder_iff hreads] at hout
    rw [hrcv]
    by_contra hne
    exact hout ⟨fun h => hst h.1, hdata, hne⟩

theorem found_result {k : Fin uipConns} (hproto : s.buf At.proto = 6) (hholds : s.Holds g)
    (hseen : s.seen = none)
    (hactive : (s.conns k).Active) (hfound : found calls s k = some s') :
    Result g calls (s.conns k).pcb o i (s.opened k) s' := by
  unfold found at hfound
  dsimp only at hfound
  split_ifs at hfound with hrst hout
  · obtain ⟨s₁, hcall, rfl⟩ := bind_some_eq hfound
    exact closed_result (s := { s with conn := k, flags := 0 }) hcall rfl (by decide) .refl
      (.nothing rfl) (.nothing rfl)
  · obtain rfl := Option.some.inj hfound
    have hconnr : ∀ s₁ : Uip, (tcpSendAck s₁).connr = s₁.connr := fun s₁ => by
      rw [Uip.connr, tcpSendAck_toTables, ← Uip.connr]
    have hresets : ¬ g.Resets := by rwa [Seg.Resets, ← Reads.flags hholds]
    have hout := (outOfOrder_iff (by exact hholds)).mp hout
    refine .of_none ?_ ?_ (.ack (tcpSendAck_segment _) ?_ ?_)
    · rwa [tcpSendAck_toTables]
    · rw [hconnr]
      exact .refl
    · rw [hconnr]
      exact hactive
    · rw [hconnr]
      exact fun hst => ⟨hresets, fun hctl => hout.1 ⟨hst, hctl⟩, hout.2.1⟩
  · have hresets : ¬ g.Resets := by rwa [Seg.Resets, ← Reads.flags hholds]
    generalize hs₁ : ({ s with
      conn := k, flags := 0, len := s.len - (tcpHlen s.buf).setWidth 16 - 20 } : Uip) = s₁
      at hfound hout
    have hswitch : Switch (acknowledge s₁) g s₁.connr.pcb o i :=
      acknowledge_switch (by rw [← hs₁]; exact hproto) hresets (by rw [← hs₁]; exact hholds)
        (by rw [← hs₁]) (by rw [← hs₁]; exact hseen) hout
    obtain ⟨-, -, -, -, hconn, hopened, -⟩ := acknowledge_same s₁
    have hresult := switchState_result hswitch hfound
    rw [hconn, hopened, ← hs₁] at hresult
    exact hresult

/-- The segment in a buffer that holds a packet. -/
def segOf (b : Buf) : Seg where
  flags := b At.flags
  seqno := get32 b At.seqno
  ackno := get32 b At.ackno
  data := getBytes b At.optdata
    (word (b At.len) (b (At.len + 1)) - (tcpHlen b).setWidth 16 - 20).toNat

/-- Nothing happens to the connection. -/
theorem Result.same {q : Pcb} (hseen : s.seen = none) (hpcb : s.connr.pcb = q)
    (hsends : Sends g calls s) : Result g calls q o i n s :=
  .of_none hseen (by rw [hpcb]) hsends

theorem foundListen_result (hseen : s.seen = none) (hlisten : foundListen s = some s') :
    Result g calls (s.conns s'.conn).pcb o i (s.opened s'.conn) s' := by
  unfold foundListen at hlisten
  cases hk : unusedConn s.conns with
  | none =>
    simp only [hk] at hlisten
    obtain rfl := Option.some.inj hlisten
    exact .same hseen rfl (.nothing rfl)
  | some k =>
    simp only [hk] at hlisten
    obtain ⟨mss, -, rfl⟩ := bind_some_eq hlisten
    refine .inl ⟨?_, (tcpSendSynack_segment _).emits ?_ (by decide)⟩
    · rw [tcpSendSynack_toTables]
      show s.opened k < update s.opened k (s.opened k + 1) k
      rw [update_self]
      exact Nat.lt_succ_self _
    · have hmss : ∀ c : Conn, (c.setMss mss).tcpstateflags = c.tcpstateflags := fun c => by
        cases mss <;> rfl
      rw [Conn.Active, Uip.connr, tcpSendSynack_toTables, ← Uip.connr, setConnr_connr, hmss,
        uipAddRcvNxt_connr, setConnr_connr]
      exact (by decide : Ts.synRcvd ≠ Ts.closed)

/-- What comes of a TCP packet: it belongs to the connection, or it does not matter what it says. -/
theorem tcpInput_result (hproto : s.buf At.proto = 6) (happdata : s.appdata = At.optdata)
    (hlen : s.len = word (s.buf At.len) (s.buf (At.len + 1))) (hseen : s.seen = none)
    (hinput : tcpInput calls s = some s')
    (hpolite : ∀ v, s'.seen = some v → Polite calls v.tcb) :
    (∀ g, Result g calls (s.conns s'.conn).pcb o i (s.opened s'.conn) s') ∨
      uipTcpchksum s.buf = 0xffff ∧ (s.conns s'.conn).isOf s.buf ∧
        Result (segOf s.buf) calls (s.conns s'.conn).pcb o i (s.opened s'.conn) s' := by
  have hreset : ∀ s₁ : Uip, (reset s₁).connr = s₁.connr := fun s₁ => by
    rw [Uip.connr, reset_toTables, ← Uip.connr]
  unfold tcpInput at hinput
  by_cases hchk : uipTcpchksum s.buf ≠ 0xffff
  · rw [if_pos hchk] at hinput
    obtain rfl := Option.some.inj hinput
    exact .inl fun g => .same hseen rfl (.nothing rfl)
  · rw [if_neg hchk] at hinput
    cases hconn : connOf s.conns s.buf with
    | some k =>
      simp only [hconn] at hinput
      have hk : s'.conn = k := (found_steps hinput hpolite).conn_eq.1
      have hof := connOf_spec.1 k hconn
      have hactive : (s.conns k).Active := by
        simp only [Conn.isOf, decide_eq_true_eq] at hof
        exact hof.1
      rw [hk]
      refine .inr ⟨not_not.mp hchk, hof, found_result hproto ?_ hseen hactive hinput⟩
      rw [Uip.Holds, happdata, hlen]
      exact ⟨rfl, rfl, rfl, rfl⟩
    | none =>
      simp only [hconn] at hinput
      left
      split_ifs at hinput with hsyn hport
      · obtain rfl := Option.some.inj hinput
        refine fun g => .same (by rwa [reset_toTables]) ?_ (reset_sends hproto)
        rw [hreset, reset_toTables, Uip.connr]
      · exact fun g => foundListen_result hseen hinput
      · obtain rfl := Option.some.inj hinput
        refine fun g => .same (by rwa [reset_toTables]) ?_ (reset_sends hproto)
        rw [hreset, reset_toTables, Uip.connr]

theorem icmpInput_sends (hproto : s.buf At.proto ≠ 6) : Sends g calls (icmpInput s) := by
  unfold icmpInput
  split_ifs
  · exact .nothing rfl
  · refine .icmp ?_
    dsimp only [send]
    simp (disch := omega) only [Uip.put8, Uip.put16, Uip.put32, At.type, At.icmpchksum,
      At.destipaddr, At.srcipaddr, At.proto, put32_of_ne, put16_of_ne, put8_of_ne]
    exact hproto

/-- Every check of `uip_input` and of `tcp_input`, for the `len` bytes in the buffer `b` of the host
`hostaddr`. -/
structure Passes (b : Buf) (len : BitVec 16) (hostaddr : BitVec 32) : Prop where
  vhl : b At.vhl = 0x45
  len : word (b At.len) (b (At.len + 1)) ≤ len
  ipoffset : b At.ipoffset &&& 0x3f = 0 ∧ b (At.ipoffset + 1) = 0
  destipaddr : hostaddr = 0 ∨ get32 b At.destipaddr = hostaddr
  ipchksum : uipIpchksum b = 0xffff
  proto : b At.proto = 6
  tcpchksum : uipTcpchksum b = 0xffff

theorem uipInput_result (happdata : s.appdata = At.optdata) (hseen : s.seen = none)
    (hinput : uipInput calls s = some s')
    (hpolite : ∀ v, s'.seen = some v → Polite calls v.tcb) :
    (∀ g, Result g calls (s.conns s'.conn).pcb o i (s.opened s'.conn) s') ∨
      Passes s.buf s.len s.hostaddr ∧ (s.conns s'.conn).isOf s.buf ∧
        Result (segOf s.buf) calls (s.conns s'.conn).pcb o i (s.opened s'.conn) s' := by
  unfold uipInput at hinput
  dsimp only at hinput
  split_ifs at hinput with hvhl hlen hfrag haddr hchk htcp hicmp
  · obtain rfl := Option.some.inj hinput
    exact .inl fun g => .same hseen rfl (.nothing rfl)
  · obtain rfl := Option.some.inj hinput
    exact .inl fun g => .same hseen rfl (.nothing rfl)
  · obtain rfl := Option.some.inj hinput
    exact .inl fun g => .same hseen rfl (.nothing rfl)
  · obtain rfl := Option.some.inj hinput
    exact .inl fun g => .same hseen rfl (.nothing rfl)
  · have hresult := tcpInput_result (o := o) (i := i) (by exact htcp) (by exact happdata) (by rfl)
      (by exact hseen) hinput hpolite
    rcases hresult with hresult | ⟨htcpchk, hof, hresult⟩
    · exact .inl hresult
    · refine .inr ⟨⟨not_not.mp hvhl, hlen, ?_, ?_, not_not.mp hchk, htcp, htcpchk⟩, hof, hresult⟩
      · rw [not_or, not_not, not_not] at hfrag
        exact hfrag
      · by_cases h0 : s.hostaddr = 0
        · exact .inl h0
        · exact .inr (by_contra fun hne => haddr ⟨h0, hne⟩)
  · obtain rfl := Option.some.inj hinput
    exact .inl fun g => .same hseen rfl (.nothing rfl)
  · obtain rfl := Option.some.inj hinput
    refine .inl fun g => .same (by rw [icmpInput_toTables]; exact hseen) ?_ (icmpInput_sends htcp)
    rw [Uip.connr, icmpInput_toTables]
  · obtain rfl := Option.some.inj hinput
    exact .inl fun g => .same hseen rfl (.nothing rfl)

theorem retransmit_result (hseen : s.seen = none) (hslen : s.slen = 0)
    (hout : s.connr.len ≠ 0) (hre : retransmit calls s = some s') :
    Result g calls s.connr.pcb o i n s' := by
  unfold retransmit at hre
  split_ifs at hre with h1 h2 h3 h4
  · obtain rfl := Option.some.inj hre
    have hconnr : (tcpSendSynack s).connr = s.connr := by
      rw [Uip.connr, tcpSendSynack_toTables, ← Uip.connr]
    refine .same (by rwa [tcpSendSynack_toTables]) (by rw [hconnr])
      (.synack (tcpSendSynack_segment s) ?_ ?_)
    · rwa [hconnr]
    · rwa [hconnr]
  · obtain rfl := Option.some.inj hre
    have hconnr : (tcpSendSyn (s.put8 At.flags 0)).connr = s.connr := by
      rw [Uip.connr, tcpSendSyn_toTables, Uip.put8_toTables, ← Uip.connr]
    have hseg := tcpSendSyn_segment (s.put8 At.flags 0)
    rw [Uip.put8_buf, put8_self] at hseg
    refine .same (by rwa [tcpSendSyn_toTables]) (by rw [hconnr]) (.syn hseg ?_ ?_)
    · rwa [hconnr]
    · rwa [hconnr]
  · obtain ⟨s₁, hcall, rfl⟩ := bind_some_eq hre
    have hne : ∀ st, Ts.established ≠ st → s.connr.state ≠ st := fun st h => h3 ▸ h
    have hkept := uipAppcall_kept hcall (by exact hne _ (by decide)) (by exact hne _ (by decide))
    have hlen₁ : s₁.connr.len = s.connr.len := congrArg Pcb.len (pcb_of_kept hkept)
    have hst₁ : s₁.connr.state = Ts.established := hkept.state.trans h3
    have hands := uipAppcall_hands hcall hslen
    refine .of_toTables (apprexmit_toTables _) (uipAppcall_sameHeader hcall).seen ?_
      (apprexmit_sends hst₁ (uipAppcall_sameHeader hcall).seen hands.ne_nil (fun _ => hlen₁)
        (fun h0 => absurd h0 hout) fun hle => hands.bytes _ ?_)
    · have htaken : View.taken ({ s with flags := Flag.rexmit } : Uip).view calls s₁.connr = [] :=
        if_neg fun h => hout h.1
      rw [htaken, List.append_nil, View.given_of_flags, List.append_nil, pcb_of_kept hkept]
      · rfl
      · exact (by decide : Flag.rexmit &&& Flag.newdata = 0)
    · rwa [hands.slen, BitVec.toNat_ofNat]
  · obtain rfl := Option.some.inj hre
    have hconnr : (tcpSendFinack s).connr = s.connr := by
      rw [Uip.connr, tcpSendFinack_toTables, ← Uip.connr]
    refine .same (by rwa [tcpSendFinack_toTables]) (by rw [hconnr])
      (.fin (tcpSendFinack_segment s) ?_ ?_)
    · rw [hconnr]
      rcases h4 with h | h | h
      · exact .inl h
      · exact .inr (.inr (.inl h))
      · exact .inr (.inr (.inr (.inr h)))
    · rwa [hconnr]
  · obtain rfl := Option.some.inj hre
    exact .same hseen rfl (.nothing rfl)

theorem pollConn_result (hslen : s.slen = 0) (hst : s.connr.state = Ts.established)
    (hout : s.connr.len = 0) (hpoll : pollConn calls s = some s') :
    Result g calls s.connr.pcb o i n s' := by
  obtain ⟨s₁, hcall, rfl⟩ := bind_some_eq hpoll
  refine appcall_appsend_result hcall rfl (f := Flag.poll) rfl hslen rfl hst (fun _ => hout) ?_
  rw [if_neg (by decide), List.append_nil]
  rfl

theorem pcb_setConnr {c : Conn} (h : c.pcb = s.connr.pcb) :
    (s.setConnr c).connr.pcb = s.connr.pcb := by rw [setConnr_connr, h]

theorem uipTimer_result (hseen : s.seen = none) (htimer : uipTimer calls s = some s') :
    Result g calls s.connr.pcb o i (s.opened s.conn) s' := by
  unfold uipTimer at htimer
  dsimp only at htimer
  generalize hs₁ : ({ s with iss := inc32 s.iss, len := 0, slen := 0 } : Uip) = s₁ at htimer
  have hsame : s₁.seen = none ∧ s₁.connr = s.connr ∧ s₁.slen = 0 ∧
      s₁.opened s₁.conn = s.opened s.conn := by
    rw [← hs₁]
    exact ⟨hseen, rfl, rfl, rfl⟩
  clear hs₁
  obtain ⟨hseen₁, hconnr, hslen, hopened⟩ := hsame
  rw [← hconnr, ← hopened]
  split_ifs at htimer with hwait htime hclosed hout h0 hmax hback hest
  · obtain rfl := Option.some.inj htimer
    refine .of_none (s := drop _) hseen₁ ?_ (.nothing rfl)
    show Turns g _ ⟨(Uip.setConnr _ _).connr.pcb, o, i⟩
    rw [setConnr_connr]
    refine closed_turns ?_
    rw [pcb_setConnr (by rfl)]
  · obtain rfl := Option.some.inj htimer
    exact .same hseen₁ (by exact pcb_setConnr rfl) (.nothing rfl)
  · obtain ⟨s₂, hcall, rfl⟩ := bind_some_eq htimer
    have hseg := tcpSendNodata_put8_segment s₂ (Tcp.rst ||| Tcp.ack)
    have hresult := closed_result (g := g) (o := o) (i := i) hcall
      ((tcpSendNodata_toTables _).trans (Uip.put8_toTables ..)) (by decide) .refl
      (.rst hseg.sent.toTcpHeader hseg.len hseg.flags hseg.sent.proto)
      (.rst hseg.sent.toTcpHeader hseg.len hseg.flags hseg.sent.proto)
    rw [pcb_setConnr (by rfl)] at hresult
    exact hresult
  · have hresult := retransmit_result (g := g) (o := o) (i := i) (n := s₁.opened s₁.conn)
      (by exact hseen₁) (by exact hslen) ?_ htimer
    · rw [pcb_setConnr (by rfl), pcb_setConnr (by rfl)] at hresult
      exact hresult
    · rw [setConnr_connr, setConnr_connr]
      simpa [Conn.outstanding] using hout
  · have hresult := retransmit_result (g := g) (o := o) (i := i) (n := s₁.opened s₁.conn)
      (by exact hseen₁) (by exact hslen) ?_ htimer
    · rw [pcb_setConnr (by rfl), pcb_setConnr (by rfl)] at hresult
      exact hresult
    · rw [setConnr_connr, setConnr_connr]
      simpa [Conn.outstanding] using hout
  · obtain rfl := Option.some.inj htimer
    exact .same hseen₁ (by exact pcb_setConnr rfl) (.nothing rfl)
  · exact pollConn_result hslen hest (by simpa [Conn.outstanding] using hout) htimer
  · obtain rfl := Option.some.inj htimer
    exact .same hseen₁ rfl (.nothing rfl)
  · obtain rfl := Option.some.inj htimer
    exact .same hseen₁ rfl (.nothing rfl)

/-- What a call of `uip_process` with a packet or for the timer does for its connection: it does not
depend on what is in the buffer, or there is a packet for the connection that passes the checks. -/
theorem uipProcess_result {flag : Request} (h : uipProcess calls s flag = some s')
    (hflag : flag ≠ .pollRequest) (hpolite : ∀ v, s'.seen = some v → Polite calls v.tcb) :
    (∀ g, Result g calls (s.conns s'.conn).pcb o i (s.opened s'.conn) s') ∨
      flag = .data ∧ Passes s.buf s.len s.hostaddr ∧ (s.conns s'.conn).isOf s.buf ∧
        Result (segOf s.buf) calls (s.conns s'.conn).pcb o i (s.opened s'.conn) s' := by
  unfold uipProcess at h
  cases flag with
  | data =>
    have hresult := uipInput_result (o := o) (i := i) (by rfl) (by rfl) h hpolite
    rcases hresult with hresult | hresult
    · exact .inl hresult
    · exact .inr ⟨rfl, hresult⟩
  | timer =>
    have hconn := (uipTimer_steps h hpolite).conn_eq.1
    left
    intro g
    have hresult := uipTimer_result (g := g) (o := o) (i := i) (by rfl) h
    rw [hconn]
    exact hresult
  | pollRequest => exact absurd rfl hflag

end Fos.Net
