import Fos.Net.Host

/-!
# The bytes of a connection, from one application to the other

Two hosts have a connection, and the network between them loses packets, brings them more than
once, late and in any order. A segment says where in the stream of its sender its data stands, as
far as 32 bits can say it, and how much of the other stream has arrived (`Link.Says`). Each side
keeps its sequence numbers in step with the bytes that its application has had sent and has been
given (`Side`). Both are kept by every step of a host (`Link.Inv.step`), and with them what
`given_of_taken` states of the two applications. The connection begins as `uip_connect` and
`found_listen` leave it (`starts_of_accept`).
-/

namespace Fos.Net

open Function Relation Runs Tables Loops

/-- A connection between two hosts: at each its address, the port, the entry of `uip_conns`, how
often that entry has been taken when it is this connection, and the initial sequence number.
`opener` is the side that has called `uip_connect`. -/
structure Link where
  addr : Bool → BitVec 32
  port : Bool → BitVec 16
  slot : Bool → Fin uipConns
  opened : Bool → ℕ
  isn : Bool → BitVec 32
  opener : Bool

/-- Two hosts, the packets that each has sent, and the bytes that the application of each has had
sent and has been given over the connection. -/
structure Pair where
  host : Bool → Uip
  sent : Bool → List (List (BitVec 8))
  taken : Bool → List (BitVec 8)
  given : Bool → List (BitVec 8)

/-- `uip_process` has been called, and has come to the entry `k`. -/
def Event.concerns (k : Fin uipConns) (t : Tables) : Event → Bool
  | input .. | periodic .. => t.conn = k
  | _ => false

/-- The host `x` has taken the step `e` to the state `s`. -/
def Pair.record (n : Pair) (L : Link) (x : Bool) (e : Event) (s : Uip) : Pair where
  host := update n.host x s
  sent := update n.sent x (if s.packet e = [] then n.sent x else s.packet e :: n.sent x)
  taken := update n.taken x
    (n.taken x ++ if e.concerns (L.slot x) s.toTables then s.taken e.calls else [])
  given := update n.given x
    (n.given x ++ if e.concerns (L.slot x) s.toTables then s.given else [])

/-- A step of one of the hosts. -/
def Pair.step (L : Link) (n : Pair) (a : Bool × Event) : Option Pair := do
  let s ← (n.host a.1).handle a.2
  some (n.record L a.1 a.2 s)

namespace Link

variable (L : Link) (x : Bool)

/-- The buffer holds a packet of the connection, sent by the side `x`. -/
structure From (b : Buf) : Prop where
  proto : b At.proto = 6
  srcipaddr : get32 b At.srcipaddr = L.addr x
  destipaddr : get32 b At.destipaddr = L.addr (!x)
  srcport : get16 b At.srcport = L.port x
  destport : get16 b At.destport = L.port (!x)

/-- The entry belongs to the side `x` of the connection. -/
def Ends (c : Conn) : Prop := c.lport = L.port x ∧ c.rport = L.port (!x) ∧ c.ripaddr = L.addr (!x)

/-- The side `x` has the connection open. -/
structure Opens (t : Tables) : Prop where
  opened : t.opened (L.slot x) = L.opened x
  isOpen : (t.conns (L.slot x)).Open

/-- The first segment of the side `x`. -/
structure First (g : Seg) : Prop where
  flags : g.flags = if x = L.opener then Tcp.syn else Tcp.ack ||| Tcp.syn
  seqno : g.seqno = L.isn x
  ackno : x ≠ L.opener → g.ackno = L.isn (!x) + 1
  data : g.data = []

/-- The entry for the connection when it has been opened. -/
structure Opening (c : Conn) : Prop where
  ends : L.Ends x c
  state : c.state = if x = L.opener then Ts.synSent else Ts.synRcvd
  sndNxt : c.sndNxt = L.isn x
  rcvNxt : x ≠ L.opener → c.rcvNxt = L.isn (!x) + 1
  len : c.len = 1

/-- One side has asked for the connection, and the other has accepted. -/
structure Starts (m : Pair) : Prop where
  addr : ∀ x, L.addr x ≠ 0 ∧ (m.host x).hostaddr = L.addr x
  host : ∀ x, (m.host x).toTables.Distinct ∧ ∀ k, ((m.host x).conns k).Bounded
  opened : ∀ x, (m.host x).opened (L.slot x) = L.opened x
  opening : ∀ x, L.Opening x ((m.host x).conns (L.slot x))
  sent : ∀ x, ∀ packet ∈ m.sent x, 40 ≤ packet.length → ∀ b, Holds b packet → L.From x b →
    L.First x (segOf b)
  taken : ∀ x, m.taken x = []
  given : ∀ x, m.given x = []

/-- What is relied on at a step of the host `a.1`. -/
structure Allows (n : Pair) (a : Bool × Event) : Prop where
  courteous : Courteous (n.host a.1) a.2
  /-- Nobody but the other side sends packets of the connection. -/
  genuine : ∀ b len calls, a.2 = .input b len calls → Passes b len (L.addr a.1) →
    L.From (!a.1) b → ∃ packet ∈ n.sent (!a.1), 40 ≤ packet.length ∧ Holds b packet
  /-- While data is outstanding, the application hands over that data again if it hands over
  anything. -/
  again : ∀ s, (n.host a.1).handle a.2 = some s → a.2.concerns (L.slot a.1) s.toTables →
    (s.conns s.conn).state = Ts.established → ∀ v, s.seen = some v → v.tcb.len ≠ 0 →
      lastSend a.2.calls ≠ [] → (lastSend a.2.calls).length < 2^16 ∧
        (n.taken a.1).drop ((n.taken a.1).length - v.tcb.len.toNat) <+: lastSend a.2.calls
  /-- The connection stays open. -/
  opens : ∀ s, (n.host a.1).handle a.2 = some s → L.Opens a.1 s.toTables
  /-- The sequence numbers do not come around. -/
  short : ∀ n', n.step L a = some n' → ∀ x, (n'.taken x).length + 1 < 2^32

end Link

/-- The runs of two hosts while they have a connection open. -/
abbrev PairRun (L : Link) : List (Pair × (Bool × Event)) → Pair → Prop :=
  Run L.Starts (Pair.step L) fun _ => L.Allows

/-! ## What a segment says of the stream -/

/-- The connection is not being closed. -/
def Ep.Live (e : Ep) : Prop :=
  e.pcb.st = Ts.synSent ∨ e.pcb.st = Ts.synRcvd ∨ e.pcb.st = Ts.established

/-- What is known of a segment that the side `x` has sent at some time. `e` is what this side is by
now, and `f` is the other one. -/
structure Link.Stands (L : Link) (x : Bool) (e f : Ep) (g : Seg) (k : ℕ) : Prop where
  plain : g.Plain
  seqno : g.seqno = L.isn x + BitVec.ofNat 32 k
  syn : g.flags &&& Tcp.syn ≠ 0 → k = 0
  data : g.data ≠ [] → 1 ≤ k ∧ g.data <+: e.taken.drop (k - 1)
  /-- It acknowledges what the application has been given. -/
  ack : g.flags &&& Tcp.ack ≠ 0 → e.Live → e.pcb.st ≠ Ts.synSent ∧
    ∃ n ≤ e.given.length, g.ackno = L.isn (!x) + 1 + BitVec.ofNat 32 n
  /-- Nothing that has to be answered comes before the answer to the `SYN`. -/
  quiet : f.pcb.st = Ts.synSent → g.data = [] ∧ g.flags &&& Tcp.fin = 0 ∧
    (g.flags &&& Tcp.syn ≠ 0 → g.flags &&& Tcp.ctl = Tcp.syn ||| Tcp.ack)

@[inherit_doc Link.Stands]
def Link.Says (L : Link) (x : Bool) (e f : Ep) (g : Seg) : Prop :=
  g.Resets ∨ ∃ k, L.Stands x e f g k

/-- What holds of the side `x`, where `f` is the other one. -/
structure Side (L : Link) (x : Bool) (e f : Ep) : Prop where
  opening : e.pcb.st = Ts.synSent ∨ e.pcb.st = Ts.synRcvd →
    e.taken = [] ∧ e.given = [] ∧ (e.pcb.len = 0 ∨ e.pcb.len = 1)
  snd : e.Live → e.pcb.snd + e.pcb.len.setWidth 32 = L.isn x + 1 + BitVec.ofNat 32 e.taken.length
  rcv : e.pcb.st = Ts.synRcvd ∨ e.pcb.st = Ts.established →
    e.pcb.rcv = L.isn (!x) + 1 + BitVec.ofNat 32 e.given.length
  len : e.pcb.st = Ts.established → e.pcb.len.toNat ≤ e.taken.length
  given : e.given <+: f.taken
  /-- All but what is outstanding has been given to the other application. -/
  acked : e.pcb.st = Ts.established → f.Live → e.taken.length ≤ f.given.length + e.pcb.len.toNat
  waits : f.pcb.st = Ts.synSent → e.pcb.st = Ts.closed ∨ e.pcb.st = Ts.synRcvd ∧ e.pcb.len ≠ 0

/-- What never changes back. -/
structure Ep.Grows (e e' : Ep) : Prop where
  taken : e.taken <+: e'.taken
  given : e.given <+: e'.given
  live : e'.Live → e.Live
  synSent : e'.pcb.st = Ts.synSent → e.pcb.st = Ts.synSent

variable {L : Link} {x : Bool} {o o' i data : List (BitVec 8)} {g : Seg} {e e' e₀ f f' : Ep}

theorem prefix_append {l : List (BitVec 8)} (hi : i <+: l) (hdata : data <+: l.drop i.length) :
    i ++ data <+: l := by
  obtain ⟨t, rfl⟩ := hi
  rw [List.drop_left] at hdata
  exact (List.prefix_append_right_inj i).mpr hdata

theorem ofNat_add_inj {y : BitVec 32} {a b : ℕ} (ha : a < 2^32) (hb : b < 2^32)
    (h : y + BitVec.ofNat 32 a = y + BitVec.ofNat 32 b) : a = b := by
  have h := congrArg BitVec.toNat (BitVec.add_right_inj y |>.mp h)
  rwa [BitVec.toNat_ofNat, BitVec.toNat_ofNat, Nat.mod_eq_of_lt ha, Nat.mod_eq_of_lt hb] at h

theorem Ep.Grows.refl (e : Ep) : e.Grows e :=
  ⟨List.prefix_refl _, List.prefix_refl _, id, id⟩

theorem Ep.Grows.trans {e'' : Ep} (h : e.Grows e') (h' : e'.Grows e'') : e.Grows e'' :=
  ⟨h.taken.trans h'.taken, h.given.trans h'.given, h.live ∘ h'.live, h.synSent ∘ h'.synSent⟩

theorem Link.Says.mono (h : L.Says x e f g) (he : e.Grows e') (hf : f.Grows f') :
    L.Says x e' f' g := by
  refine h.imp_right fun ⟨k, hk⟩ => ⟨k, hk.plain, hk.seqno, hk.syn, fun hne => ?_,
    fun hack hlive => ?_, fun hst => hk.quiet (hf.synSent hst)⟩
  · obtain ⟨hpos, hdata⟩ := hk.data hne
    exact ⟨hpos, hdata.trans (he.taken.drop _)⟩
  · obtain ⟨hst, n, hn, hackno⟩ := hk.ack hack (he.live hlive)
    exact ⟨mt he.synSent hst, n, hn.trans he.given.length_le, hackno⟩

/-- The other side goes on. -/
theorem Side.mono (h : Side L x e f) (hf : f.Grows f') : Side L x e f' where
  opening := h.opening
  snd := h.snd
  rcv := h.rcv
  len := h.len
  given := h.given.trans hf.taken
  acked hst hlive := (h.acked hst (hf.live hlive)).trans
    (Nat.add_le_add_right hf.given.length_le _)
  waits hst := h.waits (hf.synSent hst)

theorem not_opening {st : BitVec 8} (h : st = Ts.established) :
    ¬ (st = Ts.synSent ∨ st = Ts.synRcvd) := by
  rw [h]
  decide

theorem not_live {p : Pcb} (h : Late p.st ∨ p.st = Ts.closed) : p.st ≠ Ts.synSent ∧
    p.st ≠ Ts.synRcvd ∧ p.st ≠ Ts.established := by
  rcases h with (h | h | h | h | h) | h <;> rw [h] <;> decide

/-- The connection is being closed, after it has been established. -/
theorem Side.close {p p' : Pcb} (h : Side L x ⟨p, o, i⟩ f)
    (hst : p.st = Ts.established ∨ Late p.st) (hst' : Late p'.st) :
    Side L x ⟨p', o, i⟩ f ∧ Ep.Grows ⟨p, o, i⟩ ⟨p', o, i⟩ := by
  obtain ⟨h₁, h₂, h₃⟩ := not_live (.inl hst')
  have hlive : ¬ Ep.Live ⟨p', o, i⟩ := fun h => h.elim h₁ (·.elim h₂ h₃)
  refine ⟨⟨fun h => (h.elim h₁ h₂).elim, (absurd · hlive), fun h => (h.elim h₂ h₃).elim,
    (absurd · h₃), h.given, fun h => absurd h h₃, fun hf => ?_⟩,
    List.prefix_refl _, List.prefix_refl _, (absurd · hlive), (absurd · h₁)⟩
  have hsyn : p.st ≠ Ts.closed ∧ p.st ≠ Ts.synRcvd := by
    rcases hst with h | h | h | h | h | h <;> rw [h] <;> decide
  exact ((h.waits hf).elim hsyn.1 fun h => hsyn.2 h.1).elim

/-- What the application is given comes next in the stream of the other side. -/
theorem Link.Says.next {p : Pcb} (h : L.Says (!x) f e₀ g) (hrst : ¬ g.Resets)
    (hshort : f.taken.length + 1 < 2^32)
    (hrcv : p.rcv = L.isn (!x) + 1 + BitVec.ofNat 32 i.length) (hnext : g.Next p)
    (hi : i <+: f.taken) : i ++ g.data <+: f.taken := by
  by_cases hdata : g.data = []
  · rwa [hdata, List.append_nil]
  obtain ⟨k, hk⟩ := h.resolve_left hrst
  obtain ⟨hpos, hat⟩ := hk.data hdata
  have hdrop : k - 1 < f.taken.length := by
    by_contra hle
    rw [List.drop_eq_nil_of_le (by omega), List.prefix_nil] at hat
    exact hdata hat
  have hk' : k = 1 + i.length := by
    refine ofNat_add_inj (y := L.isn (!x)) (by omega) (by have := hi.length_le; omega) ?_
    rw [← hk.seqno, hnext hdata, hrcv, BitVec.ofNat_add, BitVec.add_assoc]
    rfl
  refine prefix_append hi ?_
  rwa [hk', Nat.add_sub_cancel_left] at hat

/-- A move of a connection, with a segment from the other side. -/
theorem Turn.side (h : Turn g e e') (hg : L.Says (!x) f e₀ g) (hshort : e.taken.length + 1 < 2^32)
    (hshort' : f.taken.length + 1 < 2^32) (hback : f.given.length + 1 < 2^32)
    (hside : Side L x e f) : Side L x e' f ∧ e.Grows e' := by
  cases h with
  | @ack p o i hrst hack hlen hno =>
    obtain ⟨k, hk⟩ := hg.resolve_left hrst
    have hack := hk.ack hack
    rw [Bool.not_not] at hack
    refine ⟨⟨fun hst => ?_, fun hst => ?_, hside.rcv, fun _ => Nat.zero_le _, hside.given,
      fun hst hf => ?_, fun hf => absurd hf (hack (.inl hf)).1⟩,
      List.prefix_refl _, List.prefix_refl _, id, id⟩
    · obtain ⟨ho, hi, -⟩ := hside.opening hst
      exact ⟨ho, hi, .inl rfl⟩
    · rw [← hside.snd hst]
      simp [hno]
    · obtain ⟨-, n, hn, hackno⟩ := hack hf
      have hsnd : p.snd + p.len.setWidth 32 = L.isn x + 1 + BitVec.ofNat 32 o.length :=
        hside.snd (.inr (.inr hst))
      have hshort : o.length + 1 < 2^32 := hshort
      have heq : n = o.length := by
        refine ofNat_add_inj (y := L.isn x + 1) (by omega) (by omega) ?_
        rw [← hackno, hno, hsnd]
      show o.length ≤ f.given.length + 0
      omega
  | @accept p o i hst hlen =>
    obtain ⟨ho, -, -⟩ := hside.opening (.inr hst)
    have ho : o = [] := ho
    refine ⟨⟨fun h => absurd h (not_opening rfl), fun _ => hside.snd (.inr (.inl hst)),
      fun _ => hside.rcv (.inl hst), fun _ => ?_, hside.given, fun _ _ => ?_, fun hf => ?_⟩,
      List.prefix_refl _, List.prefix_refl _, fun _ => .inr (.inl hst), fun h => ?_⟩
    · show p.len.toNat ≤ _
      rw [hlen]
      exact Nat.zero_le _
    · show o.length ≤ _
      rw [ho]
      exact Nat.zero_le _
    · rcases hside.waits hf with h | h
      · rw [show p.st = Ts.closed from h] at hst
        exact absurd hst (by decide)
      · exact absurd hlen h.2
    · exact absurd h (by decide : Ts.established ≠ Ts.synSent)
  | @connect p o i hrst hst hlen hctl =>
    obtain ⟨ho, hi, -⟩ := hside.opening (.inl hst)
    have ho : o = [] := ho
    have hi : i = [] := hi
    refine ⟨⟨fun h => absurd h (not_opening rfl), fun _ => hside.snd (.inl hst), fun _ => ?_,
      fun _ => ?_, hside.given, fun _ _ => ?_, fun hf => ?_⟩,
      List.prefix_refl _, List.prefix_refl _, fun _ => .inl hst, fun _ => hst⟩
    · obtain ⟨k, hk⟩ := hg.resolve_left hrst
      have hsyn : g.flags &&& Tcp.syn ≠ 0 := by
        have hmask : g.flags &&& Tcp.syn = (g.flags &&& Tcp.ctl) &&& Tcp.syn := by
          rw [BitVec.and_assoc]
          rfl
        rw [hmask, hctl]
        decide
      show g.seqno + 1 = L.isn (!x) + 1 + BitVec.ofNat 32 i.length
      rw [hk.seqno, hk.syn hsyn, hi]
      simp
    · show p.len.toNat ≤ _
      rw [hlen]
      exact Nat.zero_le _
    · show o.length ≤ _
      rw [ho]
      exact Nat.zero_le _
    · rcases hside.waits hf with h | h
      · rw [show p.st = Ts.closed from h] at hst
        exact absurd hst (by decide)
      · exact absurd hlen h.2
  | @give p o i hrst hst hnext =>
    refine ⟨⟨fun h => absurd h (not_opening hst), fun _ => hside.snd (.inr (.inr hst)),
      fun _ => ?_, fun _ => hside.len hst,
      hg.next hrst hshort' (hside.rcv (.inr hst)) hnext hside.given, hside.acked, hside.waits⟩,
      List.prefix_refl _, List.prefix_append .., id, id⟩
    show p.rcv + BitVec.ofNat 32 g.data.length = _
    rw [show p.rcv = _ from hside.rcv (.inr hst), List.length_append, BitVec.ofNat_add,
      BitVec.add_assoc]
  | skip hrst hst hnext => exact hside.close (.inr hst) hst
  | finish hrst hst hlen hfin hseq =>
    exact hside.close (.inl hst) (.inr (.inr (.inr (.inr rfl))))
  | fin hrst hst hst' hfin hseq => exact hside.close (.inr hst) hst'
  | @take p o i data n hst hlen hn =>
    have hsnd : p.snd + p.len.setWidth 32 = L.isn x + 1 + BitVec.ofNat 32 o.length :=
      hside.snd (.inr (.inr hst))
    refine ⟨⟨fun h => absurd h (not_opening hst), fun _ => ?_, fun _ => hside.rcv (.inr hst),
      fun _ => ?_, hside.given, fun hst hf => ?_, fun hf => ?_⟩,
      List.prefix_append .., List.prefix_refl _, id, id⟩
    · have hn' : n.setWidth 32 = BitVec.ofNat 32 data.length := by
        rw [hn]
        apply BitVec.eq_of_toNat_eq
        simp [BitVec.toNat_setWidth]
      show p.snd + n.setWidth 32 = _
      rw [hlen] at hsnd
      rw [List.length_append, BitVec.ofNat_add, ← BitVec.add_assoc, ← hsnd, hn']
      simp
    · show n.toNat ≤ (o ++ data).length
      rw [List.length_append, hn]
      exact Nat.le_add_left ..
    · have hacked : o.length ≤ f.given.length + p.len.toNat := hside.acked hst hf
      rw [hlen] at hacked
      show (o ++ data).length ≤ f.given.length + n.toNat
      rw [List.length_append, hn]
      exact Nat.add_le_add_right hacked _
    · exact (hside.waits hf).imp_right fun h => absurd hlen h.2
  | close hst => exact hside.close (.inl hst) (.inl rfl)
  | move hst hst' => exact hside.close (.inr hst) hst'
  | closed =>
    obtain ⟨h₁, h₂, h₃⟩ := (by decide : Ts.closed ≠ Ts.synSent ∧ Ts.closed ≠ Ts.synRcvd ∧
      Ts.closed ≠ Ts.established)
    exact ⟨⟨fun h => (h.elim h₁ h₂).elim, fun h => (h.elim h₁ (·.elim h₂ h₃)).elim,
      fun h => (h.elim h₂ h₃).elim, (absurd · h₃), hside.given, fun h => absurd h h₃,
      fun _ => .inl rfl⟩, List.prefix_refl _, List.prefix_refl _,
      fun h => (h.elim h₁ (·.elim h₂ h₃)).elim, (absurd · h₁)⟩
  | other hrst hplain =>
    obtain ⟨k, hk⟩ := hg.resolve_left hrst
    exact absurd hk.plain hplain

theorem Turn.taken (h : Turn g e e') (hg : L.Says (!x) f e₀ g) : e.taken <+: e'.taken := by
  cases h with
  | take => exact List.prefix_append ..
  | other hrst hplain =>
    obtain ⟨k, hk⟩ := hg.resolve_left hrst
    exact absurd hk.plain hplain
  | _ => exact List.prefix_refl _

theorem Turns.side (h : Turns g e e') (hg : L.Says (!x) f e₀ g)
    (hshort : e'.taken.length + 1 < 2^32) (hshort' : f.taken.length + 1 < 2^32)
    (hback : f.given.length + 1 < 2^32) (hside : Side L x e f) :
    Side L x e' f ∧ e.Grows e' := by
  induction h with
  | refl => exact ⟨hside, .refl _⟩
  | tail _ hturn ih =>
    have hle := (hturn.taken hg).length_le
    obtain ⟨hside, hgrows⟩ := ih (by omega)
    obtain ⟨hside, hgrows'⟩ := hturn.side hg (by omega) hshort' hback hside
    exact ⟨hside, hgrows.trans hgrows'⟩

/-! ## What a packet says -/

variable {s s' : Uip} {b b' : Buf} {n : BitVec 16} {calls : List AppCall}

/-- The segment in a buffer that holds a packet of the stack. The data may be shorter than what is
behind the shortest header. -/
theorem Segment.segOf_eq {f offset : BitVec 8} (h : Segment s f offset n)
    (hn : (n - (offset >>> 4 <<< 2).setWidth 16 - 20).toNat + 40 ≤ n.toNat)
    (hholds : Holds b (getBytes s.buf At.ip s.len.toNat)) :
    segOf b = ⟨f, s.connr.sndNxt, s.connr.rcvNxt, getBytes s.buf At.optdata
      (n - (offset >>> 4 <<< 2).setWidth 16 - 20).toNat⟩ := by
  rw [h.len] at hholds
  have hb : ∀ j, 14 ≤ j → j < 54 → b j = s.buf j := fun j hj hlt => hholds.apply hj (by simp; omega)
  have hhlen : tcpHlen b = offset >>> 4 <<< 2 := by
    rw [tcpHlen, hb _ (by decide) (by decide), h.tcpoffset]
  have hlen : word (b At.len) (b (At.len + 1)) = n := by
    rw [hb _ (by decide) (by decide), hb _ (by decide) (by decide)]
    exact h.sent.len
  unfold segOf
  rw [hb _ (by decide) (by decide), h.flags, hhlen, hlen]
  congr 1
  · rw [← h.sent.seqno]
    exact get32_congr fun j hj hlt =>
      hb j (le_trans (by decide) hj) (lt_of_lt_of_le hlt (by decide))
  · rw [← h.sent.ackno]
    exact get32_congr fun j hj hlt =>
      hb j (le_trans (by decide) hj) (lt_of_lt_of_le hlt (by decide))
  · generalize (n - (offset >>> 4 <<< 2).setWidth 16 - 20).toNat = m at hn
    exact getBytes_congr fun j hj hlt => hholds.apply (le_trans (by decide) hj)
      (lt_of_lt_of_le hlt (by simp; omega))

/-- A segment of a live connection acknowledges what the application has been given. -/
theorem Side.acks (h : Side L x e f) (hst : e.Live → e.pcb.st ≠ Ts.synSent) (hlive : e.Live) :
    e.pcb.st ≠ Ts.synSent ∧
      ∃ n ≤ e.given.length, e.pcb.rcv = L.isn (!x) + 1 + BitVec.ofNat 32 n :=
  ⟨hst hlive, _, le_refl _, h.rcv (hlive.resolve_left (hst hlive))⟩

/-- A segment without data stands somewhere. -/
theorem Side.tells_nil {fl : BitVec 8} {ackno : BitVec 32} (h : Side L x e f)
    (hurg : fl &&& Tcp.urg = 0) (hsyn : fl &&& Tcp.syn ≠ 0 → e.pcb.snd = L.isn x)
    (hack : fl &&& Tcp.ack ≠ 0 → e.Live → e.pcb.st ≠ Ts.synSent ∧ ackno = e.pcb.rcv)
    (hquiet : f.pcb.st = Ts.synSent → fl &&& Tcp.fin = 0 ∧
      (fl &&& Tcp.syn ≠ 0 → fl &&& Tcp.ctl = Tcp.syn ||| Tcp.ack)) :
    L.Says x e f ⟨fl, e.pcb.snd, ackno, []⟩ := by
  refine .inr ⟨(e.pcb.snd - L.isn x).toNat, ⟨hurg, (by decide : 1 < 2^16)⟩, ?_, fun h => ?_,
    absurd rfl, fun h₁ h₂ => ?_, fun hf => ⟨rfl, hquiet hf⟩⟩
  · rw [BitVec.ofNat_toNat, BitVec.setWidth_eq, BitVec.add_comm, BitVec.sub_add_cancel]
  · rw [hsyn h, BitVec.sub_self]
    rfl
  · obtain ⟨hst, rfl⟩ := hack h₁ h₂
    exact h.acks (fun _ => hst) h₂

/-- The bytes at the end of the stream stand where the sequence number says. -/
theorem Side.tells {fl : BitVec 8} {p : Pcb} (h : Side L x ⟨p, o, i⟩ f)
    (hst : p.st = Ts.established) (hurg : fl &&& Tcp.urg = 0) (hsyn : fl &&& Tcp.syn = 0)
    (hlen : p.len.toNat + 1 < 2^16) :
    L.Says x ⟨p, o, i⟩ f ⟨fl, p.snd, p.rcv, o.drop (o.length - p.len.toNat)⟩ := by
  have hle : p.len.toNat ≤ o.length := h.len hst
  have hsnd : p.snd + p.len.setWidth 32 = L.isn x + 1 + BitVec.ofNat 32 o.length :=
    h.snd (.inr (.inr hst))
  have hne : p.st ≠ Ts.synSent := fun h => not_opening hst (.inl h)
  refine .inr ⟨1 + (o.length - p.len.toNat), ⟨hurg, ?_⟩, ?_, absurd hsyn,
    fun _ => ⟨by omega, ?_⟩, fun _ => h.acks fun _ => hne, fun hf => ?_⟩
  · show (o.drop _).length + 1 < _
    rw [List.length_drop]
    omega
  · have hlen' : p.len.setWidth 32 = BitVec.ofNat 32 p.len.toNat := by
      apply BitVec.eq_of_toNat_eq
      simp [BitVec.toNat_setWidth]
    show p.snd = _
    rw [← BitVec.add_left_inj (p.len.setWidth 32), hsnd, hlen', BitVec.add_assoc (L.isn x),
      BitVec.add_assoc (L.isn x), ← BitVec.ofNat_add, Nat.add_assoc, Nat.sub_add_cancel hle,
      BitVec.ofNat_add]
    rfl
  · show o.drop _ <+: _
    rw [Nat.add_sub_cancel_left]
  · rcases h.waits hf with h | h
    · rw [show p.st = Ts.closed from h] at hst
      exact absurd hst (by decide)
    · exact absurd (.inr h.1) (not_opening hst)

/-- What is sent for the connection, when `g` has come in, stands in the stream. -/
theorem Sends.tells (h : Sends g calls s) (hg : L.Says (!x) f e₀ g)
    (hgrows : e₀.Grows ⟨s.connr.pcb, o, i⟩) (hside : Side L x ⟨s.connr.pcb, o, i⟩ f)
    (hb : s.connr.Bounded) (hlen : s.len ≠ 0)
    (hlast : s.connr.state = Ts.established → ∀ v, s.seen = some v →
      lastSend calls ≠ [] → (v.tcb.len ≠ 0 → s.connr.len = v.tcb.len) →
      (v.tcb.len = 0 → s.connr.len.toNat ≤ (lastSend calls).length % 2^16) →
      s.connr.len.toNat ≤ (lastSend calls).length % 2^16 ∧
        (lastSend calls).take s.connr.len.toNat = o.drop (o.length - s.connr.len.toNat))
    (hproto : s.buf At.proto = 6) (hholds : Holds b (getBytes s.buf At.ip s.len.toNat)) :
    L.Says x ⟨s.connr.pcb, o, i⟩ f (segOf b) := by
  have hopening : s.connr.state = Ts.synSent ∨ s.connr.state = Ts.synRcvd → s.connr.len ≠ 0 →
      s.connr.sndNxt = L.isn x := fun hst hlen => by
    obtain ⟨ho, -, h01⟩ := hside.opening hst
    have ho : o = [] := ho
    have h1 : s.connr.len = 1 := h01.resolve_left hlen
    have hsnd : s.connr.sndNxt + s.connr.len.setWidth 32 =
      L.isn x + 1 + BitVec.ofNat 32 o.length := hside.snd (hst.imp_right .inl)
    rw [h1, ho] at hsnd
    simpa using hsnd
  have hlate : ∀ {st}, Late st → st ≠ Ts.closed ∧ st ≠ Ts.synRcvd := by
    rintro st (h | h | h | h | h) <;> rw [h] <;> decide
  cases h with
  | nothing h0 => exact absurd h0 hlen
  | ack h hactive hsyn =>
    rw [h.segOf_eq (by decide) hholds]
    refine hside.tells_nil (by decide) (fun h => absurd (by decide) h) (fun _ _ => ⟨?_, rfl⟩)
      fun _ => ⟨by decide, fun h => absurd (by decide) h⟩
    -- In `SYN_SENT` there has been nothing to answer.
    intro hst
    obtain ⟨hrst, hctl, hany⟩ := hsyn hst
    obtain ⟨k, hk⟩ := hg.resolve_left hrst
    obtain ⟨hdata, hfin, hsyn⟩ := hk.quiet (hgrows.synSent hst)
    rcases hany with hany | hany
    · exact hany hdata
    · by_cases h0 : g.flags &&& Tcp.syn = 0
      · rw [BitVec.and_or_distrib_left, h0, hfin] at hany
        exact hany (by decide)
      · exact hctl (hsyn h0)
  | fin h hst hlen =>
    have hne := not_live (p := s.connr.pcb) (.inl hst)
    rw [h.segOf_eq (by decide) hholds]
    refine hside.tells_nil (by decide) (fun h => absurd (by decide) h) (fun _ _ => ⟨hne.1, rfl⟩)
      fun hf => ?_
    exact ((hside.waits hf).elim (hlate hst).1 fun h => (hlate hst).2 h.1).elim
  | syn h hst hlen =>
    rw [h.segOf_eq (by decide) hholds]
    refine hside.tells_nil (by decide) (fun _ => hopening (.inl hst) hlen)
      (fun h => absurd (by decide) h) fun hf => ?_
    have hst : s.connr.pcb.st = Ts.synSent := hst
    rcases hside.waits hf with h | h
    · exact absurd (hst.symm.trans h) (by decide)
    · exact absurd (hst.symm.trans h.1) (by decide)
  | synack h hst hlen =>
    rw [h.segOf_eq (by decide) hholds]
    refine hside.tells_nil (by decide) (fun _ => hopening (.inr hst) hlen) (fun _ _ => ⟨?_, rfl⟩)
      fun _ => ⟨by decide, fun _ => by decide⟩
    show s.connr.state ≠ _
    rw [hst]
    decide
  | @data v h hst hlen hseen hsome hold hnew hdata =>
    have hmss : s.connr.len.toNat ≤ 366 := hb.len
    have hsum : s.connr.len + (40 : BitVec 16) -
        BitVec.setWidth 16 ((0x50 : BitVec 8) >>> 4 <<< 2) - (20 : BitVec 16) = s.connr.len := by
      rw [show BitVec.setWidth 16 ((0x50 : BitVec 8) >>> 4 <<< 2) = (20 : BitVec 16) by decide]
      bv_omega
    have htotal : (s.connr.len + (40 : BitVec 16)).toNat = s.connr.len.toNat + 40 := by
      rw [BitVec.toNat_add]
      exact Nat.mod_eq_of_lt (by simp; omega)
    obtain ⟨hle, htake⟩ := hlast hst v hseen hsome hold hnew
    rw [h.segOf_eq (by rw [hsum, htotal]) hholds, hsum, hdata hle, htake]
    exact hside.tells hst (by decide) (by decide) (by
      show s.connr.len.toNat + 1 < _
      omega)
  | rst h hn hflags _ =>
    left
    show b At.flags &&& Tcp.rst ≠ 0
    rw [hholds.apply (by decide) (by rw [hn]; decide), hflags]
    decide
  | icmp h => exact absurd hproto h

/-! ## A step of one host -/

variable {m m' : Pair} {ev : Event} {a : Bool × Event}

/-- The side `x` of the connection. -/
def Pair.ep (m : Pair) (L : Link) (x : Bool) : Ep :=
  ⟨((m.host x).conns (L.slot x)).pcb, m.taken x, m.given x⟩

/-- What holds in every run while the connection is open. -/
structure Link.Inv (L : Link) (m : Pair) : Prop where
  addr : ∀ x, L.addr x ≠ 0 ∧ (m.host x).hostaddr = L.addr x
  host : ∀ x, (m.host x).toTables.Distinct ∧ ∀ k, ((m.host x).conns k).Bounded
  opens : ∀ x, L.Opens x (m.host x).toTables
  ends : ∀ x, L.Ends x ((m.host x).conns (L.slot x))
  side : ∀ x, Side L x (m.ep L x) (m.ep L (!x))
  sent : ∀ x, ∀ packet ∈ m.sent x, 40 ≤ packet.length → ∀ b, Holds b packet → L.From x b →
    L.Says x (m.ep L x) (m.ep L (!x)) (segOf b)
  short : ∀ x, (m.taken x).length + 1 < 2^32

theorem Link.From.of_holds (h : L.From x b) (hn : 40 ≤ n.toNat)
    (hholds : Holds b (getBytes b' At.ip n.toNat)) : L.From x b' := by
  have hb : ∀ j, 14 ≤ j → j < 54 → b j = b' j := fun j hj hlt => hholds.apply hj (by simp; omega)
  refine ⟨?_, ?_, ?_, ?_, ?_⟩
  · rw [← hb _ (by decide) (by decide)]
    exact h.proto
  · rw [← h.srcipaddr]
    exact get32_congr fun j hj hlt =>
      (hb j (le_trans (by decide) hj) (lt_of_lt_of_le hlt (by decide))).symm
  · rw [← h.destipaddr]
    exact get32_congr fun j hj hlt =>
      (hb j (le_trans (by decide) hj) (lt_of_lt_of_le hlt (by decide))).symm
  · rw [← h.srcport]
    exact get16_congr (hb _ (by decide) (by decide)).symm (hb _ (by decide) (by decide)).symm
  · rw [← h.destport]
    exact get16_congr (hb _ (by decide) (by decide)).symm (hb _ (by decide) (by decide)).symm

theorem uipConnect_conns {ripaddr : BitVec 32} {rport : BitVec 16} {k : Fin uipConns}
    (h : uipConnect s ripaddr rport = some s') (hopened : s'.opened k = s.opened k) :
    s'.conns k = s.conns k := by
  obtain ⟨lastport, -, h⟩ := Option.bind_eq_some_iff.mp h
  dsimp only at h
  cases hunused : unusedConn s.conns with
  | none =>
    simp only [hunused] at h
    obtain rfl := Option.some.inj h
    rfl
  | some j =>
    simp only [hunused] at h
    obtain rfl := Option.some.inj h
    have hne : k ≠ j := by
      rintro rfl
      have hopened : update s.opened k (s.opened k + 1) k = s.opened k := hopened
      rw [update_self] at hopened
      omega
    exact update_of_ne hne ..

/-- A step that is not about an entry leaves it as it is. -/
theorem handle_conns {k : Fin uipConns} (h : s.handle ev = some s') (hcourteous : Courteous s ev)
    (hopened : s'.opened k = s.opened k) (hother : ¬ ev.concerns k s'.toTables) :
    s'.conns k = s.conns k := by
  have hentry := (handle_steps h hcourteous).entry k
  have hkeep : s'.conn ≠ k → s'.conns k = s.conns k := fun hne => by
    rcases hentry with hlt | ⟨-, hkeep, -⟩
    · have hlt : s.opened k < s'.opened k := hlt
      omega
    · exact hkeep (Ne.symm hne)
  cases ev with
  | input | periodic => exact hkeep (by simpa [Event.concerns] using hother)
  | arp b len =>
    obtain rfl := Option.some.inj h
    rfl
  | listen port =>
    obtain rfl := Option.some.inj h
    unfold uipListen
    split <;> rfl
  | unlisten port =>
    obtain rfl := Option.some.inj h
    unfold uipUnlisten
    split <;> rfl
  | connect ripaddr rport => exact uipConnect_conns h hopened

/-- A segment of the connection comes from the other side, and the connection makes its moves. -/
theorem Link.Inv.result (h : L.Inv m) (hallow : L.Allows m (x, ev))
    (hstep : (m.host x).handle ev = some s') (hconcerns : ev.concerns (L.slot x) s'.toTables) :
    s'.conn = L.slot x ∧ ∃ g, L.Says (!x) (m.ep L (!x)) (m.ep L x) g ∧
      Turns g (m.ep L x) ⟨s'.connr.pcb, m.taken x ++ s'.taken ev.calls, m.given x ++ s'.given⟩ ∧
        Sends g ev.calls s' := by
  have hopened : s'.opened (L.slot x) = (m.host x).opened (L.slot x) :=
    (hallow.opens s' hstep).opened.trans (h.opens x).opened.symm
  have hpolite := hallow.courteous s' hstep
  have hresets : L.Says (!x) (m.ep L (!x)) (m.ep L x) ⟨Tcp.rst, 0, 0, []⟩ :=
    .inl (by decide : Tcp.rst &&& Tcp.rst ≠ 0)
  cases ev with
  | input b len calls =>
    have hconn : s'.conn = L.slot x := by simpa [Event.concerns] using hconcerns
    refine ⟨hconn, ?_⟩
    have hproc : uipProcess calls { m.host x with buf := b, len := len } .data = some s' := hstep
    obtain ⟨g, htells, hresult⟩ : ∃ g, L.Says (!x) (m.ep L (!x)) (m.ep L x) g ∧
        Result g calls ((m.host x).conns s'.conn).pcb (m.taken x) (m.given x)
          ((m.host x).opened s'.conn) s' := by
      rcases uipProcess_result hproc (by decide) hpolite with hall | ⟨-, hpasses, hof, hresult⟩
      · exact ⟨_, hresets, hall _⟩
      · refine ⟨_, ?_, hresult⟩
        obtain ⟨haddr, hhost⟩ := h.addr x
        obtain ⟨hl, hr, hip⟩ := h.ends x
        rw [hconn] at hof
        obtain ⟨-, hdest, hsrc, hsrcip⟩ := of_decide_eq_true hof
        have hpasses : Passes b len (L.addr x) := by rwa [← hhost]
        have hfrom : L.From (!x) b := by
          refine ⟨hpasses.proto, hsrcip.trans hip, ?_, hsrc.trans hr, ?_⟩
          · rw [Bool.not_not]
            exact hpasses.destipaddr.resolve_left haddr
          · rw [Bool.not_not]
            exact hdest.trans hl
        obtain ⟨packet, hmem, hlen, hholds⟩ := hallow.genuine b len calls rfl hpasses hfrom
        have htells := h.sent (!x) packet hmem hlen b hholds hfrom
        rwa [Bool.not_not] at htells
    rw [hconn, ← hopened] at hresult
    rcases hresult with ⟨hlt, -⟩ | hresult
    · rw [hconn] at hlt
      exact absurd hlt (lt_irrefl _)
    · exact ⟨g, htells, hresult⟩
  | periodic k calls =>
    have hconn : s'.conn = L.slot x := by simpa [Event.concerns] using hconcerns
    refine ⟨hconn, ?_⟩
    have hproc : uipProcess calls { m.host x with conn := k } .timer = some s' := hstep
    have hresult : Result ⟨Tcp.rst, 0, 0, []⟩ calls ((m.host x).conns s'.conn).pcb (m.taken x)
        (m.given x) ((m.host x).opened s'.conn) s' := by
      rcases uipProcess_result hproc (by decide) hpolite with hall | ⟨htimer, -⟩
      · exact hall _
      · cases htimer
    rw [hconn, ← hopened] at hresult
    rcases hresult with ⟨hlt, -⟩ | hresult
    · rw [hconn] at hlt
      exact absurd hlt (lt_irrefl _)
    · exact ⟨_, hresets, hresult⟩
  | _ => cases hconcerns

/-- What the application hands over is what its stream ends with. -/
theorem Link.Allows.last (hallow : L.Allows m (x, ev)) (hstep : (m.host x).handle ev = some s')
    (hconcerns : ev.concerns (L.slot x) s'.toTables) (hst : s'.connr.state = Ts.established)
    {v : View} (hseen : s'.seen = some v) (hsome : lastSend ev.calls ≠ [])
    (hold : v.tcb.len ≠ 0 → s'.connr.len = v.tcb.len)
    (hnew : v.tcb.len = 0 → s'.connr.len.toNat ≤ (lastSend ev.calls).length % 2^16)
    (hside : Side L x ⟨s'.connr.pcb, m.taken x ++ s'.taken ev.calls, i⟩ f) :
    s'.connr.len.toNat ≤ (lastSend ev.calls).length % 2^16 ∧
      (lastSend ev.calls).take s'.connr.len.toNat = (m.taken x ++ s'.taken ev.calls).drop
        ((m.taken x ++ s'.taken ev.calls).length - s'.connr.len.toNat) := by
  have hlen : s'.connr.len.toNat ≤ (m.taken x ++ s'.taken ev.calls).length := hside.len hst
  rw [Tables.taken_of_seen hseen] at hlen ⊢
  by_cases h0 : v.tcb.len = 0
  · have hle := hnew h0
    have htaken : v.taken ev.calls s'.connr = (lastSend ev.calls).take s'.connr.len.toNat :=
      if_pos ⟨h0, hst⟩
    have hlength : ((lastSend ev.calls).take s'.connr.len.toNat).length = s'.connr.len.toNat := by
      rw [List.length_take]
      exact min_eq_left (hle.trans (Nat.mod_le ..))
    refine ⟨hle, ?_⟩
    rw [show v.taken ev.calls (s'.conns s'.conn) = _ from htaken, List.length_append, hlength,
      Nat.add_sub_cancel, List.drop_left]
  · have htaken : v.taken ev.calls s'.connr = [] := if_neg fun h => h0 h.1
    obtain ⟨hshort, t, ht⟩ := hallow.again s' hstep hconcerns hst v hseen h0 hsome
    rw [show v.taken ev.calls (s'.conns s'.conn) = _ from htaken, List.append_nil,
      hold h0] at hlen ⊢
    have hlength : ((m.taken x).drop ((m.taken x).length - v.tcb.len.toNat)).length =
        v.tcb.len.toNat := by
      rw [List.length_drop]
      exact Nat.sub_sub_self hlen
    have hle : v.tcb.len.toNat ≤ (lastSend ev.calls).length := by
      rw [← ht, List.length_append, hlength]
      exact Nat.le_add_right ..
    rw [Nat.mod_eq_of_lt hshort]
    refine ⟨hle, ?_⟩
    rw [← ht]
    exact List.take_left' hlength

theorem Link.Inv.step_ends (h : L.Inv m) (hallow : L.Allows m (x, ev))
    (hstep : (m.host x).handle ev = some s') :
    L.Ends x (s'.conns (L.slot x)) ∧ s'.hostaddr = (m.host x).hostaddr := by
  have hsteps := handle_steps hstep hallow.courteous
  refine ⟨?_, hsteps.conn_eq.2⟩
  rcases hsteps.entry (L.slot x) with hlt | ⟨-, -, -, hends, -⟩
  · have hlt : (m.host x).opened (L.slot x) < s'.opened (L.slot x) := hlt
    rw [(hallow.opens s' hstep).opened, (h.opens x).opened] at hlt
    exact absurd hlt (lt_irrefl _)
  · obtain ⟨hl, hr, hip⟩ := h.ends x
    exact ⟨hends.1.trans hl, hends.2.1.trans hr, hends.2.2.trans hip⟩

/-- A step of a host that is not about the connection sends no segment of it. -/
theorem Link.Inv.other_tells (h : L.Inv m) (hallow : L.Allows m (x, ev))
    (hstep : (m.host x).handle ev = some s') (hother : ¬ ev.concerns (L.slot x) s'.toTables)
    (hpacket : s'.packet ev ≠ []) (hlen : 40 ≤ s'.len.toNat)
    (hholds : Holds b (getBytes s'.buf At.ip s'.len.toNat)) (hfrom : L.From x b) :
    L.Says x e f (segOf b) := by
  have hinv := handle_invariant hstep hallow.courteous (h.host x)
  have hfrom' := hfrom.of_holds hlen hholds
  have hconn : s'.conn ≠ L.slot x := by
    cases ev with
    | input | periodic => simpa [Event.concerns] using hother
    | _ => exact absurd rfl hpacket
  cases handle_emits hstep hallow.courteous hinv.2 hpacket with
  | nothing h0 =>
    rw [h0] at hlen
    exact absurd hlen (by decide)
  | segment hsent hactive hn =>
    have hopens := hallow.opens s' hstep
    have hends := (h.step_ends hallow hstep).1
    refine absurd (hinv.1 _ _ hactive hopens.isOpen.active ⟨?_, ?_, ?_⟩) hconn
    · exact hsent.srcport.symm.trans (hfrom'.srcport.trans hends.1.symm)
    · exact hsent.destport.symm.trans (hfrom'.destport.trans hends.2.1.symm)
    · exact hsent.destipaddr.symm.trans (hfrom'.destipaddr.trans hends.2.2.symm)
  | rst hheader hn hflags _ =>
    left
    show b At.flags &&& Tcp.rst ≠ 0
    rw [hholds.apply (by decide) (by rw [hn]; decide), hflags]
    decide
  | icmp hne => exact absurd hfrom'.proto hne

theorem record_of_ne {y : Bool} (hy : y ≠ x) : (m.record L x ev s').host y = m.host y ∧
    (m.record L x ev s').sent y = m.sent y ∧ (m.record L x ev s').taken y = m.taken y ∧
      (m.record L x ev s').given y = m.given y :=
  ⟨update_of_ne hy .., update_of_ne hy .., update_of_ne hy .., update_of_ne hy ..⟩

@[simp] theorem record_host : (m.record L x ev s').host x = s' := update_self ..

@[simp] theorem record_taken : (m.record L x ev s').taken x = m.taken x ++
    if ev.concerns (L.slot x) s'.toTables then s'.taken ev.calls else [] := update_self ..

@[simp] theorem record_given : (m.record L x ev s').given x = m.given x ++
    if ev.concerns (L.slot x) s'.toTables then s'.given else [] := update_self ..

@[simp] theorem record_sent : (m.record L x ev s').sent x =
    if s'.packet ev = [] then m.sent x else s'.packet ev :: m.sent x := update_self ..

theorem record_ep_self : (m.record L x ev s').ep L x = ⟨(s'.conns (L.slot x)).pcb,
    m.taken x ++ if ev.concerns (L.slot x) s'.toTables then s'.taken ev.calls else [],
    m.given x ++ if ev.concerns (L.slot x) s'.toTables then s'.given else []⟩ := by
  rw [Pair.ep, record_host, record_taken, record_given]

theorem record_ep {y : Bool} (hy : y ≠ x) : (m.record L x ev s').ep L y = m.ep L y := by
  unfold Pair.ep
  rw [(record_of_ne hy).1, (record_of_ne hy).2.2.1, (record_of_ne hy).2.2.2]

/-- What a step does for the side that takes it. -/
theorem Link.Inv.record_side (h : L.Inv m) (hallow : L.Allows m (x, ev))
    (hstep : (m.host x).handle ev = some s')
    (hshort : ((m.record L x ev s').taken x).length + 1 < 2^32) :
    Side L x ((m.record L x ev s').ep L x) (m.ep L (!x)) ∧
      (m.ep L x).Grows ((m.record L x ev s').ep L x) ∧
      ∀ b, s'.packet ev ≠ [] → 40 ≤ s'.len.toNat →
        Holds b (getBytes s'.buf At.ip s'.len.toNat) → L.From x b →
          L.Says x ((m.record L x ev s').ep L x) (m.ep L (!x)) (segOf b) := by
  rw [record_taken] at hshort
  rw [record_ep_self]
  by_cases hconcerns : ev.concerns (L.slot x) s'.toTables
  · simp only [if_pos hconcerns] at hshort ⊢
    obtain ⟨hconn, g, hg, hturns, hsends⟩ := h.result hallow hstep hconcerns
    have hback : (m.given (!x)).length + 1 < 2^32 := by
      have hgiven := (h.side (!x)).given.length_le
      rw [Bool.not_not] at hgiven
      exact lt_of_le_of_lt (Nat.add_le_add_right hgiven 1) (h.short x)
    obtain ⟨hside, hgrows⟩ := hturns.side hg hshort (h.short _) hback (h.side x)
    rw [← hconn]
    refine ⟨hside, hgrows, fun b hpacket hlen hholds hfrom => ?_⟩
    have hb := (handle_invariant hstep hallow.courteous (h.host x)).2 s'.conn
    refine hsends.tells hg hgrows hside hb (packet_eq hpacket).2 ?_
      (hfrom.of_holds hlen hholds).proto hholds
    exact fun hst v hseen hsome hold hnew =>
      hallow.last hstep hconcerns hst hseen hsome hold hnew hside
  · simp only [if_neg hconcerns, List.append_nil]
    have hopened : s'.opened (L.slot x) = (m.host x).opened (L.slot x) :=
      (hallow.opens s' hstep).opened.trans (h.opens x).opened.symm
    rw [handle_conns hstep hallow.courteous hopened hconcerns]
    exact ⟨h.side x, .refl _, fun b hpacket hlen hholds hfrom =>
      h.other_tells hallow hstep hconcerns hpacket hlen hholds hfrom⟩

theorem Link.Inv.step (h : L.Inv m) (hallow : L.Allows m a) (hstep : m.step L a = some m') :
    L.Inv m' := by
  obtain ⟨x, ev⟩ := a
  have hshort := hallow.short m' hstep
  obtain ⟨s', hhandle, rfl⟩ := bind_some_eq hstep
  clear hstep
  have hstep : (m.host x).handle ev = some s' := hhandle
  show L.Inv (m.record L x ev s')
  obtain ⟨hside, hgrows, htells⟩ := h.record_side hallow hstep (hshort x)
  obtain ⟨hends, haddr⟩ := h.step_ends hallow hstep
  have hne : (!x) ≠ x := by simp
  have hnot : (m.record L x ev s').ep L (!x) = m.ep L (!x) := record_ep hne
  have hep : ∀ y, (m.ep L y).Grows ((m.record L x ev s').ep L y) :=
    (Bool.forall_bool' x).mpr ⟨hgrows, by rw [hnot]; exact .refl _⟩
  -- At the other side nothing happens but that there is more to come.
  refine ⟨(Bool.forall_bool' x).mpr ⟨?_, ?_⟩, (Bool.forall_bool' x).mpr ⟨?_, ?_⟩,
    (Bool.forall_bool' x).mpr ⟨?_, ?_⟩, (Bool.forall_bool' x).mpr ⟨?_, ?_⟩,
    (Bool.forall_bool' x).mpr ⟨?_, ?_⟩, (Bool.forall_bool' x).mpr ⟨?_, ?_⟩, hshort⟩
  · rw [record_host, haddr]
    exact h.addr x
  · rw [(record_of_ne hne).1]
    exact h.addr _
  · rw [record_host]
    exact handle_invariant hstep hallow.courteous (h.host x)
  · rw [(record_of_ne hne).1]
    exact h.host _
  · rw [record_host]
    exact hallow.opens s' hstep
  · rw [(record_of_ne hne).1]
    exact h.opens _
  · rwa [record_host]
  · rw [(record_of_ne hne).1]
    exact h.ends _
  · rwa [hnot]
  · rw [hnot]
    exact (h.side _).mono (hep _)
  · intro packet hmem hlen b hholds hfrom
    have hold : packet ∈ m.sent x → L.Says x ((m.record L x ev s').ep L x)
        ((m.record L x ev s').ep L (!x)) (segOf b) :=
      fun hmem => (h.sent x packet hmem hlen b hholds hfrom).mono (hep x) (hep _)
    rw [record_sent] at hmem
    by_cases hpacket : s'.packet ev = []
    · rw [if_pos hpacket] at hmem
      exact hold hmem
    · rw [if_neg hpacket] at hmem
      rcases List.mem_cons.mp hmem with rfl | hmem
      · rw [(packet_eq hpacket).1] at hlen hholds
        rw [hnot]
        exact htells b hpacket (by rwa [length_getBytes] at hlen) hholds hfrom
      · exact hold hmem
  · intro packet hmem hlen b hholds hfrom
    rw [(record_of_ne hne).2.1] at hmem
    exact (h.sent _ packet hmem hlen b hholds hfrom).mono (hep _) (hep _)

/-- The segment with the `SYN` is the first one. -/
theorem Link.Opening.first (h : L.Opening x s.connr)
    (hsegment : Segment s (if x = L.opener then Tcp.syn else Tcp.ack ||| Tcp.syn) 0x60 44)
    (hholds : Holds b (getBytes s.buf At.ip s.len.toNat)) : L.First x (segOf b) := by
  rw [hsegment.segOf_eq (by decide) hholds]
  exact ⟨rfl, h.sndNxt, h.rcvNxt, rfl⟩

theorem Link.Opening.side {c : Conn} {c' : Conn} (h : L.Opening x c) (h' : L.Opening (!x) c') :
    Side L x ⟨c.pcb, [], []⟩ ⟨c'.pcb, [], []⟩ := by
  have hne : c.state ≠ Ts.established := by
    rw [h.state]
    split_ifs <;> decide
  refine ⟨fun _ => ⟨rfl, rfl, .inr h.len⟩, fun _ => ?_, fun hst => ?_, fun hst => absurd hst hne,
    List.prefix_refl _, fun hst => absurd hst hne, fun hst => ?_⟩
  · show c.sndNxt + c.len.setWidth 32 = _
    rw [h.sndNxt, h.len]
    simp
  · have hst : c.state = Ts.synRcvd := hst.resolve_right hne
    have hx : x ≠ L.opener := fun hx => by
      rw [h.state, if_pos hx] at hst
      exact absurd hst (by decide)
    show c.rcvNxt = _
    rw [h.rcvNxt hx]
    simp
  · have hst : c'.state = Ts.synSent := hst
    have hx : x ≠ L.opener := fun hx => by
      rw [h'.state, if_neg (by rw [← hx]; simp)] at hst
      exact absurd hst (by decide)
    have hlen : c.len ≠ 0 := by
      rw [h.len]
      decide
    exact .inr ⟨by rw [Conn.pcb, h.state, if_neg hx], hlen⟩

theorem Link.First.tells {c : Conn} {c' : Conn} (h : L.First x g) (hc : L.Opening x c)
    (hc' : L.Opening (!x) c') : L.Says x ⟨c.pcb, [], []⟩ ⟨c'.pcb, [], []⟩ g := by
  refine .inr ⟨0, ⟨?_, ?_⟩, ?_, fun _ => rfl, absurd h.data, fun hack _ => ?_, fun hst => ?_⟩
  · rw [h.flags]
    split_ifs <;> decide
  · rw [h.data]
    decide
  · rw [h.seqno]
    simp
  · have hx : x ≠ L.opener := fun hx => by
      rw [h.flags, if_pos hx] at hack
      exact absurd (by decide) hack
    refine ⟨?_, 0, le_refl _, ?_⟩
    · show c.state ≠ _
      rw [hc.state, if_neg hx]
      decide
    · rw [h.ackno hx]
      simp
  · have hst : c'.state = Ts.synSent := hst
    have hx : x ≠ L.opener := fun hx => by
      rw [hc'.state, if_neg (by rw [← hx]; simp)] at hst
      exact absurd hst (by decide)
    rw [h.flags, if_neg hx]
    exact ⟨h.data, by decide, fun _ => by decide⟩

theorem Link.Starts.inv (h : L.Starts m) : L.Inv m := by
  have hep : ∀ x, m.ep L x = ⟨((m.host x).conns (L.slot x)).pcb, [], []⟩ := fun x => by
    rw [Pair.ep, h.taken, h.given]
  refine ⟨h.addr, h.host, fun x => ⟨h.opened x, ?_⟩, fun x => (h.opening x).ends, fun x => ?_,
    fun x packet hmem hlen b hholds hfrom => ?_, fun x => ?_⟩
  · rw [Conn.Open, (h.opening x).state]
    split_ifs <;> decide
  · rw [hep, hep]
    exact (h.opening x).side (h.opening _)
  · rw [hep, hep]
    exact (h.sent x packet hmem hlen b hholds hfrom).tells (h.opening x) (h.opening _)
  · rw [h.taken]
    decide

theorem Link.Opening.setMss {c : Conn} (mss : Option (BitVec 16)) (h : L.Opening x c) :
    L.Opening x (c.setMss mss) := by
  cases mss with
  | none => exact h
  | some mss => exact ⟨h.ends, h.state, h.sndNxt, h.rcvNxt, h.len⟩

/-- `uip_connect` leaves an entry as the opener has it when the connection has been opened. -/
theorem uipConnect_opening {ripaddr : BitVec 32} {rport : BitVec 16}
    (h : uipConnect s ripaddr rport = some s') : s'.conns = s.conns ∨
      ∃ k, s'.opened k = s.opened k + 1 ∧ ∀ L : Link, L.port L.opener = (s'.conns k).lport →
        L.port (!L.opener) = rport → L.addr (!L.opener) = ripaddr → L.isn L.opener = s.iss →
          L.Opening L.opener (s'.conns k) := by
  obtain ⟨lastport, -, h⟩ := Option.bind_eq_some_iff.mp h
  dsimp only at h
  cases hunused : unusedConn s.conns with
  | none =>
    simp only [hunused] at h
    obtain rfl := Option.some.inj h
    exact .inl rfl
  | some k =>
    simp only [hunused] at h
    obtain rfl := Option.some.inj h
    refine .inr ⟨k, update_self .., fun L hl hr hip hisn => ?_⟩
    dsimp only at hl ⊢
    rw [update_self] at hl ⊢
    exact ⟨⟨hl.symm, hr.symm, hip.symm⟩,
      (Conn.state_of_flags Ts.synSent rfl).trans (if_pos rfl).symm, hisn.symm,
      fun hne => absurd rfl hne, rfl⟩

/-- At `found_listen` an entry is left as the other side has it, and the answer to the `SYN` is its
first segment. -/
theorem foundListen_opening (h : foundListen s = some s') : s' = drop s ∨
    s'.opened s'.conn = s.opened s'.conn + 1 ∧
      ∀ L : Link, ∀ x, x ≠ L.opener → L.From (!x) s.buf → get32 s.buf At.seqno = L.isn (!x) →
        s.iss = L.isn x → L.Opening x s'.connr ∧
          ∀ b, Holds b (getBytes s'.buf At.ip s'.len.toNat) → L.First x (segOf b) := by
  unfold foundListen at h
  cases hk : unusedConn s.conns with
  | none =>
    simp only [hk] at h
    exact .inl (Option.some.inj h).symm
  | some k =>
    simp only [hk] at h
    obtain ⟨mss, -, rfl⟩ := bind_some_eq h
    generalize hs₁ : uipAddRcvNxt _ 1 = s₁
    have hconn : s₁.conn = k ∧ s₁.opened k = s.opened k + 1 := by
      rw [← hs₁]
      exact ⟨rfl, update_self ..⟩
    have hconnr : (tcpSendSynack (s₁.setConnr (s₁.connr.setMss mss))).connr =
        s₁.connr.setMss mss := by
      rw [Uip.connr, tcpSendSynack_toTables, ← Uip.connr, setConnr_connr]
    refine .inr ⟨?_, fun L x hx hfrom hseqno hiss => ?_⟩
    · rw [tcpSendSynack_toTables]
      show s₁.opened s₁.conn = s.opened s₁.conn + 1
      rw [hconn.1, hconn.2]
    · have hopening : L.Opening x (s₁.connr.setMss mss) := by
        refine .setMss mss ?_
        rw [← hs₁, uipAddRcvNxt_connr, setConnr_connr]
        refine ⟨⟨hfrom.destport.trans (by rw [Bool.not_not]), hfrom.srcport, hfrom.srcipaddr⟩,
          (Conn.state_of_flags Ts.synRcvd rfl).trans (if_neg hx).symm, hiss, fun _ => ?_, rfl⟩
        show get32 s.buf At.seqno + _ = _
        rw [hseqno]
        rfl
      rw [hconnr]
      refine ⟨hopening, fun b hholds => ?_⟩
      rw [← hconnr] at hopening
      refine hopening.first ?_ hholds
      rw [if_neg hx]
      exact tcpSendSynack_segment _

/-- Two hosts have a connection from when the `SYN` of one comes to the other, which listens and has
an entry to use. -/
theorem starts_of_accept {host : Bool → Uip} {len : BitVec 16} {syns : List (List (BitVec 8))}
    (hx : x ≠ L.opener) (hruns : ∀ y, ∃ tr, HostRun tr (host y))
    (haddr : ∀ y, L.addr y ≠ 0 ∧ (host y).hostaddr = L.addr y)
    (hopened : (host (!x)).opened (L.slot (!x)) = L.opened (!x))
    (hopening : L.Opening (!x) ((host (!x)).conns (L.slot (!x))))
    (hsyns : ∀ packet ∈ syns, 40 ≤ packet.length → ∀ b, Holds b packet → L.From (!x) b →
      L.First (!x) (segOf b))
    (hpasses : Passes b len (L.addr x)) (hfrom : L.From (!x) b) (hfirst : L.First (!x) (segOf b))
    (hnone : connOf (host x).conns b = none)
    (hlisten : ∃ c, get16 b At.destport = (host x).listenports c)
    (hcourteous : Courteous (host x) (.input b len calls))
    (hstep : (host x).handle (.input b len calls) = some s')
    (hnew : s'.opened s'.conn ≠ (host x).opened s'.conn) (hslot : s'.conn = L.slot x)
    (hcount : s'.opened s'.conn = L.opened x) (hiss : (host x).iss = L.isn x) :
    L.Starts ⟨update host x s', update (fun _ => syns) x [s'.packet (.input b len calls)],
      fun _ => [], fun _ => []⟩ := by
  have hsyn : b At.flags &&& Tcp.ctl = Tcp.syn := by
    have hflags : b At.flags = Tcp.syn := by
      have hopener : (!x) = L.opener := (Bool.eq_not.mpr (Ne.symm hx)).symm
      exact hfirst.flags.trans (if_pos hopener)
    rw [hflags]
    decide
  have hlistened : foundListen { host x with
      buf := b
      len := word (b At.len) (b (At.len + 1))
      appdata := At.optdata
      seen := none } = some s' := by
    have hinput := uipInput_of_passes calls (s := { host x with
      buf := b
      len := len
      appdata := At.optdata
      seen := none }) (by rw [← (haddr x).2] at hpasses; exact hpasses)
    dsimp only at hinput
    rw [hnone, Option.elim_none, if_pos ⟨hsyn, hlisten⟩] at hinput
    exact hinput.symm.trans hstep
  rcases foundListen_opening hlistened with rfl | ⟨-, hall⟩
  · exact absurd rfl hnew
  obtain ⟨hopening', hfirst'⟩ := hall L x hx hfrom hfirst.seqno hiss
  have hinv : ∀ y, (host y).toTables.Distinct ∧ ∀ k, ((host y).conns k).Bounded := fun y =>
    (hruns y).elim fun _ => hostRun_invariant
  refine ⟨(Bool.forall_bool' x).mpr ⟨?_, ?_⟩, (Bool.forall_bool' x).mpr ⟨?_, ?_⟩,
    (Bool.forall_bool' x).mpr ⟨?_, ?_⟩, (Bool.forall_bool' x).mpr ⟨?_, ?_⟩,
    (Bool.forall_bool' x).mpr ⟨?_, ?_⟩, fun _ => rfl, fun _ => rfl⟩ <;> dsimp only
  · rw [update_self, (handle_steps hstep hcourteous).conn_eq.2]
    exact haddr x
  · rw [update_of_ne (by simp)]
    exact haddr _
  · rw [update_self]
    exact handle_invariant hstep hcourteous (hinv x)
  · rw [update_of_ne (by simp)]
    exact hinv _
  · rw [update_self, ← hslot]
    exact hcount
  · rw [update_of_ne (by simp)]
    exact hopened
  · rw [update_self, ← hslot]
    exact hopening'
  · rw [update_of_ne (by simp)]
    exact hopening
  · rw [update_self]
    intro packet hmem _ b hholds _
    rw [List.mem_singleton.mp hmem] at hholds
    exact hfirst' b hholds
  · rw [update_of_ne (by simp)]
    exact hsyns

variable {tr : List (Pair × (Bool × Event))}

/-- While two hosts have a connection open, whatever the network does to the packets, the
application of one is given what the application of the other has had sent, each byte once and in
order. As long as neither closes the connection, only what is outstanding can be missing. -/
theorem given_of_taken (h : PairRun L tr m) (x : Bool) : ∃ rest,
    m.taken x = m.given (!x) ++ rest ∧
      (((m.host x).conns (L.slot x)).state = Ts.established →
        ((m.host (!x)).conns (L.slot (!x))).state = Ts.established →
          rest.length ≤ ((m.host x).conns (L.slot x)).len.toNat) := by
  have hinv := h.invariant (I := fun _ m => L.Inv m) (fun _ => Link.Starts.inv)
    fun _ _ _ _ _ hinv hallow hstep => hinv.step hallow hstep
  have hgiven := (hinv.side (!x)).given
  rw [Bool.not_not] at hgiven
  obtain ⟨rest, hrest⟩ := hgiven
  refine ⟨rest, hrest.symm, fun hst hst' => ?_⟩
  have hrest : m.given (!x) ++ rest = m.taken x := hrest
  have hacked : (m.taken x).length ≤ (m.given (!x)).length +
    ((m.host x).conns (L.slot x)).len.toNat := (hinv.side x).acked hst (.inr (.inr hst'))
  rw [← hrest, List.length_append] at hacked
  omega

/-- The connection of `askedHost` and `servingHost`. -/
def webLink : Link where
  addr x := if x then 0xc0a80002 else 0xc0a80001
  port x := if x then htons 1025 else 0x5000
  slot _ := ⟨0, by decide⟩
  opened _ := 1
  isn _ := 0
  opener := true

/-- The `SYN` has been answered. -/
def webPair : Pair where
  host x := if x then askedHost else servingHost
  sent x := if x then [] else
    [getBytes (tcpSendSynack servingHost).buf At.ip (tcpSendSynack servingHost).len.toNat]
  taken _ := []
  given _ := []

/-- Where an entry is the only one, and within its bounds, so are all. -/
theorem oneConn_invariant {t : Tables} (h : ∀ k ≠ 0, t.conns k = (uipInit default).conns k)
    (hb : (t.conns 0).Bounded) : t.Distinct ∧ ∀ k, (t.conns k).Bounded := by
  have h0 : ∀ k, (t.conns k).Active → k = 0 := fun k hk => by
    by_contra hne
    exact hk (by rw [h k hne]; rfl)
  refine ⟨fun i j hi hj _ => (h0 i hi).trans (h0 j hj).symm, fun k => ?_⟩
  by_cases hk : k = 0
  · rwa [hk]
  · rw [h k hk]
    exact ⟨BitVec.le_refl _, (by decide : (0 : BitVec 16) ≤ uipTcpMss),
      (by decide : (0 : BitVec 16) ≤ uipTcpMss)⟩

theorem servingHost_opening : webLink.Opening false (servingHost.conns 0) :=
  ⟨⟨rfl, rfl, rfl⟩, rfl, rfl, fun _ => rfl, rfl⟩

theorem webPair_starts : webLink.Starts webPair where
  addr x := by cases x <;> decide
  host x := by
    cases x with
    | true =>
      exact oneConn_invariant (fun k hk => update_of_ne hk ..) ⟨by decide, by decide, by decide⟩
    | false =>
      exact oneConn_invariant (fun k hk => update_of_ne hk ..) ⟨by decide, by decide, by decide⟩
  opened x := by cases x <;> rfl
  opening x := by
    cases x with
    | true => exact ⟨⟨rfl, rfl, rfl⟩, rfl, rfl, by decide, rfl⟩
    | false => exact servingHost_opening
  sent x packet hmem hlen b hholds hfrom := by
    cases x with
    | true => exact absurd hmem List.not_mem_nil
    | false =>
      rw [List.mem_singleton.mp hmem] at hholds
      exact Link.Opening.first (s := tcpSendSynack servingHost) servingHost_opening
        (tcpSendSynack_segment servingHost) hholds
  taken _ := rfl
  given _ := rfl

/-- The segment with the two bytes comes to the other side. -/
def deliver : Event := .input answeredHost.buf answeredHost.len []

/-- `servingHost`, when it has handled the segment. -/
def servedHost : Uip := (servingHost.handle deliver).getD default

theorem handle_deliver : servingHost.handle deliver = some servedHost := by
  have hsome : (servingHost.handle deliver).isSome = true := by decide +kernel
  rw [servedHost, Option.getD_of_ne_none (Option.isSome_iff_ne_none.mp hsome)]

/-- A step is allowed that calls no application of which anything is outstanding. -/
theorem Link.Allows.of_handle (hs : (m.host x).handle ev = some s') (hstop : .stop ∉ ev.calls)
    (hgenuine : ∀ b len calls, ev = .input b len calls →
      ∃ packet ∈ m.sent (!x), 40 ≤ packet.length ∧ Holds b packet)
    (hseen : s'.seen.all (fun v => v.tcb.len = 0) = true) (hopens : L.Opens x s'.toTables)
    (hshort : ∀ y, ((m.record L x ev s').taken y).length + 1 < 2^32) : L.Allows m (x, ev) where
  courteous _ _ _ _ hmem := absurd hmem hstop
  genuine b len calls hev _ _ := hgenuine b len calls hev
  again s hs' _ _ v hv hlen := by
    obtain rfl := Option.some.inj (hs.symm.trans hs')
    rw [show s'.seen = some v from hv] at hseen
    exact absurd (by simpa using hseen) hlen
  opens s hs' := by
    obtain rfl := Option.some.inj (hs.symm.trans hs')
    exact hopens
  short m' hm' := by
    obtain ⟨s, hs', rfl⟩ := bind_some_eq hm'
    obtain rfl := Option.some.inj (hs.symm.trans hs')
    exact hshort

theorem Pair.step_of_handle (hs : (m.host x).handle ev = some s') :
    m.step L (x, ev) = some (m.record L x ev s') := by
  show (m.host x).handle ev >>= _ = _
  rw [hs]
  rfl

/-- The opener has sent its two bytes. -/
def webAnswered : Pair := webPair.record webLink true answer answeredHost

/-- The other side has been given them. -/
def webServed : Pair := webAnswered.record webLink false deliver servedHost

theorem webServed_run :
    PairRun webLink [(webAnswered, (false, deliver)), (webPair, (true, answer))] webServed := by
  have hanswer : (webPair.host true).handle answer = some answeredHost := handle_answer
  have hdeliver : (webAnswered.host false).handle deliver = some servedHost := handle_deliver
  have hopens : webLink.Opens true answeredHost.toTables := by
    refine ⟨by decide +kernel, ?_⟩
    rw [Conn.Open]
    decide +kernel
  have hopens' : webLink.Opens false servedHost.toTables := by
    refine ⟨by decide +kernel, ?_⟩
    rw [Conn.Open]
    decide +kernel
  refine .cons (.cons (.nil webPair_starts) (.of_handle hanswer (by simp [answer, Event.calls]) ?_
      (by decide +kernel) hopens ?_) (Pair.step_of_handle hanswer))
    (.of_handle hdeliver List.not_mem_nil ?_ (by decide +kernel) hopens' ?_)
    (Pair.step_of_handle hdeliver)
  · intro b len calls hev
    obtain ⟨rfl, rfl, rfl⟩ := Event.input.inj hev
    exact ⟨_, List.mem_singleton_self _, by decide +kernel, by rw [Holds, length_getBytes]⟩
  · decide +kernel
  · intro b len calls hev
    obtain ⟨rfl, rfl, rfl⟩ := Event.input.inj hev
    refine ⟨answeredHost.packet answer, ?_, by decide +kernel, ?_⟩
    · have hpacket : answeredHost.packet answer ≠ [] := by decide +kernel
      show _ ∈ (webPair.record webLink true answer answeredHost).sent true
      rw [record_sent, if_neg hpacket]
      exact List.mem_cons_self
    · show Holds answeredHost.buf (getBytes answeredHost.buf At.ip answeredHost.len.toNat)
      rw [Holds, length_getBytes]
  · decide +kernel

/-- The two bytes the opener has taken are given to the other side. -/
theorem given_of_taken_webServed : webServed.taken true = [104, 105] ∧
    webServed.given false = [104, 105] ∧ ∃ rest,
      webServed.taken true = webServed.given false ++ rest ∧
      (((webServed.host true).conns (webLink.slot true)).state = Ts.established →
        ((webServed.host false).conns (webLink.slot false)).state = Ts.established →
          rest.length ≤ ((webServed.host true).conns (webLink.slot true)).len.toNat) := by
  have hgiven := given_of_taken webServed_run true
  rw [Bool.not_true] at hgiven
  exact ⟨by decide +kernel, by decide +kernel, hgiven⟩

end Fos.Net
