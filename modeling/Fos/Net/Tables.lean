import Fos.Net.Output
import Mathlib.Logic.Relation

/-!
# What the stack does to its connections

A call of `uip_process` changes the tables in steps: it edits the current connection within what is
`Legal`, it takes an unused entry for a new connection that no other active one has the ends of, or
it changes something else (`Tables.Step`). There is one lemma for each label, up to
`uipProcess_steps`, and what holds of the connections is shown of a single step.
-/

namespace Fos.Net

open Function Relation

/-- An entry is in use. -/
def Conn.Active (c : Conn) : Prop := c.tcpstateflags ≠ Ts.closed

/-- A connection is not closed. It is then active (`Conn.Open.active`). -/
def Conn.Open (c : Conn) : Prop := c.state ≠ Ts.closed

/-- The two ends of a connection: what a segment is told by. -/
def Conn.SameEnds (c c' : Conn) : Prop :=
  c.lport = c'.lport ∧ c.rport = c'.rport ∧ c.ripaddr = c'.ripaddr

/-- The bounds of what is sent in one segment. -/
structure Conn.Bounded (c : Conn) : Prop where
  mss : c.mss ≤ c.initialmss
  initialmss : c.initialmss ≤ uipTcpMss
  len : c.len ≤ uipTcpMss

/-- The moves between the states of a connection, and those from a state to itself. -/
inductive Moves : BitVec 8 → BitVec 8 → Prop where
  | stay {st : BitVec 8} : Moves st st
  | close {st : BitVec 8} : Moves st Ts.closed
  | accept : Moves Ts.synRcvd Ts.established
  | connect : Moves Ts.synSent Ts.established
  | finish : Moves Ts.established Ts.finWait1
  | finished : Moves Ts.established Ts.lastAck
  | acked : Moves Ts.finWait1 Ts.finWait2
  | both : Moves Ts.finWait1 Ts.closing
  | bothAcked : Moves Ts.finWait1 Ts.timeWait
  | fin : Moves Ts.finWait2 Ts.timeWait
  | last : Moves Ts.closing Ts.timeWait

/-- What may become of a connection. -/
structure Legal (c c' : Conn) : Prop where
  ends : c'.SameEnds c
  active : c'.Active → c.Active
  bounded : c.Bounded → c'.Bounded
  moves : Moves c.state c'.state

/-- A step of the stack at its tables. -/
inductive Tables.Step : Tables → Tables → Prop where
  /-- An edit of the current connection. -/
  | edit {t : Tables} {c : Conn} (h : Legal (t.conns t.conn) c) :
    Step t { t with conns := update t.conns t.conn c }
  /-- A new connection in an unused entry. -/
  | take {t : Tables} {k : Fin uipConns} {c : Conn}
    (unused : (t.conns k).tcpstateflags = Ts.closed ∨ (t.conns k).tcpstateflags = Ts.timeWait)
    (fresh : ∀ j, (t.conns j).Active → ¬ c.SameEnds (t.conns j))
    (bounded : (t.conns k).Bounded → c.Bounded)
    (starts : c.tcpstateflags = Ts.synSent ∨ c.tcpstateflags = Ts.synRcvd) :
    Step t { t with
      conns := update t.conns k c
      opened := update t.opened k (t.opened k + 1) }
  /-- A change of something else. -/
  | other {t : Tables} {listenports : Fin uipConns → BitVec 16} {iss : BitVec 32}
    {lastport : BitVec 16} {seen : Option View} :
    Step t { t with listenports := listenports, iss := iss, lastport := lastport, seen := seen }

/-- Steps of the stack at its tables. -/
abbrev Tables.Steps : Tables → Tables → Prop := ReflTransGen Tables.Step

open Tables

variable {s s' : Uip} {calls : List AppCall} {t t' : Tables}

/-- What no step changes. -/
theorem Tables.Steps.conn_eq (h : Steps t t') : t'.conn = t.conn ∧ t'.hostaddr = t.hostaddr := by
  induction h with
  | refl => exact ⟨rfl, rfl⟩
  | tail _ hstep ih =>
    cases hstep with
    | edit | take | other => exact ih

/-- The connection that is current at the end is so all along. -/
theorem Tables.Steps.of_conn (h : Steps t t') : Steps { t with conn := t'.conn } t' := by
  rwa [show ({ t with conn := t'.conn } : Tables) = t by rw [h.conn_eq.1]]

/-! ## The calls of the application -/

theorem Conn.Open.active {c : Conn} (h : c.Open) : c.Active := fun h0 => h (by
  rw [Conn.state, h0]
  rfl)

theorem Legal.of_eq {c c' : Conn} (hl : c'.lport = c.lport) (hr : c'.rport = c.rport)
    (hip : c'.ripaddr = c.ripaddr) (hst : c'.tcpstateflags = c.tcpstateflags)
    (hb : c.Bounded → c'.Bounded) : Legal c c' where
  ends := ⟨hl, hr, hip⟩
  active h := by rwa [Conn.Active, ← hst]
  bounded := hb
  moves := by
    rw [Conn.state, Conn.state, hst]
    exact .stay

/-- An edit after some steps. -/
theorem Tables.Steps.edit {c : Conn} (h : Steps t s.toTables) (hc : Legal s.connr c) :
    Steps t (s.setConnr c).toTables := h.tail (.edit hc)

theorem mem_of_findConn {conns : Fin uipConns → Conn} {cs : List (Fin uipConns)}
    {conn : Option (Fin uipConns)} {k : Fin uipConns} (h : findConn conns cs conn = some k)
    (hconn : ∀ c, conn = some c → (conns c).tcpstateflags = Ts.timeWait) :
    (conns k).tcpstateflags = Ts.closed ∨ (conns k).tcpstateflags = Ts.timeWait := by
  induction cs generalizing conn with
  | nil => exact .inr (hconn k h)
  | cons c cs ih =>
    rw [findConn] at h
    split_ifs at h with hclosed hwait
    · exact .inl (by rwa [← Option.some.inj h])
    · exact ih h fun c' hc' => by rw [← Option.some.inj hc']; exact hwait.1
    · exact ih h hconn

/-- The connection to use is closed, or in `TIME_WAIT`. -/
theorem unusedConn_spec {conns : Fin uipConns → Conn} {k : Fin uipConns}
    (h : unusedConn conns = some k) :
    (conns k).tcpstateflags = Ts.closed ∨ (conns k).tcpstateflags = Ts.timeWait :=
  mem_of_findConn h fun _ hc => by cases hc

theorem state_stop (x : BitVec 8) : (x ||| Ts.stopped) &&& Ts.mask = x &&& Ts.mask := by
  revert x
  decide

theorem state_restart (x : BitVec 8) : (x &&& ~~~ Ts.stopped) &&& Ts.mask = x &&& Ts.mask := by
  revert x
  decide

@[simp] theorem setConnr_connr (c : Conn) : (s.setConnr c).connr = c := by
  simp [Uip.setConnr, Uip.connr]

@[simp] theorem setConnr_conn (c : Conn) : (s.setConnr c).conn = s.conn := rfl

/-- What a call of the application does. -/
inductive AppCall.Does (s : Uip) : AppCall → Uip → Prop where
  | send {data : List (BitVec 8)} : Does s (.send data) (uipSend s data)
  | flags {call : AppCall} {f : BitVec 8} (hcall : ∀ data, call.sent data = data)
    (hf : f &&& Flag.ackdata = 0) :
    Does s call { s with flags := f }
  /-- The connection is marked as stopped, or no longer. -/
  | mark {call : AppCall} {f x : BitVec 8} (hcall : ∀ data, call.sent data = data)
    (hf : f &&& Flag.ackdata = s.flags &&& Flag.ackdata)
    (hx : x &&& Ts.mask = s.connr.tcpstateflags &&& Ts.mask)
    (hactive : call ≠ .stop → x ≠ Ts.closed → s.connr.Active) :
    Does s call ({ s with flags := f }.setConnr { s.connr with tcpstateflags := x })
  | other {call : AppCall} {lastport : BitVec 16} {listenports : Fin uipConns → BitVec 16}
    (hcall : ∀ data, call.sent data = data) :
    Does s call { s with lastport := lastport, listenports := listenports }
  /-- An unused entry is taken for a connection to another host. -/
  | take {call : AppCall} {lastport : BitVec 16} {k : Fin uipConns} {c : Conn}
    (hcall : ∀ data, call.sent data = data)
    (hunused : (s.conns k).tcpstateflags = Ts.closed ∨ (s.conns k).tcpstateflags = Ts.timeWait)
    (hfresh : ∀ j, (s.conns j).Active → ¬ c.SameEnds (s.conns j))
    (hst : c.tcpstateflags = Ts.synSent) (hb : c.Bounded) :
    Does s call { s with
      lastport := lastport
      conns := update s.conns k c
      opened := update s.opened k (s.opened k + 1) }

theorem AppCall.run_does {call : AppCall} (h : call.run s = some s') : call.Does s s' := by
  cases call with
  | send data =>
    simp only [AppCall.run] at h
    split_ifs at h with hfits
    obtain rfl := Option.some.inj h
    exact .send
  | close =>
    obtain rfl := Option.some.inj h
    exact .flags (fun _ => rfl) (by decide)
  | abort =>
    obtain rfl := Option.some.inj h
    exact .flags (fun _ => rfl) (by decide)
  | stop =>
    obtain rfl := Option.some.inj h
    exact .mark (f := s.flags) (fun _ => rfl) rfl (state_stop _) fun hne => absurd rfl hne
  | restart =>
    have hor : ∀ x : BitVec 8, (x ||| Flag.newdata) &&& Flag.ackdata = x &&& Flag.ackdata := by
      decide
    have hand : ∀ x : BitVec 8, x = Ts.closed → x &&& ~~~ Ts.stopped = Ts.closed := by decide
    obtain rfl := Option.some.inj h
    exact .mark (fun _ => rfl) (hor _) (state_restart _) fun _ hx h0 => hx (hand _ h0)
  | connect ripaddr rport =>
    obtain ⟨p, hp, hfree⟩ := nextPort_isSome s.conns s.lastport
    unfold AppCall.run uipConnect at h
    rw [hp] at h
    simp only [Option.bind_eq_bind, Option.bind_some] at h
    cases hk : unusedConn s.conns with
    | none =>
      rw [hk] at h
      obtain rfl := Option.some.inj h
      exact .other fun _ => rfl
    | some k =>
      rw [hk] at h
      obtain rfl := Option.some.inj h
      refine .take (fun _ => rfl) (unusedConn_spec hk) (fun j hj hends => ?_) rfl ?_
      · -- The local port is in use nowhere.
        simp only [portInUse, List.any_eq_false, decide_eq_true_eq] at hfree
        exact hfree j (List.mem_finRange j) ⟨hj, hends.1.symm⟩
      · exact ⟨BitVec.le_refl _, BitVec.le_refl _, (by decide : (1 : BitVec 16) ≤ uipTcpMss)⟩
  | listen port =>
    obtain rfl := Option.some.inj h
    unfold uipListen
    split <;> exact .other fun _ => rfl
  | unlisten port =>
    obtain rfl := Option.some.inj h
    unfold uipUnlisten
    split <;> exact .other fun _ => rfl

/-- What every call of the application keeps, a sequence of them keeps. -/
theorem foldlM_run_rel {R : Uip → Uip → Prop} (hrefl : ∀ s, R s s)
    (htrans : ∀ s s₁ s₂, R s s₁ → R s₁ s₂ → R s s₂)
    (hrun : ∀ call s s₁, call ∈ calls → AppCall.Does s call s₁ → R s s₁)
    (h : calls.foldlM AppCall.run s = some s') : R s s' := by
  induction calls generalizing s with
  | nil =>
    obtain rfl := Option.some.inj h
    exact hrefl _
  | cons call calls ih =>
    rw [List.foldlM_cons] at h
    obtain ⟨s₁, h₁, h⟩ := Option.bind_eq_some_iff.mp h
    exact htrans _ _ _ (hrun _ _ _ List.mem_cons_self (AppCall.run_does h₁))
      (ih (fun call s s₁ hmem => hrun call s s₁ (List.mem_cons_of_mem _ hmem)) h)

theorem uipSend_spec (s : Uip) (data : List (BitVec 8)) : ∃ slen buf,
    uipSend s data = { s with slen := slen, buf := buf } ∧ ∀ k < At.optdata, buf k = s.buf k := by
  unfold uipSend
  split_ifs
  · exact ⟨_, _, rfl, fun k hk => if_pos hk⟩
  · exact ⟨_, _, rfl, fun _ _ => rfl⟩

/-- The application does not stop a connection that is closed when it is called. -/
def Polite (calls : List AppCall) (c : Conn) : Prop := AppCall.stop ∈ calls → c.Open

/-- What a polite application does to the tables. -/
theorem foldlM_run_steps (h : calls.foldlM AppCall.run s = some s')
    (hpolite : Polite calls s.connr) : Steps s.toTables s'.toTables ∧ s'.conn = s.conn ∧
      (s.connr.Open → s'.connr.Open) := by
  have hrel : (AppCall.stop ∈ calls → s.connr.Open) → Steps s.toTables s'.toTables ∧
      s'.conn = s.conn ∧ (s.connr.Open → s'.connr.Open) := by
    refine foldlM_run_rel (R := fun s s' => (AppCall.stop ∈ calls → s.connr.Open) →
      Steps s.toTables s'.toTables ∧ s'.conn = s.conn ∧ (s.connr.Open → s'.connr.Open))
      (fun _ _ => ⟨.refl, rfl, id⟩) ?_ ?_ h
    · intro s s₁ s₂ h₁ h₂ hstop
      obtain ⟨hsteps, hconn, hopen⟩ := h₁ hstop
      obtain ⟨hsteps', hconn', hopen'⟩ := h₂ fun hmem => hopen (hstop hmem)
      exact ⟨hsteps.trans hsteps', hconn'.trans hconn, fun h => hopen' (hopen h)⟩
    · intro call s s₁ hmem hdoes hstop
      cases hdoes with
      | @send data =>
        obtain ⟨slen, buf, heq, -⟩ := uipSend_spec s data
        rw [heq]
        exact ⟨.refl, rfl, id⟩
      | flags => exact ⟨.refl, rfl, id⟩
      | @mark _ _ x _ _ hx hactive =>
        have hlegal : Legal s.connr { s.connr with tcpstateflags := x } := by
          refine ⟨⟨rfl, rfl, rfl⟩, fun h => ?_, fun h => ⟨h.mss, h.initialmss, h.len⟩, ?_⟩
          · by_cases hcall : call = .stop
            · exact (hstop (hcall ▸ hmem)).active
            · exact hactive hcall h
          · rw [Conn.state, Conn.state, hx]
            exact .stay
        refine ⟨.single (.edit hlegal), rfl, fun hopen => ?_⟩
        rwa [setConnr_connr, Conn.Open, Conn.state, hx]
      | other => exact ⟨.single .other, rfl, id⟩
      | @take _ _ k c _ hunused hfresh hst hb =>
        refine ⟨.head (.take hunused hfresh (fun _ => hb) (.inl hst)) (.single .other), rfl,
          fun hopen => ?_⟩
        unfold Conn.Open Uip.connr
        dsimp only
        by_cases heq : s.conn = k
        · rw [heq, update_self, Conn.state, hst]
          exact (by decide : Ts.synSent &&& Ts.mask ≠ Ts.closed)
        · rw [update_of_ne heq]
          exact hopen
  exact hrel hpolite

/-- What a call of the application does to the tables. -/
theorem uipAppcall_steps (h : uipAppcall calls s = some s') (hpolite : Polite calls s.connr) :
    Steps s.toTables s'.toTables ∧ s'.conn = s.conn := by
  obtain ⟨hsteps, hconn, -⟩ := foldlM_run_steps h hpolite
  exact ⟨.head .other hsteps, hconn⟩

/-- What the application is called with. -/
def Uip.view (s : Uip) : View := ⟨s.conn, s.connr, s.flags, getBytes s.buf s.appdata s.len.toNat⟩

/-- A connection but for `UIP_STOPPED`. -/
structure Conn.Kept (c c' : Conn) : Prop where
  eq : c' = { c with tcpstateflags := c'.tcpstateflags }
  state : c'.state = c.state

theorem Conn.Kept.refl (c : Conn) : c.Kept c := ⟨rfl, rfl⟩

theorem Conn.Kept.trans {c c' c'' : Conn} (h : c.Kept c') (h' : c'.Kept c'') : c.Kept c'' :=
  ⟨by rw [h'.eq, h.eq], h'.state.trans h.state⟩

/-- A connection is over: its entry may be taken for another one. -/
def Conn.Over (c : Conn) : Prop := c.state = Ts.closed ∨ c.state = Ts.timeWait

/-- The application leaves its connection alone, but for `UIP_STOPPED`, unless the connection is
over and the application takes the entry for another one. -/
theorem uipAppcall_kept_or (h : uipAppcall calls s = some s') : s.connr.Kept s'.connr ∨
    s.connr.Over ∧ s.opened s.conn < s'.opened s'.conn := by
  have hrel := foldlM_run_rel (R := fun s s' => s'.conn = s.conn ∧
    s.opened s.conn ≤ s'.opened s'.conn ∧ (s.connr.Kept s'.connr ∨
      s.connr.Over ∧ s.opened s.conn < s'.opened s'.conn))
    (fun _ => ⟨rfl, le_rfl, .inl (.refl _)⟩) ?_ ?_ (s := { s with seen := some s.view }) h
  · exact hrel.2.2
  · intro s s₁ s₂ h₁ h₂
    obtain ⟨hconn, hle, hkept⟩ := h₁
    obtain ⟨hconn', hle', hkept'⟩ := h₂
    refine ⟨hconn'.trans hconn, hle.trans hle', ?_⟩
    rcases hkept with hkept | ⟨hover, hlt⟩
    · rcases hkept' with hkept' | ⟨hover, hlt⟩
      · exact .inl (hkept.trans hkept')
      · refine .inr ⟨?_, by omega⟩
        rwa [Conn.Over, ← hkept.state]
    · exact .inr ⟨hover, by omega⟩
  · intro call s s₁ _ hdoes
    cases hdoes with
    | @send data =>
      obtain ⟨slen, buf, heq, -⟩ := uipSend_spec s data
      rw [heq]
      exact ⟨rfl, le_rfl, .inl (.refl _)⟩
    | flags => exact ⟨rfl, le_rfl, .inl (.refl _)⟩
    | mark _ _ hx _ =>
      refine ⟨rfl, le_rfl, .inl ?_⟩
      rw [setConnr_connr]
      exact ⟨rfl, hx⟩
    | other => exact ⟨rfl, le_rfl, .inl (.refl _)⟩
    | @take _ _ k c _ hunused _ _ _ =>
      by_cases heq : s.conn = k
      · refine ⟨rfl, by simp [heq], .inr ⟨?_, by simp [heq]⟩⟩
        rw [Conn.Over, Conn.state, Uip.connr, heq]
        rcases hunused with h0 | h0
        · exact .inl (by rw [h0]; rfl)
        · exact .inr (by rw [h0]; rfl)
      · refine ⟨rfl, by simp [heq], .inl ?_⟩
        simp only [Uip.connr, update_of_ne heq]
        exact .refl _

theorem uipAppcall_kept (h : uipAppcall calls s = some s') (hclosed : s.connr.state ≠ Ts.closed)
    (hwait : s.connr.state ≠ Ts.timeWait) : s.connr.Kept s'.connr := by
  rcases uipAppcall_kept_or h with hkept | ⟨hover, -⟩
  · exact hkept
  · exact absurd hover (not_or.mpr ⟨hclosed, hwait⟩)

/-- What no call of the application changes: the headers in the buffer, and the host's address. -/
structure SameHeader (s s' : Uip) : Prop where
  seen : s'.seen = s.seen
  hostaddr : s'.hostaddr = s.hostaddr
  len : s'.len = s.len
  conn : s'.conn = s.conn
  buf : ∀ k < At.optdata, s'.buf k = s.buf k

theorem SameHeader.refl (s : Uip) : SameHeader s s := ⟨rfl, rfl, rfl, rfl, fun _ _ => rfl⟩

theorem SameHeader.trans {s s₁ s₂ : Uip} (h : SameHeader s s₁) (h' : SameHeader s₁ s₂) :
    SameHeader s s₂ :=
  ⟨h'.seen.trans h.seen, h'.hostaddr.trans h.hostaddr, h'.len.trans h.len, h'.conn.trans h.conn,
    fun k hk => (h'.buf k hk).trans (h.buf k hk)⟩

theorem uipAppcall_sameHeader (h : uipAppcall calls s = some s') :
    SameHeader { s with seen := some s.view } s' := by
  refine foldlM_run_rel .refl (fun _ _ _ => .trans) ?_ h
  intro call s s₁ _ hdoes
  cases hdoes with
  | @send data =>
    obtain ⟨slen, buf, heq, hbuf⟩ := uipSend_spec s data
    rw [heq]
    exact ⟨rfl, rfl, rfl, rfl, hbuf⟩
  | _ => exact ⟨rfl, rfl, rfl, rfl, fun _ _ => rfl⟩

/-! ## The labels -/

theorem Legal.close (c : Conn) : Legal c { c with tcpstateflags := Ts.closed } where
  ends := ⟨rfl, rfl, rfl⟩
  active h := absurd rfl h
  bounded h := ⟨h.mss, h.initialmss, h.len⟩
  moves := by
    have hst : ({ c with tcpstateflags := Ts.closed } : Conn).state = Ts.closed :=
      (by decide : Ts.closed &&& Ts.mask = Ts.closed)
    rw [hst]
    exact .close

theorem Conn.open_of_state {c : Conn} {st : BitVec 8} (h : c.state = st) (hst : st ≠ Ts.closed) :
    c.Open := by rwa [Conn.Open, h]

/-- A connection moves on to another state. -/
theorem Legal.move {c c' : Conn} {st st' : BitVec 8} (hmoves : Moves st st') (hst : c.state = st)
    (hst' : c'.tcpstateflags = st') (hends : c'.SameEnds c) (hb : c.Bounded → c'.Bounded)
    (hopen : st ≠ Ts.closed := by decide) (hmask : st' &&& Ts.mask = st' := by decide) :
    Legal c c' where
  ends := hends
  active _ := (Conn.open_of_state hst hopen).active
  bounded := hb
  moves := by rwa [hst, Conn.state, hst', hmask]

theorem uipAddRcvNxt_steps (h : Steps t s.toTables) (n : BitVec 16) :
    Steps t (uipAddRcvNxt s n).toTables :=
  h.edit (.of_eq rfl rfl rfl rfl fun h => ⟨h.mss, h.initialmss, h.len⟩)

theorem Legal.setMss (c : Conn) (mss : Option (BitVec 16)) : Legal c (c.setMss mss) := by
  cases mss with
  | none => exact .of_eq rfl rfl rfl rfl id
  | some mss =>
    refine .of_eq rfl rfl rfl rfl fun h => ⟨BitVec.le_refl _, ?_, h.len⟩
    unfold Conn.setMss
    dsimp only
    split_ifs with hlt
    · exact BitVec.le_refl _
    · exact BitVec.not_lt.mp hlt

/-- The bytes of new data that fit into a segment. -/
def newLen (s : Uip) : BitVec 16 := if s.connr.mss < s.slen then s.connr.mss else s.slen

/-- What is sent next: as much as was sent before, or what there is, up to the segment size. -/
theorem takeData_eq (s : Uip) : takeData s =
    if 0 < s.slen then
      if s.flags &&& Flag.ackdata ≠ 0 ∨ s.connr.len = 0 then
        { s.setConnr { s.connr with len := newLen s } with slen := newLen s }
      else { s with slen := s.connr.len }
    else s := by
  unfold takeData
  by_cases hslen : 0 < s.slen
  · rw [if_pos hslen, if_pos hslen]
    by_cases hack : s.flags &&& Flag.ackdata ≠ 0
    · simp only [hack, not_false_eq_true, ne_eq, if_true, true_or, setConnr_connr]
      have hslen' : (s.setConnr { s.connr with len := 0 }).slen = s.slen := rfl
      rw [hslen']
      split_ifs with hmss
      · have hnew : newLen s = s.connr.mss := if_pos hmss
        rw [hnew]
        simp [Uip.setConnr, Uip.connr, update_idem]
      · have hnew : newLen s = s.slen := if_neg hmss
        rw [hnew]
        simp [Uip.setConnr, Uip.connr, update_idem]
    · simp only [hack, if_false, false_or]
      split_ifs with hlen hmss
      · have hnew : newLen s = s.connr.mss := if_pos hmss
        rw [hnew]
        simp [Uip.setConnr, Uip.connr]
      · have hnew : newLen s = s.slen := if_neg hmss
        rw [hnew]
        simp [Uip.setConnr, Uip.connr]
      · rfl
  · rw [if_neg hslen, if_neg hslen]

theorem newLen_le (s : Uip) : newLen s ≤ s.connr.mss ∧ newLen s ≤ s.slen := by
  unfold newLen
  split_ifs with h
  · exact ⟨BitVec.le_refl _, BitVec.le_of_lt h⟩
  · exact ⟨BitVec.not_lt.mp h, BitVec.le_refl _⟩

theorem takeData_steps (h : Steps t s.toTables) : Steps t (takeData s).toTables ∧
    (takeData s).conn = s.conn ∧
      (takeData s).connr = { s.connr with len := (takeData s).connr.len } := by
  rw [takeData_eq]
  split_ifs with hslen hnew
  · refine ⟨h.edit (.of_eq rfl rfl rfl rfl fun hb => ⟨hb.mss, hb.initialmss, ?_⟩), rfl, ?_⟩
    · exact BitVec.le_trans (newLen_le s).1 (BitVec.le_trans hb.mss hb.initialmss)
    · simp [Uip.connr, Uip.setConnr]
  · exact ⟨h, rfl, rfl⟩
  · exact ⟨h, rfl, rfl⟩

theorem appsend_steps (h : Steps t s.toTables) (hst : s.connr.state = Ts.established) :
    Steps t (appsend s).toTables := by
  unfold appsend
  dsimp only
  split_ifs with habort hclose
  · simp only [tcpSendNodata_toTables, Uip.put8_toTables]
    exact Steps.edit (s := { s with slen := 0 }) h (.close _)
  · simp only [tcpSendNodata_toTables, Uip.put8_toTables]
    exact Steps.edit (s := { s with slen := 0 }) h (.move .finish hst rfl ⟨rfl, rfl, rfl⟩ fun hb =>
      ⟨hb.mss, hb.initialmss, (by decide : (1 : BitVec 16) ≤ uipTcpMss)⟩)
  · rw [apprexmit_toTables]
    exact (takeData_steps h).1.edit
      (.of_eq rfl rfl rfl rfl fun hb => ⟨hb.mss, hb.initialmss, hb.len⟩)

/-- A segment acknowledges what is outstanding, or nothing is done. -/
theorem acknowledge_spec (s : Uip) : acknowledge s = s ∨
    s.buf At.flags &&& Tcp.ack ≠ 0 ∧ s.connr.len ≠ 0 ∧
      get32 s.buf At.ackno = s.connr.sndNxt + s.connr.len.setWidth 32 ∧
      acknowledge s = { s.setConnr (s.connr.acked (s.connr.sndNxt + s.connr.len.setWidth 32)) with
        flags := Flag.ackdata } := by
  unfold acknowledge
  by_cases hack : s.buf At.flags &&& Tcp.ack ≠ 0 ∧ s.connr.outstanding
  · rw [if_pos hack]
    dsimp only
    rw [uipAdd32_eq]
    split_ifs with hno
    · exact .inr ⟨hack.1, by simpa [Conn.outstanding] using hack.2, hno, rfl⟩
    · exact .inl rfl
  · rw [if_neg hack]
    exact .inl rfl

/-- An acknowledgement changes only what is outstanding and the estimation. -/
theorem Conn.acked_eq (c : Conn) (n : BitVec 32) : c.acked n = { c with
    sndNxt := n
    len := 0
    sa := (c.acked n).sa
    sv := (c.acked n).sv
    rto := (c.acked n).rto
    timer := (c.acked n).timer } := by
  unfold Conn.acked Conn.estimate
  dsimp only
  split_ifs <;> rfl

theorem acknowledge_steps (h : Steps t s.toTables) : Steps t (acknowledge s).toTables := by
  rcases acknowledge_spec s with heq | ⟨-, -, -, heq⟩
  · rwa [heq]
  · rw [heq]
    refine h.edit ?_
    rw [Conn.acked_eq]
    exact .of_eq rfl rfl rfl rfl fun hb => ⟨hb.mss, hb.initialmss, (by decide : 0 ≤ uipTcpMss)⟩

theorem acknowledge_state (s : Uip) :
    (acknowledge s).connr.state = s.connr.state ∧ (acknowledge s).conn = s.conn := by
  rcases acknowledge_spec s with heq | ⟨-, -, -, heq⟩
  · rw [heq]
    exact ⟨rfl, rfl⟩
  · rw [heq]
    refine ⟨?_, rfl⟩
    show (s.setConnr _).connr.state = _
    rw [setConnr_connr, Conn.acked_eq]
    rfl

/-! ## The states -/

/-- The application is called in the middle of a label. -/
theorem bind_some_eq {α β : Type} {x : Option α} {f : α → β} {b : β}
    (h : (x >>= fun a => some (f a)) = some b) : ∃ a, x = some a ∧ b = f a := by
  obtain ⟨a, ha, hb⟩ := Option.bind_eq_some_iff.mp h
  exact ⟨a, ha, (Option.some.inj hb).symm⟩

theorem Conn.Open.polite {c : Conn} (h : c.Open) : Polite calls c := fun _ => h

@[simp] theorem uipAddRcvNxt_state (n : BitVec 16) :
    (uipAddRcvNxt s n).connr.state = s.connr.state := by
  rw [uipAddRcvNxt, setConnr_connr]
  rfl

/-- The application is called in `ESTABLISHED`, and may send. -/
theorem appcall_appsend_steps {s₁ : Uip} (hcall : uipAppcall calls s = some s₁)
    (h : Steps t s.toTables) (hst : s.connr.state = Ts.established) :
    Steps t (appsend s₁).toTables := by
  have hopen : s.connr.Open := Conn.open_of_state hst (by decide)
  have hkept := uipAppcall_kept hcall hopen (by rw [hst]; decide)
  exact appsend_steps (h.trans (uipAppcall_steps hcall hopen.polite).1) (hkept.state.trans hst)

theorem caseSynRcvd_steps (h : Steps t s.toTables) (hst : s.connr.state = Ts.synRcvd)
    (hcase : caseSynRcvd calls s = some s') : Steps t s'.toTables := by
  unfold caseSynRcvd at hcase
  split_ifs at hcase with hack
  · obtain ⟨s₁, hcall, rfl⟩ := bind_some_eq hcase
    have haccept : Legal s.connr { s.connr with tcpstateflags := Ts.established, len := 0 } :=
      .move .accept hst rfl ⟨rfl, rfl, rfl⟩ fun hb =>
        ⟨hb.mss, hb.initialmss, (by decide : 0 ≤ uipTcpMss)⟩
    have hsteps := h.edit haccept
    have hstate : (s.setConnr { s.connr with
        tcpstateflags := Ts.established, len := 0 }).connr.state = Ts.established := by
      rw [setConnr_connr]
      exact (by decide : Ts.established &&& Ts.mask = Ts.established)
    refine appcall_appsend_steps hcall ?_ ?_
    · dsimp only
      split_ifs
      · exact uipAddRcvNxt_steps (s := { s.setConnr _ with flags := _ }) hsteps _
      · exact hsteps
    · dsimp only
      split_ifs
      · exact (uipAddRcvNxt_state (s := { s.setConnr _ with flags := _ }) _).trans hstate
      · exact hstate
  · obtain rfl := Option.some.inj hcase
    exact h

/-- A connection is closed for good, whatever the application does to it. -/
theorem caseSynSent_steps (h : Steps t s.toTables) (hst : s.connr.state = Ts.synSent)
    (hcase : caseSynSent calls s = some s') : Steps t s'.toTables := by
  have hopen : s.connr.Open := Conn.open_of_state hst (by decide)
  unfold caseSynSent at hcase
  split_ifs at hcase with hack
  · obtain ⟨mss, -, hcase⟩ := Option.bind_eq_some_iff.mp hcase
    obtain ⟨s₁, hcall, rfl⟩ := bind_some_eq hcase
    have hmss := h.edit (.setMss s.connr mss)
    have hstate : (s.connr.setMss mss).state = Ts.synSent := by
      cases mss <;> exact hst
    rw [← setConnr_connr (s := s) (s.connr.setMss mss)] at hstate
    have hconnect : Legal (s.setConnr (s.connr.setMss mss)).connr
        { (s.setConnr (s.connr.setMss mss)).connr with
          tcpstateflags := Ts.established, rcvNxt := get32 s.buf At.seqno } :=
      .move .connect hstate rfl ⟨rfl, rfl, rfl⟩ fun hb => ⟨hb.mss, hb.initialmss, hb.len⟩
    have hest := hmss.edit hconnect
    refine appcall_appsend_steps hcall ?_ ?_
    · exact (uipAddRcvNxt_steps hest 1).edit (.of_eq rfl rfl rfl rfl fun hb =>
        ⟨hb.mss, hb.initialmss, (by decide : 0 ≤ uipTcpMss)⟩)
    · dsimp only [Uip.connr, Uip.setConnr, uipAddRcvNxt]
      simp only [update_self]
      exact (by decide : Ts.established &&& Ts.mask = Ts.established)
  · obtain ⟨s₁, hcall, rfl⟩ := bind_some_eq hcase
    rw [reset_toTables]
    have hcalled := uipAppcall_steps hcall (Conn.Open.polite (by exact hopen))
    exact Steps.edit (h.trans hcalled.1) (.close _)

@[simp] theorem skipUrgent_toTables (s : Uip) : (skipUrgent s).toTables = s.toTables := by
  unfold skipUrgent
  split_ifs <;> rfl

theorem acceptData_steps (h : Steps t s.toTables) :
    Steps t (acceptData s).toTables ∧ (acceptData s).connr.state = s.connr.state := by
  unfold acceptData
  split_ifs
  · exact ⟨uipAddRcvNxt_steps (s := { s with flags := _ }) h _,
      uipAddRcvNxt_state (s := { s with flags := _ }) _⟩
  · exact ⟨h, rfl⟩

theorem updateMss_steps (h : Steps t s.toTables) :
    Steps t (updateMss s).toTables ∧ (updateMss s).connr.state = s.connr.state := by
  unfold updateMss
  refine ⟨h.edit (.of_eq rfl rfl rfl rfl fun hb => ⟨?_, hb.initialmss, hb.len⟩), ?_⟩
  · dsimp only
    split_ifs with hmss
    · exact BitVec.le_refl _
    · exact BitVec.not_lt.mp fun hlt => hmss (.inl hlt)
  · rw [setConnr_connr]
    rfl

theorem caseEstablished_steps (h : Steps t s.toTables) (hst : s.connr.state = Ts.established)
    (hcase : caseEstablished calls s = some s') : Steps t s'.toTables := by
  have hurg : (skipUrgent s).connr = s.connr := by rw [Uip.connr, skipUrgent_toTables, Uip.connr]
  have hdata := acceptData_steps (t := t) (s := skipUrgent s) (by rwa [skipUrgent_toTables])
  have hmss := updateMss_steps hdata.1
  have hopen : s.connr.Open := Conn.open_of_state hst (by decide)
  -- The other end has closed the connection.
  have hfin : ∀ s₁ s₂ : Uip, uipAppcall calls s₁ = some s₂ → Steps t s₁.toTables →
      s₁.connr.state = Ts.established → Steps t (tcpSendFinack (s₂.setConnr { s₂.connr with
        len := 1, tcpstateflags := Ts.lastAck, nrtx := 0 })).toTables := by
    intro s₁ s₂ hcall h₁ hst₁
    have hopen₁ : s₁.connr.Open := Conn.open_of_state hst₁ (by decide)
    have hkept := uipAppcall_kept hcall hopen₁ (by rw [hst₁]; decide)
    rw [tcpSendFinack_toTables]
    exact Steps.edit (h₁.trans (uipAppcall_steps hcall hopen₁.polite).1) (.move .finished
      (hkept.state.trans hst₁) rfl ⟨rfl, rfl, rfl⟩ fun hb =>
        ⟨hb.mss, hb.initialmss, (by decide : (1 : BitVec 16) ≤ uipTcpMss)⟩)
  unfold caseEstablished at hcase
  dsimp only at hcase
  split_ifs at hcase with hf hout hlen hnew
  · obtain rfl := Option.some.inj hcase
    exact h
  · obtain ⟨s₁, hcall, rfl⟩ := bind_some_eq hcase
    exact hfin _ _ hcall (uipAddRcvNxt_steps h _) ((uipAddRcvNxt_state _).trans hst)
  · obtain ⟨s₁, hcall, rfl⟩ := bind_some_eq hcase
    exact hfin _ _ hcall (uipAddRcvNxt_steps h _) ((uipAddRcvNxt_state _).trans hst)
  · obtain ⟨s₁, hcall, rfl⟩ := bind_some_eq hcase
    refine appcall_appsend_steps hcall hmss.1 ?_
    exact hmss.2.trans (hdata.2.trans (by rw [hurg, hst]))
  · obtain rfl := Option.some.inj hcase
    exact hmss.1

/-- The application has been called with a connection that it must not stop if it is closed. -/
theorem polite_of_seen (hcall : uipAppcall calls s = some s')
    (hpolite : ∀ v, s'.seen = some v → Polite calls v.tcb) : Polite calls s.connr :=
  hpolite s.view (uipAppcall_sameHeader hcall).seen

theorem caseLastAck_steps (h : Steps t s.toTables) (hcase : caseLastAck calls s = some s')
    (hpolite : ∀ v, s'.seen = some v → Polite calls v.tcb) : Steps t s'.toTables := by
  unfold caseLastAck at hcase
  split_ifs at hcase with hack
  · obtain ⟨s₁, hcall, rfl⟩ := bind_some_eq hcase
    exact (h.edit (.close _)).trans (uipAppcall_steps hcall (polite_of_seen hcall hpolite)).1
  · obtain rfl := Option.some.inj hcase
    exact h

/-- The state that a connection has been moved to. -/
theorem Conn.open_of_flags {c : Conn} (st : BitVec 8) (h : c.tcpstateflags = st)
    (hst : st &&& Ts.mask ≠ Ts.closed := by decide) : c.Open := by rwa [Conn.Open, Conn.state, h]

/-- The other end's `FIN` has come in: the connection moves on, and the application is told. -/
theorem fin_steps {s₁ : Uip} {c : Conn}
    (hcall : uipAppcall calls { uipAddRcvNxt (s.setConnr c) 1 with flags := Flag.close } = some s₁)
    (h : Steps t s.toTables) (hlegal : Legal s.connr c) (hopen : c.Open) :
    Steps t (tcpSendAck s₁).toTables := by
  have hopen' : (uipAddRcvNxt (s.setConnr c) 1).connr.Open := by
    rwa [Conn.Open, uipAddRcvNxt_state, setConnr_connr]
  rw [tcpSendAck_toTables]
  exact (uipAddRcvNxt_steps (h.edit hlegal) 1).trans
    (uipAppcall_steps hcall (Conn.Open.polite (by exact hopen'))).1

/-- The data of a segment in `FIN_WAIT_1` and `FIN_WAIT_2` is acknowledged. -/
theorem skipData_steps (h : Steps t s.toTables) :
    Steps t (if 0 < s.len then uipAddRcvNxt s s.len else s).toTables ∧
      (if 0 < s.len then uipAddRcvNxt s s.len else s).connr.state = s.connr.state := by
  split_ifs
  · exact ⟨uipAddRcvNxt_steps h _, uipAddRcvNxt_state _⟩
  · exact ⟨h, rfl⟩

theorem caseFinWait1_steps (h : Steps t s.toTables) (hst : s.connr.state = Ts.finWait1)
    (hcase : caseFinWait1 calls s = some s') : Steps t s'.toTables := by
  have h₁ := skipData_steps h
  rw [hst] at h₁
  unfold caseFinWait1 at hcase
  dsimp only at hcase
  generalize (if 0 < s.len then uipAddRcvNxt s s.len else s) = s₁ at hcase h₁
  split_ifs at hcase with hfin hack hack hdata
  · obtain ⟨s₂, hcall, rfl⟩ := bind_some_eq hcase
    exact fin_steps hcall h₁.1 (.move .bothAcked h₁.2 rfl ⟨rfl, rfl, rfl⟩ fun hb =>
      ⟨hb.mss, hb.initialmss, (by decide : 0 ≤ uipTcpMss)⟩) (Conn.open_of_flags Ts.timeWait rfl)
  · obtain ⟨s₂, hcall, rfl⟩ := bind_some_eq hcase
    exact fin_steps hcall h₁.1 (.move .both h₁.2 rfl ⟨rfl, rfl, rfl⟩ fun hb =>
      ⟨hb.mss, hb.initialmss, hb.len⟩) (Conn.open_of_flags Ts.closing rfl)
  · obtain rfl := Option.some.inj hcase
    exact h₁.1.edit (.move .acked h₁.2 rfl ⟨rfl, rfl, rfl⟩ fun hb =>
      ⟨hb.mss, hb.initialmss, (by decide : 0 ≤ uipTcpMss)⟩)
  · obtain rfl := Option.some.inj hcase
    rw [tcpSendAck_toTables]
    exact h₁.1
  · obtain rfl := Option.some.inj hcase
    exact h₁.1

theorem caseFinWait2_steps (h : Steps t s.toTables) (hst : s.connr.state = Ts.finWait2)
    (hcase : caseFinWait2 calls s = some s') : Steps t s'.toTables := by
  have h₁ := skipData_steps h
  rw [hst] at h₁
  unfold caseFinWait2 at hcase
  dsimp only at hcase
  generalize (if 0 < s.len then uipAddRcvNxt s s.len else s) = s₁ at hcase h₁
  split_ifs at hcase with hfin hdata
  · obtain ⟨s₂, hcall, rfl⟩ := bind_some_eq hcase
    exact fin_steps hcall h₁.1 (.move .fin h₁.2 rfl ⟨rfl, rfl, rfl⟩ fun hb =>
      ⟨hb.mss, hb.initialmss, hb.len⟩) (Conn.open_of_flags Ts.timeWait rfl)
  · obtain rfl := Option.some.inj hcase
    rw [tcpSendAck_toTables]
    exact h₁.1
  · obtain rfl := Option.some.inj hcase
    exact h₁.1

theorem caseClosing_steps (h : Steps t s.toTables) (hst : s.connr.state = Ts.closing) :
    Steps t (caseClosing s).toTables := by
  unfold caseClosing
  split_ifs
  · exact h.edit (.move .last hst rfl ⟨rfl, rfl, rfl⟩ fun hb => ⟨hb.mss, hb.initialmss, hb.len⟩)
  · exact h

theorem switchState_steps (h : Steps t s.toTables) (hcase : switchState calls s = some s')
    (hpolite : ∀ v, s'.seen = some v → Polite calls v.tcb) : Steps t s'.toTables := by
  unfold switchState at hcase
  split_ifs at hcase with h1 h2 h3 h4 h5 h6 h7 h8
  · exact caseSynRcvd_steps h h1 hcase
  · exact caseSynSent_steps h h2 hcase
  · exact caseEstablished_steps h h3 hcase
  · exact caseLastAck_steps h hcase hpolite
  · exact caseFinWait1_steps h h5 hcase
  · exact caseFinWait2_steps h h6 hcase
  · obtain rfl := Option.some.inj hcase
    rwa [tcpSendAck_toTables]
  · obtain rfl := Option.some.inj hcase
    exact caseClosing_steps h h8
  · obtain rfl := Option.some.inj hcase
    exact h

/-! ## `uip_process` -/

theorem found_steps {conn : Fin uipConns} (hfound : found calls s conn = some s')
    (hpolite : ∀ v, s'.seen = some v → Polite calls v.tcb) :
    Steps { s.toTables with conn := conn } s'.toTables := by
  unfold found at hfound
  dsimp only at hfound
  split_ifs at hfound with hrst hout
  · obtain ⟨s₁, hcall, rfl⟩ := bind_some_eq hfound
    have hclose : Steps { s.toTables with conn := conn }
        ({ s with conn := conn, flags := 0 }.setConnr
          { ({ s with conn := conn, flags := 0 } : Uip).connr with
            tcpstateflags := Ts.closed }).toTables := Steps.edit .refl (.close _)
    exact hclose.trans (uipAppcall_steps hcall (polite_of_seen hcall hpolite)).1
  · obtain rfl := Option.some.inj hfound
    rw [tcpSendAck_toTables]
  · exact switchState_steps (acknowledge_steps .refl) hfound hpolite

theorem foundListen_steps (hlisten : foundListen s = some s')
    (hfresh : ∀ j, ¬ (s.conns j).isOf s.buf) :
    Steps { s.toTables with conn := s'.conn } s'.toTables := by
  unfold foundListen at hlisten
  cases hk : unusedConn s.conns with
  | none =>
    simp only [hk] at hlisten
    obtain rfl := Option.some.inj hlisten
    exact .refl
  | some k =>
    simp only [hk] at hlisten
    obtain ⟨mss, -, rfl⟩ := bind_some_eq hlisten
    have htake : ∀ c : Conn, (∀ j, (s.conns j).Active → ¬ c.SameEnds (s.conns j)) →
        ((s.conns k).Bounded → c.Bounded) → c.tcpstateflags = Ts.synRcvd →
        Steps { s.toTables with conn := k } ({ s with
          conn := k, opened := update s.opened k (s.opened k + 1) }.setConnr c).toTables :=
      fun c h₁ h₂ h₃ => .single
        (.take (t := { s.toTables with conn := k }) (unusedConn_spec hk) h₁ h₂ (.inr h₃))
    simp only [tcpSendSynack_toTables]
    refine Steps.edit (uipAddRcvNxt_steps (htake _ ?_ ?_ ?_) 1) (.setMss _ _)
    · intro j hj hends
      exact hfresh j (by simpa [Conn.isOf] using ⟨hj, hends.1, hends.2.1, hends.2.2⟩)
    · exact fun hb => ⟨hb.mss, hb.initialmss, (by decide : (1 : BitVec 16) ≤ uipTcpMss)⟩
    · rfl

theorem connOf_spec {conns : Fin uipConns → Conn} {b : Buf} :
    (∀ k, connOf conns b = some k → (conns k).isOf b) ∧
      (connOf conns b = none → ∀ j, ¬ (conns j).isOf b) :=
  ⟨fun _ h => List.find?_some (p := fun c => (conns c).isOf b) h,
    fun h j => List.find?_eq_none.mp h j (List.mem_finRange j)⟩

theorem tcpInput_steps (hinput : tcpInput calls s = some s')
    (hpolite : ∀ v, s'.seen = some v → Polite calls v.tcb) :
    Steps { s.toTables with conn := s'.conn } s'.toTables := by
  unfold tcpInput at hinput
  by_cases hchk : uipTcpchksum s.buf ≠ 0xffff
  · rw [if_pos hchk] at hinput
    obtain rfl := Option.some.inj hinput
    exact .refl
  · rw [if_neg hchk] at hinput
    cases hconn : connOf s.conns s.buf with
    | some conn =>
      simp only [hconn] at hinput
      have hsteps := found_steps hinput hpolite
      rwa [hsteps.conn_eq.1]
    | none =>
      simp only [hconn] at hinput
      split_ifs at hinput with hsyn hport
      · obtain rfl := Option.some.inj hinput
        rw [reset_toTables]
      · exact foundListen_steps hinput (connOf_spec.2 hconn)
      · obtain rfl := Option.some.inj hinput
        rw [reset_toTables]

theorem uipInput_steps (hinput : uipInput calls s = some s')
    (hpolite : ∀ v, s'.seen = some v → Polite calls v.tcb) :
    Steps { s.toTables with conn := s'.conn } s'.toTables := by
  have hsame : ∀ s₁ : Uip, s₁.toTables = s.toTables →
      Steps { s.toTables with conn := s₁.conn } s₁.toTables := fun s₁ h => by rw [h]
  unfold uipInput at hinput
  dsimp only at hinput
  split_ifs at hinput with hvhl hlen hfrag haddr hchk htcp hicmp
  · obtain rfl := Option.some.inj hinput
    exact hsame _ rfl
  · obtain rfl := Option.some.inj hinput
    exact hsame _ rfl
  · obtain rfl := Option.some.inj hinput
    exact hsame _ rfl
  · obtain rfl := Option.some.inj hinput
    exact hsame _ rfl
  · have hsteps := tcpInput_steps hinput hpolite
    exact hsteps
  · obtain rfl := Option.some.inj hinput
    exact hsame _ rfl
  · obtain rfl := Option.some.inj hinput
    exact hsame _ (icmpInput_toTables _)
  · obtain rfl := Option.some.inj hinput
    exact hsame _ rfl

theorem retransmit_steps (h : Steps t s.toTables) (hre : retransmit calls s = some s') :
    Steps t s'.toTables := by
  unfold retransmit at hre
  split_ifs at hre with h1 h2 h3 h4
  · obtain rfl := Option.some.inj hre
    rwa [tcpSendSynack_toTables]
  · obtain rfl := Option.some.inj hre
    rwa [tcpSendSyn_toTables]
  · obtain ⟨s₁, hcall, rfl⟩ := bind_some_eq hre
    rw [apprexmit_toTables]
    exact h.trans (uipAppcall_steps hcall (Conn.Open.polite
      (Conn.open_of_state (by exact h3) (by decide)))).1
  · obtain rfl := Option.some.inj hre
    rwa [tcpSendFinack_toTables]
  · obtain rfl := Option.some.inj hre
    exact h

theorem pollConn_steps (h : Steps t s.toTables) (hst : s.connr.state = Ts.established)
    (hpoll : pollConn calls s = some s') : Steps t s'.toTables := by
  obtain ⟨s₁, hcall, rfl⟩ := bind_some_eq hpoll
  exact appcall_appsend_steps hcall h hst

theorem uipTimer_steps (htimer : uipTimer calls s = some s')
    (hpolite : ∀ v, s'.seen = some v → Polite calls v.tcb) : Steps s.toTables s'.toTables := by
  unfold uipTimer at htimer
  dsimp only at htimer
  generalize hs₁ : ({ s with iss := inc32 s.iss, len := 0, slen := 0 } : Uip) = s₁ at htimer
  have h₁ : Steps s.toTables s₁.toTables := by
    rw [← hs₁]
    exact .single .other
  clear hs₁
  have hedit : ∀ c : Conn, c.lport = s₁.connr.lport → c.rport = s₁.connr.rport →
      c.ripaddr = s₁.connr.ripaddr → c.tcpstateflags = s₁.connr.tcpstateflags →
      (s₁.connr.Bounded → c.Bounded) → Steps s.toTables (s₁.setConnr c).toTables :=
    fun c hl hr hip hst hb => h₁.edit (.of_eq hl hr hip hst hb)
  split_ifs at htimer with hwait htime hclosed hout h0 hmax hback hest
  · obtain rfl := Option.some.inj htimer
    exact Steps.edit (hedit _ rfl rfl rfl rfl fun hb => ⟨hb.mss, hb.initialmss, hb.len⟩) (.close _)
  · obtain rfl := Option.some.inj htimer
    exact hedit _ rfl rfl rfl rfl fun hb => ⟨hb.mss, hb.initialmss, hb.len⟩
  · obtain ⟨s₂, hcall, rfl⟩ := bind_some_eq htimer
    simp only [tcpSendNodata_toTables, Uip.put8_toTables] at hpolite ⊢
    have hclose := Steps.edit (hedit { s₁.connr with timer := s₁.connr.timer - 1 } rfl rfl rfl rfl
      fun hb => ⟨hb.mss, hb.initialmss, hb.len⟩) (.close _)
    exact hclose.trans (uipAppcall_steps hcall (polite_of_seen hcall hpolite)).1
  · refine retransmit_steps ?_ htimer
    refine Steps.edit (hedit _ rfl rfl rfl rfl fun hb => ⟨hb.mss, hb.initialmss, hb.len⟩) ?_
    exact .of_eq rfl rfl rfl rfl fun hb => ⟨hb.mss, hb.initialmss, hb.len⟩
  · refine retransmit_steps ?_ htimer
    refine Steps.edit (hedit _ rfl rfl rfl rfl fun hb => ⟨hb.mss, hb.initialmss, hb.len⟩) ?_
    exact .of_eq rfl rfl rfl rfl fun hb => ⟨hb.mss, hb.initialmss, hb.len⟩
  · obtain rfl := Option.some.inj htimer
    exact hedit _ rfl rfl rfl rfl fun hb => ⟨hb.mss, hb.initialmss, hb.len⟩
  · exact pollConn_steps h₁ hest htimer
  · obtain rfl := Option.some.inj htimer
    exact h₁
  · obtain rfl := Option.some.inj htimer
    exact h₁

/-- A call of `uip_process` changes the tables in steps, from what they are when its connection has
been found. -/
theorem uipProcess_steps {flag : Request} (h : uipProcess calls s flag = some s')
    (hpolite : ∀ v, s'.seen = some v → Polite calls v.tcb) :
    Steps { s.toTables with conn := s'.conn } s'.toTables := by
  have hsame : ∀ s₁ : Uip, s₁.toTables = { s.toTables with seen := none } →
      Steps { s.toTables with conn := s₁.conn } s₁.toTables := fun s₁ h => by
    rw [h]
    exact .single .other
  have hstart : Steps s.toTables { s.toTables with seen := none } := .single .other
  unfold uipProcess at h
  cases flag with
  | data =>
    have hsteps := uipInput_steps h hpolite
    exact .head .other hsteps
  | timer =>
    exact Steps.of_conn (hstart.trans (uipTimer_steps h hpolite))
  | pollRequest =>
    dsimp only at h
    split_ifs at h with hest
    · have hsteps := pollConn_steps hstart hest.1 h
      rwa [show ({ s.toTables with conn := s'.conn } : Tables) = s.toTables by
        rw [hsteps.conn_eq.1]]
    · obtain rfl := Option.some.inj h
      exact hsame _ rfl

/-! ## Invariants -/

/-- No two active connections have the same ends. -/
def Tables.Distinct (t : Tables) : Prop := ∀ i j, (t.conns i).Active → (t.conns j).Active →
  (t.conns i).SameEnds (t.conns j) → i = j

theorem Conn.SameEnds.symm {c c' : Conn} (h : c.SameEnds c') : c'.SameEnds c :=
  ⟨h.1.symm, h.2.1.symm, h.2.2.symm⟩

theorem Conn.SameEnds.trans {c c' c'' : Conn} (h : c.SameEnds c') (h' : c'.SameEnds c'') :
    c.SameEnds c'' :=
  ⟨h.1.trans h'.1, h.2.1.trans h'.2.1, h.2.2.trans h'.2.2⟩

theorem Tables.Step.distinct (h : Step t t') (hd : t.Distinct) : t'.Distinct := by
  cases h with
  | edit hlegal =>
    -- What was not current is as it was, and what is has its old ends.
    have hold : ∀ i, (update t.conns t.conn _ i).Active → (t.conns i).Active ∧
        (update t.conns t.conn _ i).SameEnds (t.conns i) := fun i hi => by
      by_cases heq : i = t.conn
      · subst heq
        rw [update_self] at hi ⊢
        exact ⟨hlegal.active hi, hlegal.ends⟩
      · rw [update_of_ne heq] at hi ⊢
        exact ⟨hi, rfl, rfl, rfl⟩
    intro i j hi hj hends
    exact hd i j (hold i hi).1 (hold j hj).1
      ((hold i hi).2.symm.trans (hends.trans (hold j hj).2))
  | @take k c _ hfresh _ _ =>
    have hold : ∀ i, i ≠ k → update t.conns k c i = t.conns i := fun i hi => update_of_ne hi ..
    intro i j hi hj hends
    dsimp only at hi hj hends
    by_cases hik : i = k <;> by_cases hjk : j = k
    · rw [hik, hjk]
    · rw [hik, update_self, hold j hjk] at hends
      rw [hold j hjk] at hj
      exact absurd hends (hfresh j hj)
    · rw [hjk, update_self, hold i hik] at hends
      rw [hold i hik] at hi
      exact absurd hends.symm (hfresh i hi)
    · rw [hold i hik] at hi hends
      rw [hold j hjk] at hj hends
      exact hd i j hi hj hends
  | other => exact hd

theorem Tables.Steps.distinct (h : Steps t t') (hd : t.Distinct) : t'.Distinct := by
  induction h with
  | refl => exact hd
  | tail _ hstep ih => exact hstep.distinct ih

theorem Tables.Step.bounded (h : Step t t') (hb : ∀ k, (t.conns k).Bounded) :
    ∀ k, (t'.conns k).Bounded := by
  intro k
  cases h with
  | edit hlegal =>
    by_cases heq : k = t.conn
    · subst heq
      simpa using hlegal.bounded (hb _)
    · simpa [heq] using hb k
  | @take j _ _ _ hbounded _ =>
    by_cases heq : k = j
    · subst heq
      simpa using hbounded (hb _)
    · simpa [heq] using hb k
  | other => exact hb k

theorem Tables.Steps.bounded (h : Steps t t') (hb : ∀ k, (t.conns k).Bounded) :
    ∀ k, (t'.conns k).Bounded := by
  induction h with
  | refl => exact hb
  | tail _ hstep ih => exact hstep.bounded ih

/-- What becomes of an entry: it is kept as it is where it is not current, or it is moved on, or it
is taken for another connection. -/
theorem Tables.Steps.entry (h : Steps t t') (k : Fin uipConns) : t.opened k < t'.opened k ∨
    t'.opened k = t.opened k ∧ (k ≠ t.conn → t'.conns k = t.conns k) ∧
      ((t'.conns k).Active → (t.conns k).Active) ∧ (t'.conns k).SameEnds (t.conns k) ∧
      ReflTransGen Moves (t.conns k).state (t'.conns k).state := by
  induction h with
  | refl => exact .inr ⟨rfl, fun _ => rfl, id, ⟨rfl, rfl, rfl⟩, .refl⟩
  | @tail t₁ t₂ hsteps hstep ih =>
    have hconn := Tables.Steps.conn_eq hsteps
    cases hstep with
    | edit hlegal =>
      by_cases heq : k = t₁.conn
      · rcases ih with hlt | ⟨hopened, -, hactive, hends, hmoves⟩
        · exact .inl hlt
        · subst heq
          refine .inr ⟨hopened, fun hne => absurd hconn.1 hne, ?_⟩
          simp only [update_self]
          exact ⟨fun h => hactive (hlegal.active h), hlegal.ends.trans hends,
            hmoves.tail hlegal.moves⟩
      · simpa [heq] using ih
    | @take j c _ _ _ _ =>
      by_cases heq : k = j
      · subst heq
        left
        simp only [update_self]
        rcases ih with hlt | ⟨hopened, -⟩ <;> omega
      · simpa [heq] using ih
    | other => exact ih

end Fos.Net
