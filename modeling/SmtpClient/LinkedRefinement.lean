import SmtpClient.LinkedTransfer
import SmtpClient.Setup

/-!
The linked structures against the lists. Each pointer of a connection stands for a
position, each structure in memory for an entry of a list, and every function on
the structures fails when the one on the lists does and otherwise ends in related
states. What the sockets see and what becomes of the files is the same.
-/
namespace SmtpClient.LinkedRefinement

open MailTypes Queues Maildir TailQueues QueueCursors LocalFiltering SendCommands ClientFsm
open MxLookup Connections EventLoop Passes Setup LinkedTransfer

/-- A mail at its place in memory, with the places of its recipients. -/
structure MailAt where
  ptr : ℕ
  node : MailNode
  rcpts : List (ℕ × Rcpt)
  owns : Owns node.rcpts rcpts

def MailAt.cell (x : MailAt) : ℕ × MailNode := (x.ptr, x.node)

def MailAt.mail (x : MailAt) : Mail :=
  ⟨x.node.fromLine, x.rcpts.map Prod.snd, x.node.msg, x.node.filename⟩

/-- The mails and domains of a transfer in memory, and enough passes for the loops. -/
structure Stored (n : ℕ) (xs : List MailAt) (ds : List (ℕ × Domain)) (mem : Memory) : Prop where
  mails : Owns mem.mails (xs.map MailAt.cell)
  domains : Owns mem.domains ds
  mails_fit : xs.length ≤ n
  rcpts_fit : ∀ x ∈ xs, x.rcpts.length ≤ n

section Pointers

variable (xs : List MailAt) (ds : List (ℕ × Domain))

/-- A pointer to the mail at a position. -/
def MailPtr (p i : ℕ) : Prop := pointer (xs.map MailAt.cell) i = some p

/-- A pointer to a recipient of the mail at a position. -/
def RcptPtr (r : ℕ × ℕ) (s : ℕ × ℕ) : Prop :=
  ∃ x, xs[s.1]? = some x ∧ x.ptr = r.1 ∧ pointer x.rcpts s.2 = some r.2

/-- The structure of a connection and its entry in the list. -/
structure ConnRel (c' : ConnNode) (c : MxConn) : Prop where
  sock : c'.sock = c.sock
  state : c'.state = c.state
  m : Option.Rel (MailPtr xs) c'.m c.m
  r : Option.Rel (RcptPtr xs) c'.r c.r
  dom : (c'.dom, c.dom) ∈ ds
  time : c'.timeOfLastResponse = c.timeOfLastResponse

/-- Two sessions on a connection with this socket. -/
structure SessionRel (sock : ℤ) (s' : LinkedSession) (s : Session) : Prop where
  conn : ConnRel xs ds s'.conn s.conn
  socket : s'.conn.sock = sock
  wasSent : ∀ p i, MailPtr xs p i → s'.wasSent p = s.wasSent i
  sent : s'.sent = s.sent.map Sent.text

variable {xs ds}

theorem mailPtr_iff (p i : ℕ) : MailPtr xs p i ↔ ∃ x, xs[i]? = some x ∧ x.ptr = p := by
  unfold MailPtr
  rw [pointer_eq_some_iff]
  simp only [List.getElem?_map, Option.map_eq_some_iff]
  constructor
  · rintro ⟨-, ⟨x, hx, rfl⟩, hp⟩
    exact ⟨x, hx, hp⟩
  · rintro ⟨x, hx, hp⟩
    exact ⟨x.cell, ⟨x, hx, rfl⟩, hp⟩

theorem getElem?_mail {i : ℕ} {x : MailAt} (hx : xs[i]? = some x) :
    (xs.map MailAt.mail)[i]? = some x.mail := by
  rw [List.getElem?_map, hx]
  rfl

end Pointers

section Fsm

variable {n : ℕ} {xs : List MailAt} {ds : List (ℕ × Domain)} {mem : Memory} {sock : ℤ}
  {s' : LinkedSession} {s : Session}

theorem Stored.mail_at (h : Stored n xs ds mem) {i : ℕ} {x : MailAt} (hx : xs[i]? = some x) :
    ∃ prev, mem.mails.cells x.ptr =
      some ⟨x.node, pointer (xs.map MailAt.cell) (i + 1), prev⟩ :=
  cell_at h.mails.represents (x := x.cell) (by rw [List.getElem?_map, hx]; rfl)

theorem Stored.domain_at (h : Stored n xs ds mem) {a : ℕ} {d : Domain} (hd : (a, d) ∈ ds) :
    ∃ next prev, mem.domains.cells a = some ⟨d, next, prev⟩ := by
  obtain ⟨i, hi⟩ := List.getElem?_of_mem hd
  obtain ⟨prev, hcell⟩ := cell_at h.domains.represents hi
  exact ⟨_, prev, hcell⟩

theorem Stored.hasRcpts (h : Stored n xs ds mem) {x : MailAt} (hx : x ∈ xs) (d : Domain) :
    hasRcptsFromDomain n d x.node = some (mailHasRcptsFromDomain x.mail d) := by
  unfold hasRcptsFromDomain
  rw [foreach_read x.owns.represents (fun _ r ret => ret || rcptIsFromDomain r d) n
    (h.rcpts_fit x hx) false, mailHasRcptsFromDomain, MailAt.mail, List.any_map]
  congr 1
  generalize x.rcpts = l
  suffices hfold : ∀ b, l.foldl (fun ret y => ret || rcptIsFromDomain y.2 d) b =
      (b || l.any ((fun r => rcptIsFromDomain r d) ∘ Prod.snd)) by
    rw [hfold, Bool.false_or]
  induction l with
  | nil => simp
  | cons y l ih =>
    intro b
    rw [List.foldl_cons, ih, List.any_cons, Bool.or_assoc]
    rfl

/-- The search for a mail of a domain, from a position on. -/
theorem Stored.search_mail (h : Stored n xs ds mem) (d : Domain) (i : ℕ) :
    search mem.mails (hasRcptsFromDomain n d) n (pointer (xs.map MailAt.cell) i) =
      some ((seek (fun m => mailHasRcptsFromDomain m d) i ((xs.map MailAt.mail).drop i)).bind
        (pointer (xs.map MailAt.cell))) := by
  have hfit := h.mails_fit
  rw [search_eq MailAt.cell _ (fun x => mailHasRcptsFromDomain x.mail d)
    h.mails.represents
    (fun x hx => h.hasRcpts hx d) n i (by omega), ← List.map_drop, seek_map]

/-- The search for a recipient of a domain, from a position on. -/
theorem Stored.search_rcpt (h : Stored n xs ds mem) {x : MailAt} (hx : x ∈ xs) (d : Domain)
    (j : ℕ) :
    search x.node.rcpts (fun r => some (rcptIsFromDomain r d)) n (pointer x.rcpts j) =
      some ((seek (fun r => rcptIsFromDomain r d) j (x.mail.rcpts.drop j)).bind
        (pointer x.rcpts)) := by
  have hfit := h.rcpts_fit x hx
  have hrep : Represents x.node.rcpts (x.rcpts.map id) := by
    rw [List.map_id]
    exact x.owns.represents
  have hsearch := search_eq id (fun r => some (rcptIsFromDomain r d))
    (fun y => rcptIsFromDomain y.2 d) hrep (fun _ _ => rfl) n j (by omega)
  rw [List.map_id] at hsearch
  rw [hsearch, MailAt.mail, ← List.map_drop, seek_map]

variable (h : SessionRel xs ds sock s' s)
include h

theorem SessionRel.send (command : Command) (text : Bytes) :
    SessionRel xs ds sock (s'.send text) (s.send command text) := by
  refine ⟨h.conn, h.socket, h.wasSent, ?_⟩
  change s'.sent ++ [text] = (s.sent ++ [Sent.mk command text]).map Sent.text
  rw [h.sent, List.map_append]
  rfl

theorem SessionRel.setM {p i : Option ℕ} (hm : Option.Rel (MailPtr xs) p i) :
    SessionRel xs ds sock (s'.setM p) (s.setM i) :=
  ⟨⟨h.conn.sock, h.conn.state, hm, h.conn.r, h.conn.dom, h.conn.time⟩, h.socket, h.wasSent, h.sent⟩

theorem SessionRel.setR {r j : Option (ℕ × ℕ)} (hr : Option.Rel (RcptPtr xs) r j) :
    SessionRel xs ds sock (s'.setR r) (s.setR j) :=
  ⟨⟨h.conn.sock, h.conn.state, h.conn.m, hr, h.conn.dom, h.conn.time⟩, h.socket, h.wasSent, h.sent⟩

theorem SessionRel.markSent (hmem : Stored n xs ds mem) {p i : ℕ} (hm : MailPtr xs p i) :
    SessionRel xs ds sock (s'.markSent p) (s.markSent i) := by
  refine ⟨h.conn, h.socket, ?_, h.sent⟩
  intro q j hq
  change Function.update s'.wasSent p true q = Function.update s.wasSent i true j
  by_cases hqp : q = p
  · subst hqp
    obtain rfl : j = i := pointer_inj hmem.mails.represents hq hm
    rw [Function.update_self, Function.update_self]
  · have hji : j ≠ i := by
      rintro rfl
      exact hqp (Option.some.inj (hq.symm.trans hm))
    rw [Function.update_of_ne hqp, Function.update_of_ne hji, h.wasSent q j hq]

theorem sendMailfrom_rel (hmem : Stored n xs ds mem) :
    Option.Rel (SessionRel xs ds sock) (mem.sendMailfrom s')
      (sendMailfrom (xs.map MailAt.mail) s) := by
  refine rel_bind h.conn.m ?_
  intro p i hm
  obtain ⟨x, hx, rfl⟩ := (mailPtr_iff p i).mp hm
  obtain ⟨prev, hcell⟩ := hmem.mail_at hx
  rw [hcell, getElem?_mail hx]
  exact .some (h.send (.mailfrom i) x.node.fromLine)

theorem sendDatastr_rel (hmem : Stored n xs ds mem) :
    Option.Rel (SessionRel xs ds sock) (mem.sendDatastr s')
      (sendDatastr (xs.map MailAt.mail) s) := by
  refine rel_bind h.conn.m ?_
  intro p i hm
  obtain ⟨x, hx, rfl⟩ := (mailPtr_iff p i).mp hm
  obtain ⟨prev, hcell⟩ := hmem.mail_at hx
  rw [hcell, getElem?_mail hx]
  exact .some (h.send (.datastr i) x.node.msg)

theorem sendRcptto_rel (hmem : Stored n xs ds mem) :
    Option.Rel (fun a b => a.1 = b.1 ∧ SessionRel xs ds sock a.2 b.2) (mem.sendRcptto n s')
      (sendRcptto (xs.map MailAt.mail) s) := by
  have hr := h.conn.r
  unfold Memory.sendRcptto sendRcptto
  cases hr' : s'.conn.r with
  | none =>
    rw [hr'] at hr
    cases hs : s.conn.r with
    | none => exact .some ⟨rfl, h⟩
    | some _ =>
      rw [hs] at hr
      cases hr
  | some pa =>
    rw [hr'] at hr
    cases hs : s.conn.r with
    | none =>
      rw [hs] at hr
      cases hr
    | some ij =>
      rw [hs] at hr
      obtain ⟨p, a⟩ := pa
      obtain ⟨i, j⟩ := ij
      obtain ⟨x, hx, hp, ha⟩ : RcptPtr xs (p, a) (i, j) := by
        cases hr with
        | some hr => exact hr
      obtain rfl : x.ptr = p := hp
      have hxmem := List.mem_of_getElem? hx
      obtain ⟨prev, hcell⟩ := hmem.mail_at hx
      obtain ⟨dnext, dprev, hdom⟩ := hmem.domain_at h.conn.dom
      have hsearch := hmem.search_rcpt hxmem s.conn.dom j
      rw [show pointer x.rcpts j = some a from ha] at hsearch
      simp only [hcell, getElem?_mail hx, hdom, hsearch, Option.bind_eq_bind, Option.bind_some]
      cases hk : seek (fun r => rcptIsFromDomain r s.conn.dom) j (x.mail.rcpts.drop j) with
      | none => exact .some ⟨rfl, h.setR .none⟩
      | some k =>
        have hlt := seek_lt _ _ j k hk
        have hlen : k < x.rcpts.length := by
          rw [MailAt.mail, List.length_map] at hlt
          exact hlt
        have hy := List.getElem?_eq_getElem hlen
        obtain ⟨rprev, hrcpt⟩ := cell_at x.owns.represents hy
        have hmail : x.mail.rcpts[k]? = some x.rcpts[k].2 := by
          rw [MailAt.mail, List.getElem?_map, hy]
          rfl
        simp only [Option.bind_some, pointer_of_getElem? hy, hrcpt, hmail]
        refine .some ⟨rfl, (h.send (.rcptto i k) _).setR ?_⟩
        have hnext : next x.mail.rcpts k = if k + 1 < x.rcpts.length then some (k + 1) else none := by
          rw [next, MailAt.mail, List.length_map]
        rw [hnext]
        split
        · rename_i hnext
          have hz := pointer_of_getElem? (List.getElem?_eq_getElem hnext)
          rw [hz]
          exact .some ⟨x, hx, rfl, hz⟩
        · rename_i hend
          have hz : pointer x.rcpts (k + 1) = none := by
            rw [pointer, List.getElem?_eq_none (by omega)]
            rfl
          rw [hz]
          exact .none

/-- Two results of the state machine. -/
def StepRel (xs : List MailAt) (ds : List (ℕ × Domain)) (sock : ℤ)
    (a : FsmState × LinkedSession) (b : FsmState × Session) : Prop :=
  a.1 = b.1 ∧ SessionRel xs ds sock a.2 b.2

theorem datastrR250_rel (hmem : Stored n xs ds mem)
    (step' : FsmState → FsmEvent → LinkedSession → Option (FsmState × LinkedSession))
    (step : FsmState → FsmEvent → Session → Option (FsmState × Session))
    (hstep : ∀ st evt a b, SessionRel xs ds sock a b →
      Option.Rel (StepRel xs ds sock) (step' st evt a) (step st evt b)) (nxtSt : FsmState) :
    Option.Rel (StepRel xs ds sock) (mem.transAction n step' nxtSt s' .datastrR250)
      (transAction (xs.map MailAt.mail) step nxtSt s .datastrR250) := by
  refine rel_bind h.conn.m ?_
  intro p i hm
  obtain ⟨x, hx, rfl⟩ := (mailPtr_iff p i).mp hm
  obtain ⟨prev, hcell⟩ := hmem.mail_at hx
  obtain ⟨dnext, dprev, hdom⟩ := hmem.domain_at h.conn.dom
  have hmark := h.markSent hmem hm
  have hsearch := hmem.search_mail s.conn.dom (i + 1)
  have hskip : skipMails (xs.map MailAt.mail) (s.markSent i).conn.dom i =
    seek (fun m => mailHasRcptsFromDomain m s.conn.dom) (i + 1) ((xs.map MailAt.mail).drop (i + 1)) :=
    rfl
  simp only [hcell, getElem?_mail hx, hdom, hsearch, hskip, Option.bind_eq_bind, Option.bind_some]
  cases hk : seek (fun m => mailHasRcptsFromDomain m s.conn.dom) (i + 1)
      ((xs.map MailAt.mail).drop (i + 1)) with
  | none => exact hstep .datastr .noMail _ _ (hmark.setM .none)
  | some k =>
    have hlen : k < xs.length := by
      have hlt := seek_lt _ _ (i + 1) k hk
      rwa [List.length_map] at hlt
    have hy := List.getElem?_eq_getElem hlen
    have hptr : MailPtr xs xs[k].ptr k := (mailPtr_iff _ k).mpr ⟨xs[k], hy, rfl⟩
    obtain ⟨kprev, hkcell⟩ := hmem.mail_at hy
    have hfirst : Option.Rel (RcptPtr xs)
        (xs[k].node.rcpts.first.map fun a => (xs[k].ptr, a))
        ((first xs[k].mail.rcpts).map fun l => (k, l)) := by
      rw [pointer_first xs[k].owns.represents, MailAt.mail, first]
      cases hl : xs[k].rcpts with
      | nil => exact .none
      | cons z l => exact .some ⟨xs[k], hy, rfl, by rw [hl]; rfl⟩
    simp only [Option.bind_some, show pointer (xs.map MailAt.cell) k = some xs[k].ptr from hptr,
      hkcell, getElem?_mail hy]
    refine rel_bind (sendMailfrom_rel ((hmark.setM (.some hptr)).setR hfirst) hmem) ?_
    intro a b hab
    exact .some ⟨rfl, hab⟩

theorem transAction_rel (hmem : Stored n xs ds mem)
    (step' : FsmState → FsmEvent → LinkedSession → Option (FsmState × LinkedSession))
    (step : FsmState → FsmEvent → Session → Option (FsmState × Session))
    (hstep : ∀ st evt a b, SessionRel xs ds sock a b →
      Option.Rel (StepRel xs ds sock) (step' st evt a) (step st evt b))
    (nxtSt : FsmState) (tr : FsmTrans) :
    Option.Rel (StepRel xs ds sock) (mem.transAction n step' nxtSt s' tr)
      (transAction (xs.map MailAt.mail) step nxtSt s tr) := by
  cases tr with
  | datastrR250 => exact datastrR250_rel h hmem step' step hstep nxtSt
  | datastrNoMail => exact .some ⟨rfl, h.send .quit msgQuit⟩
  | initR220 => exact .some ⟨rfl, h.send .helo msgHelo⟩
  | rcpttoNoRcpt => exact .some ⟨rfl, h.send .data msgData⟩
  | dataR354 => exact rel_bind (sendDatastr_rel h hmem) fun a b hab => .some ⟨rfl, hab⟩
  | heloR250 => exact rel_bind (sendMailfrom_rel h hmem) fun a b hab => .some ⟨rfl, hab⟩
  | mailfromR250 => exact rel_bind (sendRcptto_rel h hmem) fun a b hab => .some ⟨rfl, hab.2⟩
  | rcpttoR250 =>
    refine rel_bind (sendRcptto_rel h hmem) ?_
    rintro ⟨more', a⟩ ⟨more, b⟩ ⟨hmore, hab⟩
    obtain rfl : more' = more := hmore
    cases more' with
    | true => exact .some ⟨rfl, hab⟩
    | false => exact hstep .rcptto .noRcpt a b hab
  | invalid | quitR221 | datastrTimeout | dataTimeout | heloTimeout | initTimeout
  | mailfromTimeout | quitTimeout | rcpttoTimeout => exact .some ⟨rfl, h⟩

omit h in
/-- The state machine does the same on the structures and on the lists. -/
theorem fsmStepN_rel (hmem : Stored n xs ds mem) (k : ℕ) (st : FsmState) (evt : FsmEvent)
    (h : SessionRel xs ds sock s' s) :
    Option.Rel (StepRel xs ds sock) (mem.fsmStepN n k st evt s')
      (smtpClientFsmStepN (xs.map MailAt.mail) k st evt s) := by
  induction k generalizing st evt s' s with
  | zero => exact .none
  | succ k ih =>
    rw [Memory.fsmStepN, smtpClientFsmStepN]
    split
    · exact .some ⟨rfl, h⟩
    · exact transAction_rel h hmem _ _ (fun st evt a b hab => ih st evt hab) _ _

omit h in
theorem fsmStep_rel (hmem : Stored n xs ds mem) {st' st : FsmState} (hst : st' = st)
    (evt : FsmEvent) (h : SessionRel xs ds sock s' s) :
    Option.Rel (StepRel xs ds sock) (mem.fsmStep n st' evt s')
      (smtpClientFsmStep (xs.map MailAt.mail) st evt s) :=
  hst ▸ fsmStepN_rel hmem 2 st' evt h

end Fsm

section Loop

/-- The socket of the connection at a position. -/
def sockOf (conns : List MxConn) (p : ℕ) : ℤ := (conns[p]?).elim 0 MxConn.sock

def sockCall (conns : List MxConn) : Act → SockCall
  | .recv p result => .recv (sockOf conns p) result
  | .send p sent => .send (sockOf conns p) sent.text
  | .close p => .close (sockOf conns p)

/-- The connections that a trace closes, in their order. -/
def closedConns (trace : List Act) : List ℕ :=
  trace.filterMap fun
    | .close p => some p
    | _ => none

/-- The memory of a transfer and its lists. The open connections are named with their
positions, and addr says where each of them was allocated. -/
structure Refines (n : ℕ) (xs : List MailAt) (ds : List (ℕ × Domain)) (addr : ℕ → ℕ)
    (cs : List (ℕ × ConnNode)) (mem : Memory) (w : World) : Prop where
  stored : Stored n xs ds mem
  mails : w.mails = xs.map MailAt.mail
  connections : Owns mem.connections (cs.map fun x => (addr x.1, x.2))
  listed : cs.map Prod.fst = w.connections
  conns : ∀ x ∈ cs, ∃ c, w.conns[x.1]? = some c ∧ ConnRel xs ds x.2 c
  count : mem.connectionsCount = w.connectionsCount
  wasSent : ∀ p i, MailPtr xs p i → mem.wasSent p = w.wasSent i
  calls : mem.calls = w.trace.map (sockCall w.conns)
  fits : cs.length ≤ n
  closes : (closedConns w.trace ++ w.connections).Perm (List.range w.conns.length)

variable {n : ℕ} {xs : List MailAt} {ds : List (ℕ × Domain)} {addr : ℕ → ℕ}
  {cs l₁ l₂ : List (ℕ × ConnNode)} {p : ℕ} {node node' : ConnNode} {c c' : MxConn} {mem : Memory}
  {w : World}

theorem Refines.position_lt (h : Refines n xs ds addr cs mem w) (hp : p ∈ w.connections) :
    p < w.conns.length :=
  List.mem_range.mp (h.closes.subset (List.mem_append_right _ hp))

theorem sockOf_set (conns : List MxConn) (hc : conns[p]? = some c) (hsock : c'.sock = c.sock) :
    sockOf (conns.set p c') = sockOf conns := by
  funext q
  unfold sockOf
  by_cases hq : q = p
  · subst hq
    rw [List.getElem?_set_self (List.getElem?_eq_some_iff.mp hc).1, hc]
    exact hsock
  · rw [List.getElem?_set_ne (Ne.symm hq)]

theorem sockCall_set (conns : List MxConn) (hc : conns[p]? = some c) (hsock : c'.sock = c.sock) :
    sockCall (conns.set p c') = sockCall conns := by
  funext a
  cases a <;> simp only [sockCall, sockOf_set conns hc hsock]

theorem Refines.nodup (h : Refines n xs ds addr cs mem w) : (cs.map Prod.fst).Nodup := by
  have haddr := h.connections.represents.1
  rw [List.map_map] at haddr
  refine List.Nodup.of_map addr ?_
  rw [List.map_map]
  exact haddr

/-- One connection changes, with the flags and the calls. -/
theorem Refines.set (h : Refines n xs ds addr (l₁ ++ (p, node) :: l₂) mem w)
    (hc : w.conns[p]? = some c) (hrel : ConnRel xs ds node' c') (hsock : c'.sock = c.sock)
    (wasSent' : ℕ → Bool) (wasSent : ℕ → Bool)
    (hsent : ∀ p i, MailPtr xs p i → wasSent' p = wasSent i) (calls : List SockCall)
    (acts : List Act) (hcalls : calls = acts.map (sockCall w.conns))
    (hacts : closedConns acts = []) :
    ∃ q, mem.connections.setValue (addr p) node' = some q ∧
      Refines n xs ds addr (l₁ ++ (p, node') :: l₂)
        { mem with connections := q, wasSent := wasSent', calls := mem.calls ++ calls }
        { w with conns := w.conns.set p c', wasSent := wasSent, trace := w.trace ++ acts } := by
  have hnodup := h.nodup
  have howns := h.connections
  rw [List.map_append, List.map_cons] at howns hnodup
  obtain ⟨q, hset, hq⟩ := howns.setValue node'
  refine ⟨q, hset, ⟨h.stored.mails, h.stored.domains, h.stored.mails_fit, h.stored.rcpts_fit⟩,
    h.mails, ?_, ?_, ?_, h.count, hsent, ?_, ?_, ?_⟩
  · rw [List.map_append, List.map_cons]
    exact hq
  · rw [← h.listed, List.map_append, List.map_append, List.map_cons, List.map_cons]
  · intro x hx
    have hother : x ∈ l₁ ++ l₂ → ∃ d, (w.conns.set p c')[x.1]? = some d ∧ ConnRel xs ds x.2 d := by
      intro hold
      obtain ⟨d, hd, hdrel⟩ := h.conns x (by grind)
      have hne : p ≠ x.1 := by
        rintro rfl
        have hmem : x.1 ∈ l₁.map Prod.fst ++ l₂.map Prod.fst := by
          rw [← List.map_append]
          exact List.mem_map_of_mem hold
        exact (List.nodup_cons.mp (List.nodup_middle.mp hnodup)).1 hmem
      exact ⟨d, by rw [List.getElem?_set_ne hne]; exact hd, hdrel⟩
    rcases List.mem_append.mp hx with hx | hx
    · exact hother (List.mem_append_left _ hx)
    · rcases List.mem_cons.mp hx with rfl | hx
      · exact ⟨c', List.getElem?_set_self (List.getElem?_eq_some_iff.mp hc).1, hrel⟩
      · exact hother (List.mem_append_right _ hx)
  · change mem.calls ++ calls = (w.trace ++ acts).map (sockCall (w.conns.set p c'))
    rw [sockCall_set w.conns hc hsock, List.map_append, h.calls, hcalls]
  · have hfits := h.fits
    simpa using hfits
  · change (closedConns (w.trace ++ acts) ++ w.connections).Perm (.range (w.conns.set p c').length)
    rw [closedConns, List.filterMap_append, show acts.filterMap _ = [] from hacts, List.append_nil,
      List.length_set]
    exact h.closes

/-- The connection at a position of the queue. -/
theorem Refines.conn_at (h : Refines n xs ds addr (l₁ ++ (p, node) :: l₂) mem w) :
    ∃ c next prev, w.conns[p]? = some c ∧ ConnRel xs ds node c ∧
      mem.connections.cells (addr p) = some ⟨node, next, prev⟩ := by
  obtain ⟨c, hc, hrel⟩ := h.conns (p, node) (by simp)
  have hrep := h.connections.represents
  rw [List.map_append, List.map_cons] at hrep
  obtain ⟨prev, hcell⟩ := hrep.cell
  exact ⟨c, _, prev, hc, hrel, hcell⟩

/-- The domain of a connection is in memory. -/
theorem Refines.domain_cell (h : Refines n xs ds addr (l₁ ++ (p, node) :: l₂) mem w) :
    ∃ d, mem.domains.cells node.dom = some d := by
  obtain ⟨c, next, prev, hc, hrel, hcell⟩ := h.conn_at
  obtain ⟨dnext, dprev, hdom⟩ := h.stored.domain_at hrel.dom
  exact ⟨_, hdom⟩

theorem Refines.invalidate (h : Refines n xs ds addr (l₁ ++ (p, node) :: l₂) mem w) :
    ∃ mem', mem.invalidateConnection (addr p) = some mem' ∧
      Refines n xs ds addr (l₁ ++ (p, { node with state := .invalid }) :: l₂) mem'
        (invalidateConnection w p) := by
  obtain ⟨c, next, prev, hc, hrel, hcell⟩ := h.conn_at
  have hrel' : ConnRel xs ds { node with state := .invalid } { c with state := .invalid } :=
    ⟨hrel.sock, rfl, hrel.m, hrel.r, hrel.dom, hrel.time⟩
  obtain ⟨q, hset, hq⟩ := h.set hc hrel' rfl mem.wasSent w.wasSent h.wasSent [] [] rfl rfl
  refine ⟨{ mem with connections := q }, ?_, ?_⟩
  · unfold Memory.invalidateConnection
    simp only [hcell, Option.bind_eq_bind, Option.bind_some, hset]
    rfl
  · unfold invalidateConnection
    rw [hc]
    simpa [World.setConn] using hq

/-- The memory of a transfer refines its lists. -/
def Related (n : ℕ) (xs : List MailAt) (ds : List (ℕ × Domain)) (addr : ℕ → ℕ) (mem : Memory)
    (w : World) : Prop :=
  ∃ cs, Refines n xs ds addr cs mem w

theorem Refines.split (h : Refines n xs ds addr cs mem w) (hp : p ∈ w.connections) :
    ∃ l₁ node l₂, cs = l₁ ++ (p, node) :: l₂ := by
  rw [← h.listed] at hp
  obtain ⟨⟨q, node⟩, hx, rfl⟩ := List.mem_map.mp hp
  obtain ⟨l₁, l₂, rfl⟩ := List.append_of_mem hx
  exact ⟨l₁, node, l₂, rfl⟩

/-- A reply drives the connection to the same state, with the same commands. -/
theorem parseResponse_rel (h : Refines n xs ds addr cs mem w) (hp : p ∈ w.connections)
    (str : Bytes) (now : ℤ) :
    Option.Rel (Related n xs ds addr) (mem.parseResponse n (addr p) str now)
      (parseResponse w p str now) := by
  obtain ⟨l₁, node, l₂, rfl⟩ := h.split hp
  obtain ⟨c, next, prev, hc, hrel, hcell⟩ := h.conn_at
  obtain ⟨dnext, dprev, hdom⟩ := h.stored.domain_at hrel.dom
  have hsession : SessionRel xs ds node.sock ⟨{ node with timeOfLastResponse := now }, mem.wasSent, []⟩
      ⟨{ c with timeOfLastResponse := now }, w.wasSent, []⟩ :=
    ⟨⟨hrel.sock, hrel.state, hrel.m, hrel.r, hrel.dom, rfl⟩, rfl, h.wasSent, rfl⟩
  unfold Memory.parseResponse parseResponse
  simp only [hcell, hdom, hc, Option.bind_eq_bind, Option.bind_some]
  have hstep := fsmStep_rel h.stored hrel.state (replyEvent str) hsession
  rw [← h.mails] at hstep
  refine rel_bind hstep ?_
  rintro ⟨st', a⟩ ⟨st, b⟩ ⟨hst, hab⟩
  obtain rfl : st' = st := hst
  have hrel' : ConnRel xs ds (a.setState st').conn (b.setState st').conn :=
    ⟨hab.conn.sock, rfl, hab.conn.m, hab.conn.r, hab.conn.dom, hab.conn.time⟩
  have hsock : (b.setState st').conn.sock = c.sock := by
    change b.conn.sock = c.sock
    rw [← hab.conn.sock, hab.socket, hrel.sock]
  have hcalls : a.sent.map (SockCall.send node.sock) =
      (b.sent.map (Act.send p)).map (sockCall w.conns) := by
    rw [hab.sent, List.map_map, List.map_map]
    apply List.map_congr_left
    intro x _
    change SockCall.send node.sock x.text = .send (sockOf w.conns p) x.text
    rw [sockOf, hc, hrel.sock]
    rfl
  have hacts : closedConns (b.sent.map (Act.send p)) = [] := by
    unfold closedConns
    rw [List.filterMap_map]
    exact List.filterMap_eq_nil_iff.mpr fun _ _ => rfl
  obtain ⟨q, hset, hq⟩ :=
    h.set hc hrel' hsock a.wasSent b.wasSent hab.wasSent _ _ hcalls hacts
  rw [hset]
  exact .some ⟨_, hq⟩

/-- The call of recv is logged. -/
theorem Refines.recv (h : Refines n xs ds addr (l₁ ++ (p, node) :: l₂) mem w)
    (result : RecvResult) :
    Refines n xs ds addr (l₁ ++ (p, node) :: l₂) (mem.log [.recv node.sock result])
      (World.log w [.recv p result]) := by
  obtain ⟨c, next, prev, hc, hrel, hcell⟩ := h.conn_at
  refine ⟨⟨h.stored.mails, h.stored.domains, h.stored.mails_fit, h.stored.rcpts_fit⟩, h.mails,
    h.connections, h.listed, h.conns, h.count, h.wasSent, ?_, h.fits, ?_⟩
  · change mem.calls ++ [.recv node.sock result] =
      (w.trace ++ [Act.recv p result]).map (sockCall w.conns)
    rw [List.map_append, h.calls, List.map_singleton, sockCall, sockOf, hc, hrel.sock]
    rfl
  · change (closedConns (w.trace ++ [.recv p result]) ++ w.connections).Perm _
    rw [closedConns, List.filterMap_append]
    exact (List.append_nil (closedConns w.trace)).symm ▸ h.closes

/-- The loop that fills the array for poll. -/
theorem Refines.pollSocks (h : Refines n xs ds addr cs mem w) :
    mem.pollSocks n = some (cs.map fun x => x.2.sock) := by
  have hlen : (cs.map fun x => (addr x.1, x.2)).length ≤ n := by
    rw [List.length_map]
    exact h.fits
  unfold Memory.pollSocks
  rw [foreach_read h.connections.represents (fun _ c socks => socks ++ [c.sock]) n hlen [],
    List.foldl_map, List.foldl_append_eq_append, List.nil_append, ← List.flatMap_def,
    ← List.map_eq_flatMap]

theorem Refines.sock_at (h : Refines n xs ds addr cs mem w) {x : ℕ × ConnNode} (hx : x ∈ cs) :
    (w.conns[x.1]?).map MxConn.sock = some x.2.sock := by
  obtain ⟨c, hc, hrel⟩ := h.conns x hx
  rw [hc, hrel.sock]
  rfl

theorem Refines.getConnBySocket (h : Refines n xs ds addr cs mem w) (sock : ℤ) :
    mem.getConnBySocket n sock = some ((getConnBySocket w sock).map addr) := by
  have hlen : (cs.map fun x => (addr x.1, x.2)).length ≤ n := by
    rw [List.length_map]
    exact h.fits
  unfold Memory.getConnBySocket EventLoop.getConnBySocket
  rw [foreach_read h.connections.represents (fun p c rc => if c.sock = sock then some p else rc) n
    hlen none, List.foldl_map, ← h.listed, List.foldl_map]
  congr 1
  suffices hfold : ∀ (l : List (ℕ × ConnNode)) (rc : Option ℕ), (∀ x ∈ l, x ∈ cs) →
      l.foldl (fun rc x => if x.2.sock = sock then some (addr x.1) else rc) (rc.map addr) =
        (l.foldl (fun rc x => if (w.conns[x.1]?).map MxConn.sock = some sock then some x.1 else rc)
          rc).map addr from hfold cs none fun _ hx => hx
  intro l
  induction l with
  | nil =>
    intro rc _
    rfl
  | cons x l ih =>
    intro rc hl
    rw [List.foldl_cons, List.foldl_cons, h.sock_at (hl x List.mem_cons_self),
      ← ih _ fun y hy => hl y (List.mem_cons_of_mem x hy)]
    congr 1
    by_cases hsock : x.2.sock = sock
    · rw [if_pos hsock, if_pos (congrArg some hsock)]
      rfl
    · rw [if_neg hsock, if_neg (fun heq => hsock (Option.some.inj heq))]

theorem Refines.pollFds (h : Refines n xs ds addr cs mem w) (stack : ℕ → ℤ) (i : ℕ) :
    ((cs.map fun x => x.2.sock)[i]?).getD (stack i) = pollFds w stack i := by
  unfold EventLoop.pollFds
  rw [← h.listed, List.getElem?_map, List.getElem?_map]
  cases hx : cs[i]? with
  | none => rfl
  | some x =>
    obtain ⟨c, hc, hrel⟩ := h.conns x (List.mem_of_getElem? hx)
    simp only [Option.map_some, Option.bind_some, hc, Option.getD_some, hrel.sock]

/-- One call of wait_for_response. -/
theorem waitForResponse_rel (h : Refines n xs ds addr cs mem w) (inp : PassInput) :
    Option.Rel (fun a b => a.1 = b.1 ∧ Related n xs ds addr a.2 b.2) (mem.waitForResponse n inp)
      (waitForResponse w inp) := by
  unfold Memory.waitForResponse waitForResponse
  simp only [h.pollSocks, Option.bind_eq_bind, Option.bind_some, h.count]
  cases readableEntry w.connectionsCount inp.poll with
  | none => exact .some ⟨rfl, cs, h⟩
  | some i =>
    simp only [h.pollFds, h.getConnBySocket, Option.bind_some]
    cases hp : getConnBySocket w (pollFds w inp.stack i) with
    | none => exact .none
    | some p =>
      have hmem := getConnBySocket_mem w _ p hp
      obtain ⟨l₁, node, l₂, rfl⟩ := h.split hmem.1
      obtain ⟨c, next, prev, hc, hrel, hcell⟩ := h.conn_at
      have hlog := h.recv inp.recv
      obtain ⟨d, hdom⟩ := hlog.domain_cell
      simp only [Option.map_some, Option.bind_some, hcell, hdom]
      cases hr : inp.recv with
      | error | disconnected =>
        rw [hr] at hlog
        obtain ⟨mem', hinvalid, href⟩ := hlog.invalidate
        simp only [hinvalid, Option.bind_some]
        exact .some ⟨rfl, _, href⟩
      | data chunk =>
        rw [hr] at hlog
        exact rel_bind (parseResponse_rel hlog hmem.1 chunk.buf inp.now)
          fun a b hab => .some ⟨rfl, hab⟩

/-- The inputs of a pass for the lists, where a clock reading belongs to a position. -/
def atPositions (addr : ℕ → ℕ) (inp : PassInput) : PassInput :=
  { inp with clock := fun p => inp.clock (addr p) }

theorem Refines.freeConnection (h : Refines n xs ds addr (l₁ ++ (p, node) :: l₂) mem w) :
    ∃ mem', mem.freeConnection (addr p) = some mem' ∧
      Refines n xs ds addr (l₁ ++ l₂) mem' (freeConnection w p) := by
  obtain ⟨c, next, prev, hc, hrel, hcell⟩ := h.conn_at
  have hnodup := h.nodup
  have howns := h.connections
  rw [List.map_append, List.map_cons] at howns hnodup
  obtain ⟨q, hremove, hq⟩ := howns.remove
  obtain ⟨cell, hcell', hnode⟩ := removed_cell howns.represents hremove
  refine ⟨{ mem with
    connections := q.free (addr p)
    calls := mem.calls ++ [.close node.sock] }, ?_, ?_⟩
  · unfold Memory.freeConnection
    simp only [hremove, hcell', hnode, Option.bind_eq_bind, Option.bind_some]
    rfl
  · have hsock : sockOf w.conns p = node.sock := by
      rw [sockOf, hc, hrel.sock]
      rfl
    refine ⟨⟨h.stored.mails, h.stored.domains, h.stored.mails_fit, h.stored.rcpts_fit⟩, h.mails,
      ?_, ?_, ?_, h.count, h.wasSent, ?_, ?_, ?_⟩
    · rw [List.map_append]
      exact hq
    · change (l₁ ++ l₂).map Prod.fst = w.connections.erase p
      have hp : p ∉ l₁.map Prod.fst :=
        fun hmem => (List.nodup_cons.mp (List.nodup_middle.mp hnodup)).1
          (List.mem_append_left _ hmem)
      rw [← h.listed, List.map_append, List.map_append, List.map_cons,
        List.erase_append_right _ hp, List.erase_cons_head]
    · intro x hx
      exact h.conns x (by grind)
    · change mem.calls ++ [.close node.sock] = (w.trace ++ [Act.close p]).map (sockCall w.conns)
      rw [List.map_append, h.calls, List.map_singleton, sockCall, hsock]
    · have hfits := h.fits
      simp only [List.length_append, List.length_cons] at hfits ⊢
      omega
    · have hp : p ∈ w.connections := by
        rw [← h.listed]
        simp
      change (closedConns (w.trace ++ [.close p]) ++ w.connections.erase p).Perm _
      have hclosed : closedConns (w.trace ++ [.close p]) = closedConns w.trace ++ [p] := by
        rw [closedConns, List.filterMap_append]
        rfl
      rw [hclosed, List.append_assoc]
      exact ((List.perm_cons_erase hp).symm.append_left _).trans h.closes

/-- The check of one connection keeps it or removes it on both sides. -/
theorem Refines.sweepConn (h : Refines n xs ds addr (l₁ ++ (p, node) :: l₂) mem w) (timeout : ℤ)
    (clock : ℕ → ℤ) : ∃ mem' kept, mem.sweepConn timeout clock (addr p) = some mem' ∧
      Refines n xs ds addr (l₁ ++ kept ++ l₂) mem'
        (sweepConn timeout (fun p => clock (addr p)) w p) := by
  obtain ⟨c, next, prev, hc, hrel, hcell⟩ := h.conn_at
  obtain ⟨d, hdom⟩ := h.domain_cell
  unfold Memory.sweepConn EventLoop.sweepConn timedOut
  simp only [hcell, hc, Option.bind_eq_bind, Option.bind_some]
  by_cases hout : clock (addr p) - node.timeOfLastResponse > timeout
  · have hout' : clock (addr p) - c.timeOfLastResponse > timeout := hrel.time ▸ hout
    obtain ⟨mem₁, hinvalid, h₁⟩ := h.invalidate
    obtain ⟨c₁, next₁, prev₁, -, -, hcell₁⟩ := h₁.conn_at
    obtain ⟨d₁, hdom₁⟩ := h₁.domain_cell
    obtain ⟨mem₂, hfree, h₂⟩ := h₁.freeConnection
    refine ⟨mem₂, [], ?_, ?_⟩
    · simp only [if_pos hout, hdom, hinvalid, hcell₁, hdom₁, Option.bind_some, or_true, if_true]
      exact hfree
    · simp only [hout', decide_true, if_true, or_true, List.append_nil]
      exact h₂
  · have hout' : ¬ clock (addr p) - c.timeOfLastResponse > timeout := hrel.time ▸ hout
    simp only [if_neg hout, hout', decide_false, Bool.false_eq_true, if_false, hrel.state]
    by_cases hstate : c.state = .done ∨ c.state = .invalid
    · obtain ⟨mem₁, hfree, h₁⟩ := h.freeConnection
      refine ⟨mem₁, [], ?_, ?_⟩
      · rw [if_pos hstate, hdom]
        exact hfree
      · rw [if_pos hstate, List.append_nil]
        exact h₁
    · refine ⟨mem, [(p, node)], ?_, ?_⟩
      · rw [if_neg hstate]
      · rw [if_neg hstate, List.append_assoc]
        exact h

/-- The loop over the connections at the end of a pass. -/
theorem sweep_rel (h : Refines n xs ds addr cs mem w) (timeout : ℤ) (clock : ℕ → ℤ) :
    ∃ mem', mem.sweep n timeout clock = some mem' ∧
      Related n xs ds addr mem' (sweep timeout (fun p => clock (addr p)) w) := by
  let visit := sweepConn timeout fun p => clock (addr p)
  have hloop := foreachSafe_rule Memory.connections (Memory.sweepConn timeout clock)
    (fun x : ℕ × ConnNode => (addr x.1, x.2))
    (fun done todo mem => ∃ kept, Refines n xs ds addr (kept ++ todo) mem
      ((done.map Prod.fst).foldl visit w)) ?_ ?_ n [] cs mem ⟨[], h⟩ h.fits
  · obtain ⟨mem', hsweep, kept, hend⟩ := hloop
    refine ⟨mem', ?_, kept ++ [], ?_⟩
    · unfold Memory.sweep
      rw [h.connections.represents.first]
      exact hsweep
    · unfold sweep
      rw [← h.listed]
      exact hend
  · rintro done todo mem ⟨kept, hkept⟩
    have hrep := hkept.connections.represents
    rw [List.map_append] at hrep
    exact ⟨_, hrep⟩
  · rintro done ⟨p, node⟩ todo mem ⟨kept, hkept⟩
    obtain ⟨mem', kept', hvisit, hnext⟩ := hkept.sweepConn timeout clock
    refine ⟨mem', hvisit, kept ++ kept', ?_⟩
    rw [List.map_append, List.foldl_append]
    exact hnext

theorem connLoopPass_rel (h : Related n xs ds addr mem w) (timeout : ℤ) (inp : PassInput) :
    Option.Rel (Related n xs ds addr) (mem.connLoopPass n timeout inp)
      (connLoopPass timeout w (atPositions addr inp)) := by
  obtain ⟨cs, h⟩ := h
  refine rel_bind (waitForResponse_rel h (atPositions addr inp)) ?_
  rintro ⟨res', mem'⟩ ⟨res, w'⟩ ⟨-, cs', h'⟩
  obtain ⟨mem₁, hsweep, hrel⟩ := sweep_rel h' timeout inp.clock
  change Option.Rel _ (Memory.sweep n timeout inp.clock mem') (some _)
  rw [hsweep]
  exact .some hrel

theorem connLoop_rel (h : Related n xs ds addr mem w) (timeout : ℤ) (inps : List PassInput) :
    Option.Rel (Related n xs ds addr) (mem.connLoop n timeout inps)
      (connLoop timeout w (inps.map (atPositions addr))) := by
  induction inps generalizing mem w with
  | nil => exact .some h
  | cons inp inps ih =>
    have hempty : mem.connections.first = none ↔ w.connections = [] := by
      obtain ⟨cs, h⟩ := h
      rw [h.connections.represents.first, ← h.listed]
      cases cs <;> simp
    rw [List.map_cons, Memory.connLoop, connLoop]
    by_cases hw : w.connections = []
    · rw [if_pos (hempty.mpr hw), if_pos hw]
      exact .some h
    · rw [if_neg (fun hnone => hw (hempty.mp hnone)), if_neg hw]
      exact rel_bind (connLoopPass_rel h timeout inp) fun a b hab => ih hab

end Loop

section Setup

variable {n : ℕ} {xs : List MailAt} {alloc : ℕ → ℕ} (myDomain : Bytes) {net : Net} {mem : Memory}
  {domains : List Domain}

/-- The domains in the order and at the places in which they are allocated. -/
def placed (alloc : ℕ → ℕ) (domains : List Domain) : List (ℕ × Domain) :=
  domains.zipIdx.map fun x => (alloc x.2, x.1)

theorem placed_concat (domains : List Domain) (d : Domain) :
    placed alloc (domains ++ [d]) = placed alloc domains ++ [(alloc domains.length, d)] := by
  unfold placed
  rw [List.zipIdx_append, List.map_append, Nat.zero_add]
  rfl

theorem placed_snd (alloc : ℕ → ℕ) (domains : List Domain) : (placed alloc domains).map Prod.snd = domains := by
  unfold placed
  rw [List.map_map]
  exact List.zipIdx_map_fst 0 domains

theorem mem_placed_fst (domains : List Domain) (a : ℕ)
    (ha : a ∈ (placed alloc domains).map Prod.fst) : ∃ i, i < domains.length ∧ alloc i = a := by
  unfold placed at ha
  rw [List.map_map] at ha
  obtain ⟨⟨d, i⟩, hx, rfl⟩ := List.mem_map.mp ha
  obtain ⟨-, hi, -⟩ := List.mem_zipIdx hx
  exact ⟨i, by omega, rfl⟩

/-- The memory while conn_init collects the domains. -/
structure Collecting (n : ℕ) (xs : List MailAt) (alloc : ℕ → ℕ) (mem : Memory)
    (domains : List Domain) : Prop where
  stored : Stored n xs (placed alloc domains) mem
  mallocs : mem.mallocs = domains.length
  connections : mem.connections = .init
  count : mem.connectionsCount = 0
  wasSent : mem.wasSent = fun _ => false
  calls : mem.calls = []

theorem domainAdd_spec (h : Collecting n xs alloc mem domains) (hinj : alloc.Injective)
    (hn : domains.length ≤ n) (name : Bytes) :
    ∃ mem', mem.domainAdd n alloc myDomain name = some mem' ∧
      Collecting n xs alloc mem' (domainAdd myDomain domains name) := by
  unfold Memory.domainAdd domainAdd
  by_cases hlocal : name = myDomain
  · rw [if_pos hlocal, if_pos hlocal]
    exact ⟨mem, rfl, h⟩
  · rw [if_neg hlocal, if_neg hlocal]
    have hlen : (placed alloc domains).length ≤ n := by
      have hmap := congrArg List.length (placed_snd alloc domains)
      rw [List.length_map] at hmap
      omega
    have hexist : ∀ (l : List (ℕ × Domain)) b, l.foldl
        (fun exist x => exist || decide (x.2.name = name)) b =
        (b || (l.map Prod.snd).any fun d => decide (d.name = name)) := by
      intro l
      induction l with
      | nil => simp
      | cons x l ih =>
        intro b
        rw [List.foldl_cons, ih, List.map_cons, List.any_cons, Bool.or_assoc]
    simp only [foreach_read h.stored.domains.represents
      (fun _ d exist => exist || decide (d.name = name)) n hlen false, hexist, placed_snd,
      Bool.false_or, Option.bind_eq_bind, Option.bind_some]
    by_cases hany : (domains.any fun d => decide (d.name = name)) = true
    · rw [if_pos hany, if_pos hany]
      exact ⟨mem, rfl, h⟩
    · rw [if_neg hany, if_neg hany]
      have hfresh : alloc mem.mallocs ∉ (placed alloc domains).map Prod.fst := by
        intro hmem
        obtain ⟨i, hi, heq⟩ := mem_placed_fst domains _ hmem
        have hsame := hinj heq
        rw [h.mallocs] at hsame
        omega
      obtain ⟨q, hinsert, hq⟩ := h.stored.domains.insertTail (alloc mem.mallocs) ⟨name⟩ hfresh
      rw [hinsert]
      refine ⟨_, rfl, ⟨h.stored.mails, ?_, h.stored.mails_fit, h.stored.rcpts_fit⟩, ?_,
        h.connections, h.count, h.wasSent, h.calls⟩
      · rw [placed_concat, ← h.mallocs]
        exact hq
      · rw [List.length_append, ← h.mallocs]
        rfl

theorem length_domainAdd (domains : List Domain) (name : Bytes) :
    (domainAdd myDomain domains name).length ≤ domains.length + 1 := by
  unfold domainAdd
  split
  · omega
  · split
    · omega
    · rw [List.length_append, List.length_singleton]

/-- The loop of conn_init over the recipients of one mail. -/
theorem addDomains_spec (h : Collecting n xs alloc mem domains) (hinj : alloc.Injective)
    {x : MailAt} (hx : x ∈ xs) (hn : domains.length + x.rcpts.length ≤ n) :
    ∃ mem', mem.addDomains n alloc myDomain x.ptr = some mem' ∧
      Collecting n xs alloc mem'
        (x.mail.rcpts.foldl (fun ds r => domainAdd myDomain ds r.domain) domains) ∧
      (x.mail.rcpts.foldl (fun ds r => domainAdd myDomain ds r.domain) domains).length ≤
        domains.length + x.rcpts.length := by
  obtain ⟨i, hi⟩ := List.getElem?_of_mem hx
  obtain ⟨prev, hcell⟩ := h.stored.mail_at hi
  let step : List Domain → ℕ × Rcpt → Option (List Domain) :=
    fun ds y => some (domainAdd myDomain ds y.2.domain)
  have hloop := foreach_rel id (fun _ => x.node.rcpts)
    (fun r mem => (x.node.rcpts.cells r).bind fun y =>
      mem.domainAdd n alloc myDomain y.value.domain) step
    (fun done mem ds => Collecting n xs alloc mem ds ∧ ds.length ≤ domains.length + done.length)
    ?_ ?_ n (h.stored.rcpts_fit x hx) mem domains ⟨h, Nat.le_refl _⟩
  · have hfold : x.rcpts.foldlM step domains =
        some (x.mail.rcpts.foldl (fun ds r => domainAdd myDomain ds r.domain) domains) := by
      rw [MailAt.mail, List.foldl_map]
      exact List.foldlM_pure
    obtain ⟨mem', hmem', hcollect, hlen⟩ := exists_of_rel hloop hfold
    refine ⟨mem', ?_, hcollect, hlen⟩
    unfold Memory.addDomains
    simp only [hcell, Option.bind_eq_bind, Option.bind_some]
    exact hmem'
  · intro _ _ _ _
    rw [List.map_id]
    exact x.owns.represents
  · rintro done y todo mem ds hdone ⟨hcollect, hlen⟩
    obtain ⟨j, hj⟩ := List.getElem?_of_mem (show y ∈ x.rcpts by rw [← hdone]; simp)
    obtain ⟨yprev, hy⟩ := cell_at x.owns.represents hj
    have hlt : done.length < x.rcpts.length := by
      rw [← hdone, List.length_append, List.length_cons]
      omega
    obtain ⟨mem', hadd, hcollect'⟩ :=
      domainAdd_spec myDomain hcollect hinj (by omega) y.2.domain
    have hlen' := length_domainAdd myDomain ds y.2.domain
    rw [id, hy, Option.bind_some]
    rw [show Memory.domainAdd n alloc myDomain y.2.domain mem = some mem' from hadd]
    refine .some ⟨hcollect', ?_⟩
    rw [List.length_append, List.length_singleton]
    omega

/-- The mails fit the bound on the passes of a loop. -/
structure Enough (n : ℕ) (xs : List MailAt) : Prop where
  mails : xs.length ≤ n
  rcpts : (xs.flatMap MailAt.rcpts).length ≤ n

theorem Enough.rcpts_of_mem (h : Enough n xs) {x : MailAt} (hx : x ∈ xs) : x.rcpts.length ≤ n := by
  obtain ⟨l₁, l₂, rfl⟩ := List.append_of_mem hx
  have hall := h.rcpts
  rw [List.flatMap_append, List.flatMap_cons, List.length_append, List.length_append] at hall
  omega

/-- The loops of conn_init over the recipients of all mails. -/
theorem collectDomains_spec (henough : Enough n xs) (hinj : alloc.Injective)
    (h : Collecting n xs alloc mem []) :
    ∃ mem', foreach Memory.mails (Memory.addDomains n alloc myDomain) n mem.mails.first mem =
        some mem' ∧
      Collecting n xs alloc mem' (collectDomains myDomain (xs.map MailAt.mail)) ∧
      (collectDomains myDomain (xs.map MailAt.mail)).length ≤ n := by
  let step : List Domain → MailAt → Option (List Domain) := fun ds x =>
    some (x.mail.rcpts.foldl (fun ds r => domainAdd myDomain ds r.domain) ds)
  have hloop := foreach_rel MailAt.cell Memory.mails (Memory.addDomains n alloc myDomain) step
    (fun done mem ds => Collecting n xs alloc mem ds ∧
      ds.length ≤ (done.flatMap MailAt.rcpts).length) ?_ ?_ n henough.mails mem [] ⟨h, Nat.le_refl _⟩
  · have hfold : xs.foldlM step [] = some (collectDomains myDomain (xs.map MailAt.mail)) := by
      unfold collectDomains
      rw [List.foldl_map]
      exact List.foldlM_pure
    obtain ⟨mem', hmem', hcollect, hlen⟩ := exists_of_rel hloop hfold
    exact ⟨mem', hmem', hcollect, hlen.trans henough.rcpts⟩
  · intro done mem ds hR
    exact hR.1.stored.mails.represents
  · rintro done x todo mem ds hdone ⟨hcollect, hlen⟩
    have hx : x ∈ xs := by
      rw [← hdone]
      simp
    have hfit : (done.flatMap MailAt.rcpts).length + x.rcpts.length ≤ n := by
      have hall := henough.rcpts
      rw [← hdone, List.flatMap_append, List.flatMap_cons, List.length_append,
        List.length_append] at hall
      omega
    obtain ⟨mem', hadd, hcollect', hlen'⟩ :=
      addDomains_spec myDomain hcollect hinj hx (by omega)
    rw [show Memory.addDomains n alloc myDomain x.cell.1 mem = some mem' from hadd]
    refine .some ⟨hcollect', ?_⟩
    rw [List.flatMap_append, List.flatMap_singleton, List.length_append]
    omega

/-- The searches of create_connection end at the same mail and recipient, or both run
over the end of their list. -/
theorem newConn_rel {ds : List (ℕ × Domain)} (h : Stored n xs ds mem) {a : ℕ} {d : Domain}
    (hd : (a, d) ∈ ds) (sock time : ℤ) :
    Option.Rel (ConnRel xs ds) (mem.newConn n a sock time)
      (newConn (xs.map MailAt.mail) d sock time) := by
  obtain ⟨dnext, dprev, hdom⟩ := h.domain_at hd
  have hmail := h.search_mail d 0
  rw [← pointer_first h.mails.represents, List.drop_zero] at hmail
  unfold Memory.newConn newConn
  simp only [hdom, hmail, Option.bind_eq_bind, Option.bind_some]
  cases hi : seek (fun m => mailHasRcptsFromDomain m d) 0 (xs.map MailAt.mail) with
  | none => exact .none
  | some i =>
    have hlen : i < xs.length := by
      have hlt := seek_lt _ (xs.map MailAt.mail) 0 i (by rw [List.drop_zero]; exact hi)
      rwa [List.length_map] at hlt
    have hx := List.getElem?_eq_getElem hlen
    have hptr : MailPtr xs xs[i].ptr i := (mailPtr_iff _ i).mpr ⟨xs[i], hx, rfl⟩
    obtain ⟨prev, hcell⟩ := h.mail_at hx
    have hrcpt := h.search_rcpt (List.getElem_mem hlen) d 0
    rw [← pointer_first xs[i].owns.represents, List.drop_zero] at hrcpt
    simp only [Option.bind_some, show pointer (xs.map MailAt.cell) i = some xs[i].ptr from hptr,
      hcell, getElem?_mail hx, hrcpt]
    cases hj : seek (fun r => rcptIsFromDomain r d) 0 xs[i].mail.rcpts with
    | none => exact .none
    | some j =>
      have hjlen : j < xs[i].rcpts.length := by
        have hlt := seek_lt _ xs[i].mail.rcpts 0 j (by rw [List.drop_zero]; exact hj)
        rwa [MailAt.mail, List.length_map] at hlt
      have hy := pointer_of_getElem? (List.getElem?_eq_getElem hjlen)
      rw [Option.bind_some, hy]
      exact .some ⟨rfl, rfl, .some hptr, .some ⟨xs[i], hx, rfl, hy⟩, hd, rfl⟩

theorem createConnection_rel {ds : List (ℕ × Domain)} (h : Stored n xs ds mem) {a : ℕ} {d : Domain}
    (hd : (a, d) ∈ ds) :
    Option.Rel (Option.Rel (ConnRel xs ds)) (mem.createConnection n net a)
      (createConnection net (xs.map MailAt.mail) d) := by
  obtain ⟨dnext, dprev, hdom⟩ := h.domain_at hd
  unfold Memory.createConnection createConnection
  simp only [hdom, Option.bind_eq_bind, Option.bind_some]
  cases connectToMx net d.name with
  | none => exact .some .none
  | some sock => exact rel_map (newConn_rel h hd sock (net.time d.name)) fun _ _ hab => .some hab

/-- The memory while conn_init opens the connections, after some of the domains. -/
structure Opening (n : ℕ) (xs : List MailAt) (alloc : ℕ → ℕ) (domains : List Domain) (k : ℕ)
    (mem : Memory) (w : World) : Prop where
  refines : ∃ cs, Refines n xs (placed alloc domains) (fun p => alloc (domains.length + p)) cs mem w
  mallocs : mem.mallocs = domains.length + w.conns.length
  opened : w.connections.length ≤ k
  trace : w.trace = []

theorem insertConn_spec {k : ℕ} {w : World} (h : Opening n xs alloc domains k mem w)
    (hinj : alloc.Injective) (hk : k < n) {c' : ConnNode} {c : MxConn}
    (hrel : ConnRel xs (placed alloc domains) c' c) :
    ∃ mem', mem.insertConn alloc c' = some mem' ∧
      Opening n xs alloc domains (k + 1) mem' (w.insertConn c) := by
  obtain ⟨cs, href⟩ := h.refines
  have hopened := h.opened
  have hlen : cs.length ≤ k := by
    rw [← href.listed, List.length_map] at hopened
    exact hopened
  have hpos : ∀ x ∈ cs, x.1 < w.conns.length :=
    fun x hx => href.position_lt (href.listed ▸ List.mem_map_of_mem hx)
  have hfresh : alloc mem.mallocs ∉
      (cs.map fun x => (alloc (domains.length + x.1), x.2)).map Prod.fst := by
    rw [List.map_map]
    intro hmem
    obtain ⟨x, hx, heq⟩ := List.mem_map.mp hmem
    have hsame : domains.length + x.1 = mem.mallocs := hinj heq
    have hlt := hpos x hx
    rw [h.mallocs] at hsame
    omega
  obtain ⟨q, hinsert, hq⟩ := href.connections.insertTail (alloc mem.mallocs) c' hfresh
  refine ⟨{ mem with
    connections := q
    connectionsCount := mem.connectionsCount + 1
    mallocs := mem.mallocs + 1 }, ?_, ⟨cs ++ [(w.conns.length, c')], ?_⟩, ?_, ?_, h.trace⟩
  · unfold Memory.insertConn
    rw [hinsert]
    rfl
  · refine ⟨⟨href.stored.mails, href.stored.domains, href.stored.mails_fit, href.stored.rcpts_fit⟩,
      href.mails, ?_, ?_, ?_, ?_, href.wasSent, ?_, ?_, ?_⟩
    · rw [List.map_append, List.map_singleton, ← h.mallocs]
      exact hq
    · rw [List.map_append, href.listed]
      rfl
    · intro x hx
      rcases List.mem_append.mp hx with hx | hx
      · obtain ⟨d, hd, hdrel⟩ := href.conns x hx
        refine ⟨d, ?_, hdrel⟩
        change (w.conns ++ [c])[x.1]? = some d
        rw [List.getElem?_append_left (hpos x hx)]
        exact hd
      · obtain rfl := List.mem_singleton.mp hx
        refine ⟨c, ?_, hrel⟩
        change (w.conns ++ [c])[w.conns.length]? = some c
        exact List.getElem?_concat_length
    · change mem.connectionsCount + 1 = w.connectionsCount + 1
      rw [href.count]
    · have hcalls := href.calls
      rw [h.trace] at hcalls
      change mem.calls = w.trace.map _
      rw [hcalls, h.trace]
      rfl
    · rw [List.length_append, List.length_singleton]
      omega
    · change (closedConns w.trace ++ (w.connections ++ [w.conns.length])).Perm
        (.range (w.conns ++ [c]).length)
      rw [List.length_append, List.length_singleton, List.range_succ, ← List.append_assoc]
      exact href.closes.append_right _
  · change mem.mallocs + 1 = domains.length + (w.conns ++ [c]).length
    rw [h.mallocs, List.length_append, List.length_singleton]
    omega
  · change (w.connections ++ [w.conns.length]).length ≤ k + 1
    rw [List.length_append, List.length_singleton]
    omega

/-- One pass of the loop of conn_init over the domains. -/
def openStep (net : Net) (w : World) (x : ℕ × Domain) : Option World :=
  (createConnection net w.mails x.2).bind fun conn => some (conn.elim w w.insertConn)

theorem openConnections_eq (w : World) (l : List (ℕ × Domain)) :
    openConnections net w (l.map Prod.snd) = l.foldlM (openStep net) w := by
  induction l generalizing w with
  | nil => rfl
  | cons x l ih =>
    rw [List.map_cons, openConnections, List.foldlM_cons, openStep]
    cases createConnection net w.mails x.2 with
    | none => rfl
    | some conn =>
      cases conn with
      | none => exact ih w
      | some c => exact ih (w.insertConn c)

theorem openConnection_rel {k : ℕ} {w : World} (h : Opening n xs alloc domains k mem w)
    (hinj : alloc.Injective) (hk : k < n) {x : ℕ × Domain} (hx : x ∈ placed alloc domains) :
    Option.Rel (Opening n xs alloc domains (k + 1)) (mem.openConnection n alloc net x.1)
      (openStep net w x) := by
  obtain ⟨cs, href⟩ := h.refines
  unfold Memory.openConnection openStep
  rw [href.mails]
  refine rel_bind (createConnection_rel href.stored hx) ?_
  intro conn' conn hconn
  cases hconn with
  | none => exact .some ⟨h.refines, h.mallocs, h.opened.trans (Nat.le_succ k), h.trace⟩
  | some hrel =>
    obtain ⟨mem', hinsert, hnext⟩ := insertConn_spec h hinj hk hrel
    change Option.Rel _ (mem.insertConn alloc _) _
    rw [hinsert]
    exact .some hnext

/-- conn_init leaves the lists in memory. -/
theorem connInit_rel (ml : TailQueue ℕ MailNode) (hml : Owns ml (xs.map MailAt.cell))
    (henough : Enough n xs) (hinj : alloc.Injective) :
    let domains := collectDomains myDomain (xs.map MailAt.mail)
    Option.Rel (Opening n xs alloc domains domains.length)
      (Memory.connInit n alloc myDomain net ml) (connInit myDomain net (xs.map MailAt.mail)) := by
  intro domains
  let mem₀ : Memory := ⟨ml, fun _ => false, .init, .init, 0, 0, []⟩
  have hstart : Collecting n xs alloc mem₀ [] :=
    ⟨⟨hml, owns_init, henough.mails, fun x hx => henough.rcpts_of_mem hx⟩, rfl, rfl, rfl, rfl, rfl⟩
  obtain ⟨mem₁, hcollected, h₁, hlen⟩ :=
    collectDomains_spec myDomain henough hinj hstart
  have hinit : Opening n xs alloc domains 0 mem₁
      ⟨xs.map MailAt.mail, domains, [], [], 0, fun _ => false, []⟩ := by
    refine ⟨⟨[], h₁.stored, rfl, ?_, rfl, ?_, h₁.count, ?_, h₁.calls, Nat.zero_le n, .refl _⟩,
      h₁.mallocs, Nat.le_refl 0, rfl⟩
    · rw [h₁.connections]
      exact owns_init
    · intro x hx
      exact absurd hx List.not_mem_nil
    · intro p i _
      rw [h₁.wasSent]
  have hplaced : (placed alloc domains).length = domains.length := by
    unfold placed
    rw [List.length_map, List.length_zipIdx]
  have hloop := foreach_rel id Memory.domains (Memory.openConnection n alloc net) (openStep net)
    (fun done => Opening n xs alloc domains done.length) ?_ ?_ n (by rw [hplaced]; exact hlen)
    mem₁ _ hinit
  · rw [← openConnections_eq, placed_snd, hplaced] at hloop
    unfold Memory.connInit
    simp only [Option.bind_eq_bind]
    rw [show foreach Memory.mails (Memory.addDomains n alloc myDomain) n ml.first mem₀ = some mem₁ from
      hcollected]
    exact hloop
  · rintro done mem w ⟨⟨cs, href⟩, -⟩
    rw [List.map_id]
    exact href.stored.domains.represents
  · intro done x todo mem w hdone h
    rw [List.length_append, List.length_singleton]
    refine openConnection_rel h hinj ?_ ?_
    · have hfit : domains.length ≤ n := hlen
      have hlt : done.length < (placed alloc domains).length := by
        rw [← hdone, List.length_append, List.length_cons]
        omega
      omega
    · rw [← hdone]
      simp

/-- A whole transfer in memory against the one on lists. -/
theorem linkedTransfer_rel (net : Net) (ml : TailQueue ℕ MailNode) (hml : Owns ml (xs.map MailAt.cell))
    (henough : Enough n xs) (hinj : alloc.Injective) (timeout : ℤ) (inps : List PassInput) :
    let domains := collectDomains myDomain (xs.map MailAt.mail)
    let addr := fun p => alloc (domains.length + p)
    Option.Rel (Related n xs (placed alloc domains) addr)
      (linkedTransfer n alloc myDomain net ml timeout inps)
      (transfer myDomain net (xs.map MailAt.mail) timeout (inps.map (atPositions addr))) :=
  rel_bind (connInit_rel myDomain ml hml henough hinj) fun _ _ h => connLoop_rel h.refines timeout inps

end Setup

end SmtpClient.LinkedRefinement
