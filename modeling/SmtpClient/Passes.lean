import SmtpClient.EventLoop
import SmtpClient.Transcript
import Mathlib.Data.List.Induction

/-!
What the functions of one pass do to the transfer: which connection is served,
how a received buffer changes it, and which connections the check at the end of
the pass fails and removes. The turns of a connection are what it heard and
said, read off the trace.
-/
namespace SmtpClient.Passes

open MailTypes SendCommands Dialogues SessionScript Transcript Connections EventLoop Runs

/-- What an entry of the trace is in the dialogue of connection p. -/
def turnOf (p : ℕ) : Act → Option (Turn FsmEvent Sent)
  | .recv q (.data chunk) => if q = p then some (.heard (replyEvent chunk.buf)) else none
  | .send q x => if q = p then some (.said x) else none
  | _ => none

def turnsOf (trace : List Act) (p : ℕ) : List (Turn FsmEvent Sent) := trace.filterMap (turnOf p)

/-- What was sent on connection p. -/
def sentOn (w : World) (p : ℕ) : List Sent := saidOf (turnsOf w.trace p)

theorem turnsOf_append (a b : List Act) (p : ℕ) :
    turnsOf (a ++ b) p = turnsOf a p ++ turnsOf b p := List.filterMap_append

theorem turnsOf_sends (p q : ℕ) (sent : List Sent) :
    turnsOf (sent.map (Act.send q)) p = if q = p then sent.map .said else [] := by
  induction sent with
  | nil => simp [turnsOf]
  | cons x sent ih =>
    unfold turnsOf at ih ⊢
    rw [List.map_cons, List.filterMap_cons, turnOf]
    split
    · rename_i hne
      rw [ih]
      split
      · rename_i hq
        rw [if_pos hq] at hne
        cases hne
      · rfl
    · rename_i t ht
      rw [ih]
      split
      · rename_i hq
        rw [if_pos hq] at ht
        obtain rfl := Option.some.inj ht
        rfl
      · rename_i hq
        rw [if_neg hq] at ht
        cases ht

theorem turnsOf_closes (p : ℕ) (closed : List ℕ) : turnsOf (closed.map Act.close) p = [] := by
  induction closed with
  | nil => rfl
  | cons q closed ih => exact ih

/-- The socket that poll reported readable belongs to this connection. -/
def addressed (w : World) (inp : PassInput) : Option ℕ :=
  (readableEntry w.connectionsCount inp.poll).bind fun i =>
    getConnBySocket w (pollFds w inp.stack i)

/-- The connection found for a socket is an open one. -/
theorem getConnBySocket_mem (w : World) (sock : ℤ) (p : ℕ) (h : getConnBySocket w sock = some p) :
    p ∈ w.connections ∧ (w.conns[p]?).map MxConn.sock = some sock := by
  unfold getConnBySocket at h
  generalize w.connections = l at h ⊢
  induction l using List.reverseRecOn with
  | nil => cases h
  | append_singleton l q ih =>
    rw [List.foldl_concat] at h
    split at h
    · rename_i hq
      obtain rfl := Option.some.inj h
      exact ⟨List.mem_append_right l (List.mem_singleton_self q), hq⟩
    · obtain ⟨hmem, hsock⟩ := ih h
      exact ⟨List.mem_append_left _ hmem, hsock⟩

/-- A socket of an open connection is found. -/
theorem getConnBySocket_isSome (w : World) (sock : ℤ) (p : ℕ) (hp : p ∈ w.connections)
    (hsock : (w.conns[p]?).map MxConn.sock = some sock) :
    ∃ q, getConnBySocket w sock = some q := by
  unfold getConnBySocket
  generalize w.connections = l at hp ⊢
  induction l using List.reverseRecOn with
  | nil => exact absurd hp List.not_mem_nil
  | append_singleton l q ih =>
    rw [List.foldl_concat]
    by_cases hq : (w.conns[q]?).map MxConn.sock = some sock
    · exact ⟨q, if_pos hq⟩
    · rw [if_neg hq]
      rcases List.mem_append.mp hp with hp | hp
      · exact ih hp
      · rw [List.mem_singleton.mp hp] at hsock
        exact absurd hsock hq

/-- Connection p with what a session on its own made of it. -/
def store (w : World) (p : ℕ) (s : Session) : World :=
  { w with
    conns := w.conns.set p s.conn
    wasSent := s.wasSent
    trace := w.trace ++ s.sent.map (Act.send p) }

/-- The session that a received buffer is fed to. -/
def sessionAt (w : World) (c : MxConn) (now : ℤ) : Session :=
  ⟨{ c with timeOfLastResponse := now }, w.wasSent, []⟩

theorem parseResponse_eq (w : World) (p : ℕ) (str : Bytes) (now : ℤ) (c : MxConn)
    (hc : w.conns[p]? = some c) :
    parseResponse w p str now =
      (advance w.mails (sessionAt w c now) (replyEvent str)).map (store w p) := by
  unfold parseResponse advance sessionAt
  simp only [hc, Option.bind_eq_bind, Option.bind_some]
  cases ClientFsm.smtpClientFsmStep w.mails c.state (replyEvent str)
    ⟨{ c with timeOfLastResponse := now }, w.wasSent, []⟩ with
  | none => rfl
  | some x => rfl

theorem invalidateConnection_eq (w : World) (p : ℕ) (c : MxConn) (hc : w.conns[p]? = some c) :
    invalidateConnection w p = World.setConn w p { c with state := .invalid } := by
  unfold invalidateConnection
  rw [hc]

/-- One call of wait_for_response: nothing is readable, or one connection is
served and its call of recv fails or hands over a buffer. -/
theorem waitForResponse_cases (w w' : World) (inp : PassInput) (n : ℕ)
    (h : waitForResponse w inp = some (n, w')) :
    (addressed w inp = none ∧ w' = w) ∨
    ∃ p, addressed w inp = some p ∧ p ∈ w.connections ∧
      (((∀ chunk, inp.recv ≠ .data chunk) ∧
        w' = invalidateConnection (World.log w [.recv p inp.recv]) p) ∨
      ∃ chunk, inp.recv = .data chunk ∧
        parseResponse (World.log w [.recv p inp.recv]) p chunk.buf inp.now = some w') := by
  unfold waitForResponse at h
  unfold addressed
  cases hentry : readableEntry w.connectionsCount inp.poll with
  | none =>
    rw [hentry] at h
    obtain rfl := (Prod.mk.inj (Option.some.inj h)).2
    exact Or.inl ⟨rfl, rfl⟩
  | some i =>
    rw [hentry] at h
    refine Or.inr ?_
    obtain ⟨p, hp, h⟩ := Option.bind_eq_some_iff.mp h
    refine ⟨p, hp, (getConnBySocket_mem w _ p hp).1, ?_⟩
    cases hrecv : inp.recv with
    | error =>
      rw [hrecv] at h
      obtain rfl := (Prod.mk.inj (Option.some.inj h)).2
      refine Or.inl ⟨?_, rfl⟩
      intro chunk hchunk
      cases hchunk
    | disconnected =>
      rw [hrecv] at h
      obtain rfl := (Prod.mk.inj (Option.some.inj h)).2
      refine Or.inl ⟨?_, rfl⟩
      intro chunk hchunk
      cases hchunk
    | data chunk =>
      rw [hrecv] at h
      obtain ⟨v, hv, h⟩ := Option.bind_eq_some_iff.mp h
      obtain rfl := (Prod.mk.inj (Option.some.inj h)).2
      exact Or.inr ⟨chunk, rfl, hv⟩

/-- What the check at the end of a pass makes of one connection. -/
def checked (timeout : ℤ) (clock : ℕ → ℤ) (p : ℕ) (c : MxConn) : MxConn :=
  if timedOut timeout clock p c then { c with state := .invalid } else c

/-- Whether the check removes connection p. -/
def removed (timeout : ℤ) (clock : ℕ → ℤ) (w : World) (p : ℕ) : Bool :=
  (w.conns[p]?).any fun c => (checked timeout clock p c).state.terminal

theorem terminal_iff (st : FsmState) : st.terminal = true ↔ st = .done ∨ st = .invalid := by
  cases st <;> simp [FsmState.terminal]

theorem removed_eq (timeout : ℤ) (clock : ℕ → ℤ) (w : World) (p : ℕ) (c : MxConn)
    (hc : w.conns[p]? = some c) :
    removed timeout clock w p = (checked timeout clock p c).state.terminal := by
  rw [removed, hc, Option.any_some]

theorem sweepConn_eq (timeout : ℤ) (clock : ℕ → ℤ) (w : World) (p : ℕ) (c : MxConn)
    (hc : w.conns[p]? = some c) :
    sweepConn timeout clock w p =
      if removed timeout clock w p then
        freeConnection (World.setConn w p (checked timeout clock p c)) p
      else World.setConn w p (checked timeout clock p c) := by
  have hset : World.setConn w p c = w := by
    unfold World.setConn
    obtain ⟨hp, hget⟩ := List.getElem?_eq_some_iff.mp hc
    rw [← hget, List.set_getElem_self]
  simp only [sweepConn, removed, checked, hc, Option.any_some, terminal_iff]
  by_cases ht : timedOut timeout clock p c = true
  · simp [ht, invalidateConnection, hc]
  · simp [ht, hset]

/-- The world after some connections were checked. -/
def sweptOver (timeout : ℤ) (clock : ℕ → ℤ) (w : World) (l : List ℕ) : World :=
  { w with
    conns := w.conns.mapIdx fun p c => if p ∈ l then checked timeout clock p c else c
    connections := w.connections.filter fun p => !(decide (p ∈ l) && removed timeout clock w p)
    trace := w.trace ++ (l.filter (removed timeout clock w)).map Act.close }

theorem sweepConn_eq_sweptOver (timeout : ℤ) (clock : ℕ → ℤ) (w : World) (p : ℕ) (c : MxConn)
    (hc : w.conns[p]? = some c) (hnodup : w.connections.Nodup) :
    sweepConn timeout clock w p = sweptOver timeout clock w [p] := by
  have hconns : w.conns.set p (checked timeout clock p c) =
      w.conns.mapIdx fun q c => if q ∈ [p] then checked timeout clock q c else c := by
    apply List.ext_getElem?
    intro q
    rw [List.getElem?_mapIdx]
    by_cases hq : q = p
    · subst hq
      obtain ⟨hlt, -⟩ := List.getElem?_eq_some_iff.mp hc
      rw [List.getElem?_set_self hlt, hc]
      simp
    · rw [List.getElem?_set_ne (Ne.symm hq)]
      simp [hq]
  rw [sweepConn_eq timeout clock w p c hc]
  unfold sweptOver
  rw [← hconns]
  by_cases hr : removed timeout clock w p = true
  · have hfilter : w.connections.erase p = w.connections.filter fun q =>
        !(decide (q ∈ [p]) && removed timeout clock w q) := by
      rw [hnodup.erase_eq_filter]
      apply List.filter_congr
      intro q _
      by_cases hq : q = p
      · simp [hq, hr]
      · simp [hq]
    rw [if_pos hr, ← hfilter]
    simp [freeConnection, World.setConn, World.log, hr]
  · have hfilter : w.connections = w.connections.filter fun q =>
        !(decide (q ∈ [p]) && removed timeout clock w q) := by
      rw [eq_comm, List.filter_eq_self]
      intro q _
      by_cases hq : q = p
      · simp [hq, hr]
      · simp [hq]
    rw [if_neg hr, ← hfilter]
    simp [World.setConn, hr]

theorem sweptOver_nil (timeout : ℤ) (clock : ℕ → ℤ) (w : World) :
    sweptOver timeout clock w [] = w := by
  have hconns : (w.conns.mapIdx fun p c =>
      if p ∈ ([] : List ℕ) then checked timeout clock p c else c) = w.conns := by
    apply List.ext_getElem?
    intro q
    simp
  unfold sweptOver
  rw [hconns]
  simp

theorem sweptOver_conns_of_notMem (timeout : ℤ) (clock : ℕ → ℤ) (w : World) (l : List ℕ) (q : ℕ)
    (hq : q ∉ l) : (sweptOver timeout clock w l).conns[q]? = w.conns[q]? := by
  simp [sweptOver, hq]

theorem removed_sweptOver (timeout : ℤ) (clock : ℕ → ℤ) (w : World) (l : List ℕ) (q : ℕ)
    (hq : q ∉ l) :
    removed timeout clock (sweptOver timeout clock w l) q = removed timeout clock w q := by
  rw [removed, sweptOver_conns_of_notMem timeout clock w l q hq, removed]

theorem sweptOver_cons (timeout : ℤ) (clock : ℕ → ℤ) (w : World) (p : ℕ) (l : List ℕ)
    (hpl : p ∉ l) :
    sweptOver timeout clock (sweptOver timeout clock w [p]) l =
      sweptOver timeout clock w (p :: l) := by
  have hne : ∀ q ∈ l, q ∉ [p] := by
    intro q hq hqp
    exact hpl (List.mem_singleton.mp hqp ▸ hq)
  have hremoved : ∀ q ∈ l,
      removed timeout clock (sweptOver timeout clock w [p]) q = removed timeout clock w q := by
    intro q hq
    exact removed_sweptOver timeout clock w [p] q (hne q hq)
  have hconns : (sweptOver timeout clock (sweptOver timeout clock w [p]) l).conns =
      (sweptOver timeout clock w (p :: l)).conns := by
    apply List.ext_getElem?
    intro q
    simp only [sweptOver, List.getElem?_mapIdx, Option.map_map]
    congr 1
    funext c
    by_cases hq : q = p
    · subst hq
      simp [hpl]
    · simp [hq]
  have hconnections : (sweptOver timeout clock (sweptOver timeout clock w [p]) l).connections =
      (sweptOver timeout clock w (p :: l)).connections := by
    change (w.connections.filter fun q => !(decide (q ∈ [p]) && removed timeout clock w q)).filter
      (fun q => !(decide (q ∈ l) && removed timeout clock (sweptOver timeout clock w [p]) q)) =
      w.connections.filter fun q => !(decide (q ∈ p :: l) && removed timeout clock w q)
    rw [List.filter_filter]
    apply List.filter_congr
    intro q _
    by_cases hq : q ∈ l
    · rw [hremoved q hq]
      simp [hq, List.mem_singleton.not.mp (hne q hq)]
    · simp [hq]
  have htrace : (sweptOver timeout clock (sweptOver timeout clock w [p]) l).trace =
      (sweptOver timeout clock w (p :: l)).trace := by
    have hfilter : l.filter (removed timeout clock (sweptOver timeout clock w [p])) =
        l.filter (removed timeout clock w) := List.filter_congr hremoved
    change (w.trace ++ ([p].filter (removed timeout clock w)).map Act.close) ++
      (l.filter (removed timeout clock (sweptOver timeout clock w [p]))).map Act.close =
      w.trace ++ ((p :: l).filter (removed timeout clock w)).map Act.close
    rw [hfilter, List.append_assoc, ← List.map_append, ← List.filter_append]
    rfl
  exact World.ext rfl rfl hconns hconnections rfl rfl htrace

theorem foldl_sweepConn (timeout : ℤ) (clock : ℕ → ℤ) (w : World) (l : List ℕ)
    (hl : l.Nodup) (hlisted : ∀ p ∈ l, ∃ c, w.conns[p]? = some c)
    (hnodup : w.connections.Nodup) :
    l.foldl (sweepConn timeout clock) w = sweptOver timeout clock w l := by
  induction l generalizing w with
  | nil => exact (sweptOver_nil timeout clock w).symm
  | cons p l ih =>
    obtain ⟨c, hc⟩ := hlisted p List.mem_cons_self
    obtain ⟨hpl, hl⟩ := List.nodup_cons.mp hl
    rw [List.foldl_cons, sweepConn_eq_sweptOver timeout clock w p c hc hnodup,
      ← sweptOver_cons timeout clock w p l hpl]
    apply ih (sweptOver timeout clock w [p]) hl
    · intro q hq
      have hqp : q ∉ [p] := by
        intro hmem
        exact hpl (List.mem_singleton.mp hmem ▸ hq)
      rw [sweptOver_conns_of_notMem timeout clock w [p] q hqp]
      exact hlisted q (List.mem_cons_of_mem p hq)
    · exact hnodup.filter _

/-- The check fails the silent connections, and removes those that are finished
or failed while the others stay in their order. -/
theorem sweep_eq (timeout : ℤ) (clock : ℕ → ℤ) (w : World) (hnodup : w.connections.Nodup)
    (hlisted : ∀ p ∈ w.connections, ∃ c, w.conns[p]? = some c) :
    sweep timeout clock w = sweptOver timeout clock w w.connections :=
  foldl_sweepConn timeout clock w w.connections hnodup hlisted hnodup

theorem sweptOver_connections (timeout : ℤ) (clock : ℕ → ℤ) (w : World) :
    (sweptOver timeout clock w w.connections).connections =
      w.connections.filter fun p => !removed timeout clock w p := by
  unfold sweptOver
  apply List.filter_congr
  intro p hp
  simp [hp]

theorem getElem?_sweptOver (timeout : ℤ) (clock : ℕ → ℤ) (w : World) (l : List ℕ) (q : ℕ) :
    (sweptOver timeout clock w l).conns[q]? =
      (w.conns[q]?).map fun c => if q ∈ l then checked timeout clock q c else c :=
  List.getElem?_mapIdx

/-- The check hears and says nothing. -/
theorem turnsOf_sweptOver (timeout : ℤ) (clock : ℕ → ℤ) (w : World) (l : List ℕ) (q : ℕ) :
    turnsOf (sweptOver timeout clock w l).trace q = turnsOf w.trace q := by
  change turnsOf (w.trace ++ List.map Act.close _) q = _
  rw [turnsOf_append, turnsOf_closes, List.append_nil]

end SmtpClient.Passes
