import SmtpClient.ClosedConnections

/-!
The cursors of the connections. The source checks for a null pointer neither
in the searches of create_connection nor in the actions of the state machine.
None of them ever meets one: a domain comes from a recipient of the queue, and
in every state that reads a cursor the cursor names a mail of the domain.
-/
namespace SmtpClient.CursorSafety

open MailTypes Queues SendCommands ClientFsm SessionScript Transcript MxLookup Connections
open EventLoop Passes TransferInvariant Setup ClosedConnections

/-- The states in which the mail cursor is read. -/
def readsMail : FsmState → Bool
  | .init | .helo | .mailfrom | .rcptto | .data | .datastr => true
  | .quit | .invalid | .done => false

/-- The states in which the next recipient is taken for granted. -/
def readsRcpt : FsmState → Bool
  | .init | .helo | .mailfrom => true
  | _ => false

/-- In the states that read them the cursors name a mail of the queue with a
recipient in the domain, and a place of its list at or before such a recipient. -/
structure CursorsSafe (mails : List Mail) (c : MxConn) : Prop where
  mail : readsMail c.state = true →
    ∃ i m, c.m = some i ∧ mails[i]? = some m ∧ ∃ r ∈ m.rcpts, r.domain = c.dom.name
  rcpt : readsRcpt c.state = true →
    ∃ i m j k r, c.m = some i ∧ mails[i]? = some m ∧ c.r = some (i, j) ∧ j ≤ k ∧
      m.rcpts[k]? = some r ∧ r.domain = c.dom.name

variable {mails : List Mail} {c : MxConn} {φ : SessionPhase}

theorem AtMail.safe {i : ℕ} {m : Mail} (h : AtMail mails c i m) :
    ∃ i m, c.m = some i ∧ mails[i]? = some m ∧ ∃ r ∈ m.rcpts, r.domain = c.dom.name :=
  ⟨i, m, h.cursor, h.queued, (mailHasRcptsFromDomain_iff m c.dom).mp h.wanted⟩

/-- With a recipient pending the recipient cursor stands at or before it. -/
theorem AtRcpt.safe {i j : ℕ} {m : Mail} (hm : AtMail mails c i m) (hr : AtRcpt c i j m)
    (hne : rcptsFrom c.dom m j ≠ []) :
    ∃ i m j k r, c.m = some i ∧ mails[i]? = some m ∧ c.r = some (i, j) ∧ j ≤ k ∧
      m.rcpts[k]? = some r ∧ r.domain = c.dom.name := by
  rcases hr with hcur | ⟨-, hnil⟩
  · obtain ⟨⟨r, k⟩, hmem⟩ := List.exists_mem_of_ne_nil _ hne
    obtain ⟨hle, hget, hdom⟩ := (mem_pending _ m.rcpts j k r).mp hmem
    exact ⟨i, m, j, k, r, hm.cursor, hm.queued, hcur, hle, hget, of_decide_eq_true hdom⟩
  · exact absurd hnil hne

theorem Tracks.cursorsSafe (h : Tracks mails c φ) : CursorsSafe mails c := by
  constructor
  · intro hreads
    cases h with
    | init hs hm | helo hs hm | mailfrom hs hm | rcptto hs hm | data hs hm | datastr hs hm =>
      exact AtMail.safe hm
    | quit hs | done hs | invalid hs =>
      rw [hs] at hreads
      cases hreads
  · intro hreads
    cases h with
    | init hs hm hr hne | helo hs hm hr hne | mailfrom hs hm hr hne =>
      exact AtRcpt.safe hm hr hne
    | rcptto hs | data hs | datastr hs | quit hs | done hs | invalid hs =>
      rw [hs] at hreads
      cases hreads

/-- No action of the state machine uses a null pointer on a tracked connection. -/
theorem Tracks.step_isSome (h : Tracks mails c φ) (s : Session) (hs : s.conn = c)
    (evt : FsmEvent) (hevt : evt.isReply = true) :
    (smtpClientFsmStep mails c.state evt s).isSome = true := by
  subst hs
  cases φ with
  | live rest =>
    obtain ⟨st, s', hstep, -⟩ := step_refines s rest evt h hevt
    rw [hstep]
    rfl
  | finished | aborted =>
    have hterm := h.terminal_iff.mpr (by simp)
    rw [smtpClientFsmStep, smtpClientFsmStepN, if_pos hterm]
    rfl

/-- A call of send_rcptto sends the command for a recipient of the domain. -/
def SendsRcptto (mails : List Mail) (s : Session) : Prop :=
  ∃ (i k : ℕ) (m : Mail) (r : Rcpt) (s' : Session), sendRcptto mails s = some (true, s') ∧
    mails[i]? = some m ∧ m.rcpts[k]? = some r ∧ r.domain = s.conn.dom.name ∧
    s'.sent = s.sent ++ [⟨.rcptto i k, bytes "RCPT TO: <" ++ r.name ++ bytes ">\r\n"⟩]

/-- The call whose result the state MAILFROM ignores always sends. -/
theorem Tracks.sendsRcptto (h : Tracks mails c φ) (s : Session) (hs : s.conn = c)
    (hstate : c.state = .mailfrom) : SendsRcptto mails s := by
  subst hs
  cases h with
  | @mailfrom i j m _ hm hr hne =>
    obtain ⟨⟨r, k⟩, rest, hrest⟩ := List.exists_cons_of_ne_nil hne
    obtain ⟨s', hsend, hs', -, -⟩ := sendRcptto_cons s (r, k) rest hm hr hrest
    have hmem : (r, k) ∈ rcptsFrom s.conn.dom m j := by
      rw [hrest]
      exact List.mem_cons_self
    obtain ⟨-, hget, hdom⟩ := (mem_pending _ m.rcpts j k r).mp hmem
    refine ⟨i, k, m, r, s', hsend, hm.queued, hget, of_decide_eq_true hdom, ?_⟩
    rw [hs']
    rfl
  | init hs | helo hs | rcptto hs | data hs | datastr hs | quit hs | done hs | invalid hs =>
    rw [hs] at hstate
    cases hstate

/-- The states of a transfer: before a pass, or in it behind wait_for_response. -/
def Reached (myDomain : Bytes) (net : Net) (mails : List Mail) (timeout : ℤ) (w : World) : Prop :=
  ∃ inps v, transfer myDomain net mails timeout inps = some v ∧
    (w = v ∨ ∃ inp n, waitForResponse v inp = some (n, w))

theorem Reached.sound {myDomain : Bytes} {net : Net} {mails : List Mail} {timeout : ℤ} {w : World}
    (h : Reached myDomain net mails timeout w) : Sound w ∧ w.mails = mails := by
  obtain ⟨inps, v, hv, hw⟩ := h
  obtain ⟨⟨hsound, hlive⟩, hmails, -⟩ := transfer_sound myDomain net mails timeout inps v hv
  rcases hw with rfl | ⟨inp, n, hw⟩
  · exact ⟨hsound, hmails⟩
  · obtain ⟨hsound', -, hsame⟩ := waitForResponse_sound v w inp n hsound hlive hw
    exact ⟨hsound', hsame.mails.trans hmails⟩

/-- The searches of create_connection stop at a mail and a recipient of the
domain, for every domain of the set. -/
theorem newConn_of_collected (myDomain : Bytes) (mails : List Mail) (d : Domain)
    (hd : d ∈ collectDomains myDomain mails) (sock time : ℤ) :
    ∃ c i j m r, newConn mails d sock time = some c ∧ c.m = some i ∧ mails[i]? = some m ∧
      c.r = some (i, j) ∧ m.rcpts[j]? = some r ∧ r.domain = d.name := by
  obtain ⟨hany, -⟩ := (mem_collectDomains myDomain mails d).mp hd
  obtain ⟨c, hc, -⟩ := newConn_tracks mails d sock time hany
  have hfilled := hc
  unfold newConn at hfilled
  obtain ⟨i, hi, hfilled⟩ := Option.bind_eq_some_iff.mp hfilled
  obtain ⟨m, hm, hfilled⟩ := Option.bind_eq_some_iff.mp hfilled
  obtain ⟨j, hj, hfilled⟩ := Option.bind_eq_some_iff.mp hfilled
  obtain rfl := Option.some.inj hfilled
  rw [← List.drop_zero (l := m.rcpts)] at hj
  obtain ⟨r, hr, hdom, -, -⟩ := pending_of_seek_some _ m.rcpts 0 j hj
  exact ⟨_, i, j, m, r, hc, rfl, hm, rfl, hr, of_decide_eq_true hdom⟩

/-- conn_init meets no null pointer, and in every state that a transfer reaches
the cursors of every connection are safe to use, no action of the state machine
meets a null pointer, and send_rcptto in the state MAILFROM sends a command. -/
theorem cursors_safe (myDomain : Bytes) (net : Net) (mails : List Mail) :
    (∀ d ∈ collectDomains myDomain mails, ∀ sock time,
      ∃ c i j m r, newConn mails d sock time = some c ∧ c.m = some i ∧ mails[i]? = some m ∧
        c.r = some (i, j) ∧ m.rcpts[j]? = some r ∧ r.domain = d.name) ∧
    (connInit myDomain net mails).isSome = true ∧
    ∀ timeout w, Reached myDomain net mails timeout w →
      ∀ (p : ℕ) (c : MxConn), w.conns[p]? = some c →
      CursorsSafe mails c ∧
      (∀ now evt, evt.isReply = true →
        (smtpClientFsmStep mails c.state evt (sessionAt w c now)).isSome = true) ∧
      (c.state = .mailfrom → ∀ now, SendsRcptto mails (sessionAt w c now)) := by
  refine ⟨newConn_of_collected myDomain mails, ?_, ?_⟩
  · obtain ⟨w, hw, -⟩ := connInit_spec myDomain net mails
    rw [hw]
    rfl
  · intro timeout w hreached p c hc
    obtain ⟨hsound, rfl⟩ := hreached.sound
    obtain ⟨φ, htracks, -⟩ := (hsound.conns p c hc).script
    refine ⟨Tracks.cursorsSafe htracks, ?_, ?_⟩
    · intro now evt hevt
      exact Tracks.step_isSome (Tracks.at_time htracks now) (sessionAt w c now) rfl evt hevt
    · intro hstate now
      exact Tracks.sendsRcptto (Tracks.at_time htracks now) (sessionAt w c now) rfl hstate

/-- Behind the replies to HELO and MAIL FROM the one connection of a mail names
its recipient. -/
theorem cursors_safe_mailfrom :
    ∃ w c, transfer (bytes "b") (netReaching fun _ => some 4) [mailToD] 60
        ([chunk220, chunk250].map replyInput) = some w ∧ w.conns[0]? = some c ∧
      c.state = .mailfrom ∧ CursorsSafe [mailToD] c ∧
      SendsRcptto [mailToD] (sessionAt w c 0) := by
  have hrun : (transfer (bytes "b") (netReaching fun _ => some 4) [mailToD] 60
      ([chunk220, chunk250].map replyInput)).map (fun w => w.conns.map MxConn.state) =
        some [.mailfrom] := by
    decide
  obtain ⟨w, hw, hstates⟩ := Option.map_eq_some_iff.mp hrun
  obtain ⟨c, hc⟩ := List.map_eq_singleton_iff.mp hstates
  have hget : w.conns[0]? = some c := by
    rw [hc.1]
    rfl
  obtain ⟨-, -, hsafe⟩ :=
    cursors_safe (bytes "b") (netReaching fun _ => some 4) [mailToD]
  obtain ⟨hcursors, -, hsend⟩ := hsafe 60 w ⟨_, w, hw, Or.inl rfl⟩ 0 c hget
  exact ⟨w, c, hw, hget, hc.2, hcursors, hsend hc.2 0⟩

end SmtpClient.CursorSafety
