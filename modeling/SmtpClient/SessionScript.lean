import SmtpClient.ClientFsm
import SmtpClient.Dialogues

/-!
The script of a session: for one domain, what has to be sent for a queue of
mails and the reply that has to come before each command. The relation Tracks
says that the cursors of a connection are safe to use and which rounds of the
script they still stand for. A step of the state machine on a tracked
connection is one step of the dialogue, and it marks exactly the mail whose
text was acknowledged.
-/
namespace SmtpClient.SessionScript

open MailTypes Queues SendCommands ClientFsm Dialogues

abbrev SessionRound := Round FsmEvent Sent

abbrev SessionPhase := Phase FsmEvent Sent

def heloRound : SessionRound := ⟨.r220, ⟨.helo, bytes "HELO quint.nope\r\n"⟩⟩

def mailfromRound (i : ℕ) (m : Mail) : SessionRound := ⟨.r250, ⟨.mailfrom i, m.fromLine⟩⟩

def rcpttoRound (i : ℕ) (x : Rcpt × ℕ) : SessionRound :=
  ⟨.r250, ⟨.rcptto i x.2, bytes "RCPT TO: <" ++ x.1.name ++ bytes ">\r\n"⟩⟩

def dataRound : SessionRound := ⟨.r250, ⟨.data, bytes "DATA\r\n"⟩⟩

def datastrRound (i : ℕ) (m : Mail) : SessionRound := ⟨.r354, ⟨.datastr i, m.msg⟩⟩

def quitRound : SessionRound := ⟨.r250, ⟨.quit, bytes "QUIT\r\n"⟩⟩

/-- The recipients of the domain from position j on, and the mails with one. -/
def rcptsFrom (d : Domain) (m : Mail) (j : ℕ) : List (Rcpt × ℕ) :=
  pending (fun r => decide (r.domain = d.name)) m.rcpts j

def mailsFrom (d : Domain) (mails : List Mail) (i : ℕ) : List (Mail × ℕ) :=
  pending (fun m => decide (∃ r ∈ m.rcpts, r.domain = d.name)) mails i

/-- The rounds of one mail behind its MAIL FROM line, from recipient j on. -/
def bodyRounds (d : Domain) (i j : ℕ) (m : Mail) : List SessionRound :=
  (rcptsFrom d m j).map (rcpttoRound i) ++ [dataRound, datastrRound i m]

def mailRounds (d : Domain) (x : Mail × ℕ) : List SessionRound :=
  mailfromRound x.2 x.1 :: bodyRounds d x.2 0 x.1

/-- The rounds from mail i of the queue to the end of the session. -/
def queueRounds (mails : List Mail) (d : Domain) (i : ℕ) : List SessionRound :=
  (mailsFrom d mails i).flatMap (mailRounds d) ++ [quitRound]

/-- The whole session of one domain; its closing reply is 221. -/
def sessionScript (mails : List Mail) (d : Domain) : List SessionRound :=
  heloRound :: queueRounds mails d 0

structure AtMail (mails : List Mail) (c : MxConn) (i : ℕ) (m : Mail) : Prop where
  cursor : c.m = some i
  queued : mails[i]? = some m
  wanted : mailHasRcptsFromDomain m c.dom = true

/-- The recipient cursor stands for the recipients from j on. -/
def AtRcpt (c : MxConn) (i j : ℕ) (m : Mail) : Prop :=
  c.r = some (i, j) ∨ (c.r = none ∧ rcptsFrom c.dom m j = [])

/-- The rounds that a connection in each state still stands for. -/
inductive Tracks (mails : List Mail) (c : MxConn) : SessionPhase → Prop
  | init {i j : ℕ} {m : Mail} (hs : c.state = .init) (hm : AtMail mails c i m)
      (hr : AtRcpt c i j m) (hne : rcptsFrom c.dom m j ≠ []) :
      Tracks mails c (.live (heloRound :: mailfromRound i m ::
        (bodyRounds c.dom i j m ++ queueRounds mails c.dom (i + 1))))
  | helo {i j : ℕ} {m : Mail} (hs : c.state = .helo) (hm : AtMail mails c i m)
      (hr : AtRcpt c i j m) (hne : rcptsFrom c.dom m j ≠ []) :
      Tracks mails c (.live (mailfromRound i m ::
        (bodyRounds c.dom i j m ++ queueRounds mails c.dom (i + 1))))
  | mailfrom {i j : ℕ} {m : Mail} (hs : c.state = .mailfrom) (hm : AtMail mails c i m)
      (hr : AtRcpt c i j m) (hne : rcptsFrom c.dom m j ≠ []) :
      Tracks mails c (.live (bodyRounds c.dom i j m ++ queueRounds mails c.dom (i + 1)))
  | rcptto {i j : ℕ} {m : Mail} (hs : c.state = .rcptto) (hm : AtMail mails c i m)
      (hr : AtRcpt c i j m) :
      Tracks mails c (.live (bodyRounds c.dom i j m ++ queueRounds mails c.dom (i + 1)))
  | data {i : ℕ} {m : Mail} (hs : c.state = .data) (hm : AtMail mails c i m) :
      Tracks mails c (.live (datastrRound i m :: queueRounds mails c.dom (i + 1)))
  | datastr {i : ℕ} {m : Mail} (hs : c.state = .datastr) (hm : AtMail mails c i m) :
      Tracks mails c (.live (queueRounds mails c.dom (i + 1)))
  | quit (hs : c.state = .quit) : Tracks mails c (.live [])
  | done (hs : c.state = .done) : Tracks mails c .finished
  | invalid (hs : c.state = .invalid) : Tracks mails c .aborted

variable {mails : List Mail} {c : MxConn} {i j : ℕ} {m : Mail}

theorem mailHasRcptsFromDomain_iff (m : Mail) (d : Domain) :
    mailHasRcptsFromDomain m d = true ↔ ∃ r ∈ m.rcpts, r.domain = d.name := by
  simp [mailHasRcptsFromDomain, rcptIsFromDomain]

/-- The test of the source picks the recipients of the domain. -/
theorem rcptsFrom_eq (d : Domain) (m : Mail) (j : ℕ) :
    rcptsFrom d m j = pending (fun r => rcptIsFromDomain r d) m.rcpts j := rfl

theorem mailsFrom_eq (d : Domain) (mails : List Mail) (i : ℕ) :
    mailsFrom d mails i = pending (fun m => mailHasRcptsFromDomain m d) mails i := by
  have htest : (fun m : Mail => decide (∃ r ∈ m.rcpts, r.domain = d.name)) =
      fun m => mailHasRcptsFromDomain m d := by
    funext m
    rw [Bool.eq_iff_iff, decide_eq_true_iff, mailHasRcptsFromDomain_iff]
  rw [mailsFrom, htest]

/-- A mail with a recipient in the domain has one at its list's first position or behind. -/
theorem rcptsFrom_zero_ne_nil (d : Domain) (m : Mail) (h : mailHasRcptsFromDomain m d = true) :
    rcptsFrom d m 0 ≠ [] := by
  obtain ⟨k, r, hk, hr⟩ := (any_iff_exists_getElem? _ _).mp h
  exact List.ne_nil_of_mem ((mem_pending _ m.rcpts 0 k r).mpr ⟨Nat.zero_le k, hk, hr⟩)

/-- The first recipient of a list stands for all recipients of the domain. -/
theorem atRcpt_first (c : MxConn) (hr : c.r = (first m.rcpts).map fun l => (i, l))
    (h : mailHasRcptsFromDomain m c.dom = true) : AtRcpt c i 0 m := by
  have hne : m.rcpts ≠ [] := by
    rintro hnil
    simp [mailHasRcptsFromDomain, hnil] at h
  exact Or.inl (by rw [hr, first, if_neg hne]; rfl)

/-- With a recipient pending, send_rcptto sends its command and moves on. -/
theorem sendRcptto_cons (s : Session) (x : Rcpt × ℕ) (rest : List (Rcpt × ℕ))
    (hm : AtMail mails s.conn i m) (hr : AtRcpt s.conn i j m)
    (hx : rcptsFrom s.conn.dom m j = x :: rest) :
    ∃ s', sendRcptto mails s = some (true, s') ∧
      s' = (s.send (.rcptto i x.2) (msgRcptto x.1.name)).setR s'.conn.r ∧
      AtRcpt s'.conn i (x.2 + 1) m ∧ rcptsFrom s.conn.dom m (x.2 + 1) = rest := by
  have hcur : s.conn.r = some (i, j) := by
    rcases hr with h | ⟨-, hnil⟩
    · exact h
    · rw [hnil] at hx
      cases hx
  cases hk : seek (fun r => rcptIsFromDomain r s.conn.dom) j (m.rcpts.drop j) with
  | none =>
    have hnil := pending_of_seek_none _ m.rcpts j hk
    rw [rcptsFrom_eq, hnil] at hx
    cases hx
  | some k =>
    obtain ⟨r, hget, -, -, heq⟩ := pending_of_seek_some _ m.rcpts j k hk
    rw [rcptsFrom_eq, heq] at hx
    obtain ⟨rfl, hrest⟩ := List.cons.inj hx
    refine ⟨_, by simp [sendRcptto, hcur, hm.queued, hk, hget]; rfl, rfl, ?_, hrest⟩
    cases hn : next m.rcpts k with
    | none =>
      refine Or.inr ⟨by simp [Session.setR], ?_⟩
      exact pending_of_next_none _ m.rcpts k hn
    | some l =>
      obtain ⟨rfl, -⟩ := (next_eq_some_iff m.rcpts k l).mp hn
      exact Or.inl (by simp [Session.setR])

/-- With no recipient pending, send_rcptto sends nothing and clears the cursor. -/
theorem sendRcptto_nil (s : Session) (hm : AtMail mails s.conn i m) (hr : AtRcpt s.conn i j m)
    (hnil : rcptsFrom s.conn.dom m j = []) :
    sendRcptto mails s = some (false, s.setR none) := by
  rcases hr with hcur | ⟨hcur, -⟩
  · cases hk : seek (fun r => rcptIsFromDomain r s.conn.dom) j (m.rcpts.drop j) with
    | none => simp [sendRcptto, hcur, hm.queued, hk]
    | some k =>
      obtain ⟨r, -, -, -, heq⟩ := pending_of_seek_some _ m.rcpts j k hk
      rw [rcptsFrom_eq, heq] at hnil
      exact absurd hnil (List.cons_ne_nil _ _)
  · obtain ⟨conn, wasSent, sent⟩ := s
    obtain ⟨sock, state, m', r, dom, time⟩ := conn
    simp only at hcur
    subst hcur
    rfl

theorem bodyRounds_cons (d : Domain) (x : Rcpt × ℕ)
    (hx : rcptsFrom d m j = x :: rcptsFrom d m (x.2 + 1)) :
    bodyRounds d i j m = rcpttoRound i x :: bodyRounds d i (x.2 + 1) m := by
  rw [bodyRounds, hx]
  rfl

theorem bodyRounds_nil (d : Domain) (h : rcptsFrom d m j = []) :
    bodyRounds d i j m = [dataRound, datastrRound i m] := by
  rw [bodyRounds, h]
  rfl

/-- The next mail with a recipient in the domain opens the remaining queue. -/
theorem queueRounds_of_seek (d : Domain) (k : ℕ)
    (h : seek (fun m => mailHasRcptsFromDomain m d) i (mails.drop i) = some k) :
    ∃ b, mails[k]? = some b ∧ mailHasRcptsFromDomain b d = true ∧
      queueRounds mails d i =
        mailfromRound k b :: (bodyRounds d k 0 b ++ queueRounds mails d (k + 1)) := by
  obtain ⟨b, hget, hp, -, heq⟩ := pending_of_seek_some _ mails i k h
  refine ⟨b, hget, hp, ?_⟩
  rw [queueRounds, mailsFrom_eq, heq, List.flatMap_cons, queueRounds, mailsFrom_eq, mailRounds,
    List.append_assoc]
  rfl

theorem queueRounds_of_seek_none (d : Domain)
    (h : seek (fun m => mailHasRcptsFromDomain m d) i (mails.drop i) = none) :
    queueRounds mails d i = [quitRound] := by
  rw [queueRounds, mailsFrom_eq, pending_of_seek_none _ mails i h]
  rfl

theorem awaited_bodyRounds (close : FsmEvent) (d : Domain) (tail : List SessionRound) :
    awaited close (bodyRounds d i j m ++ tail) = .r250 := by
  unfold bodyRounds
  cases rcptsFrom d m j <;> rfl

theorem awaited_queueRounds (close : FsmEvent) (d : Domain) :
    awaited close (queueRounds mails d i) = .r250 := by
  unfold queueRounds
  cases mailsFrom d mails i <;> rfl

/-- A live connection waits for the reply that its state lets through. -/
theorem Tracks.awaited_eq {rest : List SessionRound} (h : Tracks mails c (.live rest)) :
    c.state.terminal = false ∧ awaited .r221 rest = c.state.awaitedReply := by
  cases h with
  | init hs => simp [hs, FsmState.terminal, FsmState.awaitedReply, awaited, heloRound]
  | helo hs => simp [hs, FsmState.terminal, FsmState.awaitedReply, awaited, mailfromRound]
  | mailfrom hs => simp [hs, FsmState.terminal, FsmState.awaitedReply, awaited_bodyRounds]
  | rcptto hs => simp [hs, FsmState.terminal, FsmState.awaitedReply, awaited_bodyRounds]
  | data hs => simp [hs, FsmState.terminal, FsmState.awaitedReply, awaited, datastrRound]
  | datastr hs => simp [hs, FsmState.terminal, FsmState.awaitedReply, awaited_queueRounds]
  | quit hs => simp [hs, FsmState.terminal, FsmState.awaitedReply, awaited]

theorem Tracks.terminal_iff {φ : SessionPhase} (h : Tracks mails c φ) :
    c.state.terminal = true ↔ φ = .finished ∨ φ = .aborted := by
  cases φ with
  | live rest => simp [h.awaited_eq.1]
  | finished =>
    cases h with
    | done hs => simp [hs, FsmState.terminal]
  | aborted =>
    cases h with
    | invalid hs => simp [hs, FsmState.terminal]

/-- The state DONE stands for the finished script. -/
theorem Tracks.done_iff {φ : SessionPhase} (h : Tracks mails c φ) :
    c.state = .done ↔ φ = .finished := by
  cases φ with
  | live rest =>
    have hlive := h.awaited_eq.1
    constructor
    · intro hs
      rw [hs] at hlive
      cases hlive
    · intro hφ
      cases hφ
  | finished =>
    cases h with
    | done hs => simp [hs]
  | aborted =>
    cases h with
    | invalid hs => simp [hs]

/-- The mail whose text was sent last and is not acknowledged yet. -/
def unacknowledged (c : MxConn) : Option ℕ := if c.state = .datastr then c.m else none

/-- The mail whose text a reply acknowledges. -/
def acknowledged (c : MxConn) (evt : FsmEvent) : Option ℕ :=
  if evt = .r250 then unacknowledged c else none

/-- The mail whose text a command carries. -/
def Command.text? : Command → Option ℕ
  | .datastr i => some i
  | _ => none

/-- The mail whose text is the last thing that was said. -/
def lastText (t : List (Turn FsmEvent Sent)) : Option ℕ :=
  match t.getLast? with
  | some (.said x) => Command.text? x.command
  | _ => none

def mark (wasSent : ℕ → Bool) : Option ℕ → ℕ → Bool
  | none => wasSent
  | some i => Function.update wasSent i true

/-- What one reply does to a tracked connection, in terms of the dialogue. -/
structure StepOutcome (mails : List Mail) (s : Session) (rest : List SessionRound)
    (evt : FsmEvent) (st : FsmState) (s' : Session) : Prop where
  tracks : Tracks mails (s'.setState st).conn ((Phase.live rest).hear .r221 evt).1
  sent : s'.sent = s.sent ++ ((Phase.live rest).hear .r221 evt).2
  marks : s'.wasSent = mark s.wasSent (acknowledged s.conn evt)
  same : s'.conn = { s.conn with m := s'.conn.m, r := s'.conn.r }
  texts : lastText (.heard evt :: ((Phase.live rest).hear .r221 evt).2.map .said) =
    unacknowledged (s'.setState st).conn

theorem acknowledged_of_ne (evt : FsmEvent) (h : c.state ≠ .datastr) :
    acknowledged c evt = none := by
  unfold acknowledged unacknowledged
  rw [if_neg h]
  exact ite_self none

/-- The machine answers the reply as the dialogue does. -/
def Refines (mails : List Mail) (s : Session) (rest : List SessionRound) (evt : FsmEvent) : Prop :=
  ∃ st s', smtpClientFsmStep mails s.conn.state evt s = some (st, s') ∧
    StepOutcome mails s rest evt st s'

theorem step_refines_wrong (s : Session) (rest : List SessionRound) (evt : FsmEvent)
    (h : Tracks mails s.conn (.live rest)) (hevt : evt.isReply = true)
    (hne : evt ≠ awaited .r221 rest) : Refines mails s rest evt := by
  obtain ⟨hlive, hawait⟩ := h.awaited_eq
  have hhear := hear_of_ne_awaited FsmEvent.r221 evt rest hne
  rw [hawait] at hne
  have hack : acknowledged s.conn evt = none := by
    by_cases hs : s.conn.state = .datastr
    · rw [hs] at hne
      exact if_neg hne
    · exact acknowledged_of_ne evt hs
  refine ⟨.invalid, s, step_wrong_reply mails s _ evt hlive hevt hne, ?_, ?_, ?_, rfl, ?_⟩
  · rw [hhear]
    exact .invalid rfl
  · rw [hhear, List.append_nil]
  · rw [hack]
    rfl
  · rw [hhear]
    rfl

theorem step_refines_init (s : Session) (hs : s.conn.state = .init) (hm : AtMail mails s.conn i m)
    (hr : AtRcpt s.conn i j m) (hx : rcptsFrom s.conn.dom m j ≠ []) :
    Refines mails s (heloRound :: mailfromRound i m ::
      (bodyRounds s.conn.dom i j m ++ queueRounds mails s.conn.dom (i + 1))) .r220 := by
  have hack := acknowledged_of_ne (c := s.conn) .r220 (by rw [hs]; decide)
  refine ⟨.helo, sendHello s, by rw [hs, step_init_r220], ?_, rfl, by rw [hack]; rfl, rfl, rfl⟩
  exact .helo rfl ⟨hm.cursor, hm.queued, hm.wanted⟩ hr hx

theorem step_refines_helo (s : Session) (hs : s.conn.state = .helo) (hm : AtMail mails s.conn i m)
    (hr : AtRcpt s.conn i j m) (hx : rcptsFrom s.conn.dom m j ≠ []) :
    Refines mails s (mailfromRound i m ::
      (bodyRounds s.conn.dom i j m ++ queueRounds mails s.conn.dom (i + 1))) .r250 := by
  have hsend : sendMailfrom mails s = some (s.send (.mailfrom i) m.fromLine) := by
    simp [sendMailfrom, hm.cursor, hm.queued]
  have hack := acknowledged_of_ne (c := s.conn) .r250 (by rw [hs]; decide)
  refine ⟨.mailfrom, s.send (.mailfrom i) m.fromLine, by rw [hs, step_helo_r250, hsend]; rfl,
    ?_, rfl, by rw [hack]; rfl, rfl, rfl⟩
  exact .mailfrom rfl ⟨hm.cursor, hm.queued, hm.wanted⟩ hr hx

/-- The states MAILFROM and RCPTTO send the next recipient in the same way. -/
theorem step_refines_rcpt (s : Session) (x : Rcpt × ℕ) (xs : List (Rcpt × ℕ))
    (hs : s.conn.state = .mailfrom ∨ s.conn.state = .rcptto) (hm : AtMail mails s.conn i m)
    (hr : AtRcpt s.conn i j m) (hx : rcptsFrom s.conn.dom m j = x :: xs) :
    Refines mails s (bodyRounds s.conn.dom i j m ++ queueRounds mails s.conn.dom (i + 1))
      .r250 := by
  obtain ⟨s', hsend, hs', hr', rfl⟩ := sendRcptto_cons s x xs hm hr hx
  have hrounds := bodyRounds_cons (i := i) s.conn.dom x hx
  have hne : s.conn.state ≠ .datastr := by
    rcases hs with hs | hs <;> rw [hs] <;> decide
  have hack := acknowledged_of_ne .r250 hne
  have hstep : smtpClientFsmStep mails s.conn.state .r250 s = some (.rcptto, s') := by
    rcases hs with hs | hs
    · rw [hs, step_mailfrom_r250, hsend]
      rfl
    · rw [hs, step_rcptto_r250, hsend]
      rfl
  refine ⟨.rcptto, s', hstep, ?_, ?_, ?_, ?_, ?_⟩
  · rw [hrounds, hs'] at *
    exact .rcptto rfl ⟨hm.cursor, hm.queued, hm.wanted⟩ hr'
  · rw [hrounds, hs']
    rfl
  · rw [hack, hs']
    rfl
  · rw [hs']
    rfl
  · rw [hrounds]
    rfl

theorem step_refines_no_rcpt (s : Session) (hs : s.conn.state = .rcptto)
    (hm : AtMail mails s.conn i m) (hr : AtRcpt s.conn i j m)
    (hx : rcptsFrom s.conn.dom m j = []) :
    Refines mails s (bodyRounds s.conn.dom i j m ++ queueRounds mails s.conn.dom (i + 1))
      .r250 := by
  have hsend := sendRcptto_nil s hm hr hx
  have hack := acknowledged_of_ne (c := s.conn) .r250 (by rw [hs]; decide)
  rw [bodyRounds_nil _ hx]
  refine ⟨.data, sendData (s.setR none), by rw [hs, step_rcptto_r250, hsend]; rfl,
    ?_, rfl, by rw [hack]; rfl, rfl, rfl⟩
  exact .data rfl ⟨hm.cursor, hm.queued, hm.wanted⟩

theorem step_refines_data (s : Session) (hs : s.conn.state = .data)
    (hm : AtMail mails s.conn i m) :
    Refines mails s (datastrRound i m :: queueRounds mails s.conn.dom (i + 1)) .r354 := by
  have hsend : sendDatastr mails s = some (s.send (.datastr i) m.msg) := by
    simp [sendDatastr, hm.cursor, hm.queued]
  have hack := acknowledged_of_ne (c := s.conn) .r354 (by rw [hs]; decide)
  refine ⟨.datastr, s.send (.datastr i) m.msg, by rw [hs, step_data_r354, hsend]; rfl,
    ?_, rfl, by rw [hack]; rfl, rfl, ?_⟩
  · exact .datastr rfl ⟨hm.cursor, hm.queued, hm.wanted⟩
  · exact hm.cursor.symm

/-- The acknowledged mail is marked, and the next mail or QUIT follows. -/
theorem step_refines_datastr (s : Session) (hs : s.conn.state = .datastr)
    (hm : AtMail mails s.conn i m) :
    Refines mails s (queueRounds mails s.conn.dom (i + 1)) .r250 := by
  have hack : acknowledged s.conn .r250 = some i := by
    simp [acknowledged, unacknowledged, hs, hm.cursor]
  cases hk : skipMails mails s.conn.dom i with
  | none =>
    rw [queueRounds_of_seek_none s.conn.dom hk]
    have hstep := step_datastr_r250_none mails s i m hm.cursor hm.queued hk
    rw [← hs] at hstep
    refine ⟨.quit, _, hstep, ?_, rfl, by rw [hack]; rfl, rfl, rfl⟩
    exact .quit rfl
  | some k =>
    obtain ⟨b, hb, hwant, hrounds⟩ := queueRounds_of_seek s.conn.dom k hk
    have hstep := step_datastr_r250_some mails s i k m b hm.cursor hm.queued hk hb
    rw [← hs] at hstep
    rw [hrounds]
    refine ⟨.mailfrom, _, hstep, ?_, rfl, by rw [hack]; rfl, rfl, rfl⟩
    exact .mailfrom rfl ⟨rfl, hb, hwant⟩ (atRcpt_first _ rfl hwant)
      (rcptsFrom_zero_ne_nil _ b hwant)

theorem step_refines_quit (s : Session) (hs : s.conn.state = .quit) :
    Refines mails s [] .r221 := by
  have hack := acknowledged_of_ne (c := s.conn) .r221 (by rw [hs]; decide)
  refine ⟨.done, s, by rw [hs, step_quit_r221], .done rfl, ?_, by rw [hack]; rfl, rfl, rfl⟩
  exact (List.append_nil _).symm

/-- Every reply to a tracked connection is one step of its dialogue. -/
theorem step_refines (s : Session) (rest : List SessionRound) (evt : FsmEvent)
    (h : Tracks mails s.conn (.live rest)) (hevt : evt.isReply = true) :
    Refines mails s rest evt := by
  by_cases hne : evt = awaited .r221 rest
  · rw [h.awaited_eq.2] at hne
    subst hne
    cases h with
    | init hs hm hr hx =>
      rw [hs]
      exact step_refines_init s hs hm hr hx
    | helo hs hm hr hx =>
      rw [hs]
      exact step_refines_helo s hs hm hr hx
    | mailfrom hs hm hr hx =>
      obtain ⟨x, xs, hxs⟩ := List.exists_cons_of_ne_nil hx
      rw [hs]
      exact step_refines_rcpt s x xs (Or.inl hs) hm hr hxs
    | @rcptto i j m hs hm hr =>
      rw [hs]
      cases hxs : rcptsFrom s.conn.dom m j with
      | nil => exact step_refines_no_rcpt s hs hm hr hxs
      | cons x xs => exact step_refines_rcpt s x xs (Or.inr hs) hm hr hxs
    | data hs hm =>
      rw [hs]
      exact step_refines_data s hs hm
    | datastr hs hm =>
      rw [hs]
      exact step_refines_datastr s hs hm
    | quit hs =>
      rw [hs]
      exact step_refines_quit s hs
  · exact step_refines_wrong s rest evt h hevt hne

end SmtpClient.SessionScript
