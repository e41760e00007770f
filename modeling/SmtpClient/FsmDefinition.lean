import SmtpClient.Deadlines

/-!
The definitions that the state machine is generated from. They know the replies and the
events no_rcpt, no_mail and timeout, of which only the transitions of the machine itself
raise the first two. Whatever happens in a transfer, each connection goes the way of the
definitions: a reply of 250 counts as no_rcpt or no_mail exactly where nothing is left to
send, and a connection that is failed counts as one that timed out.
-/
namespace SmtpClient.FsmDefinition

open MailTypes Queues SendCommands ClientFsm Dialogues SessionScript Transcript MxLookup
open Connections EventLoop Passes TransferInvariant Setup ClosedConnections Deadlines

/-- A transition of the definitions, from every state where no state is named. -/
structure Transition where
  tst : Option FsmState
  tev : FsmEvent
  next : FsmState

def transition : List Transition :=
  [⟨none, .timeout, .invalid⟩,
    ⟨some .init, .r220, .helo⟩,
    ⟨some .helo, .r250, .mailfrom⟩,
    ⟨some .mailfrom, .r250, .rcptto⟩,
    ⟨some .rcptto, .r250, .rcptto⟩,
    ⟨some .rcptto, .noRcpt, .data⟩,
    ⟨some .data, .r354, .datastr⟩,
    ⟨some .datastr, .r250, .mailfrom⟩,
    ⟨some .datastr, .noMail, .quit⟩,
    ⟨some .quit, .r221, .done⟩]

/-- Without a transition the machine fails. -/
def defNext (st : FsmState) (evt : FsmEvent) : FsmState :=
  match transition.find? fun t => decide (t.tev = evt) && t.tst.all fun s => decide (s = st) with
  | some t => t.next
  | none => .invalid

/-- The reply behind an event of the machine. -/
def heardAs : FsmEvent → Option FsmEvent
  | .noRcpt | .noMail => some .r250
  | .timeout => none
  | evt => some evt

/-- A mail of the queue has a recipient of the domain behind this one. -/
def rcptLeft (mails : List Mail) (d : Domain) (i j : ℕ) : Bool :=
  (mails[i]?).any fun m => (m.rcpts.drop (j + 1)).any fun r => decide (r.domain = d.name)

/-- The queue has a mail with a recipient of the domain behind this one. -/
def mailLeft (mails : List Mail) (d : Domain) (i : ℕ) : Bool :=
  (mails.drop (i + 1)).any fun m => m.rcpts.any fun r => decide (r.domain = d.name)

/-- The event behind a reply to the command that was sent last. -/
def eventOf (mails : List Mail) (d : Domain) : Option Command → FsmEvent → FsmEvent
  | some (.rcptto i j), .r250 => if rcptLeft mails d i j then .r250 else .noRcpt
  | some (.datastr i), .r250 => if mailLeft mails d i then .r250 else .noMail
  | _, reply => reply

/-- The command that was sent last. -/
def lastCommand : Option Command → List (Turn FsmEvent Sent) → Option Command
  | last, [] => last
  | last, .heard _ :: t => lastCommand last t
  | _, .said x :: t => lastCommand (some x.command) t

/-- The events behind the replies of a dialogue. -/
def eventsOf (mails : List Mail) (d : Domain) :
    Option Command → List (Turn FsmEvent Sent) → List FsmEvent
  | _, [] => []
  | last, .heard reply :: t => eventOf mails d last reply :: eventsOf mails d last t
  | _, .said x :: t => eventsOf mails d (some x.command) t

/-- A way through the definitions that never leaves the state INVALID. -/
structure Way (evts heard : List FsmEvent) (st : FsmState) : Prop where
  ends : evts.foldl defNext .init = st
  heard : evts.filterMap heardAs = heard
  fails_once : ∀ a evt b, evts = a ++ evt :: b → a.foldl defNext .init ≠ .invalid

/-- A way along these events, which timed out in the end or did not. -/
def WayAlong (evts heard : List FsmEvent) (st : FsmState) : Prop :=
  ∃ ending, (ending = [] ∨ ending = [.timeout]) ∧ Way (evts ++ ending) heard st

/-- The connection has gone the way of the events behind its replies. -/
def Defined (w : World) (p : ℕ) (c : MxConn) : Prop :=
  WayAlong (eventsOf w.mails c.dom none (turnsOf w.trace p)) (heardOn w p) c.state

section Machine

/-- The generated table is what the definitions say. -/
theorem fsmTransTable_eq_defNext (st : FsmState) (evt : FsmEvent) :
    (fsmTransTable st evt).1 = defNext st evt := by
  cases st <;> cases evt <;> rfl

theorem defNext_timeout (st : FsmState) : defNext st .timeout = .invalid := rfl

theorem defNext_wrong_reply (st : FsmState) (evt : FsmEvent) (hevt : evt.isReply = true)
    (hne : evt ≠ st.awaitedReply) : defNext st evt = .invalid := by
  cases st <;> cases evt <;>
    first
    | rfl
    | exact absurd rfl hne
    | exact absurd hevt Bool.false_ne_true

variable {evts heard : List FsmEvent} {st : FsmState}

theorem Way.step (h : Way evts heard st) (hst : st ≠ .invalid) (evt : FsmEvent) :
    Way (evts ++ [evt]) (heard ++ (heardAs evt).toList) (defNext st evt) := by
  refine ⟨?_, ?_, ?_⟩
  · rw [List.foldl_concat, h.ends]
  · rw [List.filterMap_append, h.heard]
    cases hevt : heardAs evt <;> simp [hevt]
  · intro a x b hsplit
    induction b using List.reverseRecOn with
    | nil =>
      obtain ⟨rfl, -⟩ := List.append_inj' hsplit rfl
      rw [h.ends]
      exact hst
    | append_singleton b y _ =>
      rw [← List.cons_append, ← List.append_assoc] at hsplit
      exact h.fails_once a x b (List.append_inj' hsplit rfl).1

theorem WayAlong.step (h : WayAlong evts heard st) (hst : st ≠ .invalid) (evt : FsmEvent) :
    WayAlong (evts ++ [evt]) (heard ++ (heardAs evt).toList) (defNext st evt) := by
  obtain ⟨ending, hending, hway⟩ := h
  rcases hending with rfl | rfl
  · rw [List.append_nil] at hway
    refine ⟨[], Or.inl rfl, ?_⟩
    rw [List.append_nil]
    exact hway.step hst evt
  · have hends := hway.ends
    rw [List.foldl_concat, defNext_timeout] at hends
    exact absurd hends.symm hst

/-- A failed connection has timed out, as far as the definitions know. -/
theorem WayAlong.fail (h : WayAlong evts heard st) : WayAlong evts heard .invalid := by
  by_cases hst : st = .invalid
  · subst hst
    exact h
  · obtain ⟨ending, hending, hway⟩ := h
    rcases hending with rfl | rfl
    · rw [List.append_nil] at hway
      have hstep := hway.step hst .timeout
      rw [defNext_timeout] at hstep
      exact ⟨[.timeout], Or.inr rfl, (List.append_nil heard) ▸ hstep⟩
    · have hends := hway.ends
      rw [List.foldl_concat, defNext_timeout] at hends
      exact absurd hends.symm hst

variable {mails : List Mail} {d : Domain}

theorem heardAs_eventOf (last : Option Command) (evt : FsmEvent) (hevt : evt.isReply = true) :
    heardAs (eventOf mails d last evt) = some evt := by
  have hsame : heardAs evt = some evt := by
    cases evt <;> first | rfl | exact absurd hevt (by decide)
  unfold eventOf
  split
  · split <;> rfl
  · split <;> rfl
  · exact hsame

theorem lastCommand_append (last : Option Command) (a b : List (Turn FsmEvent Sent)) :
    lastCommand last (a ++ b) = lastCommand (lastCommand last a) b := by
  induction a generalizing last with
  | nil => rfl
  | cons x a ih =>
    cases x with
    | heard reply => exact ih last
    | said x => exact ih (some x.command)

theorem eventsOf_append (last : Option Command) (a b : List (Turn FsmEvent Sent)) :
    eventsOf mails d last (a ++ b) =
      eventsOf mails d last a ++ eventsOf mails d (lastCommand last a) b := by
  induction a generalizing last with
  | nil => rfl
  | cons x a ih =>
    cases x with
    | heard reply => exact congrArg _ (ih last)
    | said x => exact ih (some x.command)

theorem eventsOf_said (last : Option Command) (sent : List Sent) :
    eventsOf mails d last (sent.map .said) = [] := by
  induction sent generalizing last with
  | nil => rfl
  | cons x sent ih => exact ih (some x.command)

theorem rcptLeft_iff {i j : ℕ} {m : Mail} (hm : mails[i]? = some m) :
    rcptLeft mails d i j = true ↔ rcptsFrom d m (j + 1) ≠ [] := by
  rw [rcptsFrom, pending_ne_nil_iff, rcptLeft, hm, Option.any_some]

theorem mailLeft_iff (i : ℕ) : mailLeft mails d i = true ↔ (skipMails mails d i).isSome = true := by
  change (mails.drop (i + 1)).any (fun m => mailHasRcptsFromDomain m d) = true ↔ _
  rw [← pending_ne_nil_iff, skipMails]
  cases hseek : seek (fun m => mailHasRcptsFromDomain m d) (i + 1) (mails.drop (i + 1)) with
  | none => simp [pending_of_seek_none _ mails (i + 1) hseek]
  | some k =>
    obtain ⟨x, -, -, -, heq⟩ := pending_of_seek_some _ mails (i + 1) k hseek
    simp [heq]

/-- In every state the command sent last is the one that the state is named for, and the
cursors stand behind it. -/
inductive Spoke (mails : List Mail) (c : MxConn) : Option Command → Prop
  | init (hs : c.state = .init) : Spoke mails c none
  | helo (hs : c.state = .helo) : Spoke mails c (some .helo)
  | mailfrom {i : ℕ} (hs : c.state = .mailfrom) : Spoke mails c (some (.mailfrom i))
  | rcptto {i j : ℕ} {m : Mail} (hs : c.state = .rcptto) (hm : AtMail mails c i m)
      (hr : AtRcpt c i (j + 1) m) : Spoke mails c (some (.rcptto i j))
  | data (hs : c.state = .data) : Spoke mails c (some .data)
  | datastr {i : ℕ} {m : Mail} (hs : c.state = .datastr) (hm : AtMail mails c i m) :
      Spoke mails c (some (.datastr i))
  | quit (hs : c.state = .quit) : Spoke mails c (some .quit)
  | ended {last : Option Command} (hs : c.state.terminal = true) : Spoke mails c last

/-- The answer to a reply is the step of the definitions for the event behind it. -/
def Answers (mails : List Mail) (s s' : Session) (last : Option Command) (evt : FsmEvent) : Prop :=
  s'.conn.state = defNext s.conn.state (eventOf mails s.conn.dom last evt) ∧
    ∃ sent, s'.sent = s.sent ++ sent ∧
      Spoke mails s'.conn (lastCommand last (sent.map .said))

variable {s s' : Session} {last : Option Command} {rest : List SessionRound}

theorem Spoke.wrong_reply (h : Spoke mails s.conn last) (hlive : s.conn.state.terminal = false)
    (evt : FsmEvent) (hne : evt ≠ s.conn.state.awaitedReply) :
    eventOf mails d last evt = evt := by
  cases h with
  | init | helo | mailfrom | data | quit => cases evt <;> rfl
  | rcptto hs | datastr hs =>
    rw [hs] at hne
    cases evt <;> first | rfl | exact absurd rfl hne
  | ended hs =>
    rw [hlive] at hs
    cases hs

/-- What send_rcptto leaves behind, when a recipient was left. -/
theorem spoke_rcptto (last : Option Command) {i j : ℕ} {m : Mail} (hm : AtMail mails s.conn i m)
    (hr : AtRcpt s.conn i j m) (hne : rcptsFrom s.conn.dom m j ≠ []) :
    ∃ s₁, sendRcptto mails s = some (true, s₁) ∧ ∃ sent, s₁.sent = s.sent ++ sent ∧
      Spoke mails (s₁.setState .rcptto).conn (lastCommand last (sent.map .said)) := by
  obtain ⟨x, xs, hx⟩ := List.exists_cons_of_ne_nil hne
  obtain ⟨s₁, hsend, hs₁, hr₁, -⟩ := sendRcptto_cons s x xs hm hr hx
  refine ⟨s₁, hsend, [⟨.rcptto i x.2, msgRcptto x.1.name⟩], by rw [hs₁]; rfl, ?_⟩
  have hm₁ : AtMail mails (s₁.setState .rcptto).conn i m := by
    rw [hs₁]
    exact ⟨hm.cursor, hm.queued, hm.wanted⟩
  exact .rcptto rfl hm₁ hr₁

/-- The mail that HELO and DATA are answered with. -/
theorem tracked_mail (h : Tracks mails s.conn (.live rest))
    (hs : s.conn.state = .helo ∨ s.conn.state = .data) : ∃ i m, AtMail mails s.conn i m := by
  cases h with
  | helo _ hm | data _ hm => exact ⟨_, _, hm⟩
  | init hs' | mailfrom hs' | rcptto hs' | datastr hs' | quit hs' =>
    rw [hs'] at hs
    simp at hs

/-- Behind MAIL FROM a recipient is left. -/
theorem tracked_rcpt (h : Tracks mails s.conn (.live rest)) (hs : s.conn.state = .mailfrom) :
    ∃ i j m, AtMail mails s.conn i m ∧ AtRcpt s.conn i j m ∧ rcptsFrom s.conn.dom m j ≠ [] := by
  cases h with
  | mailfrom _ hm hr hne => exact ⟨_, _, _, hm, hr, hne⟩
  | init hs' | helo hs' | rcptto hs' | data hs' | datastr hs' | quit hs' =>
    rw [hs'] at hs
    cases hs

theorem answers_helo {i : ℕ} {m : Mail} (hs : s.conn.state = .helo) (hm : AtMail mails s.conn i m)
    (h : advance mails s .r250 = some s') : Answers mails s s' (some .helo) .r250 := by
  unfold advance at h
  rw [hs, step_helo_r250, sendMailfrom, hm.cursor] at h
  simp only [Option.bind_eq_bind, Option.bind_some, hm.queued] at h
  obtain rfl := Option.some.inj h
  refine ⟨?_, _, rfl, .mailfrom rfl⟩
  rw [hs]
  rfl

theorem answers_mailfrom {i j k : ℕ} {m : Mail} (hs : s.conn.state = .mailfrom)
    (hm : AtMail mails s.conn i m) (hr : AtRcpt s.conn i j m) (hne : rcptsFrom s.conn.dom m j ≠ [])
    (h : advance mails s .r250 = some s') : Answers mails s s' (some (.mailfrom k)) .r250 := by
  obtain ⟨s₁, hsend, hspoke⟩ := spoke_rcptto (some (.mailfrom k)) hm hr hne
  unfold advance at h
  rw [hs, step_mailfrom_r250, hsend] at h
  obtain rfl := Option.some.inj h
  refine ⟨?_, hspoke⟩
  rw [hs]
  rfl

theorem answers_data {i : ℕ} {m : Mail} (hs : s.conn.state = .data) (hm : AtMail mails s.conn i m)
    (h : advance mails s .r354 = some s') : Answers mails s s' (some .data) .r354 := by
  unfold advance at h
  rw [hs, step_data_r354, sendDatastr, hm.cursor] at h
  simp only [Option.bind_eq_bind, Option.bind_some, hm.queued] at h
  obtain rfl := Option.some.inj h
  refine ⟨?_, _, rfl, .datastr rfl ⟨hm.cursor, hm.queued, hm.wanted⟩⟩
  rw [hs]
  rfl

theorem answers_rcptto {i j : ℕ} {m : Mail} (hs : s.conn.state = .rcptto)
    (hm : AtMail mails s.conn i m) (hr : AtRcpt s.conn i (j + 1) m)
    (h : advance mails s .r250 = some s') : Answers mails s s' (some (.rcptto i j)) .r250 := by
  unfold advance at h
  rw [hs, step_rcptto_r250] at h
  by_cases hleft : rcptLeft mails s.conn.dom i j = true
  · have hne := (rcptLeft_iff hm.queued).mp hleft
    obtain ⟨s₁, hsend, hspoke⟩ := spoke_rcptto (some (.rcptto i j)) hm hr hne
    rw [hsend] at h
    obtain rfl := Option.some.inj h
    refine ⟨?_, hspoke⟩
    rw [hs, eventOf, if_pos hleft]
    rfl
  · have hnil : rcptsFrom s.conn.dom m (j + 1) = [] := by
      by_contra hne
      exact hleft ((rcptLeft_iff hm.queued).mpr hne)
    rw [sendRcptto_nil s hm hr hnil] at h
    obtain rfl := Option.some.inj h
    refine ⟨?_, _, rfl, .data rfl⟩
    rw [hs, eventOf, if_neg hleft]
    rfl

theorem answers_datastr {i : ℕ} {m : Mail} (hs : s.conn.state = .datastr)
    (hm : AtMail mails s.conn i m) (h : advance mails s .r250 = some s') :
    Answers mails s s' (some (.datastr i)) .r250 := by
  unfold advance at h
  rw [hs] at h
  cases hskip : skipMails mails s.conn.dom i with
  | none =>
    have hleft : ¬ mailLeft mails s.conn.dom i = true := by
      rw [mailLeft_iff, hskip]
      decide
    rw [step_datastr_r250_none mails s i m hm.cursor hm.queued hskip] at h
    obtain rfl := Option.some.inj h
    refine ⟨?_, _, rfl, .quit rfl⟩
    rw [hs, eventOf, if_neg hleft]
    rfl
  | some k =>
    have hleft : mailLeft mails s.conn.dom i = true := by
      rw [mailLeft_iff, hskip]
      rfl
    obtain ⟨b, hb, -⟩ := pending_of_seek_some _ mails (i + 1) k hskip
    rw [step_datastr_r250_some mails s i k m b hm.cursor hm.queued hskip hb] at h
    obtain rfl := Option.some.inj h
    refine ⟨?_, _, rfl, .mailfrom rfl⟩
    rw [hs, eventOf, if_pos hleft]
    rfl

/-- Every reply is answered as the definitions say for the event behind it. -/
theorem advance_answers (evt : FsmEvent) (htracks : Tracks mails s.conn (.live rest))
    (hspoke : Spoke mails s.conn last) (hevt : evt.isReply = true)
    (h : advance mails s evt = some s') : Answers mails s s' last evt := by
  have hlive := htracks.awaited_eq.1
  by_cases hne : evt = s.conn.state.awaitedReply
  · subst hne
    cases hspoke with
    | init hs =>
      rw [hs] at h ⊢
      unfold advance at h
      rw [hs] at h
      obtain rfl := Option.some.inj h
      exact ⟨by rw [hs]; rfl, _, rfl, .helo rfl⟩
    | helo hs =>
      obtain ⟨i, m, hm⟩ := tracked_mail htracks (Or.inl hs)
      rw [hs] at h ⊢
      exact answers_helo hs hm h
    | mailfrom hs =>
      obtain ⟨i, j, m, hm, hr, hleft⟩ := tracked_rcpt htracks hs
      rw [hs] at h ⊢
      exact answers_mailfrom hs hm hr hleft h
    | rcptto hs hm hr =>
      rw [hs] at h ⊢
      exact answers_rcptto hs hm hr h
    | data hs =>
      obtain ⟨i, m, hm⟩ := tracked_mail htracks (Or.inr hs)
      rw [hs] at h ⊢
      exact answers_data hs hm h
    | datastr hs hm =>
      rw [hs] at h ⊢
      exact answers_datastr hs hm h
    | quit hs =>
      rw [hs] at h ⊢
      unfold advance at h
      rw [hs] at h
      obtain rfl := Option.some.inj h
      exact ⟨by rw [hs]; rfl, [], (List.append_nil _).symm, .ended rfl⟩
    | ended hs =>
      rw [hlive] at hs
      cases hs
  · unfold advance at h
    rw [step_wrong_reply mails s _ evt hlive hevt hne] at h
    obtain rfl := Option.some.inj h
    refine ⟨?_, [], (List.append_nil _).symm, .ended rfl⟩
    rw [hspoke.wrong_reply hlive evt hne, defNext_wrong_reply _ evt hevt hne]
    rfl

end Machine

section Transfers

variable {w v : World} (timeout : ℤ)

theorem Spoke.at_time {mails : List Mail} {c : MxConn} {last : Option Command}
    (h : Spoke mails c last) (now : ℤ) : Spoke mails { c with timeOfLastResponse := now } last := by
  cases h with
  | init hs => exact .init hs
  | helo hs => exact .helo hs
  | mailfrom hs => exact .mailfrom hs
  | rcptto hs hm hr => exact .rcptto hs ⟨hm.cursor, hm.queued, hm.wanted⟩ hr
  | data hs => exact .data hs
  | datastr hs hm => exact .datastr hs ⟨hm.cursor, hm.queued, hm.wanted⟩
  | quit hs => exact .quit hs
  | ended hs => exact .ended hs

/-- Every connection has gone its way, and what was sent last tells where it stands. -/
structure AllDefined (w : World) : Prop where
  way : ∀ p c, w.conns[p]? = some c → Defined w p c
  spoke : ∀ p c, w.conns[p]? = some c → Spoke w.mails c (lastCommand none (turnsOf w.trace p))

/-- A reply is answered as the definitions say. -/
theorem defined_answer (p : ℕ) (a : MxConn) (chunk : Chunk) (now : ℤ) (s : Session) (h : Sound w)
    (hdef : AllDefined w) (ha : w.conns[p]? = some a) (hlive : a.state.terminal = false)
    (hdom : s.conn.dom = a.dom)
    (hadv : advance w.mails (sessionAt w a now) (replyEvent chunk.buf) = some s) :
    Defined (store (World.log w [.recv p (.data chunk)]) p s) p s.conn ∧
      Spoke w.mails s.conn (lastCommand none
        (turnsOf (store (World.log w [.recv p (.data chunk)]) p s).trace p)) := by
  obtain ⟨φ, htracks, -⟩ := (h.conns p a ha).script
  have hreply := replyEvent_isReply chunk.buf
  have hanswers : Answers w.mails (sessionAt w a now) s (lastCommand none (turnsOf w.trace p))
      (replyEvent chunk.buf) := by
    cases φ with
    | live rest =>
      exact advance_answers _ (TransferInvariant.Tracks.at_time htracks now)
        ((hdef.spoke p a ha).at_time now) hreply hadv
    | finished | aborted =>
      rw [htracks.terminal_iff.mpr (by simp)] at hlive
      cases hlive
  obtain ⟨hstate, sent, hsent, hspoke⟩ := hanswers
  obtain rfl : s.sent = sent := hsent
  have hturns : turnsOf (store (World.log w [.recv p (.data chunk)]) p s).trace p =
      turnsOf w.trace p ++ .heard (replyEvent chunk.buf) :: s.sent.map .said :=
    (turnsOf_answer w.trace p p chunk s.sent).trans (if_pos rfl)
  have hne : a.state ≠ .invalid := by
    intro heq
    rw [heq] at hlive
    cases hlive
  constructor
  · have hstep := (hdef.way p a ha).step hne
      (eventOf w.mails a.dom (lastCommand none (turnsOf w.trace p)) (replyEvent chunk.buf))
    rw [heardAs_eventOf _ _ hreply] at hstep
    have hheard : heardOn (store (World.log w [.recv p (.data chunk)]) p s) p =
        heardOn w p ++ [replyEvent chunk.buf] := by
      rw [heardOn, hturns]
      simp [heardOn, heardOf]
    unfold Defined
    rw [hheard, hturns, eventsOf_append, eventsOf, eventsOf_said, hdom, hstate]
    exact hstep
  · rw [hturns, lastCommand_append]
    exact hspoke

theorem defined_wait (inp : PassInput) (n : ℕ) (h : Sound w) (hlive : AllLive w)
    (hdef : AllDefined w) (hv : waitForResponse w inp = some (n, v)) : AllDefined v := by
  have hmails : v.mails = w.mails := (waitForResponse_sound w v inp n h hlive hv).2.2.mails
  suffices hboth : ∀ p c, v.conns[p]? = some c →
      Defined v p c ∧ Spoke v.mails c (lastCommand none (turnsOf v.trace p)) from
    ⟨fun p c hc => (hboth p c hc).1, fun p c hc => (hboth p c hc).2⟩
  intro p c hc
  by_cases haddr : addressed w inp = some p
  · rcases waitForResponse_cases w v inp n hv with ⟨hnone, -⟩ | ⟨q, hq, hopen, hserved⟩
    · rw [hnone] at haddr
      cases haddr
    · obtain rfl := Option.some.inj (hq.symm.trans haddr)
      obtain ⟨a, ha⟩ := h.listed q hopen
      have halive := hlive q hopen a ha
      have hlt := (List.getElem?_eq_some_iff.mp ha).1
      rcases hserved with ⟨hfail, rfl⟩ | ⟨chunk, hrecv, hparse⟩
      · have hturns : turnsOf (w.trace ++ [.recv q inp.recv]) q = turnsOf w.trace q := by
          rw [turnsOf_append, turnsOf_recv_failed q q inp.recv hfail, List.append_nil]
        rw [invalidateConnection_eq (World.log w [.recv q inp.recv]) q a ha] at hc ⊢
        obtain rfl := Option.some.inj ((List.getElem?_set_self hlt).symm.trans hc)
        refine ⟨?_, .ended rfl⟩
        change WayAlong (eventsOf w.mails a.dom none (turnsOf (w.trace ++ [.recv q inp.recv]) q))
          (heardOf (turnsOf (w.trace ++ [.recv q inp.recv]) q)) .invalid
        rw [hturns]
        exact (hdef.way q a ha).fail
      · obtain ⟨s, hs, hadv, hdom, -⟩ := sound_answer w q a chunk inp.now h hopen ha halive
        rw [hrecv, hs] at hparse
        obtain rfl := Option.some.inj hparse
        obtain rfl := Option.some.inj ((List.getElem?_set_self hlt).symm.trans hc)
        exact defined_answer q a chunk inp.now s h hdef ha halive hdom hadv
  · obtain ⟨hconn, hturns⟩ := (waitForResponse_effect w v inp n h hlive hv p).1 haddr
    rw [hconn] at hc
    rw [Defined, heardOn, hmails, hturns]
    exact ⟨hdef.way p c hc, hdef.spoke p c hc⟩

theorem defined_sweep (clock : ℕ → ℤ) (h : Sound v) (hdef : AllDefined v) :
    AllDefined (sweep timeout clock v) := by
  have hturns : ∀ p, turnsOf (sweep timeout clock v).trace p = turnsOf v.trace p :=
    sweep_turns timeout clock v h
  have hmails : (sweep timeout clock v).mails = v.mails := by
    rw [sweep_eq timeout clock v h.nodup h.listed]
    rfl
  suffices hboth : ∀ p c, (sweep timeout clock v).conns[p]? = some c →
      WayAlong (eventsOf v.mails c.dom none (turnsOf v.trace p)) (heardOn v p) c.state ∧
        Spoke v.mails c (lastCommand none (turnsOf v.trace p)) by
    constructor <;> intro p c hc <;> obtain ⟨hway, hspoke⟩ := hboth p c hc
    · rw [Defined, heardOn, hmails, hturns p]
      exact hway
    · rw [hmails, hturns p]
      exact hspoke
  intro p c hc
  rw [sweep_eq timeout clock v h.nodup h.listed, getElem?_sweptOver] at hc
  obtain ⟨a, ha, rfl⟩ := Option.map_eq_some_iff.mp hc
  split
  · unfold checked
    split
    · exact ⟨(hdef.way p a ha).fail, .ended rfl⟩
    · exact ⟨hdef.way p a ha, hdef.spoke p a ha⟩
  · exact ⟨hdef.way p a ha, hdef.spoke p a ha⟩

theorem defined_run (inps : List PassInput) (h : Sound w) (hlive : AllLive w)
    (hdef : AllDefined w) (hw : connLoop timeout w inps = some v) : AllDefined v := by
  induction inps generalizing w with
  | nil =>
    obtain rfl := Option.some.inj hw
    exact hdef
  | cons inp inps ih =>
    rw [connLoop] at hw
    split at hw
    · obtain rfl := Option.some.inj hw
      exact hdef
    · obtain ⟨u, hu, hw⟩ := Option.bind_eq_some_iff.mp hw
      obtain ⟨⟨hsound, hlive'⟩, -⟩ := connLoopPass_sound timeout w u inp h hlive hu
      obtain ⟨n, v', hv', rfl, hwait, -, -⟩ := pass_eq_sweep timeout w u inp h hlive hu
      exact ih hsound hlive' (defined_sweep timeout inp.clock hwait
        (defined_wait inp n h hlive hdef hv')) hw

/-- The generated table is what the definitions say. In every transfer each connection has
gone the way of the events behind the replies that it has heard, where a 250 counts as
no_rcpt or no_mail exactly when nothing is left to send, and it has timed out in the end or
not. -/
theorem states_defined (myDomain : Bytes) (net : Net) (mails : List Mail) (inps : List PassInput)
    (w : World) (h : transfer myDomain net mails timeout inps = some w) (p : ℕ) (c : MxConn)
    (hc : w.conns[p]? = some c) :
    (∀ st evt, (fsmTransTable st evt).1 = defNext st evt) ∧
    ∃ ending, (ending = [] ∨ ending = [.timeout]) ∧
      Way (eventsOf mails c.dom none (turnsOf w.trace p) ++ ending) (heardOn w p) c.state := by
  refine ⟨fsmTransTable_eq_defNext, ?_⟩
  obtain ⟨-, hmails, -⟩ := transfer_sound myDomain net mails timeout inps w h
  obtain ⟨w₀, hinit, hopened, -, -⟩ := connInit_spec myDomain net mails
  obtain ⟨hsound, hlive⟩ := opened_sound w₀ hopened
  unfold transfer at h
  rw [hinit] at h
  have hfresh : AllDefined w₀ := by
    constructor <;> intro q a ha
    · rw [Defined, heardOn, hopened.trace, (hopened.fresh q a ha).1]
      refine ⟨[], Or.inl rfl, rfl, rfl, ?_⟩
      intro b evt d hsplit
      exact absurd hsplit.symm (List.append_ne_nil_of_right_ne_nil b (List.cons_ne_nil evt d))
    · rw [hopened.trace]
      exact .init (hopened.fresh q a ha).1
  rw [← hmails]
  exact (defined_run timeout inps hsound hlive hfresh h).way p c hc

end Transfers

section Example

theorem states_defined_mailToD :
    ∃ w ending, transfer (bytes "b") (netReaching fun _ => some 4) [mailToD] 60 acceptingInputs =
        some w ∧
      Way (eventsOf [mailToD] ⟨bytes "d"⟩ none (turnsOf w.trace 0) ++ ending) (heardOn w 0) .done := by
  obtain ⟨w, hw, hobs⟩ := Option.map_eq_some_iff.mp
    (show (transfer (bytes "b") (netReaching fun _ => some 4) [mailToD] 60 acceptingInputs).map
      (fun w => w.conns.map fun c => (c.state, c.dom)) = some [(.done, ⟨bytes "d"⟩)] by decide)
  obtain ⟨c, rest, hcs, hc, -⟩ := List.map_eq_cons_iff.mp hobs
  obtain ⟨hdone, hdom⟩ := Prod.mk.inj hc
  obtain ⟨-, ending, -, hway⟩ := states_defined 60 _ _ _ _ w hw 0 c (by rw [hcs]; rfl)
  rw [hdone, hdom] at hway
  exact ⟨w, ending, hw, hway⟩

/-- The 250 to the only recipient counts as no_rcpt, and that to the only text as no_mail. -/
example : eventsOf [mailToD] ⟨bytes "d"⟩ (some (.rcptto 0 0))
    [.heard .r250, .said ⟨.data, []⟩, .heard .r354, .said ⟨.datastr 0, []⟩, .heard .r250] =
      [.noRcpt, .r354, .noMail] :=
  rfl

end Example

end SmtpClient.FsmDefinition
