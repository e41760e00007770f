import SmtpClient.Passes

/-!
What a session cannot see. The state machine reads the queue and its own
connection only: it commutes with every change of the time stamp, of the flags
set so far and of what was sent so far. A step on one connection of a transfer
is therefore the step of that session on its own, merged into the transfer.
-/
namespace SmtpClient.Isolation

open MailTypes Queues SendCommands ClientFsm Dialogues Transcript Connections EventLoop Passes

/-- A change of a session that none of its operations can see. -/
structure Neutral (g : Session → Session) : Prop where
  m : ∀ s, (g s).conn.m = s.conn.m
  r : ∀ s, (g s).conn.r = s.conn.r
  dom : ∀ s, (g s).conn.dom = s.conn.dom
  state : ∀ s, (g s).conn.state = s.conn.state
  send : ∀ s command text, g (s.send command text) = (g s).send command text
  setM : ∀ s m, g (s.setM m) = (g s).setM m
  setR : ∀ s r, g (s.setR r) = (g s).setR r
  setState : ∀ s st, g (s.setState st) = (g s).setState st
  markSent : ∀ s i, g (s.markSent i) = (g s).markSent i

variable (mails : List Mail) {g : Session → Session} (hg : Neutral g) (s : Session)
include hg

/-- A command about the mail under the cursor is sent in the same way. -/
theorem send_queued_neutral (cursor : Option ℕ) (command : ℕ → Command) (text : Mail → Bytes) :
    (do
      let i ← cursor
      let m ← mails[i]?
      return (g s).send (command i) (text m)) =
    (do
      let i ← cursor
      let m ← mails[i]?
      return s.send (command i) (text m)).map g := by
  cases cursor with
  | none => rfl
  | some i =>
    simp only [Option.bind_eq_bind, Option.bind_some]
    cases mails[i]? with
    | none => rfl
    | some m => exact congrArg some (hg.send s _ _).symm

theorem sendMailfrom_neutral : sendMailfrom mails (g s) = (sendMailfrom mails s).map g := by
  unfold sendMailfrom
  rw [hg.m]
  exact send_queued_neutral mails hg s s.conn.m .mailfrom Mail.fromLine

theorem sendDatastr_neutral : sendDatastr mails (g s) = (sendDatastr mails s).map g := by
  unfold sendDatastr
  rw [hg.m]
  exact send_queued_neutral mails hg s s.conn.m .datastr Mail.msg

theorem sendRcptto_neutral :
    sendRcptto mails (g s) = (sendRcptto mails s).map (Prod.map id g) := by
  unfold sendRcptto
  rw [hg.r, hg.dom]
  cases s.conn.r with
  | none => rfl
  | some x =>
    obtain ⟨i, j⟩ := x
    simp only [Option.bind_eq_bind]
    cases mails[i]? with
    | none => rfl
    | some m =>
      simp only [Option.bind_some]
      cases seek (fun r => rcptIsFromDomain r s.conn.dom) j (m.rcpts.drop j) with
      | none => exact congrArg (fun x => some (false, x)) (hg.setR s _).symm
      | some k =>
        simp only
        cases m.rcpts[k]? with
        | none => rfl
        | some r =>
          simp only [Option.bind_some, Option.pure_def, Option.map_some, Prod.map_apply, id_eq]
          rw [hg.setR, hg.send]

/-- An accepted mail is marked, and the cursors move on, on either side of the change. -/
theorem datastrR250_neutral (step : FsmState → FsmEvent → Session → Option (FsmState × Session))
    (hstep : ∀ st evt s, step st evt (g s) = (step st evt s).map (Prod.map id g))
    (nxtSt : FsmState) :
    transAction mails step nxtSt (g s) .datastrR250 =
      (transAction mails step nxtSt s .datastrR250).map (Prod.map id g) := by
  simp only [transAction, hg.m]
  cases s.conn.m with
  | none => rfl
  | some i =>
    simp only [Option.bind_eq_bind, Option.bind_some]
    cases mails[i]? with
    | none => rfl
    | some a =>
      simp only [Option.bind_some]
      have hdom : ((g s).markSent i).conn.dom = (s.markSent i).conn.dom := hg.dom s
      rw [hdom]
      cases skipMails mails (s.markSent i).conn.dom i with
      | none =>
        simp only
        rw [← hg.markSent, ← hg.setM, hstep]
      | some k =>
        simp only
        cases mails[k]? with
        | none => rfl
        | some b =>
          simp only [Option.bind_some]
          rw [← hg.markSent, ← hg.setM, ← hg.setR, sendMailfrom_neutral mails hg]
          cases sendMailfrom mails (((s.markSent i).setM (some k)).setR
            ((first b.rcpts).map fun l => (k, l))) <;> rfl

theorem transAction_neutral (step : FsmState → FsmEvent → Session → Option (FsmState × Session))
    (hstep : ∀ st evt s, step st evt (g s) = (step st evt s).map (Prod.map id g))
    (nxtSt : FsmState) (tr : FsmTrans) :
    transAction mails step nxtSt (g s) tr =
      (transAction mails step nxtSt s tr).map (Prod.map id g) := by
  cases tr with
  | datastrNoMail => exact congrArg (fun x => some (nxtSt, x)) (hg.send s _ _).symm
  | initR220 => exact congrArg (fun x => some (nxtSt, x)) (hg.send s _ _).symm
  | rcpttoNoRcpt => exact congrArg (fun x => some (nxtSt, x)) (hg.send s _ _).symm
  | dataR354 =>
    simp only [transAction, sendDatastr_neutral mails hg]
    cases sendDatastr mails s <;> rfl
  | heloR250 =>
    simp only [transAction, sendMailfrom_neutral mails hg]
    cases sendMailfrom mails s <;> rfl
  | mailfromR250 =>
    simp only [transAction, sendRcptto_neutral mails hg]
    cases sendRcptto mails s <;> rfl
  | rcpttoR250 =>
    simp only [transAction, sendRcptto_neutral mails hg]
    cases sendRcptto mails s with
    | none => rfl
    | some x =>
      obtain ⟨more, s'⟩ := x
      cases more with
      | true => rfl
      | false => exact hstep .rcptto .noRcpt s'
  | datastrR250 => exact datastrR250_neutral mails hg s step hstep nxtSt
  | invalid => rfl
  | quitR221 => rfl
  | datastrTimeout => rfl
  | dataTimeout => rfl
  | heloTimeout => rfl
  | initTimeout => rfl
  | mailfromTimeout => rfl
  | quitTimeout => rfl
  | rcpttoTimeout => rfl

/-- The state machine commutes with every neutral change. -/
theorem step_neutral (n : ℕ) (st : FsmState) (evt : FsmEvent) :
    smtpClientFsmStepN mails n st evt (g s) =
      (smtpClientFsmStepN mails n st evt s).map (Prod.map id g) := by
  induction n generalizing st evt s with
  | zero => rfl
  | succ n ih =>
    unfold smtpClientFsmStepN
    by_cases hst : st.terminal = true
    · rw [if_pos hst, if_pos hst]
      rfl
    · rw [if_neg hst, if_neg hst]
      exact transAction_neutral mails hg s _ (fun st evt s => ih s st evt) _ _

theorem advance_neutral (evt : FsmEvent) :
    advance mails (g s) evt = (advance mails s evt).map g := by
  unfold advance smtpClientFsmStep
  rw [hg.state, step_neutral mails hg]
  cases smtpClientFsmStepN mails 2 s.conn.state evt s with
  | none => rfl
  | some x => exact congrArg some (hg.setState x.2 x.1).symm

omit hg

/-- The session with another time stamp. -/
def atTime (now : ℤ) (s : Session) : Session :=
  { s with conn := { s.conn with timeOfLastResponse := now } }

theorem neutral_atTime (now : ℤ) : Neutral (atTime now) :=
  ⟨fun _ => rfl, fun _ => rfl, fun _ => rfl, fun _ => rfl, fun _ _ _ => rfl, fun _ _ => rfl,
    fun _ _ => rfl, fun _ _ => rfl, fun _ _ => rfl⟩

/-- The session behind flags that are already set and commands already sent. -/
def behind (wasSent : ℕ → Bool) (sent : List Sent) (s : Session) : Session :=
  ⟨s.conn, fun i => wasSent i || s.wasSent i, sent ++ s.sent⟩

theorem neutral_behind (wasSent : ℕ → Bool) (sent : List Sent) : Neutral (behind wasSent sent) := by
  refine ⟨fun _ => rfl, fun _ => rfl, fun _ => rfl, fun _ => rfl, ?_, fun _ _ => rfl,
    fun _ _ => rfl, fun _ _ => rfl, ?_⟩
  · intro s command text
    simp [behind, Session.send]
  · intro s i
    have hflags : (fun k => wasSent k || Function.update s.wasSent i true k) =
        Function.update (fun k => wasSent k || s.wasSent k) i true := by
      funext k
      by_cases hk : k = i
      · simp [hk]
      · simp [Function.update_of_ne hk]
    exact congrArg (fun flags => (⟨s.conn, flags, sent ++ s.sent⟩ : Session)) hflags

/-- A connection that has set no flag and sent nothing yet. -/
def alone (c : MxConn) : Session := ⟨c, fun _ => false, []⟩

/-- A session on its own put into the transfer as connection p. -/
def merge (w : World) (p : ℕ) (now : ℤ) (s : Session) : World :=
  { w with
    conns := w.conns.set p { s.conn with timeOfLastResponse := now }
    wasSent := fun i => w.wasSent i || s.wasSent i
    trace := w.trace ++ s.sent.map (Act.send p) }

theorem sessionAt_eq (w : World) (c : MxConn) (now : ℤ) :
    sessionAt w c now = atTime now (behind w.wasSent [] (alone c)) := by
  simp [sessionAt, atTime, behind, alone]

/-- parse_response is the step of the session on its own. -/
theorem parseResponse_eq_merge (w : World) (p : ℕ) (str : Bytes) (now : ℤ) (c : MxConn)
    (hc : w.conns[p]? = some c) :
    parseResponse w p str now =
      (advance w.mails (alone c) (replyEvent str)).map (merge w p now) := by
  rw [parseResponse_eq w p str now c hc, sessionAt_eq,
    advance_neutral w.mails (neutral_atTime now), advance_neutral w.mails (neutral_behind _ _),
    Option.map_map, Option.map_map]
  rfl

/-- The transfers differ at most in the order in which their traces interleave
the connections. -/
structure SameTransfer (v w : World) : Prop where
  mails : v.mails = w.mails
  domains : v.domains = w.domains
  conns : v.conns = w.conns
  connections : v.connections = w.connections
  count : v.connectionsCount = w.connectionsCount
  wasSent : v.wasSent = w.wasSent
  turns : ∀ p, turnsOf v.trace p = turnsOf w.trace p

theorem merge_comm (w : World) (p q : ℕ) (now later : ℤ) (s t : Session) (hne : p ≠ q) :
    SameTransfer (merge (merge w p now s) q later t) (merge (merge w q later t) p now s) := by
  refine ⟨rfl, rfl, List.set_comm _ _ hne, rfl, rfl, ?_, ?_⟩
  · funext i
    change ((w.wasSent i || s.wasSent i) || t.wasSent i) =
      ((w.wasSent i || t.wasSent i) || s.wasSent i)
    rw [Bool.or_right_comm]
  · intro r
    change turnsOf ((w.trace ++ s.sent.map (Act.send p)) ++ t.sent.map (Act.send q)) r =
      turnsOf ((w.trace ++ t.sent.map (Act.send q)) ++ s.sent.map (Act.send p)) r
    simp only [turnsOf_append, turnsOf_sends]
    by_cases hp : p = r
    · have hq : q ≠ r := by
        intro hq
        exact hne (hp.trans hq.symm)
      simp [hq]
    · simp [hp]

/-- Steps of parse_response on two different connections commute. -/
theorem parseResponse_comm (w v : World) (p q : ℕ) (a b : Bytes) (now later : ℤ) (hne : p ≠ q)
    (h : (parseResponse w p a now).bind (fun w => parseResponse w q b later) = some v) :
    ∃ v', (parseResponse w q b later).bind (fun w => parseResponse w p a now) = some v' ∧
      SameTransfer v v' := by
  obtain ⟨u, hu, hv⟩ := Option.bind_eq_some_iff.mp h
  have hpsome : ∃ c, w.conns[p]? = some c := by
    cases hc : w.conns[p]? with
    | some c => exact ⟨c, rfl⟩
    | none =>
      unfold parseResponse at hu
      rw [hc] at hu
      cases hu
  obtain ⟨c, hc⟩ := hpsome
  rw [parseResponse_eq_merge w p a now c hc] at hu
  obtain ⟨s, hs, rfl⟩ := Option.map_eq_some_iff.mp hu
  have hother : (merge w p now s).conns[q]? = w.conns[q]? := List.getElem?_set_ne hne
  have hqsome : ∃ e, w.conns[q]? = some e := by
    cases he : w.conns[q]? with
    | some e => exact ⟨e, rfl⟩
    | none =>
      unfold parseResponse at hv
      rw [hother, he] at hv
      cases hv
  obtain ⟨e, he⟩ := hqsome
  rw [parseResponse_eq_merge _ q b later e (hother.trans he)] at hv
  obtain ⟨t, ht, rfl⟩ := Option.map_eq_some_iff.mp hv
  refine ⟨merge (merge w q later t) p now s, ?_, merge_comm w p q now later s t hne⟩
  have ht : advance w.mails (alone e) (replyEvent b) = some t := ht
  have hback : (merge w q later t).conns[p]? = some c :=
    (List.getElem?_set_ne (Ne.symm hne)).trans hc
  rw [parseResponse_eq_merge w q b later e he, ht, Option.map_some, Option.bind_some,
    parseResponse_eq_merge _ p a now c hback]
  change (advance w.mails (alone c) (replyEvent a)).map _ = _
  rw [hs]
  rfl

end SmtpClient.Isolation
