import SmtpClient.SendCommands

/-!
The generated state machine of one SMTP session: the transition table and the
step function with its transition actions. Two actions step the machine again
with an internal event, so the step function is given a bound on that nesting;
two levels always suffice. The step function returns the next state, which its
caller stores in the connection.
-/
namespace SmtpClient.ClientFsm

open MailTypes Queues SendCommands

inductive FsmTrans
  | datastrNoMail | datastrR250 | datastrTimeout | dataR354 | dataTimeout
  | heloR250 | heloTimeout | initR220 | initTimeout | invalid
  | mailfromR250 | mailfromTimeout | quitR221 | quitTimeout
  | rcpttoNoRcpt | rcpttoR250 | rcpttoTimeout
deriving DecidableEq, Repr

def fsmTransTable : FsmState → FsmEvent → FsmState × FsmTrans
  | .init, .r220 => (.helo, .initR220)
  | .init, .timeout => (.invalid, .initTimeout)
  | .helo, .r250 => (.mailfrom, .heloR250)
  | .helo, .timeout => (.invalid, .heloTimeout)
  | .mailfrom, .r250 => (.rcptto, .mailfromR250)
  | .mailfrom, .timeout => (.invalid, .mailfromTimeout)
  | .rcptto, .r250 => (.rcptto, .rcpttoR250)
  | .rcptto, .noRcpt => (.data, .rcpttoNoRcpt)
  | .rcptto, .timeout => (.invalid, .rcpttoTimeout)
  | .data, .r354 => (.datastr, .dataR354)
  | .data, .timeout => (.invalid, .dataTimeout)
  | .datastr, .r250 => (.mailfrom, .datastrR250)
  | .datastr, .noMail => (.quit, .datastrNoMail)
  | .datastr, .timeout => (.invalid, .datastrTimeout)
  | .quit, .r221 => (.done, .quitR221)
  | .quit, .timeout => (.invalid, .quitTimeout)
  | _, _ => (.invalid, .invalid)

/-- The mail pointer moves to the next mail with a recipient of the domain. -/
def skipMails (mails : List Mail) (d : Domain) (i : ℕ) : Option ℕ :=
  seek (fun m => mailHasRcptsFromDomain m d) (i + 1) (mails.drop (i + 1))

/-- The actions of the transitions. The argument step is the machine itself. -/
def transAction (mails : List Mail)
    (step : FsmState → FsmEvent → Session → Option (FsmState × Session))
    (nxtSt : FsmState) (s : Session) : FsmTrans → Option (FsmState × Session)
  | .datastrNoMail => return (nxtSt, sendQuit s)
  | .datastrR250 => do
    let i ← s.conn.m
    let _ ← mails[i]?
    let s := s.markSent i
    match skipMails mails s.conn.dom i with
    | none => step .datastr .noMail (s.setM none)
    | some k =>
      let m ← mails[k]?
      let s := (s.setM (some k)).setR ((first m.rcpts).map fun l => (k, l))
      return (nxtSt, ← sendMailfrom mails s)
  | .dataR354 => return (nxtSt, ← sendDatastr mails s)
  | .heloR250 => return (nxtSt, ← sendMailfrom mails s)
  | .initR220 => return (nxtSt, sendHello s)
  | .invalid => return (.invalid, s)
  | .mailfromR250 => return (nxtSt, (← sendRcptto mails s).2)
  | .rcpttoNoRcpt => return (nxtSt, sendData s)
  | .rcpttoR250 => do
    let (more, s) ← sendRcptto mails s
    if more then return (nxtSt, s) else step .rcptto .noRcpt s
  | .quitR221 => return (nxtSt, s)
  | .datastrTimeout | .dataTimeout | .heloTimeout | .initTimeout | .mailfromTimeout
  | .quitTimeout | .rcpttoTimeout => return (nxtSt, s)

/-- A finished or failed machine is reset to INIT without any action. -/
def smtpClientFsmStepN (mails : List Mail) :
    ℕ → FsmState → FsmEvent → Session → Option (FsmState × Session)
  | 0, _, _, _ => none
  | n + 1, st, evt, s =>
    if st.terminal then some (.init, s)
    else
      let (nxtSt, tr) := if evt = .invalid then (.invalid, .invalid) else fsmTransTable st evt
      transAction mails (smtpClientFsmStepN mails n) nxtSt s tr

def smtpClientFsmStep (mails : List Mail) :
    FsmState → FsmEvent → Session → Option (FsmState × Session) :=
  smtpClientFsmStepN mails 2

section Step

variable (mails : List Mail) (s : Session)

theorem transAction_congr (step step' : FsmState → FsmEvent → Session → Option (FsmState × Session))
    (nxtSt : FsmState) (tr : FsmTrans)
    (hmail : step .datastr .noMail = step' .datastr .noMail)
    (hrcpt : step .rcptto .noRcpt = step' .rcptto .noRcpt) :
    transAction mails step nxtSt s tr = transAction mails step' nxtSt s tr := by
  cases tr <;> simp only [transAction, hmail, hrcpt]

/-- A deeper bound on the nesting changes nothing. -/
theorem smtpClientFsmStepN_add_two (n : ℕ) (st : FsmState) (evt : FsmEvent) :
    smtpClientFsmStepN mails (n + 2) st evt s = smtpClientFsmStep mails st evt s := by
  unfold smtpClientFsmStep
  rw [smtpClientFsmStepN, smtpClientFsmStepN]
  split
  · rfl
  · exact transAction_congr mails s _ _ _ _ rfl rfl

theorem step_init_r220 :
    smtpClientFsmStep mails .init .r220 s = some (.helo, sendHello s) := rfl

theorem step_helo_r250 : smtpClientFsmStep mails .helo .r250 s =
    (sendMailfrom mails s).bind fun s' => some (.mailfrom, s') := rfl

theorem step_mailfrom_r250 : smtpClientFsmStep mails .mailfrom .r250 s =
    (sendRcptto mails s).bind fun x => some (.rcptto, x.2) := rfl

theorem step_rcptto_r250 : smtpClientFsmStep mails .rcptto .r250 s =
    (sendRcptto mails s).bind fun x =>
      if x.1 then some (.rcptto, x.2) else some (.data, sendData x.2) := rfl

theorem step_data_r354 : smtpClientFsmStep mails .data .r354 s =
    (sendDatastr mails s).bind fun s' => some (.datastr, s') := rfl

theorem step_quit_r221 : smtpClientFsmStep mails .quit .r221 s = some (.done, s) := rfl

/-- The acknowledged mail is marked, and the session goes on with the next mail
that has a recipient in the domain. -/
theorem step_datastr_r250_some (i k : ℕ) (a b : Mail) (hm : s.conn.m = some i)
    (ha : mails[i]? = some a) (hk : skipMails mails s.conn.dom i = some k)
    (hb : mails[k]? = some b) :
    smtpClientFsmStep mails .datastr .r250 s =
      some (.mailfrom, (((s.markSent i).setM (some k)).setR
        ((first b.rcpts).map fun l => (k, l))).send (.mailfrom k) b.fromLine) := by
  simp [smtpClientFsmStep, smtpClientFsmStepN, FsmState.terminal, fsmTransTable, transAction,
    sendMailfrom, Session.markSent, Session.setM, Session.setR, hm, ha, hk, hb]

/-- Behind the last mail the session is closed with QUIT. -/
theorem step_datastr_r250_none (i : ℕ) (a : Mail) (hm : s.conn.m = some i)
    (ha : mails[i]? = some a) (hk : skipMails mails s.conn.dom i = none) :
    smtpClientFsmStep mails .datastr .r250 s =
      some (.quit, sendQuit ((s.markSent i).setM none)) := by
  simp [smtpClientFsmStep, smtpClientFsmStepN, FsmState.terminal, fsmTransTable, transAction,
    Session.markSent, hm, ha, hk]

/-- Any other reply fails the session without sending anything. -/
theorem step_wrong_reply (st : FsmState) (evt : FsmEvent) (hst : st.terminal = false)
    (hevt : evt.isReply = true) (hne : evt ≠ st.awaitedReply) :
    smtpClientFsmStep mails st evt s = some (.invalid, s) := by
  cases st <;> cases evt <;>
    first
    | rfl
    | exact absurd rfl hne
    | exact absurd hevt Bool.false_ne_true
    | exact absurd hst (by decide)

end Step

end SmtpClient.ClientFsm
