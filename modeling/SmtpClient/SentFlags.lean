import SmtpClient.Acceptance
import SmtpClient.ClosedConnections

/-!
The was_sent flags over a whole transfer. A flag is set by the reply 250 that a
connection consumes in the state DATASTR, and it belongs to the mail whose text
that connection was sent last. No pass clears a flag or sets another one, and
the flags decide what becomes of the files.
-/
namespace SmtpClient.SentFlags

open MailTypes SendCommands Dialogues SessionScript ScriptOrder MxLookup Connections Maildir
open EventLoop Passes TransferInvariant Setup Acceptance ClosedConnections Runs

def isText (x : Sent) : Bool := (Command.text? x.command).isSome

/-- The last message text that was sent on connection p. -/
def lastMessage (w : World) (p : ℕ) : Option Sent := ((sentOn w p).filter isText).getLast?

/-- In this pass connection p consumes a reply 250 in the state DATASTR, and the
text of mail i is the last message text sent on it. -/
structure Consumes (w : World) (inp : PassInput) (p i : ℕ) : Prop where
  served : addressed w inp = some p
  reply : ∃ chunk, inp.recv = .data chunk ∧ replyEvent chunk.buf = .r250
  state : ∃ c, w.conns[p]? = some c ∧ c.state = .datastr
  text : ∃ m, w.mails[i]? = some m ∧ lastMessage w p = some ⟨.datastr i, m.msg⟩

/-- The last turn, when it is a text, is the last text that was said. -/
theorem lastText_filter (t : List (Turn FsmEvent Sent)) (i : ℕ) (h : lastText t = some i) :
    ∃ text, ((saidOf t).filter isText).getLast? = some ⟨.datastr i, text⟩ ∧
      .said ⟨.datastr i, text⟩ ∈ t := by
  unfold lastText at h
  split at h
  · rename_i x hx
    obtain ⟨before, rfl⟩ := List.getLast?_eq_some_iff.mp hx
    obtain ⟨command, text⟩ := x
    cases command with
    | datastr k =>
      obtain rfl := Option.some.inj h
      refine ⟨text, ?_, List.mem_append_right _ (List.mem_singleton_self _)⟩
      rw [saidOf_append, List.filter_append]
      exact List.getLast?_concat
    | helo => cases h
    | mailfrom k => cases h
    | rcptto k l => cases h
    | data => cases h
    | quit => cases h
  · cases h

/-- On a sound connection in the state DATASTR the mail cursor names the mail
whose text was sent last. -/
theorem lastMessage_of_datastr (w : World) (h : Sound w) (p : ℕ) (c : MxConn)
    (hc : w.conns[p]? = some c) (hstate : c.state = .datastr) :
    ∃ k m, c.m = some k ∧ w.mails[k]? = some m ∧
      lastMessage w p = some ⟨.datastr k, m.msg⟩ := by
  have hsound := h.conns p c hc
  have hlive : c.state.terminal = false := by
    rw [hstate]
    rfl
  obtain ⟨φ, htracks, hconf⟩ := hsound.script
  have hcursor : ∃ k, c.m = some k := by
    cases htracks with
    | datastr hs hm => exact ⟨_, hm.cursor⟩
    | init hs | helo hs | mailfrom hs | rcptto hs | data hs | quit hs | done hs | invalid hs =>
      rw [hs] at hstate
      cases hstate
  obtain ⟨k, hk⟩ := hcursor
  have htext := hsound.texts hlive
  unfold unacknowledged at htext
  rw [if_pos hstate, hk] at htext
  obtain ⟨text, hlast, hsaid⟩ := lastText_filter _ k htext
  have hscript := hconf.saidOf_prefix.subset ((mem_saidOf _ _).mpr hsaid)
  obtain ⟨m, hm, -, rfl⟩ := mem_scriptCommands_datastr w.mails c.dom k text hscript
  exact ⟨k, m, hk, hm, hlast⟩

/-- A reply acknowledges a text exactly when it is consumed in the state DATASTR. -/
theorem consumes_iff (w : World) (h : Sound w) (inp : PassInput) (p i : ℕ) (c : MxConn)
    (chunk : Chunk) (haddr : addressed w inp = some p) (hrecv : inp.recv = .data chunk)
    (hc : w.conns[p]? = some c) (hlive : c.state.terminal = false) :
    replyEvent chunk.buf = .r250 ∧ lastText (turnsOf w.trace p) = some i ↔
      Consumes w inp p i := by
  have htext := (h.conns p c hc).texts hlive
  constructor
  · intro hack
    obtain ⟨hreply, hlast⟩ := hack
    rw [htext] at hlast
    unfold unacknowledged at hlast
    split at hlast
    · rename_i hstate
      obtain ⟨k, m, hk, hm, hmessage⟩ := lastMessage_of_datastr w h p c hc hstate
      rw [hk] at hlast
      obtain rfl := Option.some.inj hlast
      exact ⟨haddr, ⟨chunk, hrecv, hreply⟩, ⟨c, hc, hstate⟩, ⟨m, hm, hmessage⟩⟩
    · cases hlast
  · intro hconsumes
    obtain ⟨-, ⟨chunk', hrecv', hreply⟩, ⟨a, ha, hstate⟩, ⟨m, hm, hmessage⟩⟩ := hconsumes
    rw [hrecv] at hrecv'
    obtain rfl := RecvResult.data.inj hrecv'
    obtain rfl := Option.some.inj (hc.symm.trans ha)
    obtain ⟨k, m', hk, -, hmessage'⟩ := lastMessage_of_datastr w h p c hc hstate
    rw [hmessage] at hmessage'
    obtain ⟨hcommand, -⟩ := Sent.mk.inj (Option.some.inj hmessage')
    obtain rfl := Command.datastr.inj hcommand
    refine ⟨hreply, ?_⟩
    rw [htext]
    unfold unacknowledged
    rw [if_pos hstate, hk]

/-- One pass sets the flag of the mail whose acknowledgement it consumes, and
leaves every other flag as it was. -/
theorem pass_wasSent_iff (timeout : ℤ) (w w' : World) (inp : PassInput) (h : Sound w)
    (hlive : AllLive w) (hw : connLoopPass timeout w inp = some w') (i : ℕ) :
    w'.wasSent i = true ↔ w.wasSent i = true ∨ ∃ p, Consumes w inp p i := by
  obtain ⟨n, v, hv, rfl, hsound, -, -⟩ := pass_eq_sweep timeout w w' inp h hlive hw
  have hswept : (sweep timeout inp.clock v).wasSent = v.wasSent := by
    rw [sweep_eq timeout inp.clock v hsound.nodup hsound.listed]
    rfl
  rw [hswept]
  rcases waitForResponse_cases w v inp n hv with ⟨haddr, rfl⟩ | ⟨p, haddr, hp, hserved⟩
  · constructor
    · exact Or.inl
    · intro hor
      rcases hor with hsent | ⟨p, hconsumes⟩
      · exact hsent
      · have hserved := hconsumes.served
        rw [haddr] at hserved
        cases hserved
  · obtain ⟨c, hc⟩ := h.listed p hp
    rcases hserved with ⟨hfail, rfl⟩ | ⟨chunk, hrecv, hparse⟩
    · rw [invalidateConnection_eq (World.log w [.recv p inp.recv]) p c hc]
      constructor
      · exact Or.inl
      · intro hor
        rcases hor with hsent | ⟨q, hconsumes⟩
        · exact hsent
        · obtain ⟨chunk, hchunk, -⟩ := hconsumes.reply
          exact absurd hchunk (hfail chunk)
    · have hlivec := hlive p hp c hc
      obtain ⟨s, hs, -⟩ := sound_answer w p c chunk inp.now h hp hc hlivec
      rw [hrecv, hs] at hparse
      obtain rfl := Option.some.inj hparse
      have hmarks := hsound.marks i
      change _ ↔ ∃ q, Accepted (turnsOf (w.trace ++ [.recv p (.data chunk)] ++
        s.sent.map (Act.send p)) q) i at hmarks
      rw [exists_accepted_answer, ← h.marks i,
        consumes_iff w h inp p i c chunk haddr hrecv hc hlivec] at hmarks
      rw [hmarks]
      constructor
      · intro hor
        rcases hor with hsent | hconsumes
        · exact Or.inl hsent
        · exact Or.inr ⟨p, hconsumes⟩
      · intro hor
        rcases hor with hsent | ⟨q, hconsumes⟩
        · exact Or.inl hsent
        · have hserved := hconsumes.served
          rw [haddr] at hserved
          obtain rfl := Option.some.inj hserved
          exact Or.inr hconsumes

theorem restIn_wasSent_iff (timeout : ℤ) (w w' : World) (inp : PassInput)
    (h : Sound w ∧ AllLive w)
    (hw : restIn (fun w => w.connections.isEmpty) (connLoopPass timeout) w inp = some w')
    (i : ℕ) : w'.wasSent i = true ↔ w.wasSent i = true ∨ ∃ p, Consumes w inp p i := by
  unfold restIn at hw
  split at hw
  · rename_i hnil
    obtain rfl := Option.some.inj hw
    constructor
    · exact Or.inl
    · intro hor
      rcases hor with hsent | ⟨p, hconsumes⟩
      · exact hsent
      · have hmem := addressed_mem w inp p hconsumes.served
        rw [List.isEmpty_iff.mp hnil] at hmem
        exact absurd hmem List.not_mem_nil
  · exact pass_wasSent_iff timeout w w' inp h.1 h.2 hw i

section Run

variable (myDomain : Bytes) (net : Net) (mails : List Mail) (timeout : ℤ) (inps : List PassInput)

theorem transfer_eq_run : transfer myDomain net mails timeout inps =
    (connInit myDomain net mails).bind fun w =>
      run (restIn (fun w => w.connections.isEmpty) (connLoopPass timeout)) w inps := by
  unfold transfer
  congr 1
  funext w
  exact connLoop_eq_run timeout w inps

theorem transfer_concat (inp : PassInput) (v w : World)
    (hv : transfer myDomain net mails timeout inps = some v)
    (hw : transfer myDomain net mails timeout (inps ++ [inp]) = some w) :
    restIn (fun w => w.connections.isEmpty) (connLoopPass timeout) v inp = some w := by
  rw [transfer_eq_run] at hv hw
  obtain ⟨w₀, hinit, hv⟩ := Option.bind_eq_some_iff.mp hv
  rw [hinit, Option.bind_some, run_concat, hv] at hw
  exact hw

/-- The flag of a mail is set exactly when some connection has consumed a reply
250 in the state DATASTR while that mail's text was the last one sent on it. A
pass sets no other flag and clears none, and each mail gets one file action,
which its flag decides. -/
theorem wasSent_iff_consumed (w : World)
    (h : transfer myDomain net mails timeout inps = some w) :
    (∀ i, w.wasSent i = true ↔ ∃ before inp after v p, inps = before ++ inp :: after ∧
      transfer myDomain net mails timeout before = some v ∧ Consumes v inp p i) ∧
    (∀ before inp v v', before ++ [inp] <+: inps →
      transfer myDomain net mails timeout before = some v →
      transfer myDomain net mails timeout (before ++ [inp]) = some v' →
      ∀ i, v'.wasSent i = true ↔ v.wasSent i = true ∨ ∃ p, Consumes v inp p i) ∧
    (finishMail w).length = mails.length ∧
    ∀ i m, mails[i]? = some m → (finishMail w)[i]? =
      some (if w.wasSent i then .deleteMail m.filename .new
        else .moveMail m.filename .new .notSent) := by
  obtain ⟨-, hmails, -⟩ := transfer_sound myDomain net mails timeout inps w h
  refine ⟨?_, ?_, ?_, ?_⟩
  · intro i
    rw [transfer_eq_run] at h
    obtain ⟨w₀, hinit, hrun⟩ := Option.bind_eq_some_iff.mp h
    have hopened := connInit_opened myDomain net mails w₀ hinit
    have hend := run_sets_iff (fun w => Sound w ∧ AllLive w) (fun w => w.wasSent i = true)
      (fun v inp => ∃ p, Consumes v inp p i) ?_ inps w (opened_sound w₀ hopened) hrun
    · rw [hend, hopened.wasSent i]
      constructor
      · intro hor
        rcases hor with hfalse | ⟨before, inp, after, v, hsplit, hv, p, hconsumes⟩
        · cases hfalse
        · refine ⟨before, inp, after, v, p, hsplit, ?_, hconsumes⟩
          rw [transfer_eq_run, hinit]
          exact hv
      · intro hex
        obtain ⟨before, inp, after, v, p, hsplit, hv, hconsumes⟩ := hex
        rw [transfer_eq_run, hinit] at hv
        exact Or.inr ⟨before, inp, after, v, hsplit, hv, p, hconsumes⟩
    · intro v inp v' hv hstep
      exact ⟨(restIn_sound timeout v inp v' hv hstep).1,
        restIn_wasSent_iff timeout v v' inp hv hstep i⟩
  · intro before inp v v' _ hv hv' i
    have hsound := (transfer_sound myDomain net mails timeout before v hv).1
    have hstep := transfer_concat myDomain net mails timeout before inp v v' hv hv'
    exact restIn_wasSent_iff timeout v v' inp hsound hstep i
  · rw [← hmails]
    simp [finishMail]
  · intro i m hm
    rw [← hmails] at hm
    exact getElem?_finishMail w i m hm

end Run

/-- The one server of a mail for one recipient accepts it: some pass consumed
the acknowledgement. -/
theorem wasSent_iff_consumed_one_server :
    ∃ before inp after v p, acceptingInputs = before ++ inp :: after ∧
      transfer (bytes "b") netOnlyD [twoDomainMail] 60 before = some v ∧
      Consumes v inp p 0 := by
  obtain ⟨w, hw, hobs⟩ := Option.map_eq_some_iff.mp transfer_twoDomainMail
  obtain ⟨-, hobs⟩ := Prod.mk.inj hobs
  obtain ⟨hfinish, -⟩ := Prod.mk.inj hobs
  obtain ⟨hflag, -, -, haction⟩ := wasSent_iff_consumed _ _ _ _ _ w hw
  refine (hflag 0).mp ?_
  by_contra hfalse
  have hmoved := haction 0 twoDomainMail rfl
  rw [hfinish, if_neg hfalse] at hmoved
  cases hmoved

end SmtpClient.SentFlags
