import SmtpClient.Setup
import SmtpClient.ScriptOrder

/-!
What becomes of a queued mail once conn_loop is over. One acknowledgement is
enough to delete its file: the flag was_sent is shared by all connections and
says that at least one server has accepted the text.
-/
namespace SmtpClient.Acceptance

open MailTypes SendCommands Dialogues SessionScript ScriptOrder MxLookup Connections Maildir
open EventLoop Passes TransferInvariant Setup

/-- The server of connection p accepted the text of mail i. -/
def AcceptedBy (w : World) (p i : ℕ) : Prop := Accepted (turnsOf w.trace p) i

theorem mem_saidOf (t : List (Turn FsmEvent Sent)) (x : Sent) : x ∈ saidOf t ↔ .said x ∈ t := by
  unfold saidOf
  rw [List.mem_filterMap]
  constructor
  · intro h
    obtain ⟨y, hy, hx⟩ := h
    cases y with
    | heard r => cases hx
    | said c =>
      obtain rfl := Option.some.inj hx
      exact hy
  · intro h
    exact ⟨.said x, h, rfl⟩

/-- A text that is the last thing said was said. -/
theorem lastText_mem (t : List (Turn FsmEvent Sent)) (i : ℕ) (h : lastText t = some i) :
    ∃ text, .said ⟨.datastr i, text⟩ ∈ t := by
  unfold lastText at h
  split at h
  · rename_i x hx
    obtain ⟨command, text⟩ := x
    cases command with
    | datastr k =>
      obtain rfl := Option.some.inj h
      exact ⟨text, List.mem_of_getLast? hx⟩
    | helo => cases h
    | mailfrom k => cases h
    | rcptto k l => cases h
    | data => cases h
    | quit => cases h
  · cases h

/-- A server that accepted a mail serves the domain of one of its recipients. -/
theorem acceptedBy_conn (w : World) (h : Sound w) (p i : ℕ) (hacc : AcceptedBy w p i) :
    ∃ c m, w.conns[p]? = some c ∧ w.mails[i]? = some m ∧ ∃ r ∈ m.rcpts, r.domain = c.dom.name := by
  obtain ⟨before, hpre, htext⟩ := hacc
  obtain ⟨text, hsaid⟩ := lastText_mem before i htext
  have hmem : .said ⟨.datastr i, text⟩ ∈ turnsOf w.trace p :=
    hpre.subset (List.mem_append_left _ hsaid)
  obtain ⟨c, hc, hscript⟩ := mem_sentOn w h p _ ((mem_saidOf _ _).mpr hmem)
  obtain ⟨m, hm, hwant, -⟩ := mem_scriptCommands_datastr w.mails c.dom i text hscript
  exact ⟨c, m, hc, hm, (mailHasRcptsFromDomain_iff m c.dom).mp hwant⟩

theorem getElem?_finishMail (w : World) (i : ℕ) (m : Mail) (hm : w.mails[i]? = some m) :
    (finishMail w)[i]? = some (if w.wasSent i then .deleteMail m.filename .new
      else .moveMail m.filename .new .notSent) := by
  simp [finishMail, hm]

/-- A queued mail is deleted when at least one server of its remote domains has
accepted its text, and moved to NOT_SENT when none has. -/
theorem deleted_iff_accepted_once (myDomain : Bytes) (net : Net) (mails : List Mail)
    (timeout : ℤ) (inps : List PassInput) (w : World) (i : ℕ) (m : Mail)
    (h : transfer myDomain net mails timeout inps = some w) (hm : mails[i]? = some m) :
    ((finishMail w)[i]? = some (.deleteMail m.filename .new) ∧
      ∃ p c, w.conns[p]? = some c ∧ c.dom.name ≠ myDomain ∧
        (∃ r ∈ m.rcpts, r.domain = c.dom.name) ∧ AcceptedBy w p i) ∨
    ((finishMail w)[i]? = some (.moveMail m.filename .new .notSent) ∧
      ∀ p, ¬ AcceptedBy w p i) := by
  obtain ⟨⟨hsound, -⟩, hmails, -⟩ := transfer_sound myDomain net mails timeout inps w h
  rw [← hmails] at hm
  rw [getElem?_finishMail w i m hm]
  by_cases hsent : w.wasSent i = true
  · obtain ⟨p, hacc⟩ := (hsound.marks i).mp hsent
    obtain ⟨c, m', hc, hm', hrcpt⟩ := acceptedBy_conn w hsound p i hacc
    obtain rfl := Option.some.inj (hm.symm.trans hm')
    have hremote := transfer_remote myDomain net mails timeout inps w h p c hc
    exact Or.inl ⟨by rw [if_pos hsent], p, c, hc, hremote, hrcpt, hacc⟩
  · refine Or.inr ⟨by rw [if_neg hsent], ?_⟩
    intro p hacc
    exact hsent ((hsound.marks i).mpr ⟨p, hacc⟩)

/-- A mail to the domains d and e. -/
def twoDomainMail : Mail :=
  ⟨bytes "MAIL FROM: <a@b>\r\n", [⟨bytes "c@d", bytes "d"⟩, ⟨bytes "c@e", bytes "e"⟩],
    bytes ".\r\n", bytes "1"⟩

/-- Only the MX host of d can be reached. -/
def netOnlyD : Net := netReaching fun d => if d = bytes "d" then some 4 else none

theorem transfer_twoDomainMail :
    (transfer (bytes "b") netOnlyD [twoDomainMail] 60 acceptingInputs).map
      (fun w => (w.connections, finishMail w, w.conns.map MxConn.dom)) =
    some ([], [.deleteMail (bytes "1") .new], [⟨bytes "d"⟩]) := by
  decide

/-- The file is deleted although no server of the domain e was ever reached. -/
theorem deleted_without_acceptance :
    ¬ ∀ (myDomain : Bytes) (net : Net) (mails : List Mail) (timeout : ℤ)
        (inps : List PassInput) (w : World) (i : ℕ) (m : Mail),
        transfer myDomain net mails timeout inps = some w → w.connections = [] →
        mails[i]? = some m → (finishMail w)[i]? = some (.deleteMail m.filename .new) →
        ∀ r ∈ m.rcpts, r.domain ≠ myDomain →
          ∃ p c, w.conns[p]? = some c ∧ c.dom.name = r.domain ∧ AcceptedBy w p i := by
  intro hclaim
  obtain ⟨w, hw, hobs⟩ := Option.map_eq_some_iff.mp transfer_twoDomainMail
  obtain ⟨hend, hobs⟩ := Prod.mk.inj hobs
  obtain ⟨hfinish, hdoms⟩ := Prod.mk.inj hobs
  obtain ⟨p, c, hc, hdom, -⟩ := hclaim _ _ _ _ _ w 0 twoDomainMail hw hend rfl
    (by rw [hfinish]; rfl) ⟨bytes "c@e", bytes "e"⟩ (by decide) (by decide)
  have hmem : c.dom ∈ w.conns.map MxConn.dom :=
    List.mem_map.mpr ⟨c, List.mem_of_getElem? hc, rfl⟩
  rw [hdoms, List.mem_singleton] at hmem
  rw [hmem] at hdom
  exact absurd hdom (by decide)

/-- The server of d accepts the mail and its file is deleted. -/
theorem deleted_iff_accepted_once_one_server :
    ∃ w, transfer (bytes "b") netOnlyD [twoDomainMail] 60 acceptingInputs = some w ∧
      ∃ p c, w.conns[p]? = some c ∧ (∃ r ∈ twoDomainMail.rcpts, r.domain = c.dom.name) ∧
        AcceptedBy w p 0 := by
  obtain ⟨w, hw, hobs⟩ := Option.map_eq_some_iff.mp transfer_twoDomainMail
  obtain ⟨-, hobs⟩ := Prod.mk.inj hobs
  obtain ⟨hfinish, -⟩ := Prod.mk.inj hobs
  rcases deleted_iff_accepted_once _ _ _ _ _ w 0 twoDomainMail hw rfl with
    ⟨-, p, c, hc, -, hrcpt, hacc⟩ | ⟨hmoved, -⟩
  · exact ⟨w, hw, p, c, hc, hrcpt, hacc⟩
  · rw [hfinish] at hmoved
    cases hmoved

end SmtpClient.Acceptance
