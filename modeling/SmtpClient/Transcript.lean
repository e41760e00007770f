import SmtpClient.Connections
import SmtpClient.Runs

/-!
One session on its own. Replies are fed to the state machine until it is
finished or failed, and the session follows its script as a dialogue does. The
connection that create_connection builds stands at the beginning of the script.
-/
namespace SmtpClient.Transcript

open MailTypes Queues SendCommands ClientFsm Dialogues SessionScript Connections Runs

/-- One reply: step the machine and store its state. -/
def advance (mails : List Mail) (s : Session) (evt : FsmEvent) : Option Session :=
  (smtpClientFsmStep mails s.conn.state evt s).map fun x => x.2.setState x.1

/-- Replies are fed until the first state DONE or INVALID. -/
def feed (mails : List Mail) : Session → List FsmEvent → Option Session :=
  run (restIn (fun s => s.conn.state.terminal) (advance mails))

/-- A session that follows its script runs without a fault, as the dialogue does. -/
theorem feed_refines (mails : List Mail) (s : Session) (φ : SessionPhase) (evts : List FsmEvent)
    (h : Tracks mails s.conn φ) (hevts : ∀ evt ∈ evts, evt.isReply = true) :
    ∃ s', feed mails s evts = some s' ∧ Tracks mails s'.conn (talk .r221 φ evts).1 ∧
      s'.sent = s.sent ++ saidOf (talk .r221 φ evts).2 := by
  induction evts generalizing s φ with
  | nil =>
    refine ⟨s, rfl, ?_, ?_⟩
    · cases φ <;> exact h
    · cases φ <;> exact (List.append_nil _).symm
  | cons evt evts ih =>
    by_cases hφ : s.conn.state.terminal = true
    · refine ⟨s, run_of_halted _ s _ _ hφ, ?_, ?_⟩
      · rcases h.terminal_iff.mp hφ with rfl | rfl <;> exact h
      · rcases h.terminal_iff.mp hφ with rfl | rfl <;> exact (List.append_nil _).symm
    · cases φ with
      | live rest =>
        obtain ⟨st, s₁, hstep, hout⟩ := step_refines s rest evt h (hevts evt List.mem_cons_self)
        have hadv : restIn (fun s => s.conn.state.terminal) (advance mails) s evt =
            some (s₁.setState st) := by
          rw [restIn, if_neg hφ, advance, hstep]
          rfl
        have hrest : ∀ e ∈ evts, e.isReply = true := by
          intro e he
          exact hevts e (List.mem_cons_of_mem evt he)
        obtain ⟨s', hfeed, htracks, hsent⟩ := ih (s₁.setState st) _ hout.tracks hrest
        refine ⟨s', ?_, htracks, ?_⟩
        · rw [feed, run_cons, hadv]
          exact hfeed
        · rw [hsent]
          change s₁.sent ++ _ = _
          rw [hout.sent]
          simp [talk, saidOf_map_said, List.append_assoc]
      | finished => exact absurd (h.terminal_iff.mpr (Or.inl rfl)) hφ
      | aborted => exact absurd (h.terminal_iff.mpr (Or.inr rfl)) hφ

/-- The searches of create_connection stop at the first mail with a recipient
in the domain and at its first such recipient. -/
theorem newConn_tracks (mails : List Mail) (d : Domain) (sock time : ℤ)
    (h : mails.any (fun m => mailHasRcptsFromDomain m d) = true) :
    ∃ c, newConn mails d sock time = some c ∧ c.state = .init ∧ c.dom = d ∧ c.sock = sock ∧
      Tracks mails c (.live (sessionScript mails d)) := by
  obtain ⟨k, m, hk, hm⟩ := (any_iff_exists_getElem? _ _).mp h
  obtain ⟨i, hi⟩ := exists_seek (fun m => mailHasRcptsFromDomain m d) mails 0
    ⟨k, m, Nat.zero_le k, hk, hm⟩
  obtain ⟨a, ha, hwant, hqueue⟩ := queueRounds_of_seek d i hi
  obtain ⟨l, r, hl, hr⟩ := (any_iff_exists_getElem? _ _).mp hwant
  obtain ⟨j, hj⟩ := exists_seek (fun r => rcptIsFromDomain r d) a.rcpts 0
    ⟨l, r, Nat.zero_le l, hl, hr⟩
  obtain ⟨b, hb, hdom, -, hpend⟩ := pending_of_seek_some _ a.rcpts 0 j hj
  have hjlt : j < a.rcpts.length := (List.getElem?_eq_some_iff.mp hb).1
  have hbj : a.rcpts[j] = b := (List.getElem?_eq_some_iff.mp hb).2
  have hrcpts : rcptsFrom d a 0 = rcptsFrom d a j := by
    rw [rcptsFrom_eq, rcptsFrom_eq, hpend, pending_of_lt _ a.rcpts j hjlt, hbj, if_pos hdom]
  have hbody : bodyRounds d i 0 a = bodyRounds d i j a := by
    unfold bodyRounds
    rw [hrcpts]
  refine ⟨⟨sock, .init, some i, some (i, j), d, time⟩, ?_, rfl, rfl, rfl, ?_⟩
  · rw [List.drop_zero] at hi hj
    simp [newConn, hi, ha, hj]
  · rw [sessionScript, hqueue, hbody]
    refine .init rfl ⟨rfl, ha, hwant⟩ (Or.inl rfl) ?_
    rw [← hrcpts]
    exact rcptsFrom_zero_ne_nil d a hwant

/-- What a session sends is the beginning of its script. Each command is sent
exactly when the replies up to its round have come, and the session is done
exactly when all replies of the script and the closing one have come. -/
theorem session_transcript (mails : List Mail) (d : Domain) (sock time : ℤ)
    (wasSent : ℕ → Bool) (evts : List FsmEvent)
    (hd : ∃ m ∈ mails, ∃ r ∈ m.rcpts, r.domain = d.name)
    (hevts : ∀ evt ∈ evts, evt.isReply = true) :
    ∃ c s, newConn mails d sock time = some c ∧ c.state = .init ∧
      feed mails ⟨c, wasSent, []⟩ evts = some s ∧
      s.sent <+: (sessionScript mails d).map Round.command ∧
      (∀ n < (sessionScript mails d).length, n < s.sent.length ↔
        ((sessionScript mails d).take (n + 1)).map Round.reply <+: evts) ∧
      (s.conn.state = .done ↔ (sessionScript mails d).map Round.reply ++ [.r221] <+: evts) := by
  have hany : mails.any (fun m => mailHasRcptsFromDomain m d) = true := by
    obtain ⟨m, hm, hr⟩ := hd
    exact List.any_eq_true.mpr ⟨m, hm, (mailHasRcptsFromDomain_iff m d).mpr hr⟩
  obtain ⟨c, hc, hinit, -, -, htracks⟩ := newConn_tracks mails d sock time hany
  obtain ⟨s, hs, hend, hsent⟩ := feed_refines mails ⟨c, wasSent, []⟩ _ evts htracks hevts
  rw [List.nil_append] at hsent
  refine ⟨c, s, hc, hinit, hs, ?_, ?_, ?_⟩
  · rw [hsent]
    exact talk_said_prefix _ _ evts
  · intro n hn
    rw [hsent]
    exact talk_said_iff _ _ evts n hn
  · rw [hend.done_iff]
    exact talk_finished_iff _ _ evts

section Example

/-- A mail to two recipients in d and one in e, and one to a recipient in each. -/
def mixedQueue : List Mail :=
  [⟨bytes "MAIL FROM: <a@b>\r\n", [⟨bytes "c@d", bytes "d"⟩, ⟨bytes "x@e", bytes "e"⟩,
      ⟨bytes "f@d", bytes "d"⟩], bytes "hi\r\n.\r\n", bytes "1"⟩,
    ⟨bytes "MAIL FROM: <g@b>\r\n", [⟨bytes "x@e", bytes "e"⟩, ⟨bytes "h@d", bytes "d"⟩],
      bytes ".\r\n", bytes "2"⟩]

/-- The session of d names its three recipients. -/
theorem session_transcript_mixedQueue :
    ∃ c s, newConn mixedQueue ⟨bytes "d"⟩ 4 0 = some c ∧
      feed mixedQueue ⟨c, fun _ => false, []⟩ [.r220, .r250, .r250, .r250, .r250, .r354, .r250,
        .r250, .r250, .r354, .r250, .r221] = some s ∧ s.conn.state = .done ∧
      s.sent = [⟨.helo, bytes "HELO quint.nope\r\n"⟩, ⟨.mailfrom 0, bytes "MAIL FROM: <a@b>\r\n"⟩,
        ⟨.rcptto 0 0, bytes "RCPT TO: <c@d>\r\n"⟩, ⟨.rcptto 0 2, bytes "RCPT TO: <f@d>\r\n"⟩,
        ⟨.data, bytes "DATA\r\n"⟩, ⟨.datastr 0, bytes "hi\r\n.\r\n"⟩,
        ⟨.mailfrom 1, bytes "MAIL FROM: <g@b>\r\n"⟩, ⟨.rcptto 1 1, bytes "RCPT TO: <h@d>\r\n"⟩,
        ⟨.data, bytes "DATA\r\n"⟩, ⟨.datastr 1, bytes ".\r\n"⟩, ⟨.quit, bytes "QUIT\r\n"⟩] := by
  obtain ⟨c, s, hc, -, hs, hbegins, hsent, hdone⟩ := session_transcript mixedQueue ⟨bytes "d"⟩ 4 0
    (fun _ => false) [.r220, .r250, .r250, .r250, .r250, .r354, .r250, .r250, .r250, .r354, .r250,
      .r221] ⟨_, List.mem_cons_self, _, List.mem_cons_self, rfl⟩ (by decide)
  refine ⟨c, s, hc, hs, hdone.mpr (by decide), ?_⟩
  have hlast : 10 < s.sent.length := (hsent 10 (by decide)).mpr (by decide)
  have hlen : ((sessionScript mixedQueue ⟨bytes "d"⟩).map Round.command).length ≤ s.sent.length :=
    hlast
  rw [hbegins.eq_of_length_le hlen]
  rfl

end Example

end SmtpClient.Transcript
