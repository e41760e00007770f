import SmtpClient.Setup

/-!
A server that accepts everything. When it is the only one that is reached, each
pass of the loop hands over the awaited reply and sends the next command, so that
some run sends the whole script of any domain of the queue.
-/
namespace SmtpClient.FullSessions

open MailTypes Queues SendCommands Dialogues SessionScript Transcript ScriptOrder MxLookup
open Connections EventLoop Passes TransferInvariant Setup

/-- The buffer with a reply that lets a session go on. -/
def chunkFor : FsmEvent → Chunk
  | .r220 => chunk220
  | .r250 => chunk250
  | .r354 => chunk354
  | _ => chunk221

theorem replyEvent_chunkFor (st : FsmState) (h : st.terminal = false) :
    replyEvent (chunkFor st.awaitedReply).buf = st.awaitedReply := by
  cases st with
  | init | helo | mailfrom | rcptto | data | datastr | quit => decide
  | invalid | done => cases h

/-- One connection is open, and these rounds of its script are left. -/
structure OnlySession (w : World) (c : MxConn) (rest : List SessionRound) : Prop where
  sound : Sound w
  live : AllLive w
  connections : w.connections = [0]
  count : w.connectionsCount = 1
  conn : w.conns[0]? = some c
  tracks : Tracks w.mails c (.live rest)

variable {w : World} {c : MxConn} {x : SessionRound} {rest : List SessionRound}

theorem OnlySession.reply_eq (h : OnlySession w c (x :: rest)) :
    replyEvent (chunkFor x.reply).buf = x.reply := by
  obtain ⟨hlive, hawait⟩ := h.tracks.awaited_eq
  have hx : x.reply = c.state.awaitedReply := hawait
  rw [hx]
  exact replyEvent_chunkFor c.state hlive

/-- The only open connection is the one that is served. -/
theorem OnlySession.served (h : OnlySession w c rest) (chunk : Chunk) :
    readableEntry w.connectionsCount (replyInput chunk).poll = some 0 ∧
      getConnBySocket w (pollFds w (replyInput chunk).stack 0) = some 0 := by
  have hfd : pollFds w (replyInput chunk).stack 0 = c.sock := by
    simp [pollFds, h.connections, h.conn]
  constructor
  · rw [h.count]
    rfl
  · rw [hfd, getConnBySocket, h.connections]
    simp [h.conn]

/-- The awaited reply sends the next command. -/
theorem OnlySession.wait (h : OnlySession w c (x :: rest)) :
    ∃ s, waitForResponse w (replyInput (chunkFor x.reply)) =
        some (1, store (World.log w [.recv 0 (.data (chunkFor x.reply))]) 0 s) ∧
      s.sent = [x.command] ∧ s.conn.timeOfLastResponse = 0 ∧
      Tracks w.mails s.conn (.live rest) ∧
      Sound (store (World.log w [.recv 0 (.data (chunkFor x.reply))]) 0 s) := by
  have hopen : 0 ∈ w.connections := by
    rw [h.connections]
    exact List.mem_singleton_self 0
  obtain ⟨s, hparse, hadv, -, -, htime, -, hsound⟩ :=
    sound_answer w 0 c (chunkFor x.reply) 0 h.sound hopen h.conn (h.live 0 hopen c h.conn)
  have hevt := replyEvent_isReply (chunkFor x.reply).buf
  rw [h.reply_eq] at hadv hevt
  obtain ⟨st, s', hstep, hout⟩ :=
    step_refines (sessionAt w c 0) (x :: rest) x.reply (Tracks.at_time h.tracks 0) hevt
  have hs : s'.setState st = s := by
    unfold advance at hadv
    rw [hstep] at hadv
    exact Option.some.inj hadv
  have hafter := hout.tracks
  have hsent := hout.sent
  rw [hear_reply] at hafter hsent
  subst hs
  refine ⟨s'.setState st, ?_, hsent, htime, hafter, hsound⟩
  obtain ⟨hentry, hfd⟩ := h.served (chunkFor x.reply)
  unfold waitForResponse
  rw [hentry]
  simp only [hfd, Option.bind_eq_bind, Option.bind_some]
  change (parseResponse (World.log w [.recv 0 (.data (chunkFor x.reply))]) 0
    (chunkFor x.reply).buf 0).bind _ = _
  rw [hparse]
  rfl

/-- One pass sends one command, and the connection stays open. -/
theorem OnlySession.pass (timeout : ℤ) (htimeout : 0 ≤ timeout)
    (h : OnlySession w c (x :: rest)) :
    ∃ w' c', connLoopPass timeout w (replyInput (chunkFor x.reply)) = some w' ∧
      OnlySession w' c' rest ∧ sentOn w' 0 = sentOn w 0 ++ [x.command] := by
  obtain ⟨s, hwait, hsent, htime, htracks, hsound⟩ := h.wait
  generalize hv : store (World.log w [.recv 0 (.data (chunkFor x.reply))]) 0 s = v at hwait hsound
  have hconns : v.connections = [0] := by rw [← hv]; exact h.connections
  have hlt : 0 < w.conns.length := (List.getElem?_eq_some_iff.mp h.conn).1
  have hconn : v.conns[0]? = some s.conn := by
    rw [← hv]
    exact List.getElem?_set_self hlt
  have hpass : connLoopPass timeout w (replyInput (chunkFor x.reply)) =
      some (sweep timeout (fun _ => 0) v) := by
    unfold connLoopPass
    rw [hwait]
    rfl
  obtain ⟨⟨hsound', hlive'⟩, hsame⟩ :=
    connLoopPass_sound timeout w _ _ h.sound h.live hpass
  have hstay : checked timeout (fun _ => 0) 0 s.conn = s.conn := by
    have htimely : ¬ (0 - s.conn.timeOfLastResponse > timeout) := by omega
    unfold checked timedOut
    rw [if_neg (by simpa using htimely)]
  have hsweep := sweep_eq timeout (fun _ => 0) v hsound.nodup hsound.listed
  refine ⟨_, s.conn, hpass, ⟨hsound', hlive', ?_, ?_, ?_, ?_⟩, ?_⟩
  · have hkept : removed timeout (fun _ => 0) v 0 = false := by
      rw [removed_eq timeout _ v 0 s.conn hconn, hstay]
      exact htracks.awaited_eq.1
    rw [hsweep, sweptOver_connections, hconns]
    simp [hkept]
  · rw [hsame.count]
    exact h.count
  · rw [hsweep, getElem?_sweptOver, hconn]
    change some (if 0 ∈ v.connections then checked timeout (fun _ => 0) 0 s.conn else s.conn) = _
    rw [hstay, ite_self]
  · rw [hsame.mails]
    exact htracks
  · unfold sentOn
    rw [hsweep, turnsOf_sweptOver, ← hv]
    change saidOf (turnsOf (w.trace ++ _ ++ s.sent.map (Act.send 0)) 0) = _
    rw [turnsOf_answer, if_pos rfl, saidOf_append, saidOf_heard, saidOf_map_said, hsent]

/-- The rounds that are left are sent in order. -/
theorem OnlySession.run (timeout : ℤ) (htimeout : 0 ≤ timeout) (h : OnlySession w c rest) :
    ∃ inps w', connLoop timeout w inps = some w' ∧
      sentOn w' 0 = sentOn w 0 ++ rest.map Round.command := by
  induction rest generalizing w c with
  | nil => exact ⟨[], w, rfl, (List.append_nil _).symm⟩
  | cons x rest ih =>
    obtain ⟨v, a, hpass, hsession, hsent⟩ := h.pass timeout htimeout
    obtain ⟨inps, w', hloop, hsent'⟩ := ih hsession
    refine ⟨replyInput (chunkFor x.reply) :: inps, w', ?_, ?_⟩
    · rw [connLoop, if_neg (by rw [h.connections]; exact List.cons_ne_nil 0 []), hpass]
      exact hloop
    · rw [hsent', hsent, List.map_cons, List.append_assoc]
      rfl

/-- A network in which the MX host of one domain is reached, and no other one. -/
def netReachingOnly (d : Domain) : Net :=
  netReaching fun name => if name = d.name then some 4 else none

theorem connectToMx_only (d : Domain) (name : Bytes) :
    (connectToMx (netReachingOnly d) name).isSome = decide (name = d.name) := by
  have hdns : checkDns [] (some [bytes "MX 10 m."]) = some (bytes "m") := by decide +kernel
  unfold connectToMx netReachingOnly netReaching
  simp only [hdns]
  by_cases hname : name = d.name
  · rw [if_pos hname, decide_eq_true hname]
    rfl
  · rw [if_neg hname, decide_eq_false hname]
    rfl

/-- The connection of that domain is the only one. -/
theorem onlySession_start (myDomain : Bytes) (mails : List Mail) (d : Domain)
    (hd : d ∈ collectDomains myDomain mails) :
    ∃ w c, connInit myDomain (netReachingOnly d) mails = some w ∧ w.trace = [] ∧
      OnlySession w c (sessionScript mails d) := by
  obtain ⟨w, hinit, hopened, hmails, hdoms⟩ := connInit_spec myDomain (netReachingOnly d) mails
  have honly : (collectDomains myDomain mails).filter
      (fun e => (connectToMx (netReachingOnly d) e.name).isSome) = [d] := by
    have hname : ∀ e ∈ collectDomains myDomain mails,
        (connectToMx (netReachingOnly d) e.name).isSome = decide (e = d) := by
      intro e _
      rw [connectToMx_only]
      cases e
      cases d
      simp
    rw [List.filter_congr hname, List.filter_eq,
      List.count_eq_one_of_mem (nodup_collectDomains myDomain mails) hd]
    rfl
  rw [honly] at hdoms
  obtain ⟨c, rest, hconns, hdom, hrest⟩ := List.map_eq_cons_iff.mp hdoms
  obtain rfl := List.map_eq_nil_iff.mp hrest
  obtain ⟨hsound, hlive⟩ := opened_sound w hopened
  have hc : w.conns[0]? = some c := by rw [hconns]; rfl
  obtain ⟨-, htracks⟩ := hopened.fresh 0 c hc
  rw [hdom, hmails] at htracks
  refine ⟨w, c, hinit, hopened.trace, hsound, hlive, ?_, ?_, hc, hmails ▸ htracks⟩
  · rw [hopened.connections, hconns]
    rfl
  · rw [hopened.count, hconns]
    rfl

/-- Some run of the client sends the whole script of a domain of the queue. -/
theorem exists_full_session (myDomain : Bytes) (mails : List Mail) (d : Domain)
    (hd : d ∈ collectDomains myDomain mails) :
    ∃ inps w, transfer myDomain (netReachingOnly d) mails 60 inps = some w ∧
      sentOn w 0 = scriptCommands mails d := by
  obtain ⟨w, c, hinit, htrace, hsession⟩ := onlySession_start myDomain mails d hd
  obtain ⟨inps, w', hloop, hsent⟩ := hsession.run 60 (by decide)
  refine ⟨inps, w', ?_, ?_⟩
  · unfold transfer
    rw [hinit]
    exact hloop
  · rw [hsent]
    unfold sentOn
    rw [htrace]
    rfl

end SmtpClient.FullSessions
