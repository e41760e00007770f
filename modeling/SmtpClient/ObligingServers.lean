import SmtpClient.Deadlines
import SmtpClient.Delivery

/-!
A transfer with servers that accept everything. Such a server greets, and then answers
each command line and each text that has arrived. These answers are the replies that the
client waits for, so that no connection fails while they come in time, every mail reaches
every server of its domains, and the loop is over after as many passes as there are
replies to hear.
-/
namespace SmtpClient.ObligingServers

open MailTypes Queues Backtracking Regexp LineReading ClosingLine Maildir SendCommands Dialogues
open SessionScript Transcript ScriptOrder MxLookup Connections EventLoop Passes
open TransferInvariant Setup Coverage Acceptance ClosedConnections DataFraming LocalFiltering
open TextStreams Delivery Deadlines

/-- The reply to a command line or to a text. -/
def answerTo : Item UInt8 → FsmEvent
  | .line l =>
    match verbOf l with
    | .mail | .rcpt => .r250
    | .data => .r354
    | .other => if (l.take 4).map toLower = bytes "quit" then .r221 else .r250
  | .text _ => .r250

/-- The greeting, and the answers to what these bytes hold. -/
def answers (s : Bytes) : List FsmEvent :=
  .r220 :: (Receiver.start.putAll newline crlf dotLine announcesText s).taken.map answerTo

/-- In this pass a connection that is served gets the next answer of its server, and no
connection is silent for too long. -/
structure Obliging (timeout : ℤ) (w : World) (inp : PassInput) : Prop where
  reply : ∀ p, addressed w inp = some p → ∃ chunk, inp.recv = .data chunk ∧
    (answers (wire w p))[(heardOn w p).length]? = some (replyEvent chunk.buf)
  prompt : ∀ p, addressed w inp = some p → inp.clock p - inp.now ≤ timeout
  timely : ∀ p ∈ w.connections, addressed w inp ≠ some p → ∀ c, w.conns[p]? = some c →
    inp.clock p - c.timeOfLastResponse ≤ timeout

/-- A transfer in which no connection has failed. -/
structure Unbroken (w : World) : Prop where
  sound : Sound w
  live : AllLive w
  valid : ∀ (p : ℕ) (c : MxConn), w.conns[p]? = some c → c.state ≠ .invalid
  sendable : ∀ m ∈ w.mails, Sendable m

section Answers

variable (mails : List Mail) (d : Domain)

theorem answers_commands (h : ∀ m ∈ mails, Sendable m) (cs : List Sent)
    (hcs : cs <+: scriptCommands mails d) :
    answers (cs.flatMap Sent.text) = .r220 :: cs.map fun x => answerTo (itemOf x) := by
  have hitems := putAll_items newline crlf dotLine announcesText [] (List.cons_ne_nil _ _) _ _
    (follows_beginning mails d h cs hcs)
  rw [flatMap_symbols, List.nil_append] at hitems
  change _ :: (Receiver.putAll newline crlf dotLine announcesText ⟨[], [], false⟩ _).taken.map
    answerTo = _
  rw [hitems, List.map_map]
  rfl

/-- The rounds of a mail are those of a server that says 250 before and after them. -/
theorem answeredBy_mailRounds (m : Mail) (i : ℕ) (hm : Sendable m) :
    AnsweredBy (fun x => answerTo (itemOf x)) .r250 .r250 (mailRounds d (m, i)) := by
  have hsender : answerTo (.line m.fromLine) = .r250 := by
    simp only [answerTo, hm.sender.2]
  have hrcpts : ∀ l : List (Rcpt × ℕ),
      AnsweredBy (fun x => answerTo (itemOf x)) .r250 .r250 (l.map (rcpttoRound i)) := by
    intro l
    induction l with
    | nil => rfl
    | cons x l ih => exact ⟨rfl, ih⟩
  have hbody : AnsweredBy (fun x => answerTo (itemOf x)) .r250 .r250 (bodyRounds d i 0 m) :=
    (hrcpts _).append ⟨rfl, rfl, rfl⟩
  exact ⟨rfl, hsender ▸ hbody⟩

/-- The replies of a session are the answers of such a server. -/
theorem answeredBy_script (h : ∀ m ∈ mails, Sendable m) :
    AnsweredBy (fun x => answerTo (itemOf x)) .r221 .r220 (sessionScript mails d) := by
  have hqueue : ∀ l : List (Mail × ℕ), (∀ x ∈ l, Sendable x.1) →
      AnsweredBy (fun x => answerTo (itemOf x)) .r250 .r250 (l.flatMap (mailRounds d)) := by
    intro l hl
    induction l with
    | nil => rfl
    | cons x l ih =>
      rw [List.forall_mem_cons] at hl
      exact (answeredBy_mailRounds d x.1 x.2 hl.1).append (ih hl.2)
  refine ⟨rfl, AnsweredBy.append (hqueue _ ?_) ⟨rfl, rfl⟩⟩
  intro x hx
  obtain ⟨hget, -⟩ := (mem_mailsFrom_zero mails d x.1 x.2).mp hx
  exact h x.1 (List.mem_of_getElem? hget)

end Answers

section Passes

variable {timeout : ℤ} {w v : World} {inp : PassInput}

/-- A connection that is open waits for the next answer of its server. -/
theorem Unbroken.awaits (h : Unbroken w) (p : ℕ) (hp : p ∈ w.connections) (c : MxConn)
    (hc : w.conns[p]? = some c) :
    ∃ rest, Tracks w.mails c (.live rest) ∧
      (answers (wire w p))[(heardOn w p).length]? = some (awaited .r221 rest) := by
  obtain ⟨φ, htracks, hconf⟩ := (h.sound.conns p c hc).script
  have hlive := h.live p hp c hc
  cases φ with
  | live rest =>
    have hpre := sentOn_prefix w h.sound p c hc
    refine ⟨rest, htracks, ?_⟩
    rw [wire, answers_commands w.mails c.dom h.sendable _ hpre]
    exact hconf.answer_eq_awaited (answeredBy_script w.mails c.dom h.sendable)
  | finished =>
    rw [htracks.terminal_iff.mpr (Or.inl rfl)] at hlive
    cases hlive
  | aborted =>
    rw [htracks.terminal_iff.mpr (Or.inr rfl)] at hlive
    cases hlive

/-- What wait_for_response makes of the next answer. -/
theorem Unbroken.wait (h : Unbroken w) (hobl : Obliging timeout w inp) (p : ℕ)
    (hp : addressed w inp = some p) :
    ∃ c s, p ∈ w.connections ∧ w.conns[p]? = some c ∧
      waitForResponse w inp = some (1, store (World.log w [.recv p inp.recv]) p s) ∧
      s.conn.state ≠ .invalid ∧ s.conn.dom = c.dom ∧ s.conn.timeOfLastResponse = inp.now ∧
      Sound (store (World.log w [.recv p inp.recv]) p s) ∧
      ∀ q, (heardOn (store (World.log w [.recv p inp.recv]) p s) q).length =
        (heardOn w q).length + if p = q then 1 else 0 := by
  obtain ⟨i, hentry, hfd⟩ := Option.bind_eq_some_iff.mp hp
  have hopen := (getConnBySocket_mem w _ p hfd).1
  obtain ⟨c, hc⟩ := h.sound.listed p hopen
  obtain ⟨chunk, hrecv, hreply⟩ := hobl.reply p hp
  obtain ⟨rest, htracks, hnext⟩ := h.awaits p hopen c hc
  have hevt : awaited .r221 rest = replyEvent chunk.buf := Option.some.inj (hnext.symm.trans hreply)
  obtain ⟨s, hparse, hadv, hdom, -, htime, -, hsound⟩ :=
    sound_answer w p c chunk inp.now h.sound hopen hc (h.live p hopen c hc)
  have hvalid : s.conn.state ≠ .invalid := by
    obtain ⟨st, s', hstep, hout⟩ := step_refines (sessionAt w c inp.now) rest
      (replyEvent chunk.buf) (Tracks.at_time htracks inp.now) (replyEvent_isReply chunk.buf)
    have hs : s'.setState st = s := by
      unfold advance at hadv
      rw [hstep] at hadv
      exact Option.some.inj hadv
    have hafter := hout.tracks
    have hgoes := hear_awaited_ne_aborted FsmEvent.r221 rest
    rw [← hevt, hs] at hafter
    intro hinvalid
    rcases hafter.terminal_iff.mp (by rw [hinvalid]; rfl) with hdone | habort
    · rw [hafter.done_iff.mpr hdone] at hinvalid
      cases hinvalid
    · exact hgoes habort
  refine ⟨c, s, hopen, hc, ?_, hvalid, hdom, htime, hrecv ▸ hsound, ?_⟩
  · unfold waitForResponse
    rw [hentry, hrecv]
    simp only [hfd, Option.bind_eq_bind, Option.bind_some]
    rw [hparse]
    rfl
  · intro q
    have hturns := turnsOf_answer w.trace p q chunk s.sent
    rw [← hrecv] at hturns
    change (heardOf (turnsOf (w.trace ++ _ ++ s.sent.map (Act.send p)) q)).length = _
    rw [hturns]
    split
    · simp [heardOn]
    · rfl

/-- Without a silent connection the check changes no connection. -/
theorem sweep_conns_of_timely (clock : ℕ → ℤ) (h : Sound v)
    (htimely : ∀ p ∈ v.connections, ∀ c, v.conns[p]? = some c →
      clock p - c.timeOfLastResponse ≤ timeout) :
    (sweep timeout clock v).conns = v.conns := by
  rw [sweep_eq timeout clock v h.nodup h.listed]
  apply List.ext_getElem?
  intro q
  rw [getElem?_sweptOver]
  cases hc : v.conns[q]? with
  | none => rfl
  | some c =>
    rw [Option.map_some]
    split
    · rename_i hq
      have hin : ¬ clock q - c.timeOfLastResponse > timeout := not_lt.mpr (htimely q hq c hc)
      rw [checked, timedOut, decide_eq_false hin]
      rfl
    · rfl

/-- What is still to be heard on each connection. -/
def toHear (w : World) : List ℕ :=
  w.conns.mapIdx fun p c => (sessionScript w.mails c.dom).length + 1 - (heardOn w p).length

theorem sum_set_pred (l : List ℕ) (p k : ℕ) (h : l[p]? = some (k + 1)) :
    (l.set p k).sum + 1 = l.sum := by
  induction l generalizing p with
  | nil => cases h
  | cons a l ih =>
    cases p with
    | zero =>
      obtain rfl := Option.some.inj h
      simp only [List.set_cons_zero, List.sum_cons]
      omega
    | succ p =>
      have hrest := ih p h
      simp only [List.set_cons_succ, List.sum_cons]
      omega

/-- An answer that is heard is one that is no longer to come. -/
theorem toHear_store (h : Unbroken w) (p : ℕ) (hopen : p ∈ w.connections) (c : MxConn)
    (hc : w.conns[p]? = some c) (r : RecvResult) (s : Session) (hdom : s.conn.dom = c.dom)
    (hheard : ∀ q, (heardOn (store (World.log w [.recv p r]) p s) q).length =
      (heardOn w q).length + if p = q then 1 else 0) :
    (toHear (store (World.log w [.recv p r]) p s)).sum + 1 = (toHear w).sum := by
  have hle := heardOn_le w p h.sound c hc (h.live p hopen c hc)
  have hlt := (List.getElem?_eq_some_iff.mp hc).1
  have hbefore : (toHear w)[p]? =
      some ((sessionScript w.mails c.dom).length - (heardOn w p).length + 1) := by
    rw [toHear, List.getElem?_mapIdx, hc, Option.map_some]
    congr 1
    omega
  have hafter : toHear (store (World.log w [.recv p r]) p s) =
      (toHear w).set p ((sessionScript w.mails c.dom).length - (heardOn w p).length) := by
    apply List.ext_getElem?
    intro q
    have hq := hheard q
    rw [toHear, List.getElem?_mapIdx]
    change ((w.conns.set p s.conn)[q]?).map _ = _
    by_cases hpq : p = q
    · subst hpq
      have hset : p < (toHear w).length := (List.getElem?_eq_some_iff.mp hbefore).1
      rw [if_pos rfl] at hq
      rw [List.getElem?_set_self hlt, List.getElem?_set_self hset, Option.map_some, hdom, hq]
      change some ((sessionScript w.mails c.dom).length + 1 - _) = _
      congr 1
      omega
    · rw [if_neg hpq, Nat.add_zero] at hq
      rw [List.getElem?_set_ne hpq, List.getElem?_set_ne hpq, toHear, List.getElem?_mapIdx, hq]
      rfl
  rw [hafter]
  exact sum_set_pred _ p _ hbefore

/-- The check at the end of a pass in time breaks nothing off. -/
theorem unbroken_sweep (clock : ℕ → ℤ) (h : Sound v) (hsend : ∀ m ∈ v.mails, Sendable m)
    (hvalid : ∀ (p : ℕ) (c : MxConn), v.conns[p]? = some c → c.state ≠ .invalid)
    (htimely : ∀ p ∈ v.connections, ∀ c, v.conns[p]? = some c →
      clock p - c.timeOfLastResponse ≤ timeout) :
    Unbroken (sweep timeout clock v) ∧ toHear (sweep timeout clock v) = toHear v := by
  obtain ⟨hsound, hlive⟩ := sound_sweep timeout clock v h
  have hmails := (sweep_sameSetup timeout clock v h).mails
  have hconns := sweep_conns_of_timely clock h htimely
  refine ⟨⟨hsound, hlive, ?_, ?_⟩, ?_⟩
  · rw [hconns]
    exact hvalid
  · rw [hmails]
    exact hsend
  · unfold toHear
    rw [hconns, hmails]
    congr 1
    funext p c
    rw [heardOn_sweep v p timeout clock h]

/-- A pass that serves a connection brings one answer. -/
theorem Unbroken.pass (h : Unbroken w) (hobl : Obliging timeout w inp) (p : ℕ)
    (hp : addressed w inp = some p) :
    ∃ w', connLoopPass timeout w inp = some w' ∧ Unbroken w' ∧
      (toHear w').sum + 1 = (toHear w).sum := by
  obtain ⟨c, s, hopen, hc, hwait, hstate, hdom, htime, hsound, hheard⟩ := h.wait hobl p hp
  have hlt := (List.getElem?_eq_some_iff.mp hc).1
  have hself : (w.conns.set p s.conn)[p]? = some s.conn := List.getElem?_set_self hlt
  have htimely : ∀ q ∈ w.connections, ∀ a, (w.conns.set p s.conn)[q]? = some a →
      inp.clock q - a.timeOfLastResponse ≤ timeout := by
    intro q hq a ha
    by_cases hpq : p = q
    · subst hpq
      obtain rfl := Option.some.inj (hself.symm.trans ha)
      rw [htime]
      exact hobl.prompt p hp
    · rw [List.getElem?_set_ne hpq] at ha
      exact hobl.timely q hq (fun heq => hpq (Option.some.inj (hp.symm.trans heq))) a ha
  have hvalid : ∀ (q : ℕ) (a : MxConn), (w.conns.set p s.conn)[q]? = some a →
      a.state ≠ .invalid := by
    intro q a ha
    by_cases hpq : p = q
    · subst hpq
      obtain rfl := Option.some.inj (hself.symm.trans ha)
      exact hstate
    · rw [List.getElem?_set_ne hpq] at ha
      exact h.valid q a ha
  obtain ⟨hunbroken, hleft⟩ := unbroken_sweep inp.clock hsound h.sendable hvalid htimely
  refine ⟨_, ?_, hunbroken, ?_⟩
  · unfold connLoopPass
    rw [hwait]
    rfl
  · rw [hleft]
    exact toHear_store h p hopen c hc inp.recv s hdom hheard

/-- A pass in which nothing comes breaks nothing off either. -/
theorem Unbroken.pass_of_some (h : Unbroken w) (hobl : Obliging timeout w inp)
    (hv : connLoopPass timeout w inp = some v) : Unbroken v := by
  cases hp : addressed w inp with
  | some p =>
    obtain ⟨w', hw', hunbroken, -⟩ := h.pass hobl p hp
    obtain rfl := Option.some.inj (hw'.symm.trans hv)
    exact hunbroken
  | none =>
    obtain ⟨⟨n, u⟩, hu, hv⟩ := Option.bind_eq_some_iff.mp hv
    obtain rfl := Option.some.inj hv
    rcases waitForResponse_cases w u inp n hu with ⟨-, rfl⟩ | ⟨q, hq, -⟩
    · have htimely : ∀ q ∈ u.connections, ∀ a, u.conns[q]? = some a →
          inp.clock q - a.timeOfLastResponse ≤ timeout := by
        intro q hq
        exact hobl.timely q hq (by simp [hp])
      exact (unbroken_sweep inp.clock h.sound h.sendable h.valid htimely).1
    · rw [hp] at hq
      cases hq

/-- What is left to hear is zero exactly when every connection is closed. -/
theorem Unbroken.toHear_eq_zero_iff (h : Unbroken w) :
    (toHear w).sum = 0 ↔ w.connections = [] := by
  rw [List.sum_eq_zero_iff_forall_eq_nat]
  constructor
  · intro hzero
    apply List.eq_nil_iff_forall_not_mem.mpr
    intro p hp
    obtain ⟨c, hc⟩ := h.sound.listed p hp
    have hle := heardOn_le w p h.sound c hc (h.live p hp c hc)
    have hmem : (sessionScript w.mails c.dom).length + 1 - (heardOn w p).length ∈ toHear w := by
      refine List.mem_of_getElem? (i := p) ?_
      rw [toHear, List.getElem?_mapIdx, hc]
      rfl
    have hleft := hzero _ hmem
    omega
  · intro hnil a ha
    obtain ⟨p, hp⟩ := List.mem_iff_getElem?.mp ha
    rw [toHear, List.getElem?_mapIdx] at hp
    obtain ⟨c, hc, rfl⟩ := Option.map_eq_some_iff.mp hp
    have hterm := h.sound.closed p c hc (by rw [hnil]; exact List.not_mem_nil)
    obtain ⟨φ, htracks, hconf⟩ := (h.sound.conns p c hc).script
    rcases htracks.terminal_iff.mp hterm with rfl | rfl
    · have hheard : heardOn w p = (sessionScript w.mails c.dom).map Round.reply ++ [.r221] := by
        have ht : turnsOf w.trace p = turns (sessionScript w.mails c.dom) ++ [.heard .r221] := hconf
        rw [heardOn, ht, heardOf_append, heardOf_turns]
        rfl
      rw [hheard]
      simp
    · cases htracks with
      | invalid hs => exact absurd hs (h.valid p c hc)

end Passes

section Runs

/-- What holds at the beginning of every pass that a run makes. -/
def EveryPass (timeout : ℤ) (P : World → PassInput → Prop) (w : World) (inps : List PassInput) :
    Prop :=
  ∀ before inp after v, inps = before ++ inp :: after → connLoop timeout w before = some v →
    v.connections ≠ [] → P v inp

/-- In this pass some connection is served. -/
def Busy (w : World) (inp : PassInput) : Prop := ∃ p, addressed w inp = some p

variable {timeout : ℤ} {w w' : World} {inp : PassInput} {inps : List PassInput}

theorem connLoop_cons_open (hopen : w.connections ≠ []) :
    connLoop timeout w (inp :: inps) =
      (connLoopPass timeout w inp).bind fun v => connLoop timeout v inps := by
  rw [connLoop, if_neg hopen]
  rfl

theorem EveryPass.first {P : World → PassInput → Prop} (h : EveryPass timeout P w (inp :: inps))
    (hopen : w.connections ≠ []) : P w inp := h [] inp inps w rfl rfl hopen

theorem EveryPass.behind {P : World → PassInput → Prop} {v : World}
    (h : EveryPass timeout P w (inp :: inps)) (hopen : w.connections ≠ [])
    (hv : connLoopPass timeout w inp = some v) : EveryPass timeout P v inps := by
  intro before i after u hsplit hu
  refine h (inp :: before) i after u (by rw [hsplit]; rfl) ?_
  rw [connLoop_cons_open hopen, hv]
  exact hu

theorem Unbroken.run (h : Unbroken w) (hobl : EveryPass timeout (Obliging timeout) w inps)
    (hw : connLoop timeout w inps = some w') : Unbroken w' := by
  induction inps generalizing w with
  | nil =>
    obtain rfl := Option.some.inj hw
    exact h
  | cons inp inps ih =>
    by_cases hopen : w.connections = []
    · rw [connLoop, if_pos hopen] at hw
      obtain rfl := Option.some.inj hw
      exact h
    · rw [connLoop_cons_open hopen] at hw
      obtain ⟨v, hv, hw⟩ := Option.bind_eq_some_iff.mp hw
      exact ih (h.pass_of_some (hobl.first hopen) hv) (hobl.behind hopen hv) hw

/-- Pass after pass one answer less is left to hear, until none is. -/
theorem Unbroken.busy_run (h : Unbroken w) (hobl : EveryPass timeout (Obliging timeout) w inps)
    (hbusy : EveryPass timeout Busy w inps) :
    ∃ w', connLoop timeout w inps = some w' ∧ Unbroken w' ∧
      (toHear w').sum = (toHear w).sum - inps.length := by
  induction inps generalizing w with
  | nil => exact ⟨w, rfl, h, rfl⟩
  | cons inp inps ih =>
    by_cases hopen : w.connections = []
    · refine ⟨w, by rw [connLoop, if_pos hopen], h, ?_⟩
      rw [h.toHear_eq_zero_iff.mpr hopen, Nat.zero_sub]
    · obtain ⟨p, hp⟩ := hbusy.first hopen
      obtain ⟨v, hv, hunbroken, hleft⟩ := h.pass (hobl.first hopen) p hp
      obtain ⟨w', hw', hend, hsum⟩ := ih hunbroken (hobl.behind hopen hv) (hbusy.behind hopen hv)
      refine ⟨w', ?_, hend, ?_⟩
      · rw [connLoop_cons_open hopen, hv]
        exact hw'
      · rw [hsum, List.length_cons]
        omega

end Runs

section Ends

variable {w : World}

/-- A closed connection has delivered everything that is meant for its domain. -/
theorem Unbroken.delivered_all (h : Unbroken w) (p : ℕ) (c : MxConn) (hc : w.conns[p]? = some c)
    (hclosed : p ∉ w.connections) :
    c.state = .done ∧ delivered (wire w p) = envelopes w.mails c.dom := by
  have hdone : c.state = .done := by
    rcases (terminal_iff c.state).mp (h.sound.closed p c hc hclosed) with hdone | hinvalid
    · exact hdone
    · exact absurd hinvalid (h.valid p c hc)
  have hpre := sentOn_prefix w h.sound p c hc
  refine ⟨hdone, ?_⟩
  rw [wire, delivered_commands w.mails c.dom h.sendable _ hpre, sentOn_done w h.sound p c hc hdone]
  exact serve_script w.mails c.dom h.sendable

/-- Its server has accepted every mail with a recipient in its domain. -/
theorem Unbroken.accepted (h : Unbroken w) (p i : ℕ) (c : MxConn) (m : Mail)
    (hc : w.conns[p]? = some c) (hclosed : p ∉ w.connections) (hm : w.mails[i]? = some m)
    (hwant : mailHasRcptsFromDomain m c.dom = true) : AcceptedBy w p i := by
  obtain ⟨hdone, -⟩ := h.delivered_all p c hc hclosed
  obtain ⟨φ, htracks, hconf⟩ := (h.sound.conns p c hc).script
  obtain rfl := htracks.done_iff.mp hdone
  have hmail : (m, i) ∈ mailsFrom c.dom w.mails 0 :=
    (mem_mailsFrom_zero w.mails c.dom m i).mpr ⟨hm, hwant⟩
  have hround : datastrRound i m ∈ sessionScript w.mails c.dom := by
    refine List.mem_cons_of_mem _ (List.mem_append_left _ (List.mem_flatMap.mpr ⟨_, hmail, ?_⟩))
    simp [mailRounds, bodyRounds]
  obtain ⟨a, b, hsplit⟩ := List.append_of_mem hround
  have hprefix := hconf.answered (answeredBy_script w.mails c.dom h.sendable) hsplit
  refine ⟨_, hprefix, ?_⟩
  rw [turns_append, turns_cons, turns_nil]
  simp [lastText, datastrRound, Command.text?]

end Ends

section Transfer

variable (myDomain : Bytes) (net : Net) (mails : List Mail) (timeout : ℤ)
  (inps : List PassInput)

theorem opened_unbroken (hmails : ∀ m ∈ mails, FromFile myDomain m) :
    ∃ v, connInit myDomain net mails = some v ∧ Unbroken v ∧ toHear v =
      ((collectDomains myDomain mails).filter fun d => (connectToMx net d.name).isSome).map
        fun d => (sessionScript mails d).length + 1 := by
  obtain ⟨v, hinit, hopened, hsame, hdoms⟩ := connInit_spec myDomain net mails
  obtain ⟨hsound, hlive⟩ := opened_sound v hopened
  refine ⟨v, hinit, ⟨hsound, hlive, ?_, ?_⟩, ?_⟩
  · intro p c hc
    rw [(hopened.fresh p c hc).1]
    decide
  · rw [hsame]
    exact fun m hm => (hmails m hm).sendable
  · rw [← hdoms, List.map_map, toHear, ← hsame]
    apply List.ext_getElem?
    intro p
    rw [List.getElem?_mapIdx, List.getElem?_map]
    cases v.conns[p]? with
    | none => rfl
    | some c =>
      rw [heardOn, hopened.trace]
      rfl

theorem remote_of_fromFile {m : Mail} (h : FromFile myDomain m) (r : Rcpt) (hr : r ∈ m.rcpts) :
    r.domain ≠ myDomain := by
  obtain ⟨-, -, m₀, -, hfilter⟩ := h.read
  rw [filterMail_eq] at hfilter
  simp only at hfilter
  split at hfilter
  · obtain rfl := Option.some.inj hfilter
    have hkept := (List.mem_filter.mp hr).2
    simpa [isLocal] using hkept
  · cases hfilter

/-- With servers that accept everything and answer in time no connection fails. Each one
that is closed has delivered all envelopes of its domain, and in the end the files of the
mails with a recipient in a domain that was reached are deleted, and no other ones. -/
theorem all_delivered (w : World) (h : transfer myDomain net mails timeout inps = some w)
    (hmails : ∀ m ∈ mails, FromFile myDomain m)
    (hobl : ∀ v, connInit myDomain net mails = some v →
      EveryPass timeout (Obliging timeout) v inps) :
    (∀ p c, w.conns[p]? = some c → p ∉ w.connections →
      c.state = .done ∧ delivered (wire w p) = envelopes mails c.dom) ∧
    (w.connections = [] → finishMail w = mails.map fun m =>
      if m.rcpts.any fun r => (connectToMx net r.domain).isSome then .deleteMail m.filename .new
      else .moveMail m.filename .new .notSent) := by
  obtain ⟨v, hinit, hstart, -⟩ := opened_unbroken myDomain net mails hmails
  obtain ⟨⟨hsound, -⟩, hsame, hdoms⟩ := transfer_sound myDomain net mails timeout inps w h
  have hend : Unbroken w := by
    unfold transfer at h
    rw [hinit] at h
    exact hstart.run (hobl v hinit) h
  subst hsame
  refine ⟨hend.delivered_all, ?_⟩
  intro hnil
  apply List.ext_getElem?
  intro i
  rw [List.getElem?_map]
  cases hm : w.mails[i]? with
  | none =>
    rw [finishMail, List.getElem?_map, List.getElem?_zipIdx, hm]
    rfl
  | some m =>
    have hsent : w.wasSent i = true ↔
        (m.rcpts.any fun r => (connectToMx net r.domain).isSome) = true := by
      rw [hsound.marks i, List.any_eq_true]
      constructor
      · intro hacc
        obtain ⟨p, hp⟩ := hacc
        obtain ⟨c, m', hc, hm', r, hr, hdom⟩ := acceptedBy_conn w hsound p i hp
        obtain rfl := Option.some.inj (hm.symm.trans hm')
        have hmem : c.dom ∈ w.conns.map MxConn.dom := List.mem_map_of_mem (List.mem_of_getElem? hc)
        rw [hdoms, List.mem_filter, ← hdom] at hmem
        exact ⟨r, hr, hmem.2⟩
      · intro hreached
        obtain ⟨r, hr, hmx⟩ := hreached
        have hmail := List.mem_of_getElem? hm
        have hwant : mailHasRcptsFromDomain m ⟨r.domain⟩ = true :=
          (mailHasRcptsFromDomain_iff m _).mpr ⟨r, hr, rfl⟩
        have hcollected : (⟨r.domain⟩ : Domain) ∈ collectDomains myDomain w.mails :=
          (mem_collectDomains myDomain w.mails _).mpr
            ⟨List.any_eq_true.mpr ⟨m, hmail, hwant⟩, remote_of_fromFile myDomain (hmails m hmail) r hr⟩
        have hmem : (⟨r.domain⟩ : Domain) ∈ w.conns.map MxConn.dom := by
          rw [hdoms]
          exact List.mem_filter.mpr ⟨hcollected, hmx⟩
        obtain ⟨c, hc, hdom⟩ := List.mem_map.mp hmem
        obtain ⟨p, hp⟩ := List.mem_iff_getElem?.mp hc
        exact ⟨p, hend.accepted p i c m hp (by rw [hnil]; exact List.not_mem_nil) hm (hdom ▸ hwant)⟩
    rw [getElem?_finishMail w i m hm, Option.map_some]
    by_cases hs : w.wasSent i = true
    · rw [if_pos hs, if_pos (hsent.mp hs)]
    · rw [if_neg hs, if_neg fun hany => hs (hsent.mpr hany)]

/-- When besides every pass serves some connection, the loop is over after as many passes
as there are rounds in the scripts of the domains that were reached, and not before. -/
theorem loop_ends_after (hmails : ∀ m ∈ mails, FromFile myDomain m)
    (hobl : ∀ v, connInit myDomain net mails = some v →
      EveryPass timeout (Obliging timeout) v inps ∧ EveryPass timeout Busy v inps) :
    ∃ w, transfer myDomain net mails timeout inps = some w ∧ (w.connections = [] ↔
      (((collectDomains myDomain mails).filter fun d => (connectToMx net d.name).isSome).map
        fun d => (sessionScript mails d).length + 1).sum ≤ inps.length) := by
  obtain ⟨v, hinit, hstart, hrounds⟩ := opened_unbroken myDomain net mails hmails
  obtain ⟨hgood, hbusy⟩ := hobl v hinit
  obtain ⟨w, hw, hend, hleft⟩ := hstart.busy_run hgood hbusy
  refine ⟨w, ?_, ?_⟩
  · unfold transfer
    rw [hinit]
    exact hw
  · rw [← hend.toHear_eq_zero_iff, hleft, hrounds, Nat.sub_eq_zero_iff_le]

end Transfer

section Example

/-- The answers to a session with one mail for one recipient. -/
def acceptingChunks : List Chunk :=
  [chunk220, chunk250, chunk250, chunk250, chunk354, chunk250, chunk221]

theorem acceptingChunks_answers : ∀ k < 7, (acceptingChunks[k]?).all (fun chunk =>
    (connLoop 60 worldToD ((acceptingChunks.take k).map replyInput)).all fun v =>
      decide (v.connections = [0]) && decide (addressed v (replyInput chunk) = some 0) &&
        decide ((answers (wire v 0))[(heardOn v 0).length]? = some (replyEvent chunk.buf))) =
    true := by
  decide +kernel

theorem everyPass_worldToD :
    EveryPass 60 (Obliging 60) worldToD acceptingInputs ∧
      EveryPass 60 Busy worldToD acceptingInputs := by
  have hpass : EveryPass 60 (fun v inp => Obliging 60 v inp ∧ Busy v inp) worldToD
      acceptingInputs := by
    intro before inp after v hsplit hv _
    obtain ⟨bs, rest, hchunks, rfl, hrest⟩ := List.map_eq_append_iff.mp
      (show acceptingChunks.map replyInput = before ++ inp :: after from hsplit)
    obtain ⟨chunk, as, rfl, rfl, -⟩ := List.map_eq_cons_iff.mp hrest
    have hlen : bs.length < 7 := by
      have hlen := congrArg List.length hchunks
      rw [List.length_append, List.length_cons] at hlen
      change 7 = _ at hlen
      omega
    have htake : acceptingChunks.take bs.length = bs := by
      rw [hchunks, List.take_left]
    have hget : acceptingChunks[bs.length]? = some chunk := by
      simp [hchunks]
    have hall := acceptingChunks_answers bs.length hlen
    rw [hget, Option.all_some, htake, hv, Option.all_some] at hall
    simp only [Bool.and_eq_true, decide_eq_true_eq] at hall
    obtain ⟨⟨hopen, haddressed⟩, hreply⟩ := hall
    refine ⟨⟨?_, ?_, ?_⟩, 0, haddressed⟩
    · intro p hp
      obtain rfl := Option.some.inj (haddressed.symm.trans hp)
      exact ⟨chunk, rfl, hreply⟩
    · intro p _
      change (0 : ℤ) - 0 ≤ 60
      decide
    · intro p hp hne
      rw [hopen, List.mem_singleton] at hp
      exact absurd (hp ▸ haddressed) hne
  constructor
  · intro before inp after v hsplit hv hopen
    exact (hpass before inp after v hsplit hv hopen).1
  · intro before inp after v hsplit hv hopen
    exact (hpass before inp after v hsplit hv hopen).2

theorem everyPass_mailToD (v : World)
    (hv : connInit (bytes "b") (netReaching fun _ => some 4) [mailToD] = some v) :
    EveryPass 60 (Obliging 60) v acceptingInputs ∧ EveryPass 60 Busy v acceptingInputs := by
  obtain rfl := Option.some.inj (connInit_mailToD.symm.trans hv)
  exact everyPass_worldToD

theorem transfer_mailToD_ends :
    (transfer (bytes "b") (netReaching fun _ => some 4) [mailToD] 60 acceptingInputs).map
      World.connections = some [] := by
  decide

theorem all_delivered_mailToD :
    ∃ w, transfer (bytes "b") (netReaching fun _ => some 4) [mailToD] 60 acceptingInputs = some w ∧
      finishMail w = [.deleteMail (bytes "1") .new] := by
  obtain ⟨w, hw, hnil⟩ := Option.map_eq_some_iff.mp transfer_mailToD_ends
  obtain ⟨-, hends⟩ := all_delivered _ _ _ _ _ w hw (List.forall_mem_singleton.mpr fromFile_mailToD)
    fun v hv => (everyPass_mailToD v hv).1
  have hreached : (mailToD.rcpts.any fun r =>
      (connectToMx (netReaching fun _ => some 4) r.domain).isSome) = true := by
    decide +kernel
  refine ⟨w, hw, ?_⟩
  rw [hends hnil, List.map_singleton, if_pos hreached]
  rfl

/-- Seven passes bring seven replies. -/
theorem loop_ends_after_mailToD :
    ∃ w, transfer (bytes "b") (netReaching fun _ => some 4) [mailToD] 60 acceptingInputs = some w ∧
      w.connections = [] := by
  obtain ⟨w, hw, hiff⟩ := loop_ends_after _ _ _ _ _ (List.forall_mem_singleton.mpr fromFile_mailToD)
    everyPass_mailToD
  refine ⟨w, hw, hiff.mpr ?_⟩
  decide +kernel

end Example

end SmtpClient.ObligingServers
