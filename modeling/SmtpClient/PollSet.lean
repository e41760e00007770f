import SmtpClient.ClosedConnections

/-!
The number of sockets handed to poll. The counter is set up by conn_init and
never lowered, so it agrees with the list of connections as long as no pass
ends some of the open connections while others stay open.
-/
namespace SmtpClient.PollSet

open MailTypes SendCommands Dialogues SessionScript MxLookup Connections
open EventLoop Passes TransferInvariant Setup ClosedConnections Runs

/-- The reply ends the session: it is not the awaited one, or it answers QUIT. -/
def endsOnReply (c : MxConn) (evt : FsmEvent) : Bool :=
  decide (evt ≠ c.state.awaitedReply ∨ c.state = .quit)

/-- Whether the next pass ends connection p, from the state before the pass. -/
def endsInPass (timeout : ℤ) (w : World) (inp : PassInput) (p : ℕ) : Bool :=
  (w.conns[p]?).any fun c =>
    if addressed w inp = some p then
      match inp.recv with
      | .data chunk =>
        endsOnReply c (replyEvent chunk.buf) || decide (inp.clock p - inp.now > timeout)
      | _ => true
    else timedOut timeout inp.clock p c

/-- The pass ends no open connection, or all of them. -/
def EndTogether (timeout : ℤ) (w : World) (inp : PassInput) : Prop :=
  (∀ p ∈ w.connections, endsInPass timeout w inp p = false) ∨
    ∀ p ∈ w.connections, endsInPass timeout w inp p = true

/-- The counter is the length of the list, and every polled entry was filled
from a live connection. -/
def PollSetFilled (w : World) : Prop :=
  w.connectionsCount = w.connections.length ∧
    ∀ i < w.connectionsCount, ∀ stack, ∃ p c, w.connections[i]? = some p ∧
      w.conns[p]? = some c ∧ c.state.terminal = false ∧ pollFds w stack i = c.sock

theorem pollSetFilled_iff (w : World) (h : Sound w) (hlive : AllLive w) :
    PollSetFilled w ↔ w.connectionsCount = w.connections.length := by
  constructor
  · intro hfilled
    exact hfilled.1
  · intro hcount
    refine ⟨hcount, ?_⟩
    intro i hi stack
    have hlt : i < w.connections.length := by omega
    have hp : w.connections[i]? = some w.connections[i] := List.getElem?_eq_getElem hlt
    have hmem : w.connections[i] ∈ w.connections := List.getElem_mem hlt
    obtain ⟨c, hc⟩ := h.listed _ hmem
    refine ⟨w.connections[i], c, hp, hc, hlive _ hmem c hc, ?_⟩
    unfold pollFds
    rw [hp, Option.bind_some, hc]

/-- The script of a live connection is at its end in the state QUIT only. -/
theorem Tracks.quit_iff {mails : List Mail} {c : MxConn} {rest : List SessionRound}
    (h : Tracks mails c (.live rest)) : c.state = .quit ↔ rest = [] := by
  cases h with
  | init hs => simp [hs]
  | helo hs => simp [hs]
  | mailfrom hs => simp [hs, bodyRounds]
  | rcptto hs => simp [hs, bodyRounds]
  | data hs => simp [hs]
  | datastr hs => simp [hs, queueRounds]
  | quit hs => simp [hs]

/-- The reply that ends a session leaves it finished or failed. -/
theorem hear_over_iff {mails : List Mail} {c : MxConn} {rest : List SessionRound}
    (h : Tracks mails c (.live rest)) (evt : FsmEvent) :
    ((Phase.live rest).hear FsmEvent.r221 evt).1 = .finished ∨
        ((Phase.live rest).hear FsmEvent.r221 evt).1 = .aborted ↔ endsOnReply c evt = true := by
  unfold endsOnReply
  rw [decide_eq_true_iff, Tracks.quit_iff h, ← h.awaited_eq.2]
  cases rest with
  | nil => by_cases hevt : evt = .r221 <;> simp [Phase.hear, hevt]
  | cons x rest => by_cases hevt : evt = x.reply <;> simp [Phase.hear, hevt, awaited]

/-- A connection that answers a reply is live unless the reply ends its session. -/
theorem answer_terminal (w : World) (p : ℕ) (c : MxConn) (s : Session) (evt : FsmEvent)
    (now : ℤ) (h : Sound w) (hc : w.conns[p]? = some c) (hlive : c.state.terminal = false)
    (hevt : evt.isReply = true)
    (hs : Transcript.advance w.mails (sessionAt w c now) evt = some s) :
    s.conn.state.terminal = endsOnReply c evt := by
  obtain ⟨φ, htracks, -⟩ := ((h.conns p c hc).at_time now).script
  cases φ with
  | live rest =>
    obtain ⟨st, s', hstep, hout⟩ := step_refines (sessionAt w c now) rest evt htracks hevt
    unfold Transcript.advance at hs
    rw [hstep] at hs
    obtain rfl := Option.some.inj hs
    have hends := hear_over_iff htracks evt
    rw [← hout.tracks.terminal_iff] at hends
    exact Bool.eq_iff_iff.mpr hends
  | finished =>
    have hterm := htracks.terminal_iff.mpr (Or.inl rfl)
    exact absurd (hlive.symm.trans hterm) Bool.false_ne_true
  | aborted =>
    have hterm := htracks.terminal_iff.mpr (Or.inr rfl)
    exact absurd (hlive.symm.trans hterm) Bool.false_ne_true

theorem checked_terminal (timeout : ℤ) (clock : ℕ → ℤ) (p : ℕ) (c : MxConn) :
    (checked timeout clock p c).state.terminal =
      (c.state.terminal || timedOut timeout clock p c) := by
  unfold checked
  split
  · rename_i ht
    simp [ht, FsmState.terminal]
  · rename_i ht
    simp [ht]

/-- The check at the end of a pass removes the connections that the pass ends. -/
theorem removed_eq_endsInPass (timeout : ℤ) (w v : World) (inp : PassInput) (n : ℕ)
    (h : Sound w) (hlive : AllLive w) (hv : waitForResponse w inp = some (n, v)) (q : ℕ)
    (hq : q ∈ w.connections) :
    removed timeout inp.clock v q = endsInPass timeout w inp q := by
  obtain ⟨a, ha⟩ := h.listed q hq
  have halive := hlive q hq a ha
  by_cases haddr : addressed w inp = some q
  · rcases waitForResponse_cases w v inp n hv with ⟨hnone, -⟩ | ⟨p, hp, -, hserved⟩
    · rw [hnone] at haddr
      cases haddr
    · obtain rfl := Option.some.inj (hp.symm.trans haddr)
      have hlt : p < w.conns.length := (List.getElem?_eq_some_iff.mp ha).1
      unfold endsInPass
      rw [ha, Option.any_some, if_pos haddr]
      rcases hserved with ⟨hfail, rfl⟩ | ⟨chunk, hrecv, hparse⟩
      · rw [invalidateConnection_eq (World.log w [.recv p inp.recv]) p a ha,
          removed_eq timeout inp.clock _ p _ (List.getElem?_set_self hlt), checked_terminal]
        cases hrecv : inp.recv with
        | error => rfl
        | disconnected => rfl
        | data chunk => exact absurd hrecv (hfail chunk)
      · obtain ⟨s, hs, hadv, -, -, htime, -, -⟩ := sound_answer w p a chunk inp.now h hq ha halive
        rw [hrecv, hs] at hparse
        obtain rfl := Option.some.inj hparse
        have hself : (store (World.log w [.recv p (.data chunk)]) p s).conns[p]? =
            some s.conn := List.getElem?_set_self hlt
        have hterm := answer_terminal w p a s _ inp.now h ha halive
          (replyEvent_isReply chunk.buf) hadv
        rw [removed_eq timeout inp.clock _ p _ hself, checked_terminal, hterm, hrecv]
        simp only [timedOut, htime]
  · obtain ⟨hconn, -⟩ := (waitForResponse_effect w v inp n h hlive hv q).1 haddr
    rw [ha] at hconn
    unfold endsInPass
    rw [removed_eq timeout inp.clock v q a hconn, checked_terminal, halive, ha, Option.any_some,
      if_neg haddr, Bool.false_or]

/-- A pass keeps exactly the connections that it does not end. -/
theorem pass_keeps (timeout : ℤ) (w w' : World) (inp : PassInput) (h : Sound w)
    (hlive : AllLive w) (hw : connLoopPass timeout w inp = some w') :
    w'.connections = w.connections.filter (fun p => !endsInPass timeout w inp p) ∧
      w'.connectionsCount = w.connectionsCount := by
  refine ⟨?_, (connLoopPass_sound timeout w w' inp h hlive hw).2.count⟩
  obtain ⟨n, v, hv, -, -, -, hkept⟩ := pass_eq_sweep timeout w w' inp h hlive hw
  rw [hkept]
  apply List.filter_congr
  intro p hp
  rw [removed_eq_endsInPass timeout w v inp n h hlive hv p hp]

/-- A filter that keeps some but not all elements makes a list shorter. -/
theorem filter_length_lt {α : Type*} (p : α → Bool) (l : List α) (x : α) (hx : x ∈ l)
    (hp : p x = false) : (l.filter p).length < l.length := by
  apply List.length_filter_lt_length_iff_exists.mpr
  exact ⟨x, hx, by simp [hp]⟩

/-- One pass keeps a right counter right exactly when it ends no connection or
all of them, or else leaves none to poll. -/
theorem pass_count_iff (timeout : ℤ) (w w' : World) (inp : PassInput) (h : Sound w)
    (hlive : AllLive w) (hw : connLoopPass timeout w inp = some w')
    (hcount : w.connectionsCount = w.connections.length) :
    (w'.connections ≠ [] → w'.connectionsCount = w'.connections.length) ↔
      EndTogether timeout w inp := by
  obtain ⟨hkeeps, hsame⟩ := pass_keeps timeout w w' inp h hlive hw
  constructor
  · intro hright
    by_contra hmixed
    obtain ⟨hsome, hother⟩ := not_or.mp hmixed
    simp only [not_forall] at hsome hother
    obtain ⟨p, hp, hends⟩ := hsome
    obtain ⟨q, hq, hstays⟩ := hother
    have hqmem : q ∈ w'.connections := by
      rw [hkeeps]
      exact List.mem_filter.mpr ⟨hq, by simpa using hstays⟩
    have hlt := filter_length_lt (fun p => !endsInPass timeout w inp p) w.connections p hp
      (by simpa using hends)
    have hlen := hright (List.ne_nil_of_mem hqmem)
    rw [hkeeps] at hlen
    omega
  · intro htogether hne
    rcases htogether with hnone | hall
    · have hfilter : w.connections.filter (fun p => !endsInPass timeout w inp p) =
          w.connections := by
        apply List.filter_eq_self.mpr
        intro p hp
        rw [hnone p hp]
        rfl
      rw [hkeeps, hfilter]
      omega
    · exfalso
      apply hne
      rw [hkeeps]
      apply List.filter_eq_nil_iff.mpr
      intro p hp
      rw [hall p hp]
      exact Bool.false_ne_true

/-- The passes of a loop can be cut in two. -/
theorem connLoop_append (timeout : ℤ) (w w' : World) (a b : List PassInput)
    (h : connLoop timeout w (a ++ b) = some w') :
    ∃ v, connLoop timeout w a = some v ∧ connLoop timeout v b = some w' := by
  simp only [connLoop_eq_run] at h ⊢
  exact exists_run_of_append _ w a b w' h

/-- With an open connection one more input is one more pass. -/
theorem connLoop_concat (timeout : ℤ) (w v : World) (inps : List PassInput) (inp : PassInput)
    (hv : connLoop timeout w inps = some v) (hne : v.connections ≠ []) :
    connLoop timeout w (inps ++ [inp]) = connLoopPass timeout v inp := by
  rw [connLoop_eq_run] at hv ⊢
  rw [run_concat, hv, Option.bind_some, restIn, if_neg (by simp [hne])]

/-- In every run the poll set is right at each call of wait_for_response exactly
when each pass ends none or all of the open connections. -/
theorem poll_set_filled_iff (myDomain : Bytes) (net : Net) (mails : List Mail) (timeout : ℤ)
    (inps : List PassInput) (w₀ last : World) (hinit : connInit myDomain net mails = some w₀)
    (hrun : connLoop timeout w₀ inps = some last) :
    (∀ before w, before <+: inps → connLoop timeout w₀ before = some w → w.connections ≠ [] →
      PollSetFilled w) ↔
    ∀ before inp w, before ++ [inp] <+: inps → connLoop timeout w₀ before = some w →
      w.connections ≠ [] → EndTogether timeout w inp := by
  have hopened := connInit_opened myDomain net mails w₀ hinit
  obtain ⟨hsound₀, hlive₀⟩ := opened_sound w₀ hopened
  have hsound : ∀ before w, connLoop timeout w₀ before = some w → Sound w ∧ AllLive w := by
    intro before w hw
    exact (connLoop_sound timeout w₀ w before hsound₀ hlive₀ hw).1
  constructor
  · intro hfilled before inp w hpre hw hne
    obtain ⟨hs, hl⟩ := hsound before w hw
    have hbefore : before <+: inps := (List.prefix_append before [inp]).trans hpre
    have hcount := (hfilled before w hbefore hw hne).1
    have hnext := connLoop_concat timeout w₀ w before inp hw hne
    obtain ⟨rest, hrest⟩ := hpre
    rw [← hrest] at hrun
    obtain ⟨w', hw', -⟩ := connLoop_append timeout w₀ last _ rest hrun
    apply (pass_count_iff timeout w w' inp hs hl (hnext.symm.trans hw') hcount).mp
    intro hne'
    exact (hfilled _ w' ⟨rest, hrest⟩ hw' hne').1
  · intro htogether before w hpre hw hne
    obtain ⟨hs, hl⟩ := hsound before w hw
    apply (pollSetFilled_iff w hs hl).mpr
    induction before using List.reverseRecOn generalizing w with
    | nil =>
      obtain rfl := Option.some.inj hw
      rw [hopened.count, hopened.connections, List.length_range]
    | append_singleton before inp ih =>
      have hbefore : before <+: inps := (List.prefix_append before [inp]).trans hpre
      obtain ⟨v, hv, hlast⟩ := connLoop_append timeout w₀ w before [inp] hw
      by_cases hempty : v.connections = []
      · rw [connLoop, if_pos hempty] at hlast
        obtain rfl := Option.some.inj hlast
        exact absurd hempty hne
      · obtain ⟨hs', hl'⟩ := hsound before v hv
        have hcount := ih v hbefore hv hempty hs' hl'
        have hnext := connLoop_concat timeout w₀ v before inp hv hempty
        have hends := htogether before inp v hpre hv hempty
        exact (pass_count_iff timeout v w inp hs' hl' (hnext.symm.trans hw) hcount).mpr hends hne

section Example

/-- A mail for recipients in the domains d and e. -/
def mailToBoth : Mail :=
  ⟨bytes "MAIL FROM: <a@b>\r\n", [⟨bytes "c@d", bytes "d"⟩, ⟨bytes "c@e", bytes "e"⟩],
    bytes ".\r\n", bytes "1"⟩

def netToBoth : Net := netReaching fun d => if d = bytes "d" then some 4 else some 5

/-- One mail, for which two connections are open. -/
def worldToBoth : World :=
  ⟨[mailToBoth], [⟨bytes "d"⟩, ⟨bytes "e"⟩], [⟨4, .init, some 0, some (0, 0), ⟨bytes "d"⟩, 0⟩,
    ⟨5, .init, some 0, some (0, 1), ⟨bytes "e"⟩, 0⟩], [0, 1], 2, fun _ => false, []⟩

theorem connInit_mailToBoth : connInit (bytes "b") netToBoth [mailToBoth] = some worldToBoth := rfl

/-- One server of two hangs up in the first pass. -/
theorem poll_set_stale :
    ¬ ∀ (myDomain : Bytes) (net : Net) (mails : List Mail) (timeout : ℤ)
        (inps : List PassInput) (w : World), transfer myDomain net mails timeout inps = some w →
        w.connections ≠ [] → PollSetFilled w := by
  intro hclaim
  have hrun : (transfer (bytes "b") netToBoth [mailToBoth] 60 [hangup]).map
      (fun w => (w.connections, w.connectionsCount)) = some ([1], 2) := by
    decide
  obtain ⟨w, hw, hobs⟩ := Option.map_eq_some_iff.mp hrun
  obtain ⟨hopen, hcount⟩ := Prod.mk.inj hobs
  have hfilled := (hclaim _ _ _ _ _ w hw (by rw [hopen]; exact List.cons_ne_nil _ _)).1
  rw [hopen, hcount] at hfilled
  exact absurd hfilled (by decide)

/-- The first server greets, and hangs up when the other one is out of time. -/
def bothPasses : List PassInput :=
  [replyInput chunk220, ⟨.events fun _ => pollin, fun _ => 0, .disconnected, 0, fun _ => 61⟩]

theorem before_bothPasses (before : List PassInput) (inp : PassInput)
    (h : before ++ [inp] <+: bothPasses) : before = [] ∧ bothPasses[0]? = some inp ∨
      before = [replyInput chunk220] ∧ bothPasses[1]? = some inp := by
  match before with
  | [] =>
    obtain ⟨rest, hrest⟩ := h
    exact Or.inl ⟨rfl, hrest ▸ rfl⟩
  | [a] =>
    obtain ⟨rest, hrest⟩ := h
    refine Or.inr ⟨?_, hrest ▸ rfl⟩
    rw [(List.cons.inj hrest).1]
  | a :: b :: before =>
    have hlen := h.length_le
    rw [List.length_append, List.length_cons, List.length_cons] at hlen
    have htwo : bothPasses.length = 2 := rfl
    have hone : [inp].length = 1 := rfl
    omega

/-- Both connections are open after the first pass, and the second one ends both. -/
theorem poll_set_filled_iff_both_end :
    (connLoop 60 worldToBoth [replyInput chunk220]).map World.connections = some [0, 1] ∧
    (connLoop 60 worldToBoth bothPasses).map World.connections = some [] ∧
      ∀ before w, before <+: bothPasses → connLoop 60 worldToBoth before = some w →
        w.connections ≠ [] → PollSetFilled w := by
  have hend : (connLoop 60 worldToBoth bothPasses).map World.connections = some [] := by decide
  obtain ⟨last, hlast, -⟩ := Option.map_eq_some_iff.mp hend
  refine ⟨by decide, hend, ?_⟩
  apply (poll_set_filled_iff _ _ _ 60 bothPasses worldToBoth last connInit_mailToBoth hlast).mpr
  intro before inp w hpre hw _
  rcases before_bothPasses before inp hpre with ⟨rfl, hinp⟩ | ⟨rfl, hinp⟩
  · obtain rfl := Option.some.inj hw
    obtain rfl := Option.some.inj hinp
    refine Or.inl ?_
    decide
  · obtain rfl := Option.some.inj hinp
    refine Or.inr ?_
    have hall : (connLoop 60 worldToBoth [replyInput chunk220]).all (fun v => decide
        (∀ p ∈ v.connections, endsInPass 60 v
          ⟨.events fun _ => pollin, fun _ => 0, .disconnected, 0, fun _ => 61⟩ p = true)) = true := by
      decide
    rw [hw] at hall
    exact of_decide_eq_true hall

end Example

end SmtpClient.PollSet
