import SmtpClient.Setup

/-!
Finished and failed connections. At the beginning of every pass all open
connections are live, so the state machine never meets a finished or failed
one. A pass removes exactly the connections that it ends, and a connection that
was removed never changes and is never written to again.
-/
namespace SmtpClient.ClosedConnections

open MailTypes SendCommands Dialogues SessionScript Transcript MxLookup Connections
open EventLoop Passes TransferInvariant Setup Runs

def liveIn (w : World) (p : ℕ) : Bool := (w.conns[p]?).any fun c => !c.state.terminal

/-- poll reports only sockets of open connections. -/
def ListedPoll (w : World) (inp : PassInput) : Prop :=
  ∀ i, readableEntry w.connectionsCount inp.poll = some i →
    ∃ p ∈ w.connections, (w.conns[p]?).map MxConn.sock = some (pollFds w inp.stack i)

/-- poll does so in every pass of a run. -/
def ListedPolls (timeout : ℤ) : World → List PassInput → Prop
  | _, [] => True
  | w, inp :: inps => w.connections ≠ [] → ListedPoll w inp ∧
      ∀ w', connLoopPass timeout w inp = some w' → ListedPolls timeout w' inps

/-- What is sent on each connection and which connections stay as they were,
from the call of wait_for_response to its end. -/
theorem waitForResponse_effect (w v : World) (inp : PassInput) (n : ℕ) (h : Sound w)
    (hlive : AllLive w) (hv : waitForResponse w inp = some (n, v)) (q : ℕ) :
    (addressed w inp ≠ some q → v.conns[q]? = w.conns[q]? ∧
      turnsOf v.trace q = turnsOf w.trace q) ∧
    (liveIn v q = false → sentOn v q = sentOn w q) := by
  rcases waitForResponse_cases w v inp n hv with ⟨haddr, rfl⟩ | ⟨p, haddr, hp, hserved⟩
  · exact ⟨fun _ => ⟨rfl, rfl⟩, fun _ => rfl⟩
  · obtain ⟨c, hc⟩ := h.listed p hp
    have hother : addressed w inp ≠ some q → p ≠ q := by
      intro hne heq
      exact hne (haddr.trans (congrArg some heq))
    rcases hserved with ⟨hfail, rfl⟩ | ⟨chunk, hrecv, hparse⟩
    · have hturns : turnsOf (w.trace ++ [.recv p inp.recv]) q = turnsOf w.trace q := by
        rw [turnsOf_append, turnsOf_recv_failed q p inp.recv hfail, List.append_nil]
      rw [invalidateConnection_eq (World.log w [.recv p inp.recv]) p c hc]
      constructor
      · intro hne
        exact ⟨List.getElem?_set_ne (hother hne), hturns⟩
      · intro _
        exact congrArg saidOf hturns
    · obtain ⟨s, hs, -, -, -, -, hquiet, -⟩ :=
        sound_answer w p c chunk inp.now h hp hc (hlive p hp c hc)
      rw [hrecv, hs] at hparse
      obtain rfl := Option.some.inj hparse
      have hturns := turnsOf_answer w.trace p q chunk s.sent
      constructor
      · intro hne
        rw [if_neg (hother hne)] at hturns
        exact ⟨List.getElem?_set_ne (hother hne), hturns⟩
      · intro hdead
        by_cases hpq : p = q
        · subst hpq
          have hself : (store (World.log w [.recv p (.data chunk)]) p s).conns[p]? =
              some s.conn := List.getElem?_set_self (List.getElem?_eq_some_iff.mp hc).1
          have hterm : s.conn.state.terminal = true := by
            unfold liveIn at hdead
            rw [hself] at hdead
            simpa using hdead
          rw [if_pos rfl, hquiet hterm] at hturns
          unfold sentOn
          change saidOf (turnsOf (w.trace ++ _ ++ s.sent.map (Act.send p)) p) = _
          rw [hquiet hterm, hturns]
          simp
        · rw [if_neg hpq] at hturns
          exact congrArg saidOf hturns

theorem addressed_mem (w : World) (inp : PassInput) (p : ℕ) (h : addressed w inp = some p) :
    p ∈ w.connections := by
  obtain ⟨i, -, hp⟩ := Option.bind_eq_some_iff.mp h
  exact (getConnBySocket_mem w _ p hp).1

theorem liveIn_sweep (timeout : ℤ) (clock : ℕ → ℤ) (v : World) (h : Sound v) (p : ℕ)
    (hp : p ∈ v.connections) :
    liveIn (sweep timeout clock v) p = !removed timeout clock v p := by
  obtain ⟨c, hc⟩ := h.listed p hp
  rw [sweep_eq timeout clock v h.nodup h.listed, removed_eq timeout clock v p c hc]
  simp [liveIn, sweptOver, hc, hp]

theorem connLoopPass_of_wait (timeout : ℤ) (w v : World) (inp : PassInput) (n : ℕ)
    (hv : waitForResponse w inp = some (n, v)) :
    connLoopPass timeout w inp = some (sweep timeout inp.clock v) := by
  unfold connLoopPass
  rw [hv]
  rfl

/-- A pass is a call of wait_for_response and a sweep over the same connections. -/
theorem pass_eq_sweep (timeout : ℤ) (w w' : World) (inp : PassInput) (h : Sound w)
    (hlive : AllLive w) (hw : connLoopPass timeout w inp = some w') :
    ∃ n v, waitForResponse w inp = some (n, v) ∧ w' = sweep timeout inp.clock v ∧ Sound v ∧
      v.connections = w.connections ∧
      w'.connections = w.connections.filter fun p => !removed timeout inp.clock v p := by
  obtain ⟨⟨n, v⟩, hv, hw⟩ := Option.bind_eq_some_iff.mp hw
  obtain rfl := Option.some.inj hw
  obtain ⟨hsound, hsame, -⟩ := waitForResponse_sound w v inp n h hlive hv
  refine ⟨n, v, hv, rfl, hsound, hsame, ?_⟩
  rw [sweep_eq timeout inp.clock v hsound.nodup hsound.listed, ← hsame]
  exact sweptOver_connections timeout inp.clock v

/-- A pass removes the connections that it ends and keeps the others in order. -/
theorem pass_connections (timeout : ℤ) (w w' : World) (inp : PassInput) (h : Sound w)
    (hlive : AllLive w) (hw : connLoopPass timeout w inp = some w') :
    w'.connections = w.connections.filter (liveIn w') := by
  obtain ⟨n, v, -, rfl, hsound, hsame, hkept⟩ := pass_eq_sweep timeout w w' inp h hlive hw
  rw [hkept]
  apply List.filter_congr
  intro p hp
  exact (liveIn_sweep timeout inp.clock v hsound p (hsame ▸ hp)).symm

theorem sweep_turns (timeout : ℤ) (clock : ℕ → ℤ) (v : World) (h : Sound v) (q : ℕ) :
    turnsOf (sweep timeout clock v).trace q = turnsOf v.trace q := by
  rw [sweep_eq timeout clock v h.nodup h.listed]
  exact turnsOf_sweptOver timeout clock v v.connections q

/-- A connection that is not open is left alone by a pass. -/
theorem pass_closed (timeout : ℤ) (w w' : World) (inp : PassInput) (h : Sound w)
    (hlive : AllLive w) (hw : connLoopPass timeout w inp = some w') (q : ℕ)
    (hq : q ∉ w.connections) :
    q ∉ w'.connections ∧ w'.conns[q]? = w.conns[q]? ∧
      turnsOf w'.trace q = turnsOf w.trace q := by
  obtain ⟨n, v, hv, rfl, hsound, hsame, hkept⟩ := pass_eq_sweep timeout w w' inp h hlive hw
  have hne : addressed w inp ≠ some q := by
    intro haddr
    exact hq (addressed_mem w inp q haddr)
  obtain ⟨hconn, hturns⟩ := (waitForResponse_effect w v inp n h hlive hv q).1 hne
  refine ⟨?_, ?_, ?_⟩
  · intro hmem
    rw [hkept] at hmem
    exact hq (List.mem_of_mem_filter hmem)
  · rw [← hconn, sweep_eq timeout inp.clock v hsound.nodup hsound.listed]
    apply sweptOver_conns_of_notMem
    rw [hsame]
    exact hq
  · rw [← hturns]
    exact sweep_turns timeout inp.clock v hsound q

/-- What a run leaves alone once a connection is closed. -/
def KeepsClosed (w w' : World) : Prop :=
  ∀ q, q ∉ w.connections → q ∉ w'.connections ∧ w'.conns[q]? = w.conns[q]? ∧
    turnsOf w'.trace q = turnsOf w.trace q

theorem connLoop_keepsClosed (timeout : ℤ) (w w' : World) (inps : List PassInput) (h : Sound w)
    (hlive : AllLive w) (hw : connLoop timeout w inps = some w') : KeepsClosed w w' := by
  rw [connLoop_eq_run] at hw
  apply run_relation KeepsClosed (fun w => Sound w ∧ AllLive w) _ _ _ inps w' ⟨h, hlive⟩ hw
  · intro w q hq
    exact ⟨hq, rfl, rfl⟩
  · intro a b c hab hbc q hq
    obtain ⟨hq, hconn, hturns⟩ := hab q hq
    obtain ⟨hq, hconn', hturns'⟩ := hbc q hq
    exact ⟨hq, hconn'.trans hconn, hturns'.trans hturns⟩
  · intro a inp b ha hstep
    refine ⟨(restIn_sound timeout a inp b ha hstep).1, ?_⟩
    unfold restIn at hstep
    split at hstep
    · obtain rfl := Option.some.inj hstep
      intro q hq
      exact ⟨hq, rfl, rfl⟩
    · exact pass_closed timeout a b inp ha.1 ha.2 hstep

/-- A pass in which poll reports an open connection has no fault. -/
theorem waitForResponse_total (w : World) (inp : PassInput) (h : Sound w) (hlive : AllLive w)
    (hpoll : ListedPoll w inp) : ∃ n v, waitForResponse w inp = some (n, v) := by
  unfold waitForResponse
  cases hentry : readableEntry w.connectionsCount inp.poll with
  | none => exact ⟨0, w, rfl⟩
  | some i =>
    obtain ⟨q, hq, hsock⟩ := hpoll i hentry
    obtain ⟨p, hp⟩ := getConnBySocket_isSome w _ q hq hsock
    have hmem := (getConnBySocket_mem w _ p hp).1
    obtain ⟨c, hc⟩ := h.listed p hmem
    simp only [hp, Option.bind_eq_bind, Option.bind_some]
    cases hrecv : inp.recv with
    | error => exact ⟨0, _, rfl⟩
    | disconnected => exact ⟨0, _, rfl⟩
    | data chunk =>
      obtain ⟨s, hs, -⟩ := sound_answer w p c chunk inp.now h hmem hc (hlive p hmem c hc)
      simp only [hs]
      exact ⟨1, _, rfl⟩

theorem connLoop_total (timeout : ℤ) (w : World) (inps : List PassInput) (h : Sound w)
    (hlive : AllLive w) (hpoll : ListedPolls timeout w inps) :
    ∃ w', connLoop timeout w inps = some w' := by
  induction inps generalizing w with
  | nil => exact ⟨w, rfl⟩
  | cons inp inps ih =>
    rw [connLoop]
    split
    · exact ⟨w, rfl⟩
    · rename_i hne
      obtain ⟨hpass, hrest⟩ := hpoll hne
      obtain ⟨n, v, hv⟩ := waitForResponse_total w inp h hlive hpass
      have hstep := connLoopPass_of_wait timeout w v inp n hv
      obtain ⟨⟨hsound, hlive'⟩, -⟩ := connLoopPass_sound timeout w _ inp h hlive hstep
      obtain ⟨w', hw'⟩ := ih _ hsound hlive' (hrest _ hstep)
      refine ⟨w', ?_⟩
      rw [hstep]
      exact hw'

/-- No open connection is finished or failed between two passes. -/
theorem open_connection (w : World) (h : Sound w) (hlive : AllLive w) (p : ℕ)
    (hp : p ∈ w.connections) :
    ∃ c, w.conns[p]? = some c ∧ c.state ≠ .done ∧ c.state ≠ .invalid := by
  obtain ⟨c, hc⟩ := h.listed p hp
  have hterm := hlive p hp c hc
  refine ⟨c, hc, ?_, ?_⟩
  · intro hstate
    rw [hstate] at hterm
    cases hterm
  · intro hstate
    rw [hstate] at hterm
    cases hterm

/-- At every beginning of a pass the open connections are live. The pass steps
only a live connection, sends nothing on one that has ended, and removes those
that it ends and no other. What is closed stays as it is. -/
theorem closed_connections_stay_closed (myDomain : Bytes) (net : Net) (mails : List Mail)
    (timeout : ℤ) (inps : List PassInput) (w₀ : World)
    (hinit : connInit myDomain net mails = some w₀) (hpoll : ListedPolls timeout w₀ inps) :
    ∃ w, connLoop timeout w₀ inps = some w ∧
      (∀ p ∈ w.connections, ∃ c, w.conns[p]? = some c ∧ c.state ≠ .done ∧ c.state ≠ .invalid) ∧
      (∀ inp, ListedPoll w inp → ∃ n v w', waitForResponse w inp = some (n, v) ∧
        connLoopPass timeout w inp = some w' ∧
        (∀ p, addressed w inp = some p →
          ∃ c, w.conns[p]? = some c ∧ c.state ≠ .done ∧ c.state ≠ .invalid) ∧
        (∀ p, liveIn v p = false → sentOn v p = sentOn w p) ∧
        (∀ p, sentOn w' p = sentOn v p) ∧
        w'.connections = w.connections.filter (liveIn w')) ∧
      ∀ p c, w.conns[p]? = some c → c.state = .done ∨ c.state = .invalid →
        ∀ more w', connLoop timeout w more = some w' →
          p ∉ w'.connections ∧ w'.conns[p]? = some c ∧ sentOn w' p = sentOn w p := by
  have hopened := connInit_opened myDomain net mails w₀ hinit
  obtain ⟨hsound₀, hlive₀⟩ := opened_sound w₀ hopened
  obtain ⟨w, hw⟩ := connLoop_total timeout w₀ inps hsound₀ hlive₀ hpoll
  obtain ⟨⟨hsound, hlive⟩, -⟩ := connLoop_sound timeout w₀ w inps hsound₀ hlive₀ hw
  have hopen := open_connection w hsound hlive
  refine ⟨w, hw, hopen, ?_, ?_⟩
  · intro inp hinp
    obtain ⟨n, v, hv⟩ := waitForResponse_total w inp hsound hlive hinp
    have hstep := connLoopPass_of_wait timeout w v inp n hv
    refine ⟨n, v, _, hv, hstep, ?_, ?_, ?_, ?_⟩
    · intro p hp
      exact hopen p (addressed_mem w inp p hp)
    · intro p hdead
      exact (waitForResponse_effect w v inp n hsound hlive hv p).2 hdead
    · intro p
      have hv' := (waitForResponse_sound w v inp n hsound hlive hv).1
      exact congrArg saidOf (sweep_turns timeout inp.clock v hv' p)
    · exact pass_connections timeout w _ inp hsound hlive hstep
  · intro p c hc hterm more w' hw'
    have hp : p ∉ w.connections := by
      intro hp
      obtain ⟨a, ha, hdone, hinvalid⟩ := hopen p hp
      obtain rfl := Option.some.inj (hc.symm.trans ha)
      rcases hterm with hterm | hterm
      · exact hdone hterm
      · exact hinvalid hterm
    obtain ⟨hnot, hconn, hturns⟩ := connLoop_keepsClosed timeout w w' more hsound hlive hw' p hp
    exact ⟨hnot, hconn.trans hc, congrArg saidOf hturns⟩

/-- The only server hangs up in the first pass. -/
theorem closed_connections_stay_closed_hangup :
    ∃ w, connLoop 60 worldToD [hangup] = some w ∧
      ∀ p c, w.conns[p]? = some c → c.state = .done ∨ c.state = .invalid →
        ∀ more w', connLoop 60 w more = some w' →
          p ∉ w'.connections ∧ w'.conns[p]? = some c ∧ sentOn w' p = sentOn w p := by
  have hpoll : ListedPolls 60 worldToD [hangup] := by
    intro _
    refine ⟨?_, fun _ _ => trivial⟩
    intro i hi
    have hzero : some 0 = some i := hi
    obtain rfl := Option.some.inj hzero
    exact ⟨0, List.mem_singleton_self 0, rfl⟩
  obtain ⟨w, hw, -, -, hclosed⟩ :=
    closed_connections_stay_closed _ _ _ 60 _ worldToD connInit_mailToD hpoll
  exact ⟨w, hw, hclosed⟩

end SmtpClient.ClosedConnections
