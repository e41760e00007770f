import SmtpClient.ClosedConnections
import Mathlib.Tactic.Linarith

/-!
How long a transfer can last. A connection that stays open has answered within the
timeout again and again, and each answer completes a round of its script. Both the
calls of recv and the time until the connection is closed are bounded by the length of
the script, whatever the servers answer.
-/
namespace SmtpClient.Deadlines

open MailTypes SendCommands Dialogues SessionScript Transcript MxLookup Connections
open EventLoop Passes TransferInvariant Setup ClosedConnections

/-- Passes that begin at one time and end at another, each of them at most d long, and
that read the clock while they last. -/
inductive Timed (d : ℤ) : ℤ → List PassInput → ℤ → Prop
  | nil (t : ℤ) : Timed d t [] t
  | cons {t u b : ℤ} {inp : PassInput} {inps : List PassInput} (long : u ≤ t + d)
      (now : t ≤ inp.now ∧ inp.now ≤ u) (clock : ∀ p, t ≤ inp.clock p ∧ inp.clock p ≤ u)
      (rest : Timed d u inps b) : Timed d t (inp :: inps) b

/-- What was heard on connection p. -/
def heardOn (w : World) (p : ℕ) : List FsmEvent := heardOf (turnsOf w.trace p)

def isRecvOn (p : ℕ) : Act → Bool
  | .recv q _ => decide (q = p)
  | _ => false

/-- How often recv was called on the socket of connection p. -/
def recvsOn (w : World) (p : ℕ) : ℕ := w.trace.countP (isRecvOn p)

section Reads

variable (w : World) (p q : ℕ)

theorem countP_sends (cs : List Sent) : (cs.map (Act.send q)).countP (isRecvOn p) = 0 := by
  rw [List.countP_eq_zero]
  intro a ha
  obtain ⟨x, -, rfl⟩ := List.mem_map.mp ha
  exact Bool.false_ne_true

theorem countP_closes (l : List ℕ) : (l.map Act.close).countP (isRecvOn p) = 0 := by
  rw [List.countP_eq_zero]
  intro a ha
  obtain ⟨x, -, rfl⟩ := List.mem_map.mp ha
  exact Bool.false_ne_true

theorem countP_recv (r : RecvResult) (trace : List Act) (cs : List Sent) :
    (trace ++ [Act.recv q r] ++ cs.map (Act.send q)).countP (isRecvOn p) =
      trace.countP (isRecvOn p) + if q = p then 1 else 0 := by
  rw [List.countP_append, List.countP_append, countP_sends, List.countP_singleton]
  simp [isRecvOn]

/-- What the calls of recv on the connections have brought. -/
structure Counted (w : World) : Prop where
  bounded : ∀ p c, w.conns[p]? = some c →
    recvsOn w p ≤ (sessionScript w.mails c.dom).length + 1
  answered : ∀ p c, w.conns[p]? = some c → c.state.terminal = false →
    recvsOn w p = (heardOn w p).length

/-- A live connection has heard at most one reply for each round of its script. -/
theorem heardOn_le (h : Sound w) (c : MxConn) (hc : w.conns[p]? = some c)
    (hlive : c.state.terminal = false) :
    (heardOn w p).length ≤ (sessionScript w.mails c.dom).length := by
  obtain ⟨φ, htracks, hconf⟩ := (h.conns p c hc).script
  cases φ with
  | live rest =>
    have hlen := hconf.heardOf_live
    unfold heardOn
    omega
  | finished =>
    rw [htracks.terminal_iff.mpr (Or.inl rfl)] at hlive
    cases hlive
  | aborted =>
    rw [htracks.terminal_iff.mpr (Or.inr rfl)] at hlive
    cases hlive

/-- How one connection comes out of wait_for_response. -/
inductive Served (now : ℤ) (w v : World) (p : ℕ) (c c' : MxConn) : Prop
  | untouched (conn : c' = c) (recvs : recvsOn v p = recvsOn w p)
      (heard : heardOn v p = heardOn w p)
  | failed (live : c.state.terminal = false) (invalid : c'.state = .invalid)
      (time : c'.timeOfLastResponse = c.timeOfLastResponse)
      (recvs : recvsOn v p = recvsOn w p + 1) (heard : heardOn v p = heardOn w p)
  | answered (live : c.state.terminal = false) (time : c'.timeOfLastResponse = now)
      (recvs : recvsOn v p = recvsOn w p + 1)
      (heard : (heardOn v p).length = (heardOn w p).length + 1)

theorem waitForResponse_served (v : World) (inp : PassInput) (n : ℕ) (h : Sound w)
    (hlive : AllLive w) (hv : waitForResponse w inp = some (n, v)) (c' : MxConn)
    (hc' : v.conns[p]? = some c') :
    ∃ c, w.conns[p]? = some c ∧ c'.dom = c.dom ∧ Served inp.now w v p c c' := by
  rcases waitForResponse_cases w v inp n hv with ⟨-, rfl⟩ | ⟨q, -, hq, hserved⟩
  · exact ⟨c', hc', rfl, .untouched rfl rfl rfl⟩
  · obtain ⟨a, ha⟩ := h.listed q hq
    have halive := hlive q hq a ha
    have hlt := (List.getElem?_eq_some_iff.mp ha).1
    rcases hserved with ⟨hfail, rfl⟩ | ⟨chunk, hrecv, hparse⟩
    · have hrecvs := countP_recv p q inp.recv w.trace []
      have hheard : heardOf (turnsOf (w.trace ++ [.recv q inp.recv]) p) = heardOn w p := by
        rw [turnsOf_append, turnsOf_recv_failed p q inp.recv hfail, List.append_nil]
        rfl
      rw [List.map_nil, List.append_nil] at hrecvs
      rw [invalidateConnection_eq (World.log w [.recv q inp.recv]) q a ha] at hc' ⊢
      by_cases hpq : q = p
      · subst hpq
        rw [if_pos rfl] at hrecvs
        obtain rfl := Option.some.inj ((List.getElem?_set_self hlt).symm.trans hc')
        exact ⟨a, ha, rfl, .failed halive rfl rfl hrecvs hheard⟩
      · rw [if_neg hpq] at hrecvs
        rw [World.setConn, List.getElem?_set_ne hpq] at hc'
        exact ⟨c', hc', rfl, .untouched rfl hrecvs hheard⟩
    · obtain ⟨s, hs, -, hdom, -, htime, -, -⟩ := sound_answer w q a chunk inp.now h hq ha halive
      rw [hrecv, hs] at hparse
      obtain rfl := Option.some.inj hparse
      have hrecvs := countP_recv p q (.data chunk) w.trace s.sent
      have hturns := turnsOf_answer w.trace q p chunk s.sent
      by_cases hpq : q = p
      · subst hpq
        rw [if_pos rfl] at hrecvs hturns
        obtain rfl := Option.some.inj ((List.getElem?_set_self hlt).symm.trans hc')
        refine ⟨a, ha, hdom, .answered halive htime hrecvs ?_⟩
        change (heardOf (turnsOf (w.trace ++ _ ++ s.sent.map (Act.send q)) q)).length = _
        rw [hturns]
        simp [heardOn]
      · rw [if_neg hpq] at hrecvs hturns
        rw [store, List.getElem?_set_ne hpq] at hc'
        exact ⟨c', hc', rfl, .untouched rfl hrecvs (congrArg heardOf hturns)⟩

/-- The check at the end of a pass calls no recv. -/
theorem recvsOn_sweep (timeout : ℤ) (clock : ℕ → ℤ) (h : Sound w) :
    recvsOn (sweep timeout clock w) p = recvsOn w p := by
  rw [sweep_eq timeout clock w h.nodup h.listed]
  change (w.trace ++ List.map Act.close _).countP (isRecvOn p) = _
  rw [List.countP_append, countP_closes]
  rfl

theorem heardOn_sweep (timeout : ℤ) (clock : ℕ → ℤ) (h : Sound w) :
    heardOn (sweep timeout clock w) p = heardOn w p :=
  congrArg heardOf (sweep_turns timeout clock w h p)

theorem checked_of_live (timeout : ℤ) (clock : ℕ → ℤ) (c : MxConn)
    (hlive : (checked timeout clock p c).state.terminal = false) :
    checked timeout clock p c = c ∧ clock p - c.timeOfLastResponse ≤ timeout := by
  unfold checked timedOut at hlive ⊢
  split at hlive
  · cases hlive
  · rename_i hin
    rw [if_neg hin]
    exact ⟨rfl, by simpa using hin⟩

/-- A connection behind the check was there before it, and if it is live it is in time. -/
theorem conn_of_sweep (timeout : ℤ) (clock : ℕ → ℤ) (h : Sound w) (c' : MxConn)
    (hc' : (sweep timeout clock w).conns[p]? = some c') :
    ∃ c, w.conns[p]? = some c ∧ c'.dom = c.dom ∧ (c'.state.terminal = false →
      c' = c ∧ (p ∈ w.connections → clock p - c.timeOfLastResponse ≤ timeout)) := by
  rw [sweep_eq timeout clock w h.nodup h.listed, getElem?_sweptOver] at hc'
  obtain ⟨c, hc, rfl⟩ := Option.map_eq_some_iff.mp hc'
  refine ⟨c, hc, ?_, ?_⟩
  · unfold checked
    split
    · split <;> rfl
    · rfl
  · intro hlive
    split at hlive
    · rename_i hp
      obtain ⟨heq, hin⟩ := checked_of_live p timeout clock c hlive
      rw [if_pos hp]
      exact ⟨heq, fun _ => hin⟩
    · rename_i hp
      rw [if_neg hp]
      exact ⟨rfl, fun hmem => absurd hmem hp⟩

theorem counted_wait (v : World) (inp : PassInput) (n : ℕ) (h : Sound w) (hlive : AllLive w)
    (hcount : Counted w) (hv : waitForResponse w inp = some (n, v)) : Counted v := by
  obtain ⟨-, -, hsame⟩ := waitForResponse_sound w v inp n h hlive hv
  constructor
  · intro p c' hc'
    obtain ⟨c, hc, hdom, hserved⟩ := waitForResponse_served w p v inp n h hlive hv c' hc'
    rw [hsame.mails, hdom]
    cases hserved with
    | untouched _ hrecvs => exact hrecvs ▸ hcount.bounded p c hc
    | failed hclive _ _ hrecvs =>
      have hheard := heardOn_le w p h c hc hclive
      rw [hrecvs, hcount.answered p c hc hclive]
      omega
    | answered hclive _ hrecvs =>
      have hheard := heardOn_le w p h c hc hclive
      rw [hrecvs, hcount.answered p c hc hclive]
      omega
  · intro p c' hc' hlive'
    obtain ⟨c, hc, -, hserved⟩ := waitForResponse_served w p v inp n h hlive hv c' hc'
    cases hserved with
    | untouched hconn hrecvs hheard =>
      rw [hrecvs, hheard]
      exact hcount.answered p c hc (hconn ▸ hlive')
    | failed _ hinvalid =>
      rw [hinvalid] at hlive'
      cases hlive'
    | answered hclive _ hrecvs hheard => rw [hrecvs, hheard, hcount.answered p c hc hclive]

theorem counted_sweep (timeout : ℤ) (clock : ℕ → ℤ) (h : Sound w) (hcount : Counted w) :
    Counted (sweep timeout clock w) := by
  have hmails := (sweep_sameSetup timeout clock w h).mails
  constructor
  · intro p c' hc'
    obtain ⟨c, hc, hdom, -⟩ := conn_of_sweep w p timeout clock h c' hc'
    rw [recvsOn_sweep w p timeout clock h, hmails, hdom]
    exact hcount.bounded p c hc
  · intro p c' hc' hlive
    obtain ⟨c, hc, -, hkept⟩ := conn_of_sweep w p timeout clock h c' hc'
    obtain ⟨rfl, -⟩ := hkept hlive
    rw [recvsOn_sweep w p timeout clock h, heardOn_sweep w p timeout clock h]
    exact hcount.answered p c' hc hlive

end Reads

section Passes

variable (timeout : ℤ)

theorem counted_pass (w w' : World) (inp : PassInput) (h : Sound w) (hlive : AllLive w)
    (hcount : Counted w) (hw : connLoopPass timeout w inp = some w') : Counted w' := by
  obtain ⟨n, v, hv, rfl, hsound, -, -⟩ := pass_eq_sweep timeout w w' inp h hlive hw
  exact counted_sweep v timeout inp.clock hsound (counted_wait w v inp n h hlive hcount hv)

theorem counted_run (w w' : World) (inps : List PassInput) (h : Sound w) (hlive : AllLive w)
    (hcount : Counted w) (hw : connLoop timeout w inps = some w') : Counted w' := by
  induction inps generalizing w with
  | nil =>
    obtain rfl := Option.some.inj hw
    exact hcount
  | cons inp inps ih =>
    rw [connLoop] at hw
    split at hw
    · obtain rfl := Option.some.inj hw
      exact hcount
    · obtain ⟨v, hv, hw⟩ := Option.bind_eq_some_iff.mp hw
      obtain ⟨⟨hsound, hlive'⟩, -⟩ := connLoopPass_sound timeout w v inp h hlive hv
      exact ih v hsound hlive' (counted_pass timeout w v inp h hlive hcount hv) hw

/-- The open connections at time t of a transfer whose passes began at time start: each
reply was heard at most one timeout and two passes after the one before it. -/
structure OnTime (d start t : ℤ) (w : World) : Prop where
  last : ∀ p ∈ w.connections, ∀ c, w.conns[p]? = some c →
    c.timeOfLastResponse ≤ start + (heardOn w p).length * (timeout + 2 * d)
  recent : ∀ p ∈ w.connections,
    t ≤ start + (heardOn w p).length * (timeout + 2 * d) + (timeout + d)

theorem onTime_pass (d start t u : ℤ) (w w' : World) (inp : PassInput) (h : Sound w)
    (hlive : AllLive w) (htime : OnTime timeout d start t w) (hlong : u ≤ t + d)
    (hnow : inp.now ≤ u) (hclock : ∀ p, t ≤ inp.clock p)
    (hw : connLoopPass timeout w inp = some w') : OnTime timeout d start u w' := by
  obtain ⟨n, v, hv, rfl, hsound, hopen, hkept⟩ := pass_eq_sweep timeout w w' inp h hlive hw
  have hafter := (sound_sweep timeout inp.clock v hsound).2
  have hlast : ∀ p ∈ w.connections, ∀ c, v.conns[p]? = some c →
      c.timeOfLastResponse ≤ start + (heardOn v p).length * (timeout + 2 * d) := by
    intro p hp c' hc'
    obtain ⟨c, hc, -, hserved⟩ := waitForResponse_served w p v inp n h hlive hv c' hc'
    cases hserved with
    | untouched hconn _ hheard =>
      rw [hconn, hheard]
      exact htime.last p hp c hc
    | failed _ _ hsame _ hheard =>
      rw [hsame, hheard]
      exact htime.last p hp c hc
    | answered _ hnew _ hheard =>
      have hrecent := htime.recent p hp
      rw [hnew, hheard]
      push_cast
      linarith
  have hstays : ∀ p ∈ (sweep timeout inp.clock v).connections, p ∈ w.connections ∧
      ∃ c, v.conns[p]? = some c ∧ (sweep timeout inp.clock v).conns[p]? = some c ∧
        inp.clock p - c.timeOfLastResponse ≤ timeout := by
    intro p hp
    obtain ⟨c', hc'⟩ := (sound_sweep timeout inp.clock v hsound).1.listed p hp
    obtain ⟨c, hc, -, hlived⟩ := conn_of_sweep v p timeout inp.clock hsound c' hc'
    obtain ⟨rfl, hin⟩ := hlived (hafter p hp c' hc')
    rw [hkept] at hp
    have hmem := List.mem_of_mem_filter hp
    exact ⟨hmem, c', hc, hc', hin (hopen ▸ hmem)⟩
  constructor
  · intro p hp c' hc'
    obtain ⟨hmem, c, hc, hc'', -⟩ := hstays p hp
    obtain rfl := Option.some.inj (hc''.symm.trans hc')
    rw [heardOn_sweep v p timeout inp.clock hsound]
    exact hlast p hmem c hc
  · intro p hp
    obtain ⟨hmem, c, hc, -, hin⟩ := hstays p hp
    have hbound := hlast p hmem c hc
    have hread := hclock p
    rw [heardOn_sweep v p timeout inp.clock hsound]
    linarith

/-- A run of passes keeps the open connections in time. -/
theorem onTime_run (d start t b : ℤ) (w w' : World) (inps : List PassInput) (h : Sound w)
    (hlive : AllLive w) (htime : OnTime timeout d start t w) (hpasses : Timed d t inps b)
    (hw : connLoop timeout w inps = some w') :
    w'.connections = [] ∨ OnTime timeout d start b w' := by
  induction hpasses generalizing w with
  | nil t =>
    obtain rfl := Option.some.inj hw
    exact Or.inr htime
  | cons hlong hnow hclock _ ih =>
    rename_i inp inps _
    rw [connLoop] at hw
    split at hw
    · rename_i hnil
      obtain rfl := Option.some.inj hw
      exact Or.inl hnil
    · obtain ⟨v, hv, hw⟩ := Option.bind_eq_some_iff.mp hw
      obtain ⟨⟨hsound, hlive'⟩, -⟩ := connLoopPass_sound timeout w v inp h hlive hv
      have hnext := onTime_pass timeout d start _ _ w v inp h hlive htime hlong hnow.2
        (fun p => (hclock p).1) hv
      exact ih v hsound hlive' hnext hw

end Passes

section Setup

theorem newConn_time (mails : List Mail) (dom : Domain) (sock time : ℤ) (c : MxConn)
    (h : newConn mails dom sock time = some c) : c.timeOfLastResponse = time := by
  obtain ⟨i, -, h⟩ := Option.bind_eq_some_iff.mp h
  obtain ⟨m, -, h⟩ := Option.bind_eq_some_iff.mp h
  obtain ⟨j, -, h⟩ := Option.bind_eq_some_iff.mp h
  obtain rfl := Option.some.inj h
  rfl

/-- The clock of every connection is first set when it is created. -/
theorem openConnections_time (net : Net) (w w' : World) (ds : List Domain) (start : ℤ)
    (hstart : ∀ name, net.time name ≤ start) (hw : ∀ c ∈ w.conns, c.timeOfLastResponse ≤ start)
    (h : openConnections net w ds = some w') : ∀ c ∈ w'.conns, c.timeOfLastResponse ≤ start := by
  induction ds generalizing w with
  | nil =>
    obtain rfl := Option.some.inj h
    exact hw
  | cons d ds ih =>
    obtain ⟨o, ho, h⟩ := Option.bind_eq_some_iff.mp h
    cases o with
    | none => exact ih w hw h
    | some c =>
      refine ih (w.insertConn c) ?_ h
      intro a ha
      rcases List.mem_append.mp ha with ha | ha
      · exact hw a ha
      · obtain rfl := List.mem_singleton.mp ha
        unfold createConnection at ho
        split at ho
        · cases Option.some.inj ho
        · obtain ⟨b, hb, hab⟩ := Option.map_eq_some_iff.mp ho
          obtain rfl := Option.some.inj hab
          rw [newConn_time w.mails d _ _ b hb]
          exact hstart d.name

end Setup

section Transfer

variable (myDomain : Bytes) (net : Net) (mails : List Mail) (timeout : ℤ)
  (inps : List PassInput) (w : World)

/-- The calls of recv in a transfer are bounded by the scripts: one for each round of a
connection and one more, however many passes there are and whatever poll reports. -/
theorem recvs_bounded (h : transfer myDomain net mails timeout inps = some w) (p : ℕ)
    (c : MxConn) (hc : w.conns[p]? = some c) :
    recvsOn w p ≤ (sessionScript mails c.dom).length + 1 := by
  obtain ⟨w₀, hinit, hopened, hmails, -⟩ := connInit_spec myDomain net mails
  obtain ⟨hsound, hlive⟩ := opened_sound w₀ hopened
  have hnone : ∀ q, recvsOn w₀ q = 0 := by
    intro q
    unfold recvsOn
    rw [hopened.trace]
    rfl
  have hcount : Counted w₀ := by
    constructor
    · intro q a _
      rw [hnone]
      exact Nat.zero_le _
    · intro q a _ _
      rw [hnone, heardOn, hopened.trace]
      rfl
  obtain ⟨-, hmails', -⟩ := transfer_sound myDomain net mails timeout inps w h
  unfold transfer at h
  rw [hinit] at h
  have hbound := (counted_run timeout w₀ w inps hsound hlive hcount h).bounded p c hc
  rwa [hmails'] at hbound

/-- A connection that is open after some time has been answered in time again and again:
the time since the passes began is bounded by the replies it has heard, and so by the
length of its script. No server keeps a transfer going for longer. -/
theorem open_deadline (d start b : ℤ)
    (h : transfer myDomain net mails timeout inps = some w) (htimeout : 0 ≤ timeout)
    (hd : 0 ≤ d) (hstart : ∀ name, net.time name ≤ start) (hpasses : Timed d start inps b)
    (p : ℕ) (hp : p ∈ w.connections) (c : MxConn) (hc : w.conns[p]? = some c) :
    b ≤ start + (heardOn w p).length * (timeout + 2 * d) + (timeout + d) ∧
      b ≤ start + (sessionScript mails c.dom).length * (timeout + 2 * d) + (timeout + d) := by
  obtain ⟨w₀, hinit, hopened, hmails, -⟩ := connInit_spec myDomain net mails
  obtain ⟨hsound, hlive⟩ := opened_sound w₀ hopened
  obtain ⟨⟨hend, halive⟩, rfl, -⟩ := transfer_sound myDomain net mails timeout inps w h
  have hopen : OnTime timeout d start start w₀ := by
    have hnone : ∀ q, heardOn w₀ q = [] := by
      intro q
      rw [heardOn, hopened.trace]
      rfl
    have hcreated := openConnections_time net _ w₀ _ start hstart
      (fun a ha => absurd ha List.not_mem_nil) hinit
    constructor
    · intro q _ a ha
      have htime := hcreated a (List.mem_of_getElem? ha)
      simpa [hnone] using htime
    · intro q _
      rw [hnone]
      simp
      omega
  unfold transfer at h
  rw [hinit] at h
  rcases onTime_run timeout d start start b w₀ w inps hsound hlive hopen hpasses h with
    hnil | htime
  · rw [hnil] at hp
    exact absurd hp List.not_mem_nil
  · have hrecent := htime.recent p hp
    have hheard := heardOn_le w p hend c hc (halive p hp c hc)
    have hscript : ((heardOn w p).length : ℤ) * (timeout + 2 * d) ≤
        (sessionScript w.mails c.dom).length * (timeout + 2 * d) := by
      apply mul_le_mul_of_nonneg_right (Int.ofNat_le.mpr hheard)
      omega
    exact ⟨hrecent, by omega⟩

end Transfer

section Example

theorem transfer_greeted :
    (transfer (bytes "b") (netReaching fun _ => some 4) [mailToD] 60 [replyInput chunk220]).map
      (fun w => (w.connections, w.conns.map fun c => (c.state, c.dom))) =
    some ([0], [(.helo, ⟨bytes "d"⟩)]) := by
  decide

theorem recvs_bounded_greeted :
    ∃ w, transfer (bytes "b") (netReaching fun _ => some 4) [mailToD] 60 [replyInput chunk220] =
        some w ∧ recvsOn w 0 ≤ 7 := by
  obtain ⟨w, hw, hobs⟩ := Option.map_eq_some_iff.mp transfer_greeted
  obtain ⟨-, hconns⟩ := Prod.mk.inj hobs
  obtain ⟨c, rest, hcs, hc, -⟩ := List.map_eq_cons_iff.mp hconns
  obtain ⟨-, hdom⟩ := Prod.mk.inj hc
  have hbound := recvs_bounded _ _ _ _ _ w hw 0 c (by rw [hcs]; rfl)
  rw [hdom] at hbound
  exact ⟨w, hw, hbound⟩

theorem open_deadline_greeted :
    ∃ w, transfer (bytes "b") (netReaching fun _ => some 4) [mailToD] 60 [replyInput chunk220] =
        some w ∧ (5 : ℤ) ≤ 0 + (heardOn w 0).length * (60 + 2 * 5) + (60 + 5) := by
  obtain ⟨w, hw, hobs⟩ := Option.map_eq_some_iff.mp transfer_greeted
  obtain ⟨hopen, hconns⟩ := Prod.mk.inj hobs
  obtain ⟨c, rest, hcs, -⟩ := List.map_eq_cons_iff.mp hconns
  have htimed : Timed 5 0 [replyInput chunk220] 5 := by
    refine .cons (u := 5) (by decide) ⟨by decide, by decide⟩ ?_ (.nil 5)
    intro p
    exact ⟨le_refl 0, Int.zero_le_ofNat 5⟩
  obtain ⟨hbound, -⟩ := open_deadline _ _ _ _ _ w 5 0 5 hw (by decide) (by decide)
    (fun _ => le_refl 0) htimed 0 (by rw [hopen]; decide) c (by rw [hcs]; rfl)
  exact ⟨w, hw, hbound⟩

end Example

end SmtpClient.Deadlines
