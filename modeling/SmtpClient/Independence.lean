import SmtpClient.Isolation
import SmtpClient.Interleavings
import SmtpClient.Setup

/-!
Connections do not interfere. Delivering buffers to the connections of a
transfer in any order runs each session on its own buffers, so the outcome
depends on the buffers of each connection only. The flags are the union of the
flags that the sessions set.
-/
namespace SmtpClient.Independence

open MailTypes SendCommands Dialogues SessionScript Transcript MxLookup Connections
open EventLoop Passes TransferInvariant Setup Isolation Runs Interleavings

/-- A reply buffer for one connection, and the clock when it is parsed. -/
structure Delivery where
  conn : ℕ
  buf : Bytes
  now : ℤ

/-- Deliver a buffer through parse_response unless the connection is over. -/
def deliver (w : World) (x : Delivery) : Option World :=
  match w.conns[x.conn]? with
  | none => none
  | some c => if c.state.terminal then some w else parseResponse w x.conn x.buf x.now

def deliverAll (w : World) (σ : List Delivery) : Option World := run deliver w σ

/-- The buffers of one connection, in order. -/
def buffersFor (σ : List Delivery) (p : ℕ) : List Bytes :=
  project (σ.map fun x => (x.conn, x.buf)) p

/-- A buffer delivered to a session on its own. -/
def hearBuf (mails : List Mail) : Session → Bytes → Option Session :=
  restIn (fun s => s.conn.state.terminal) fun s buf => advance mails s (replyEvent buf)

theorem run_hearBuf (mails : List Mail) (s : Session) (bufs : List Bytes) :
    run (hearBuf mails) s bufs = feed mails s (bufs.map replyEvent) := by
  unfold feed run
  rw [List.foldlM_map]
  rfl

/-- A transfer is made up of sessions that run on their own. -/
structure Composed (w : World) (s : ℕ → Session) : Prop where
  conns : ∀ p c, w.conns[p]? = some c → (s p).conn = { c with timeOfLastResponse := 0 }
  sent : ∀ p, sentOn w p = (s p).sent
  flags : ∀ i, w.wasSent i = true ↔ ∃ p, (s p).wasSent i = true

/-- The sessions of a transfer that has just been set up. -/
def freshSessions (w : World) (p : ℕ) : Session :=
  alone (((w.conns[p]?).map fun c => { c with timeOfLastResponse := 0 }).getD
    ⟨0, .invalid, none, none, ⟨[]⟩, 0⟩)

theorem composed_fresh (w : World) (h : Opened w) : Composed w (freshSessions w) := by
  refine ⟨?_, ?_, ?_⟩
  · intro p c hc
    unfold freshSessions
    rw [hc]
    rfl
  · intro p
    unfold sentOn
    rw [h.trace]
    rfl
  · intro i
    rw [h.wasSent i]
    constructor
    · intro hfalse
      cases hfalse
    · intro hflag
      obtain ⟨p, hp⟩ := hflag
      cases hp

/-- The session of connection p seen from the one that ran on its own. -/
theorem composed_session (w : World) (s : ℕ → Session) (h : Composed w s) (p : ℕ) (c : MxConn)
    (hc : w.conns[p]? = some c) :
    s p = atTime 0 (behind (s p).wasSent (s p).sent (alone c)) := by
  have hconn := h.conns p c hc
  generalize s p = t at hconn ⊢
  obtain ⟨conn, wasSent, sent⟩ := t
  subst hconn
  simp [atTime, behind, alone]

theorem sentOn_merge (w : World) (p q : ℕ) (now : ℤ) (a : Session) :
    sentOn (merge w p now a) q = sentOn w q ++ if p = q then a.sent else [] := by
  unfold sentOn
  change saidOf (turnsOf (w.trace ++ a.sent.map (Act.send p)) q) = _
  rw [turnsOf_append, turnsOf_sends, saidOf_append]
  split <;> simp

/-- Replacing one session by one that has set further marks adds these marks. -/
theorem exists_wasSent_update (s : ℕ → Session) (p i : ℕ) (t : Session) (b : Bool)
    (ht : t.wasSent i = ((s p).wasSent i || b)) :
    (∃ q, (Function.update s p t q).wasSent i = true) ↔
      (∃ q, (s q).wasSent i = true) ∨ b = true := by
  constructor
  · intro hflag
    obtain ⟨q, hq⟩ := hflag
    by_cases hqp : q = p
    · subst hqp
      rw [Function.update_self, ht, Bool.or_eq_true] at hq
      rcases hq with hq | hq
      · exact Or.inl ⟨q, hq⟩
      · exact Or.inr hq
    · rw [Function.update_of_ne hqp] at hq
      exact Or.inl ⟨q, hq⟩
  · intro hflag
    rcases hflag with ⟨q, hq⟩ | hflag
    · by_cases hqp : q = p
      · subst hqp
        refine ⟨q, ?_⟩
        rw [Function.update_self, ht, hq, Bool.true_or]
      · refine ⟨q, ?_⟩
        rw [Function.update_of_ne hqp]
        exact hq
    · refine ⟨p, ?_⟩
      rw [Function.update_self, ht, hflag, Bool.or_true]

/-- One delivery is one step of the session it goes to. -/
theorem composed_step (w : World) (s s' : ℕ → Session) (x : Delivery) (c : MxConn)
    (h : Composed w s) (hc : w.conns[x.conn]? = some c)
    (hs : stepAt (hearBuf w.mails) s (x.conn, x.buf) = some s') :
    ∃ w', deliver w x = some w' ∧ Composed w' s' ∧ w'.mails = w.mails ∧
      w'.conns.length = w.conns.length := by
  obtain ⟨p, buf, now⟩ := x
  obtain ⟨t, ht, rfl⟩ := Option.map_eq_some_iff.mp hs
  have hstate : (s p).conn.state = c.state := by rw [h.conns p c hc]
  unfold deliver
  simp only [hc]
  simp only [hearBuf, restIn, hstate] at ht
  by_cases hterm : c.state.terminal = true
  · rw [if_pos hterm] at ht ⊢
    obtain rfl := Option.some.inj ht
    rw [Function.update_eq_self]
    exact ⟨w, rfl, h, rfl, rfl⟩
  · rw [if_neg hterm] at ht ⊢
    rw [composed_session w s h p c hc, advance_neutral w.mails (neutral_atTime 0),
      advance_neutral w.mails (neutral_behind _ _), Option.map_map] at ht
    obtain ⟨a, ha, rfl⟩ := Option.map_eq_some_iff.mp ht
    refine ⟨merge w p now a, ?_, ⟨?_, ?_, ?_⟩, rfl, List.length_set⟩
    · rw [parseResponse_eq_merge w p buf now c hc, ha]
      rfl
    · intro q e he
      by_cases hq : q = p
      · subst hq
        have hself : (merge w q now a).conns[q]? =
            some { a.conn with timeOfLastResponse := now } :=
          List.getElem?_set_self (List.getElem?_eq_some_iff.mp hc).1
        obtain rfl := Option.some.inj (hself.symm.trans he)
        rw [Function.update_self]
        rfl
      · rw [Function.update_of_ne hq]
        exact h.conns q e ((List.getElem?_set_ne (Ne.symm hq)).symm.trans he)
    · intro q
      rw [sentOn_merge, h.sent q]
      by_cases hq : q = p
      · subst hq
        rw [Function.update_self, if_pos rfl]
        rfl
      · rw [Function.update_of_ne hq, if_neg (Ne.symm hq), List.append_nil]
    · intro i
      change (w.wasSent i || a.wasSent i) = true ↔ _
      rw [Bool.or_eq_true, h.flags i]
      exact (exists_wasSent_update s p i _ (a.wasSent i) rfl).symm

/-- Deliveries to a transfer follow the system of its sessions. -/
theorem composed_run (w : World) (s s' : ℕ → Session) (σ : List Delivery) (h : Composed w s)
    (hσ : ∀ x ∈ σ, x.conn < w.conns.length)
    (hs : run (stepAt (hearBuf w.mails)) s (σ.map fun x => (x.conn, x.buf)) = some s') :
    ∃ w', deliverAll w σ = some w' ∧ Composed w' s' ∧ w'.mails = w.mails ∧
      w'.conns.length = w.conns.length := by
  induction σ generalizing w s with
  | nil =>
    obtain rfl := Option.some.inj hs
    exact ⟨w, rfl, h, rfl, rfl⟩
  | cons x σ ih =>
    rw [List.map_cons, run_cons] at hs
    obtain ⟨t, ht, hs⟩ := Option.bind_eq_some_iff.mp hs
    have hc := List.getElem?_eq_getElem (hσ x List.mem_cons_self)
    obtain ⟨v, hv, hcomp, hmails, hlen⟩ := composed_step w s t x _ h hc ht
    have hrest : ∀ y ∈ σ, y.conn < v.conns.length := by
      intro y hy
      rw [hlen]
      exact hσ y (List.mem_cons_of_mem x hy)
    rw [← hmails] at hs
    obtain ⟨w', hw', hcomp', hmails', hlen'⟩ := ih v t hcomp hrest hs
    refine ⟨w', ?_, hcomp', hmails'.trans hmails, hlen'.trans hlen⟩
    unfold deliverAll
    rw [run_cons, hv]
    exact hw'

/-- A session that conn_init has set up runs without a fault. -/
theorem freshSessions_run (w : World) (h : Opened w) (p : ℕ) (bufs : List Bytes) :
    ∃ t, run (hearBuf w.mails) (freshSessions w p) bufs = some t ∧
      ∃ φ, Tracks w.mails t.conn φ := by
  have hstart : ∃ φ, Tracks w.mails (freshSessions w p).conn φ := by
    cases hc : w.conns[p]? with
    | none =>
      refine ⟨.aborted, ?_⟩
      unfold freshSessions
      rw [hc]
      exact .invalid rfl
    | some c =>
      refine ⟨.live (sessionScript w.mails c.dom), ?_⟩
      unfold freshSessions
      rw [hc]
      exact Tracks.at_time (h.fresh p c hc).2 0
  obtain ⟨φ, hφ⟩ := hstart
  have hreply : ∀ evt ∈ bufs.map replyEvent, evt.isReply = true := by
    intro evt hevt
    obtain ⟨buf, -, rfl⟩ := List.mem_map.mp hevt
    exact replyEvent_isReply buf
  obtain ⟨t, ht, htracks, -⟩ := feed_refines w.mails _ φ _ hφ hreply
  rw [run_hearBuf]
  exact ⟨t, ht, _, htracks⟩

/-- Deliveries to a transfer that was just set up, as runs of its sessions. -/
theorem deliverAll_composed (w : World) (h : Opened w) (σ : List Delivery)
    (hσ : ∀ x ∈ σ, x.conn < w.conns.length) :
    ∃ w' s', deliverAll w σ = some w' ∧ Composed w' s' ∧ w'.mails = w.mails ∧
      w'.conns.length = w.conns.length ∧
      (∀ p, run (hearBuf w.mails) (freshSessions w p) (buffersFor σ p) = some (s' p)) ∧
      ∀ (p : ℕ) (c : MxConn), w'.conns[p]? = some c → ∃ φ, Tracks w'.mails c φ := by
  have htotal : ∀ p, ∃ t, run (hearBuf w.mails) (freshSessions w p)
      (project (σ.map fun x => (x.conn, x.buf)) p) = some t := by
    intro p
    obtain ⟨t, ht, -⟩ := freshSessions_run w h p (buffersFor σ p)
    exact ⟨t, ht⟩
  obtain ⟨s', hs'⟩ := run_stepAt_total (hearBuf w.mails) (freshSessions w) _ htotal
  obtain ⟨w', hw', hcomp, hmails, hlen⟩ :=
    composed_run w (freshSessions w) s' σ (composed_fresh w h) hσ hs'
  have hruns := (run_stepAt_iff (hearBuf w.mails) (freshSessions w) _ s').mp hs'
  refine ⟨w', s', hw', hcomp, hmails, hlen, hruns, ?_⟩
  intro p c hc
  obtain ⟨t, ht, φ, hφ⟩ := freshSessions_run w h p (buffersFor σ p)
  obtain rfl := Option.some.inj (ht.symm.trans (hruns p))
  rw [hcomp.conns p c hc] at hφ
  rw [hmails]
  exact ⟨φ, Tracks.at_time hφ c.timeOfLastResponse⟩

/-- A live connection answers every buffer. -/
theorem advance_alone_total (mails : List Mail) (c : MxConn) (φ : SessionPhase) (buf : Bytes)
    (h : Tracks mails c φ) (hlive : c.state.terminal = false) :
    ∃ s, advance mails (alone c) (replyEvent buf) = some s := by
  cases φ with
  | live rest =>
    obtain ⟨st, s, hstep, -⟩ :=
      step_refines (alone c) rest (replyEvent buf) h (replyEvent_isReply buf)
    refine ⟨s.setState st, ?_⟩
    unfold advance
    rw [hstep]
    rfl
  | finished =>
    have hterm := h.terminal_iff.mpr (Or.inl rfl)
    exact absurd (hlive.symm.trans hterm) Bool.false_ne_true
  | aborted =>
    have hterm := h.terminal_iff.mpr (Or.inr rfl)
    exact absurd (hlive.symm.trans hterm) Bool.false_ne_true

/-- The state and the two cursors of a connection. -/
def cursors (w : World) (p : ℕ) : Option (FsmState × Option ℕ × Option (ℕ × ℕ)) :=
  (w.conns[p]?).map fun c => (c.state, c.m, c.r)

/-- Two transfers made up of the same sessions agree but for their clocks. -/
theorem composed_agree (v w : World) (s : ℕ → Session) (hv : Composed v s) (hw : Composed w s)
    (hlen : v.conns.length = w.conns.length) :
    (∀ p, cursors v p = cursors w p) ∧ (∀ p, sentOn v p = sentOn w p) ∧ v.wasSent = w.wasSent := by
  refine ⟨?_, ?_, ?_⟩
  · intro p
    unfold cursors
    by_cases hp : p < v.conns.length
    · have hv' := List.getElem?_eq_getElem hp
      have hw' := List.getElem?_eq_getElem (hlen ▸ hp)
      have heq := (hv.conns p _ hv').symm.trans (hw.conns p _ hw')
      rw [hv', hw']
      simp only [MxConn.mk.injEq] at heq
      simp [heq]
    · rw [List.getElem?_eq_none (Nat.le_of_not_lt hp),
        List.getElem?_eq_none (Nat.le_of_not_lt (hlen ▸ hp))]
  · intro p
    rw [hv.sent p, hw.sent p]
  · funext i
    exact Bool.eq_iff_iff.mpr ((hv.flags i).trans (hw.flags i).symm)

/-- The order in which replies arrive on different connections does not matter,
and parse_response steps on two different live connections commute. -/
theorem interleavings_agree (myDomain : Bytes) (net : Net) (mails : List Mail) (w : World)
    (σ τ : List Delivery) (hinit : connInit myDomain net mails = some w)
    (hσ : ∀ x ∈ σ, x.conn < w.conns.length)
    (hsame : ∀ p, buffersFor σ p = buffersFor τ p) :
    ∃ a b, deliverAll w σ = some a ∧ deliverAll w τ = some b ∧
      (∀ p, cursors a p = cursors b p) ∧ (∀ p, sentOn a p = sentOn b p) ∧
      a.wasSent = b.wasSent ∧
      ∀ (p q : ℕ) (c e : MxConn), p ≠ q → a.conns[p]? = some c → a.conns[q]? = some e →
        c.state.terminal = false → e.state.terminal = false →
        ∀ (x y : Bytes) (now later : ℤ), ∃ u v,
          (parseResponse a p x now).bind (fun w => parseResponse w q y later) = some u ∧
          (parseResponse a q y later).bind (fun w => parseResponse w p x now) = some v ∧
          SameTransfer u v := by
  have hopened := connInit_opened myDomain net mails w hinit
  have hτ : ∀ x ∈ τ, x.conn < w.conns.length := by
    intro x hx
    have hne : buffersFor τ x.conn ≠ [] :=
      (project_ne_nil_iff _ x.conn).mpr ⟨x.buf, List.mem_map.mpr ⟨x, hx, rfl⟩⟩
    rw [← hsame] at hne
    obtain ⟨buf, hbuf⟩ := (project_ne_nil_iff _ x.conn).mp hne
    obtain ⟨y, hy, hxy⟩ := List.mem_map.mp hbuf
    rw [← (Prod.mk.inj hxy).1]
    exact hσ y hy
  obtain ⟨a, s, ha, hcomp, hmails, hlen, hruns, htracks⟩ := deliverAll_composed w hopened σ hσ
  obtain ⟨b, t, hb, hcomp', -, hlen', hruns', -⟩ := deliverAll_composed w hopened τ hτ
  have hst : s = t := by
    funext p
    have hp := hruns p
    rw [hsame p, hruns' p] at hp
    exact (Option.some.inj hp).symm
  subst hst
  obtain ⟨hcursors, hsent, hflags⟩ := composed_agree a b s hcomp hcomp' (hlen.trans hlen'.symm)
  refine ⟨a, b, ha, hb, hcursors, hsent, hflags, ?_⟩
  intro p q c e hne hc he hlive hlive' x y now later
  obtain ⟨φ, hφ⟩ := htracks p c hc
  obtain ⟨ψ, hψ⟩ := htracks q e he
  obtain ⟨u, hu⟩ := advance_alone_total a.mails c φ x hφ hlive
  obtain ⟨v, hv⟩ := advance_alone_total a.mails e ψ y hψ hlive'
  have hother : (merge a p now u).conns[q]? = some e := (List.getElem?_set_ne hne).trans he
  have hboth : (parseResponse a p x now).bind (fun w => parseResponse w q y later) =
      some (merge (merge a p now u) q later v) := by
    rw [parseResponse_eq_merge a p x now c hc, hu, Option.map_some, Option.bind_some,
      parseResponse_eq_merge _ q y later e hother]
    change (advance a.mails (alone e) (replyEvent y)).map _ = _
    rw [hv]
    rfl
  obtain ⟨z, hz, hagree⟩ := parseResponse_comm a _ p q x y now later hne hboth
  exact ⟨_, z, hboth, hz, hagree⟩

/-- Two interleavings of the first replies of two servers. -/
theorem interleavings_agree_two_servers :
    ∃ w a b, connInit (bytes "b") (netReaching fun d => if d = bytes "d" then some 4 else some 5)
        [⟨bytes "MAIL FROM: <a@b>\r\n", [⟨bytes "c@d", bytes "d"⟩, ⟨bytes "c@e", bytes "e"⟩],
          bytes ".\r\n", bytes "1"⟩] = some w ∧
      deliverAll w [⟨0, bytes "220\r\n", 1⟩, ⟨1, bytes "220\r\n", 2⟩] = some a ∧
      deliverAll w [⟨1, bytes "220\r\n", 3⟩, ⟨0, bytes "220\r\n", 4⟩] = some b ∧
      ∀ p, sentOn a p = sentOn b p := by
  have hrun : (connInit (bytes "b") (netReaching fun d => if d = bytes "d" then some 4 else some 5)
      [⟨bytes "MAIL FROM: <a@b>\r\n", [⟨bytes "c@d", bytes "d"⟩, ⟨bytes "c@e", bytes "e"⟩],
        bytes ".\r\n", bytes "1"⟩]).map (fun w => w.conns.length) = some 2 := by
    decide
  obtain ⟨w, hw, hlen⟩ := Option.map_eq_some_iff.mp hrun
  obtain ⟨a, b, ha, hb, -, hsent, -⟩ := interleavings_agree _ _ _ w
    [⟨0, bytes "220\r\n", 1⟩, ⟨1, bytes "220\r\n", 2⟩]
    [⟨1, bytes "220\r\n", 3⟩, ⟨0, bytes "220\r\n", 4⟩] hw
    (by rw [hlen]; decide) (by
      intro p
      by_cases h0 : p = 0
      · subst h0
        rfl
      · by_cases h1 : p = 1
        · subst h1
          rfl
        · simp [buffersFor, project, Ne.symm h0, Ne.symm h1])
  exact ⟨w, a, b, hw, ha, hb, hsent⟩

end SmtpClient.Independence
