import SmtpClient.Passes
import SmtpClient.ScriptOrder

/-!
The invariant of a transfer. The turns of every connection conform to the
script of its domain, its cursors stand for the rest of the script, and the
was_sent flags say which texts some server has acknowledged. Every pass keeps
the invariant and leaves only live connections open.
-/
namespace SmtpClient.TransferInvariant

open MailTypes Queues SendCommands Dialogues SessionScript Transcript MxLookup Connections
open EventLoop Passes Runs ScriptOrder

/-- The text of mail i was said and answered with 250. -/
def Accepted (t : List (Turn FsmEvent Sent)) (i : ℕ) : Prop :=
  ∃ before, before ++ [.heard .r250] <+: t ∧ lastText before = some i

theorem accepted_said (t : List (Turn FsmEvent Sent)) (cs : List Sent) (i : ℕ) :
    Accepted (t ++ cs.map .said) i ↔ Accepted t i := by
  induction cs using List.reverseRecOn with
  | nil => simp
  | append_singleton cs c ih =>
    rw [← ih, List.map_append, List.map_singleton, ← List.append_assoc]
    unfold Accepted
    simp only [List.prefix_concat_iff]
    constructor
    · intro h
      obtain ⟨before, hpre | hpre, htext⟩ := h
      · have hlast := congrArg List.getLast? hpre
        simp at hlast
      · exact ⟨before, hpre, htext⟩
    · intro h
      obtain ⟨before, hpre, htext⟩ := h
      exact ⟨before, Or.inr hpre, htext⟩

/-- A reply acknowledges the text that was said last. -/
theorem accepted_answer (t : List (Turn FsmEvent Sent)) (evt : FsmEvent) (cs : List Sent)
    (i : ℕ) :
    Accepted (t ++ .heard evt :: cs.map .said) i ↔
      Accepted t i ∨ (evt = .r250 ∧ lastText t = some i) := by
  have happ : t ++ .heard evt :: cs.map .said = (t ++ [.heard evt]) ++ cs.map .said := by simp
  rw [happ, accepted_said]
  unfold Accepted
  simp only [List.prefix_concat_iff]
  constructor
  · intro h
    obtain ⟨before, hpre | hpre, htext⟩ := h
    · obtain ⟨rfl, heq⟩ := List.append_inj' hpre rfl
      have hevt : evt = .r250 := by simpa using heq.symm
      exact Or.inr ⟨hevt, htext⟩
    · exact Or.inl ⟨before, hpre, htext⟩
  · intro h
    rcases h with ⟨before, hpre, htext⟩ | ⟨hevt, htext⟩
    · exact ⟨before, Or.inr hpre, htext⟩
    · exact ⟨t, Or.inl (by rw [hevt]), htext⟩

/-- What holds of one connection and its turns. -/
structure SoundConn (mails : List Mail) (c : MxConn) (t : List (Turn FsmEvent Sent)) : Prop where
  script : ∃ φ, Tracks mails c φ ∧ Conforms .r221 (sessionScript mails c.dom) t φ
  texts : c.state.terminal = false → lastText t = unacknowledged c

variable {mails : List Mail} {c : MxConn} {t : List (Turn FsmEvent Sent)}

theorem Tracks.at_time {φ : SessionPhase} (h : Tracks mails c φ) (now : ℤ) :
    Tracks mails { c with timeOfLastResponse := now } φ := by
  cases h with
  | init hs hm hr hx => exact .init hs ⟨hm.cursor, hm.queued, hm.wanted⟩ hr hx
  | helo hs hm hr hx => exact .helo hs ⟨hm.cursor, hm.queued, hm.wanted⟩ hr hx
  | mailfrom hs hm hr hx => exact .mailfrom hs ⟨hm.cursor, hm.queued, hm.wanted⟩ hr hx
  | rcptto hs hm hr => exact .rcptto hs ⟨hm.cursor, hm.queued, hm.wanted⟩ hr
  | data hs hm => exact .data hs ⟨hm.cursor, hm.queued, hm.wanted⟩
  | datastr hs hm => exact .datastr hs ⟨hm.cursor, hm.queued, hm.wanted⟩
  | quit hs => exact .quit hs
  | done hs => exact .done hs
  | invalid hs => exact .invalid hs

theorem SoundConn.at_time (h : SoundConn mails c t) (now : ℤ) :
    SoundConn mails { c with timeOfLastResponse := now } t := by
  obtain ⟨φ, htracks, hconf⟩ := h.script
  exact ⟨⟨φ, Tracks.at_time htracks now, hconf⟩, h.texts⟩

theorem SoundConn.invalidate (h : SoundConn mails c t) :
    SoundConn mails { c with state := .invalid } t := by
  obtain ⟨φ, -, hconf⟩ := h.script
  refine ⟨⟨.aborted, .invalid rfl, conforms_abort _ _ t φ hconf⟩, ?_⟩
  intro hlive
  cases hlive

/-- A live connection answers a reply without a fault and stays sound. Nothing
is sent in an answer that ends the session. -/
theorem SoundConn.answer (s : Session) (evt : FsmEvent) (h : SoundConn mails s.conn t)
    (hlive : s.conn.state.terminal = false) (hevt : evt.isReply = true) :
    ∃ s' cs, advance mails s evt = some s' ∧ s'.sent = s.sent ++ cs ∧
      s'.wasSent = mark s.wasSent (acknowledged s.conn evt) ∧
      s'.conn.dom = s.conn.dom ∧ s'.conn.sock = s.conn.sock ∧
      s'.conn.timeOfLastResponse = s.conn.timeOfLastResponse ∧
      (s'.conn.state.terminal = true → cs = []) ∧
      SoundConn mails s'.conn (t ++ .heard evt :: cs.map .said) := by
  obtain ⟨φ, htracks, hconf⟩ := h.script
  cases φ with
  | live rest =>
    obtain ⟨st, s', hstep, hout⟩ := step_refines s rest evt htracks hevt
    have hdom : s'.conn.dom = s.conn.dom := by rw [hout.same]
    refine ⟨s'.setState st, _, ?_, hout.sent, hout.marks, hdom, ?_, ?_, ?_, ?_, ?_⟩
    · unfold advance
      rw [hstep]
      rfl
    · change s'.conn.sock = _
      rw [hout.same]
    · change s'.conn.timeOfLastResponse = _
      rw [hout.same]
    · intro hterm
      exact hear_over_says_nothing _ evt rest (hout.tracks.terminal_iff.mp hterm)
    · refine ⟨_, hout.tracks, ?_⟩
      change Conforms .r221 (sessionScript mails s'.conn.dom) _ _
      rw [hdom]
      exact conforms_hear _ evt _ rest t hconf
    · intro _
      rw [← hout.texts]
      unfold lastText
      rw [List.getLast?_append_of_ne_nil _ (List.cons_ne_nil _ _)]
  | finished =>
    have hterm := htracks.terminal_iff.mpr (Or.inl rfl)
    rw [hlive] at hterm
    cases hterm
  | aborted =>
    have hterm := htracks.terminal_iff.mpr (Or.inr rfl)
    rw [hlive] at hterm
    cases hterm

/-- The invariant of a transfer. -/
structure Sound (w : World) : Prop where
  nodup : w.connections.Nodup
  listed : ∀ p ∈ w.connections, ∃ c, w.conns[p]? = some c
  closed : ∀ p c, w.conns[p]? = some c → p ∉ w.connections → c.state.terminal = true
  conns : ∀ p c, w.conns[p]? = some c → SoundConn w.mails c (turnsOf w.trace p)
  silent : ∀ p, w.conns[p]? = none → turnsOf w.trace p = []
  marks : ∀ i, w.wasSent i = true ↔ ∃ p, Accepted (turnsOf w.trace p) i

theorem sentOn_prefix (w : World) (h : Sound w) (p : ℕ) (c : MxConn)
    (hc : w.conns[p]? = some c) : sentOn w p <+: scriptCommands w.mails c.dom := by
  obtain ⟨φ, -, hconf⟩ := (h.conns p c hc).script
  exact hconf.saidOf_prefix

/-- What was sent was sent on a connection, whose script has it. -/
theorem mem_sentOn (w : World) (h : Sound w) (p : ℕ) (x : Sent) (hx : x ∈ sentOn w p) :
    ∃ c, w.conns[p]? = some c ∧ x ∈ scriptCommands w.mails c.dom := by
  cases hc : w.conns[p]? with
  | none =>
    unfold sentOn at hx
    rw [h.silent p hc] at hx
    exact absurd hx List.not_mem_nil
  | some c =>
    have hpre := sentOn_prefix w h p c hc
    exact ⟨c, rfl, hpre.subset hx⟩

/-- No open connection is finished or failed. -/
def AllLive (w : World) : Prop :=
  ∀ p ∈ w.connections, ∀ c, w.conns[p]? = some c → c.state.terminal = false

theorem turnsOf_recv_failed (p q : ℕ) (r : RecvResult) (h : ∀ chunk, r ≠ .data chunk) :
    turnsOf [.recv q r] p = [] := by
  cases r with
  | error => rfl
  | disconnected => rfl
  | data chunk => exact absurd rfl (h chunk)

theorem turnsOf_recv_data (p q : ℕ) (chunk : Chunk) :
    turnsOf [.recv q (.data chunk)] p =
      if q = p then [.heard (replyEvent chunk.buf)] else [] := by
  unfold turnsOf
  rw [List.filterMap_cons, turnOf]
  split
  · rename_i hne
    split
    · rename_i hq
      rw [if_pos hq] at hne
      cases hne
    · rfl
  · rename_i x hx
    split
    · rename_i hq
      rw [if_pos hq] at hx
      obtain rfl := Option.some.inj hx
      rfl
    · rename_i hq
      rw [if_neg hq] at hx
      cases hx

/-- The invariant survives a change of one open connection that keeps it sound. -/
theorem sound_update (w w' : World) (p : ℕ) (c c' : MxConn) (h : Sound w)
    (hp : p ∈ w.connections) (hc : w.conns[p]? = some c) (hmails : w'.mails = w.mails)
    (hopen : w'.connections = w.connections) (hconns : w'.conns = w.conns.set p c')
    (hturns : ∀ q, q ≠ p → turnsOf w'.trace q = turnsOf w.trace q)
    (hsound : SoundConn w.mails c' (turnsOf w'.trace p))
    (hmarks : ∀ i, w'.wasSent i = true ↔ ∃ q, Accepted (turnsOf w'.trace q) i) :
    Sound w' := by
  have hlt : p < w.conns.length := (List.getElem?_eq_some_iff.mp hc).1
  have hself : w'.conns[p]? = some c' := by rw [hconns, List.getElem?_set_self hlt]
  have hother : ∀ q, q ≠ p → w'.conns[q]? = w.conns[q]? := by
    intro q hq
    rw [hconns, List.getElem?_set_ne (Ne.symm hq)]
  refine ⟨hopen ▸ h.nodup, ?_, ?_, ?_, ?_, hmarks⟩
  · intro q hq
    rw [hopen] at hq
    by_cases hqp : q = p
    · subst hqp
      exact ⟨c', hself⟩
    · rw [hother q hqp]
      exact h.listed q hq
  · intro q a ha hq
    rw [hopen] at hq
    by_cases hqp : q = p
    · subst hqp
      exact absurd hp hq
    · rw [hother q hqp] at ha
      exact h.closed q a ha hq
  · intro q a ha
    rw [hmails]
    by_cases hqp : q = p
    · subst hqp
      rw [hself] at ha
      obtain rfl := Option.some.inj ha
      exact hsound
    · rw [hother q hqp] at ha
      rw [hturns q hqp]
      exact h.conns q a ha
  · intro q hq
    by_cases hqp : q = p
    · subst hqp
      rw [hself] at hq
      cases hq
    · rw [hother q hqp] at hq
      rw [hturns q hqp]
      exact h.silent q hq

/-- A failed call of recv fails its connection. -/
theorem sound_recv_failed (w : World) (p : ℕ) (c : MxConn) (r : RecvResult) (h : Sound w)
    (hp : p ∈ w.connections) (hc : w.conns[p]? = some c) (hr : ∀ chunk, r ≠ .data chunk) :
    Sound (invalidateConnection (World.log w [.recv p r]) p) := by
  have hturns : ∀ q, turnsOf (w.trace ++ [.recv p r]) q = turnsOf w.trace q := by
    intro q
    rw [turnsOf_append, turnsOf_recv_failed q p r hr, List.append_nil]
  rw [invalidateConnection_eq (World.log w [.recv p r]) p c hc]
  refine sound_update w _ p c { c with state := .invalid } h hp hc ?_ ?_ ?_ ?_ ?_ ?_
  · rfl
  · rfl
  · rfl
  · intro q _
    exact hturns q
  · change SoundConn w.mails _ (turnsOf (w.trace ++ [.recv p r]) p)
    rw [hturns p]
    exact (h.conns p c hc).invalidate
  · intro i
    change w.wasSent i = true ↔ ∃ q, Accepted (turnsOf (w.trace ++ [.recv p r]) q) i
    simp only [hturns]
    exact h.marks i

/-- The turns after a buffer was received and answered. -/
theorem turnsOf_answer (trace : List Act) (p q : ℕ) (chunk : Chunk) (cs : List Sent) :
    turnsOf (trace ++ [.recv p (.data chunk)] ++ cs.map (Act.send p)) q =
      if p = q then turnsOf trace q ++ .heard (replyEvent chunk.buf) :: cs.map .said
      else turnsOf trace q := by
  rw [turnsOf_append, turnsOf_append, turnsOf_recv_data, turnsOf_sends]
  split <;> simp

theorem mark_eq_true_iff (wasSent : ℕ → Bool) (o : Option ℕ) (i : ℕ) :
    mark wasSent o i = true ↔ wasSent i = true ∨ o = some i := by
  cases o with
  | none => simp [mark]
  | some k =>
    by_cases hk : i = k
    · simp [mark, hk]
    · simp [mark, Function.update_of_ne hk, Ne.symm hk]

/-- A reply lets a server accept the text that it was sent last, and no other one. -/
theorem exists_accepted_answer (trace : List Act) (p : ℕ) (chunk : Chunk) (cs : List Sent)
    (i : ℕ) :
    (∃ q, Accepted (turnsOf (trace ++ [.recv p (.data chunk)] ++ cs.map (Act.send p)) q) i) ↔
      (∃ q, Accepted (turnsOf trace q) i) ∨
        replyEvent chunk.buf = .r250 ∧ lastText (turnsOf trace p) = some i := by
  have hturns := turnsOf_answer trace p
  constructor
  · intro hacc
    obtain ⟨q, hq⟩ := hacc
    rw [hturns] at hq
    split at hq
    · rename_i hpq
      subst hpq
      rcases (accepted_answer _ _ cs i).mp hq with hq | hq
      · exact Or.inl ⟨p, hq⟩
      · exact Or.inr hq
    · exact Or.inl ⟨q, hq⟩
  · intro hacc
    rcases hacc with ⟨q, hq⟩ | hacc
    · refine ⟨q, ?_⟩
      rw [hturns]
      split
      · exact (accepted_answer _ _ cs i).mpr (Or.inl hq)
      · exact hq
    · refine ⟨p, ?_⟩
      rw [hturns, if_pos rfl]
      exact (accepted_answer _ _ cs i).mpr (Or.inr hacc)

/-- A reply on an open live connection is answered without a fault. -/
theorem sound_answer (w : World) (p : ℕ) (c : MxConn) (chunk : Chunk) (now : ℤ) (h : Sound w)
    (hp : p ∈ w.connections) (hc : w.conns[p]? = some c) (hlive : c.state.terminal = false) :
    ∃ s, parseResponse (World.log w [.recv p (.data chunk)]) p chunk.buf now =
        some (store (World.log w [.recv p (.data chunk)]) p s) ∧
      advance w.mails (sessionAt w c now) (replyEvent chunk.buf) = some s ∧
      s.conn.dom = c.dom ∧ s.conn.sock = c.sock ∧ s.conn.timeOfLastResponse = now ∧
      (s.conn.state.terminal = true → s.sent = []) ∧
      Sound (store (World.log w [.recv p (.data chunk)]) p s) := by
  have hreply := replyEvent_isReply chunk.buf
  have hconn := (h.conns p c hc).at_time now
  obtain ⟨s, cs, hadv, hsent, hmark, hdom, hsock, htime, hquiet, hsound⟩ :=
    SoundConn.answer (sessionAt w c now) (replyEvent chunk.buf) hconn hlive hreply
  have hsent : s.sent = cs := hsent
  refine ⟨s, ?_, hadv, hdom, hsock, htime, hsent ▸ hquiet, ?_⟩
  · rw [parseResponse_eq (World.log w [.recv p (.data chunk)]) p chunk.buf now c hc]
    change (advance w.mails (sessionAt w c now) (replyEvent chunk.buf)).map _ = _
    rw [hadv]
    rfl
  · have hturns := turnsOf_answer w.trace p
    refine sound_update w _ p c s.conn h hp hc ?_ ?_ ?_ ?_ ?_ ?_
    · rfl
    · rfl
    · rfl
    · intro q hq
      change turnsOf (w.trace ++ _ ++ s.sent.map (Act.send p)) q = _
      rw [hsent, hturns, if_neg (Ne.symm hq)]
    · change SoundConn w.mails s.conn (turnsOf (w.trace ++ _ ++ s.sent.map (Act.send p)) p)
      rw [hsent, hturns, if_pos rfl]
      exact hsound
    · intro i
      change s.wasSent i = true ↔ ∃ q, Accepted (turnsOf (w.trace ++ _ ++ s.sent.map (Act.send p)) q) i
      rw [hmark, mark_eq_true_iff, hsent, exists_accepted_answer, ← h.marks i]
      change w.wasSent i = true ∨ _ ↔ _
      have htext := (h.conns p c hc).texts hlive
      have hack : acknowledged (sessionAt w c now).conn (replyEvent chunk.buf) = some i ↔
          replyEvent chunk.buf = .r250 ∧ lastText (turnsOf w.trace p) = some i := by
        rw [htext]
        change (if _ then unacknowledged c else none) = some i ↔ _
        simp
      rw [hack]

theorem sound_sweep (timeout : ℤ) (clock : ℕ → ℤ) (w : World) (h : Sound w) :
    Sound (sweep timeout clock w) ∧ AllLive (sweep timeout clock w) := by
  rw [sweep_eq timeout clock w h.nodup h.listed]
  have hopen := sweptOver_connections timeout clock w
  have hget := getElem?_sweptOver timeout clock w w.connections
  have hturns := turnsOf_sweptOver timeout clock w w.connections
  refine ⟨⟨?_, ?_, ?_, ?_, ?_, ?_⟩, ?_⟩
  · rw [hopen]
    exact h.nodup.filter _
  · intro q hq
    rw [hopen] at hq
    obtain ⟨c, hc⟩ := h.listed q (List.mem_of_mem_filter hq)
    rw [hget q, hc]
    exact ⟨_, rfl⟩
  · intro q a ha hq
    rw [hget q] at ha
    obtain ⟨c, hc, rfl⟩ := Option.map_eq_some_iff.mp ha
    by_cases hmem : q ∈ w.connections
    · rw [if_pos hmem, ← removed_eq timeout clock w q c hc]
      by_contra hstay
      apply hq
      rw [hopen]
      exact List.mem_filter.mpr ⟨hmem, by simp [hstay]⟩
    · rw [if_neg hmem]
      exact h.closed q c hc hmem
  · intro q a ha
    rw [hget q] at ha
    obtain ⟨c, hc, rfl⟩ := Option.map_eq_some_iff.mp ha
    rw [hturns q]
    have hsound := h.conns q c hc
    change SoundConn w.mails _ _
    split
    · unfold checked
      split
      · exact hsound.invalidate
      · exact hsound
    · exact hsound
  · intro q hq
    rw [hget q, Option.map_eq_none_iff] at hq
    rw [hturns q]
    exact h.silent q hq
  · intro i
    simp only [hturns]
    exact h.marks i
  · intro q hq a ha
    rw [hopen] at hq
    obtain ⟨hmem, hstay⟩ := List.mem_filter.mp hq
    rw [hget q] at ha
    obtain ⟨c, hc, rfl⟩ := Option.map_eq_some_iff.mp ha
    rw [if_pos hmem, ← removed_eq timeout clock w q c hc]
    simpa using hstay

/-- What conn_init fixes for the rest of the transfer. -/
structure SameSetup (w w' : World) : Prop where
  mails : w'.mails = w.mails
  doms : w'.conns.map MxConn.dom = w.conns.map MxConn.dom
  count : w'.connectionsCount = w.connectionsCount

theorem SameSetup.refl (w : World) : SameSetup w w := ⟨rfl, rfl, rfl⟩

theorem SameSetup.trans {u v w : World} (h : SameSetup u v) (h' : SameSetup v w) :
    SameSetup u w :=
  ⟨h'.mails.trans h.mails, h'.doms.trans h.doms, h'.count.trans h.count⟩

/-- Storing a connection with the same domain keeps the list of domains. -/
theorem map_dom_set (conns : List MxConn) (p : ℕ) (c c' : MxConn) (hc : conns[p]? = some c)
    (hdom : c'.dom = c.dom) : (conns.set p c').map MxConn.dom = conns.map MxConn.dom := by
  apply List.ext_getElem?
  intro q
  rw [List.getElem?_map, List.getElem?_map]
  by_cases hq : p = q
  · subst hq
    rw [List.getElem?_set_self (List.getElem?_eq_some_iff.mp hc).1, hc]
    exact congrArg some hdom
  · rw [List.getElem?_set_ne hq]

theorem sweep_sameSetup (timeout : ℤ) (clock : ℕ → ℤ) (w : World) (h : Sound w) :
    SameSetup w (sweep timeout clock w) := by
  rw [sweep_eq timeout clock w h.nodup h.listed]
  refine ⟨rfl, ?_, rfl⟩
  apply List.ext_getElem?
  intro q
  simp only [sweptOver, List.getElem?_map, List.getElem?_mapIdx, Option.map_map]
  congr 1
  funext c
  simp only [Function.comp_apply, checked]
  split
  · split <;> rfl
  · rfl

/-- One call of wait_for_response from a sound world removes no connection. -/
theorem waitForResponse_sound (w w' : World) (inp : PassInput) (n : ℕ) (h : Sound w)
    (hlive : AllLive w) (hw : waitForResponse w inp = some (n, w')) :
    Sound w' ∧ w'.connections = w.connections ∧ SameSetup w w' := by
  rcases waitForResponse_cases w w' inp n hw with ⟨-, rfl⟩ | ⟨p, -, hp, hserved⟩
  · exact ⟨h, rfl, SameSetup.refl w'⟩
  · obtain ⟨c, hc⟩ := h.listed p hp
    rcases hserved with ⟨hfail, rfl⟩ | ⟨chunk, hrecv, hparse⟩
    · refine ⟨sound_recv_failed w p c inp.recv h hp hc hfail, ?_⟩
      rw [invalidateConnection_eq (World.log w [.recv p inp.recv]) p c hc]
      exact ⟨rfl, rfl, map_dom_set w.conns p c _ hc rfl, rfl⟩
    · obtain ⟨s, hs, -, hdom, -, -, -, hsound⟩ :=
        sound_answer w p c chunk inp.now h hp hc (hlive p hp c hc)
      rw [hrecv, hs] at hparse
      obtain rfl := Option.some.inj hparse
      exact ⟨hsound, rfl, rfl, map_dom_set w.conns p c s.conn hc hdom, rfl⟩

/-- Every pass keeps the invariant and leaves only live connections open. -/
theorem connLoopPass_sound (timeout : ℤ) (w w' : World) (inp : PassInput) (h : Sound w)
    (hlive : AllLive w) (hw : connLoopPass timeout w inp = some w') :
    (Sound w' ∧ AllLive w') ∧ SameSetup w w' := by
  obtain ⟨⟨n, v⟩, hv, hw⟩ := Option.bind_eq_some_iff.mp hw
  obtain rfl := Option.some.inj hw
  obtain ⟨hsound, -, hsame⟩ := waitForResponse_sound w v inp n h hlive hv
  exact ⟨sound_sweep timeout inp.clock v hsound,
    hsame.trans (sweep_sameSetup timeout inp.clock v hsound)⟩

/-- The passes of conn_loop are a run that rests when no connection is open. -/
theorem connLoop_eq_run (timeout : ℤ) (w : World) (inps : List PassInput) :
    connLoop timeout w inps =
      run (restIn (fun w => w.connections.isEmpty) (connLoopPass timeout)) w inps := by
  induction inps generalizing w with
  | nil => rfl
  | cons inp inps ih =>
    by_cases hnil : w.connections = []
    · have hhalt : (fun w : World => w.connections.isEmpty) w = true := by simp [hnil]
      rw [run_of_halted _ w _ _ hhalt, connLoop, if_pos hnil]
    · rw [connLoop, if_neg hnil, run_cons, restIn, if_neg (by simp [hnil])]
      exact congrArg _ (funext fun w' => ih w')

/-- One step of the run that conn_loop is. -/
theorem restIn_sound (timeout : ℤ) (w : World) (inp : PassInput) (w' : World)
    (h : Sound w ∧ AllLive w)
    (hw : restIn (fun w => w.connections.isEmpty) (connLoopPass timeout) w inp = some w') :
    (Sound w' ∧ AllLive w') ∧ SameSetup w w' := by
  unfold restIn at hw
  split at hw
  · obtain rfl := Option.some.inj hw
    exact ⟨h, SameSetup.refl w⟩
  · exact connLoopPass_sound timeout w w' inp h.1 h.2 hw

/-- The invariant holds at the end of every run of conn_loop. -/
theorem connLoop_sound (timeout : ℤ) (w w' : World) (inps : List PassInput) (h : Sound w)
    (hlive : AllLive w) (hw : connLoop timeout w inps = some w') :
    (Sound w' ∧ AllLive w') ∧ SameSetup w w' := by
  rw [connLoop_eq_run] at hw
  constructor
  · apply run_invariant (fun w => Sound w ∧ AllLive w) _ inps w' ⟨h, hlive⟩ hw
    intro v inp v' hv hstep
    exact (restIn_sound timeout v inp v' hv hstep).1
  · apply run_relation SameSetup (fun w => Sound w ∧ AllLive w) SameSetup.refl _ _ inps w'
      ⟨h, hlive⟩ hw
    · intro u v w huv hvw
      exact huv.trans hvw
    · exact restIn_sound timeout

end SmtpClient.TransferInvariant
