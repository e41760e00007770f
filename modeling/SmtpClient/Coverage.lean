import SmtpClient.Setup
import SmtpClient.ScriptOrder

/-!
Which recipients a transfer names. A recipient occurrence is a mail of the
queue with a place in its recipient list. Since each remote domain has at most
one connection and each connection follows the script of its domain, no
occurrence is named twice, and none of a finished connection's domain is missed.
-/
namespace SmtpClient.Coverage

open MailTypes SendCommands Dialogues SessionScript ScriptOrder MxLookup Connections Maildir
open EventLoop Passes TransferInvariant Setup

/-- The connection on which an entry of the trace names the occurrence. -/
def namingOf (i j : ℕ) : Act → Option ℕ
  | .send p x => if x.command = .rcptto i j then some p else none
  | _ => none

/-- The connections on which the occurrence was named, once for each RCPT TO. -/
def namings (trace : List Act) (i j : ℕ) : List ℕ := trace.filterMap (namingOf i j)

theorem rcptsNamed_singleton_count (x : Sent) (i j : ℕ) :
    (rcptsNamed [x]).count (i, j) = if x.command = .rcptto i j then 1 else 0 := by
  obtain ⟨command, text⟩ := x
  cases command with
  | rcptto k l =>
    by_cases h : k = i ∧ l = j
    · obtain ⟨rfl, rfl⟩ := h
      simp [rcptsNamed]
    · have hne : (k, l) ≠ (i, j) := by
        intro heq
        exact h (Prod.mk.inj heq)
      simp [rcptsNamed, hne, h]
  | helo => rfl
  | mailfrom k => rfl
  | data => rfl
  | datastr k => rfl
  | quit => rfl

/-- Naming an occurrence on connection p is sending its command there. -/
theorem count_namings (trace : List Act) (p i j : ℕ) :
    (namings trace i j).count p = (rcptsNamed (saidOf (turnsOf trace p))).count (i, j) := by
  induction trace with
  | nil => rfl
  | cons a trace ih =>
    have hsplit : namings (a :: trace) i j = namings [a] i j ++ namings trace i j :=
      List.filterMap_append (l := [a])
    have hturns : turnsOf (a :: trace) p = turnsOf [a] p ++ turnsOf trace p :=
      turnsOf_append [a] trace p
    rw [hsplit, hturns, saidOf_append, rcptsNamed_append, List.count_append, List.count_append, ih]
    congr 1
    cases a with
    | recv q r =>
      cases r with
      | data chunk =>
        rw [turnsOf_recv_data]
        split <;> rfl
      | error => rfl
      | disconnected => rfl
    | send q x =>
      have hsend : turnsOf [.send q x] p = if q = p then [.said x] else [] :=
        turnsOf_sends p q [x]
      rw [hsend]
      by_cases hq : q = p
      · subst hq
        rw [if_pos rfl]
        change _ = (rcptsNamed [x]).count (i, j)
        rw [rcptsNamed_singleton_count]
        by_cases hx : x.command = .rcptto i j
        · simp [namings, namingOf, hx]
        · simp [namings, namingOf, hx]
      · rw [if_neg hq]
        by_cases hx : x.command = .rcptto i j
        · simp [namings, namingOf, hx, hq, rcptsNamed]
        · simp [namings, namingOf, hx, rcptsNamed]
    | close q => rfl

theorem mem_namings (w : World) (p i j : ℕ) :
    p ∈ namings w.trace i j ↔ (i, j) ∈ rcptsNamed (sentOn w p) := by
  rw [← List.count_pos_iff, ← List.count_pos_iff, count_namings]
  rfl

/-- A connection that is done has sent its whole script. -/
theorem sentOn_done (w : World) (h : Sound w) (p : ℕ) (c : MxConn)
    (hc : w.conns[p]? = some c) (hdone : c.state = .done) :
    sentOn w p = scriptCommands w.mails c.dom := by
  obtain ⟨φ, htracks, hconf⟩ := (h.conns p c hc).script
  obtain rfl := htracks.done_iff.mp hdone
  exact hconf.saidOf_finished

/-- An occurrence is named at most once on each connection. -/
theorem nodup_rcptsNamed_sentOn (w : World) (h : Sound w) (p : ℕ) :
    (rcptsNamed (sentOn w p)).Nodup := by
  cases hc : w.conns[p]? with
  | none =>
    have hnil : sentOn w p = [] := by
      unfold sentOn
      rw [h.silent p hc]
      rfl
    rw [hnil]
    exact List.nodup_nil
  | some c =>
    obtain ⟨rest, hrest⟩ := sentOn_prefix w h p c hc
    have hnodup := nodup_rcptsNamed_scriptCommands w.mails c.dom
    rw [← hrest, rcptsNamed_append] at hnodup
    exact (List.nodup_append.mp hnodup).1

/-- An occurrence is named on connections of its own domain only. -/
theorem naming_conn (w : World) (h : Sound w) (p i j : ℕ) (hp : p ∈ namings w.trace i j) :
    ∃ c m r, w.conns[p]? = some c ∧ w.mails[i]? = some m ∧ m.rcpts[j]? = some r ∧
      r.domain = c.dom.name := by
  obtain ⟨text, hsent⟩ := (mem_rcptsNamed _ i j).mp ((mem_namings w p i j).mp hp)
  obtain ⟨c, hc, hscript⟩ := mem_sentOn w h p _ hsent
  obtain ⟨m, r, hm, hr, hdom, -⟩ := (mem_scriptCommands_rcptto_iff w.mails c.dom i j text).mp hscript
  exact ⟨c, m, r, hc, hm, hr, hdom⟩

section Transfer

variable (myDomain : Bytes) (net : Net) (mails : List Mail) (timeout : ℤ)
  (inps : List PassInput) (w : World)

/-- All RCPT TO for one occurrence go to one connection. -/
theorem namings_eq (h : transfer myDomain net mails timeout inps = some w) (p q i j : ℕ)
    (hp : p ∈ namings w.trace i j) (hq : q ∈ namings w.trace i j) : q = p := by
  obtain ⟨⟨hsound, -⟩, -, -⟩ := transfer_sound myDomain net mails timeout inps w h
  obtain ⟨a, m, r, ha, hm, hr, hdom⟩ := naming_conn w hsound p i j hp
  obtain ⟨b, m', r', hb, hm', hr', hdom'⟩ := naming_conn w hsound q i j hq
  obtain rfl := Option.some.inj (hm.symm.trans hm')
  obtain rfl := Option.some.inj (hr.symm.trans hr')
  have hsame : b.dom = a.dom := congrArg Domain.mk (hdom'.symm.trans hdom)
  exact transfer_distinct myDomain net mails timeout inps w h q p b a hb ha hsame

theorem namings_length (h : transfer myDomain net mails timeout inps = some w) (i j : ℕ) :
    (namings w.trace i j).length ≤ 1 := by
  obtain ⟨⟨hsound, -⟩, -, -⟩ := transfer_sound myDomain net mails timeout inps w h
  cases hn : namings w.trace i j with
  | nil => exact Nat.zero_le 1
  | cons p rest =>
    have hmem : p ∈ namings w.trace i j := by
      rw [hn]
      exact List.mem_cons_self
    have hall : ∀ q ∈ namings w.trace i j, p = q := by
      intro q hq
      exact (namings_eq myDomain net mails timeout inps w h p q i j hmem hq).symm
    have hcount := List.nodup_iff_count_le_one.mp (nodup_rcptsNamed_sentOn w hsound p) (i, j)
    rw [← hn, ← List.count_eq_length.mpr hall, count_namings]
    exact hcount

/-- Each recipient occurrence is named at most once, on the connection of its
own domain, behind the MAIL FROM line of its mail and before any data for it.
A finished connection has named every occurrence of its domain exactly once.
Nothing is named for the local domain or a domain without a connection. -/
theorem recipients_named_once (ml : List Mail)
    (h : transfer myDomain net (filterMyMail myDomain ml).1 timeout inps = some w) :
    (∀ i j, (namings w.trace i j).length ≤ 1) ∧
    (∀ p i j text a b, sentOn w p = a ++ ⟨.rcptto i j, text⟩ :: b →
      ∃ c m r, w.conns[p]? = some c ∧ (filterMyMail myDomain ml).1[i]? = some m ∧
        m.rcpts[j]? = some r ∧ r.domain = c.dom.name ∧
        text = bytes "RCPT TO: <" ++ r.name ++ bytes ">\r\n" ∧
        ∃ a₁ a₂, a = a₁ ++ ⟨.mailfrom i, m.fromLine⟩ :: a₂ ∧
          (∀ x ∈ a₂, ∃ k, x.command = .rcptto i k) ∧
          ∀ x ∈ a₁, x.command ≠ .mailfrom i ∧ x.command ≠ .datastr i) ∧
    (∀ p c, w.conns[p]? = some c → c.state = .done → ∀ i j m r,
      (filterMyMail myDomain ml).1[i]? = some m → m.rcpts[j]? = some r →
      r.domain = c.dom.name → namings w.trace i j = [p]) ∧
    (∀ i j m r, (filterMyMail myDomain ml).1[i]? = some m → m.rcpts[j]? = some r →
      (r.domain = myDomain ∨ ∀ c ∈ w.conns, c.dom.name ≠ r.domain) →
      namings w.trace i j = []) := by
  obtain ⟨⟨hsound, -⟩, hmails, -⟩ := transfer_sound myDomain net _ timeout inps w h
  have honce := namings_length myDomain net _ timeout inps w h
  refine ⟨honce, ?_, ?_, ?_⟩
  · intro p i j text a b hsent
    have hnamed : (i, j) ∈ rcptsNamed (sentOn w p) := by
      rw [hsent, rcptsNamed_append]
      exact List.mem_append_right _ List.mem_cons_self
    obtain ⟨c, -, -, hc, -⟩ := naming_conn w hsound p i j ((mem_namings w p i j).mpr hnamed)
    obtain ⟨rest, hrest⟩ := sentOn_prefix w hsound p c hc
    rw [hsent, List.append_assoc, List.cons_append, hmails] at hrest
    obtain ⟨m, r, a₁, a₂, hm, hr, hdom, htext, ha, hrcpts, hbefore⟩ :=
      scriptCommands_before_rcptto _ c.dom i j text a _ hrest.symm
    exact ⟨c, m, r, hc, hm, hr, hdom, htext, a₁, a₂, ha, hrcpts, hbefore⟩
  · intro p c hc hdone i j m r hm hr hdom
    have hmem : p ∈ namings w.trace i j := by
      rw [mem_namings, sentOn_done w hsound p c hc hdone, hmails]
      exact (mem_rcptsNamed_scriptCommands _ c.dom i j).mpr ⟨m, r, hm, hr, hdom⟩
    have hone := Nat.le_antisymm (honce i j) (List.length_pos_of_mem hmem)
    obtain ⟨q, hq⟩ := List.length_eq_one_iff.mp hone
    rw [hq] at hmem ⊢
    rw [List.mem_singleton.mp hmem]
  · intro i j m r hm hr hnone
    apply List.eq_nil_iff_forall_not_mem.mpr
    intro p hp
    obtain ⟨c, m', r', hc, hm', hr', hdom⟩ := naming_conn w hsound p i j hp
    rw [hmails] at hm'
    obtain rfl := Option.some.inj (hm.symm.trans hm')
    obtain rfl := Option.some.inj (hr.symm.trans hr')
    rcases hnone with hlocal | hnone
    · have hremote := transfer_remote myDomain net _ timeout inps w h p c hc
      exact hremote (hdom.symm.trans hlocal)
    · exact hnone c (List.mem_of_getElem? hc) hdom.symm

end Transfer

/-- A mail to a local recipient and to one of the domain d. -/
def mixedMail : Mail :=
  ⟨bytes "MAIL FROM: <a@b>\r\n", [⟨bytes "a@b", bytes "b"⟩, ⟨bytes "c@d", bytes "d"⟩],
    bytes ".\r\n", bytes "1"⟩

theorem recipients_named_once_mixed_mail :
    ∃ w, transfer (bytes "b") (netReaching fun _ => some 4)
        (filterMyMail (bytes "b") [mixedMail]).1 60 acceptingInputs = some w ∧
      namings w.trace 0 0 = [0] := by
  have hrun : (transfer (bytes "b") (netReaching fun _ => some 4)
      (filterMyMail (bytes "b") [mixedMail]).1 60 acceptingInputs).map
      (fun w => w.conns.map fun c => (c.state, c.dom)) = some [(.done, ⟨bytes "d"⟩)] := by
    decide
  obtain ⟨w, hw, hconns⟩ := Option.map_eq_some_iff.mp hrun
  obtain ⟨-, -, hdone, -⟩ := recipients_named_once _ _ _ _ w [mixedMail] hw
  obtain ⟨c, rest, hw', hc, -⟩ := List.map_eq_cons_iff.mp hconns
  obtain ⟨hstate, hdom⟩ := Prod.mk.inj hc
  refine ⟨w, hw, hdone 0 c (by rw [hw']; rfl) hstate 0 0 _ ⟨bytes "c@d", bytes "d"⟩ rfl rfl ?_⟩
  rw [hdom]

end SmtpClient.Coverage
