import SmtpClient.Setup

/-!
The sockets of one transfer and the MX hosts behind them. The domain set keeps
every domain name once, and nothing compares the hosts that the names lead to:
domains that share an MX host, and spellings of one domain, get sockets of
their own.
-/
namespace SmtpClient.MxSockets

open MailTypes Regexp MxLookup SessionScript Connections Setup

/-- The MX host that check_dns finds for a domain. -/
def mxHost (net : Net) (domain : Bytes) : Option Bytes := checkDns net.junk (net.resQuery domain)

/-- The domains have one MX host. -/
def SameMx (net : Net) (a b : Bytes) : Prop :=
  ∃ host, mxHost net a = some host ∧ mxHost net b = some host

/-- One domain, up to the case of letters. -/
def SameSpelling (a b : Bytes) : Prop := a.map toLower = b.map toLower

def QueuedRcpt (mails : List Mail) (r : Rcpt) : Prop := ∃ m ∈ mails, r ∈ m.rcpts

/-- The connection sends the mails of this recipient. -/
def Serves (w : World) (p : ℕ) (r : Rcpt) : Prop :=
  ∃ c, w.conns[p]? = some c ∧ c.dom.name = r.domain

/-- No two connections lead to the same MX host, and recipients of one MX host, or of
one domain in two spellings, share their connection. -/
structure OneSocketPerMx (net : Net) (mails : List Mail) (w : World) : Prop where
  sockets : ∀ (p q : ℕ) (a b : MxConn), w.conns[p]? = some a → w.conns[q]? = some b →
    SameMx net a.dom.name b.dom.name → p = q
  shared : ∀ r s, QueuedRcpt mails r → QueuedRcpt mails s →
    SameMx net r.domain s.domain ∨ SameSpelling r.domain s.domain →
    ∀ p, Serves w p r ↔ Serves w p s

/-- A recipient whose domain is remote and has an MX host that can be reached. -/
structure Served (myDomain : Bytes) (net : Net) (mails : List Mail) (r : Rcpt) : Prop where
  queued : QueuedRcpt mails r
  remote : r.domain ≠ myDomain
  reached : (connectToMx net r.domain).isSome = true

/-- No recipient of the queue has the MX host of a served recipient, or its domain in
another spelling, unless the domains are equal. -/
def HostsTellDomains (myDomain : Bytes) (net : Net) (mails : List Mail) : Prop :=
  ∀ r s, Served myDomain net mails r → QueuedRcpt mails s →
    SameMx net r.domain s.domain ∨ SameSpelling r.domain s.domain → r.domain = s.domain

variable {myDomain : Bytes} {net : Net} {mails : List Mail} {w : World}

theorem connInit_doms (h : connInit myDomain net mails = some w) :
    w.conns.map MxConn.dom =
      (collectDomains myDomain mails).filter fun d => (connectToMx net d.name).isSome := by
  obtain ⟨w', hw', -, -, hdoms⟩ := connInit_spec myDomain net mails
  obtain rfl := Option.some.inj (h.symm.trans hw')
  exact hdoms

/-- A connection was opened exactly for the domains of the served recipients. -/
theorem exists_conn_iff (h : connInit myDomain net mails = some w) (d : Domain) :
    (∃ (p : ℕ) (c : MxConn), w.conns[p]? = some c ∧ c.dom = d) ↔
      ∃ r, Served myDomain net mails r ∧ r.domain = d.name := by
  have hmem : (∃ (p : ℕ) (c : MxConn), w.conns[p]? = some c ∧ c.dom = d) ↔
      d ∈ w.conns.map MxConn.dom := by
    rw [List.mem_map]
    constructor
    · intro hconn
      obtain ⟨p, c, hc, hdom⟩ := hconn
      exact ⟨c, List.mem_of_getElem? hc, hdom⟩
    · intro hconn
      obtain ⟨c, hc, hdom⟩ := hconn
      obtain ⟨p, hp⟩ := List.getElem?_of_mem hc
      exact ⟨p, c, hp, hdom⟩
  rw [hmem, connInit_doms h, List.mem_filter, mem_collectDomains, List.any_eq_true]
  simp only [mailHasRcptsFromDomain_iff]
  constructor
  · intro hd
    obtain ⟨⟨⟨m, hm, r, hr, hdom⟩, hremote⟩, hreached⟩ := hd
    rw [← hdom] at hremote hreached
    exact ⟨r, ⟨⟨m, hm, hr⟩, hremote, hreached⟩, hdom⟩
  · intro hr
    obtain ⟨r, ⟨⟨m, hm, hr⟩, hremote, hreached⟩, hdom⟩ := hr
    rw [hdom] at hremote hreached
    exact ⟨⟨⟨m, hm, r, hr, hdom⟩, hremote⟩, hreached⟩

/-- Two connections of one domain are the same connection. -/
theorem conn_eq_of_dom (h : connInit myDomain net mails = some w) (p q : ℕ) (a b : MxConn)
    (ha : w.conns[p]? = some a) (hb : w.conns[q]? = some b) (hdom : a.dom = b.dom) : p = q := by
  apply transfer_distinct myDomain net mails 0 [] w _ p q a b ha hb hdom
  unfold transfer
  rw [h]
  rfl

/-- A connection serves a queued recipient only when the recipient is served. -/
theorem served_of_serves (h : connInit myDomain net mails = some w) (p : ℕ) (r : Rcpt)
    (hr : QueuedRcpt mails r) (hp : Serves w p r) : Served myDomain net mails r := by
  obtain ⟨c, hc, hdom⟩ := hp
  obtain ⟨s, ⟨-, hremote, hreached⟩, hs⟩ := (exists_conn_iff h c.dom).mp ⟨p, c, hc, rfl⟩
  have hdomain : s.domain = r.domain := hs.trans hdom
  rw [hdomain] at hremote hreached
  exact ⟨hr, hremote, hreached⟩

theorem sameMx_symm {a b : Bytes} (h : SameMx net a b) : SameMx net b a := by
  obtain ⟨host, ha, hb⟩ := h
  exact ⟨host, hb, ha⟩

/-- The claim on the sockets and on the recipients holds of the connections of conn_init
exactly when MX hosts and spellings tell the domains of served recipients from all others. -/
theorem one_socket_per_mx_iff (h : connInit myDomain net mails = some w) :
    OneSocketPerMx net mails w ↔ HostsTellDomains myDomain net mails := by
  constructor
  · intro hone r s hr hs hsame
    obtain ⟨p, c, hc, hdom⟩ := (exists_conn_iff h ⟨r.domain⟩).mpr ⟨r, hr, rfl⟩
    have hserves : Serves w p r := ⟨c, hc, congrArg Domain.name hdom⟩
    obtain ⟨c', hc', hdom'⟩ := (hone.shared r s hr.queued hs hsame p).mp hserves
    obtain rfl := Option.some.inj (hc.symm.trans hc')
    exact (congrArg Domain.name hdom).symm.trans hdom'
  · intro htell
    constructor
    · intro p q a b ha hb hhost
      obtain ⟨r, hr, hdoma⟩ := (exists_conn_iff h a.dom).mp ⟨p, a, ha, rfl⟩
      obtain ⟨s, hs, hdomb⟩ := (exists_conn_iff h b.dom).mp ⟨q, b, hb, rfl⟩
      apply conn_eq_of_dom h p q a b ha hb
      rw [← hdoma, ← hdomb] at hhost
      have hname := htell r s hr hs.queued (Or.inl hhost)
      rw [hdoma, hdomb] at hname
      exact congrArg Domain.mk hname
    · have hserves : ∀ r s p, QueuedRcpt mails r → QueuedRcpt mails s →
          SameMx net r.domain s.domain ∨ SameSpelling r.domain s.domain →
          Serves w p r → Serves w p s := by
        intro r s p hr hs hsame hp
        have hserved := served_of_serves h p r hr hp
        obtain ⟨c, hc, hdom⟩ := hp
        exact ⟨c, hc, hdom.trans (htell r s hserved hs hsame)⟩
      intro r s hr hs hsame p
      refine ⟨hserves r s p hr hs hsame, hserves s r p hs hr ?_⟩
      rcases hsame with hhost | hspelling
      · exact Or.inl (sameMx_symm hhost)
      · exact Or.inr hspelling.symm

/-- A mail to c@d and c@D. -/
def twoSpellingsMail : Mail :=
  ⟨bytes "MAIL FROM: <a@b>\r\n", [⟨bytes "c@d", bytes "d"⟩, ⟨bytes "c@D", bytes "D"⟩],
    bytes ".\r\n", bytes "1"⟩

/-- The MX host m is found for every domain; each attempt opens a new socket. -/
def netOneHost : Net := netReaching fun d => if d = bytes "d" then some 4 else some 5

theorem connInit_twoSpellings :
    (connInit (bytes "b") netOneHost [twoSpellingsMail]).map
      (fun w => w.conns.map fun c => (c.dom.name, c.sock)) =
    some [(bytes "d", 4), (bytes "D", 5)] := by
  decide

/-- Two spellings of one domain get two sockets to one MX host. -/
theorem two_sockets_to_one_mx :
    ¬ ∀ (myDomain : Bytes) (net : Net) (mails : List Mail) (w : World),
        connInit myDomain net mails = some w → OneSocketPerMx net mails w := by
  intro hclaim
  obtain ⟨w, hw, hconns⟩ := Option.map_eq_some_iff.mp connInit_twoSpellings
  have hget : ∀ p : ℕ, (w.conns[p]?).map (fun c => (c.dom.name, c.sock)) =
      [(bytes "d", (4 : ℤ)), (bytes "D", 5)][p]? := by
    intro p
    rw [← hconns, List.getElem?_map]
  obtain ⟨a, ha, hobsa⟩ := Option.map_eq_some_iff.mp (hget 0)
  obtain ⟨b, hb, hobsb⟩ := Option.map_eq_some_iff.mp (hget 1)
  have hhost : SameMx netOneHost a.dom.name b.dom.name := by
    rw [(Prod.mk.inj hobsa).1, (Prod.mk.inj hobsb).1]
    exact ⟨bytes "m", by decide, by decide⟩
  exact absurd ((hclaim _ _ _ w hw).sockets 0 1 a b ha hb hhost) Nat.zero_ne_one

/-- Mails to c@d and to c@e. -/
def mailsToDE : List Mail :=
  [⟨bytes "MAIL FROM: <a@b>\r\n", [⟨bytes "c@d", bytes "d"⟩], bytes ".\r\n", bytes "1"⟩,
    ⟨bytes "MAIL FROM: <a@b>\r\n", [⟨bytes "c@d", bytes "d"⟩, ⟨bytes "c@e", bytes "e"⟩],
      bytes ".\r\n", bytes "2"⟩]

/-- The domain d has the MX host m, and every other one the MX host n. -/
def netTwoHosts : Net where
  junk := []
  resQuery d := if d = bytes "d" then some [bytes "MX 10 m."] else some [bytes "MX 10 n."]
  getaddrinfo d _ := if d = bytes "d" then some [⟨4, .connected⟩] else some [⟨5, .connected⟩]
  time _ := 0

theorem connInit_mailsToDE :
    (connInit (bytes "b") netTwoHosts mailsToDE).map
      (fun w => w.conns.map fun c => (c.dom.name, c.sock)) =
    some [(bytes "d", 4), (bytes "e", 5)] := by
  decide

theorem rcpts_mailsToDE (r : Rcpt) (hr : QueuedRcpt mailsToDE r) :
    r.domain = bytes "d" ∨ r.domain = bytes "e" := by
  obtain ⟨m, hm, hr⟩ := hr
  simp only [mailsToDE, List.mem_cons, List.not_mem_nil, or_false] at hm
  rcases hm with rfl | rfl
  · left
    rw [List.mem_singleton.mp hr]
  · simp only [List.mem_cons, List.not_mem_nil, or_false] at hr
    rcases hr with rfl | rfl
    · exact Or.inl rfl
    · exact Or.inr rfl

/-- Two mails for two domains with MX hosts of their own: two connections, each to its host. -/
theorem one_socket_per_mx_iff_two_hosts :
    ∃ w, connInit (bytes "b") netTwoHosts mailsToDE = some w ∧ w.conns.length = 2 ∧
      OneSocketPerMx netTwoHosts mailsToDE w := by
  obtain ⟨w, hw, hconns⟩ := Option.map_eq_some_iff.mp connInit_mailsToDE
  refine ⟨w, hw, ?_, ?_⟩
  · rw [← List.length_map, hconns]
    rfl
  · apply (one_socket_per_mx_iff hw).mpr
    have hhosts : ¬ (SameMx netTwoHosts (bytes "d") (bytes "e") ∨
        SameSpelling (bytes "d") (bytes "e")) := by
      rintro (⟨host, hd, he⟩ | hspelling)
      · rw [show mxHost netTwoHosts (bytes "d") = some (bytes "m") by decide] at hd
        rw [show mxHost netTwoHosts (bytes "e") = some (bytes "n") by decide] at he
        exact absurd (hd.trans he.symm) (by decide)
      · unfold SameSpelling at hspelling
        exact absurd hspelling (by decide)
    intro r s hr hs hsame
    rcases rcpts_mailsToDE r hr.queued with hd | he <;>
      rcases rcpts_mailsToDE s hs with hd' | he'
    · rw [hd, hd']
    · rw [hd, he'] at hsame
      exact absurd hsame hhosts
    · rw [he, hd'] at hsame
      refine absurd ?_ hhosts
      rcases hsame with hhost | hspelling
      · exact Or.inl (sameMx_symm hhost)
      · exact Or.inr hspelling.symm
    · rw [he, he']

end SmtpClient.MxSockets
