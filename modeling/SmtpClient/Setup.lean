import SmtpClient.TransferInvariant

/-!
What conn_init sets up. The domain set holds every remote domain of the queue
once, each of its domains whose MX host was reached gets one connection, and
the transfer begins in a state where the invariant holds.
-/
namespace SmtpClient.Setup

open MailTypes Queues Dialogues SessionScript Transcript MxLookup Connections
open EventLoop Passes TransferInvariant

theorem collectDomains_eq (myDomain : Bytes) (mails : List Mail) :
    collectDomains myDomain mails =
      ((mails.flatMap Mail.rcpts).map Rcpt.domain).foldl (domainAdd myDomain) [] := by
  rw [List.foldl_map, List.foldl_flatMap]
  rfl

theorem mem_domainAdd (myDomain name : Bytes) (ds : List Domain) (d : Domain) :
    d ∈ domainAdd myDomain ds name ↔ d ∈ ds ∨ (name ≠ myDomain ∧ d = ⟨name⟩) := by
  unfold domainAdd
  split
  · rename_i hlocal
    simp [hlocal]
  · rename_i hremote
    split
    · rename_i hany
      obtain ⟨e, he, hname⟩ := List.any_eq_true.mp hany
      obtain rfl : e = ⟨name⟩ := congrArg Domain.mk (of_decide_eq_true hname)
      constructor
      · exact Or.inl
      · intro h
        rcases h with h | ⟨-, rfl⟩
        · exact h
        · exact he
    · rw [List.mem_append, List.mem_singleton]
      simp [hremote]

theorem mem_foldl_domainAdd (myDomain : Bytes) (names : List Bytes) (d : Domain) :
    d ∈ names.foldl (domainAdd myDomain) [] ↔ d.name ∈ names ∧ d.name ≠ myDomain := by
  induction names using List.reverseRecOn with
  | nil => simp
  | append_singleton names name ih =>
    rw [List.foldl_concat, mem_domainAdd, ih, List.mem_append, List.mem_singleton]
    constructor
    · intro h
      rcases h with ⟨hmem, hne⟩ | ⟨hne, rfl⟩
      · exact ⟨Or.inl hmem, hne⟩
      · exact ⟨Or.inr rfl, hne⟩
    · intro h
      obtain ⟨hmem | hname, hne⟩ := h
      · exact Or.inl ⟨hmem, hne⟩
      · exact Or.inr ⟨hname ▸ hne, congrArg Domain.mk hname⟩

theorem nodup_foldl_domainAdd (myDomain : Bytes) (names : List Bytes) :
    (names.foldl (domainAdd myDomain) []).Nodup := by
  induction names using List.reverseRecOn with
  | nil => exact List.nodup_nil
  | append_singleton names name ih =>
    rw [List.foldl_concat]
    unfold domainAdd
    split
    · exact ih
    · split
      · exact ih
      · rename_i hnew
        rw [← List.concat_eq_append]
        refine List.Nodup.concat ?_ ih
        intro hmem
        exact hnew (List.any_eq_true.mpr ⟨_, hmem, decide_eq_true rfl⟩)

/-- The domain set holds the domains of the recipients but the local one. -/
theorem mem_collectDomains (myDomain : Bytes) (mails : List Mail) (d : Domain) :
    d ∈ collectDomains myDomain mails ↔
      mails.any (fun m => mailHasRcptsFromDomain m d) = true ∧ d.name ≠ myDomain := by
  rw [collectDomains_eq, mem_foldl_domainAdd, List.any_eq_true]
  simp only [mailHasRcptsFromDomain_iff, List.mem_map, List.mem_flatMap]
  constructor
  · intro h
    obtain ⟨⟨r, ⟨m, hm, hr⟩, hd⟩, hne⟩ := h
    exact ⟨⟨m, hm, r, hr, hd⟩, hne⟩
  · intro h
    obtain ⟨⟨m, hm, r, hr, hd⟩, hne⟩ := h
    exact ⟨⟨r, ⟨m, hm, hr⟩, hd⟩, hne⟩

theorem nodup_collectDomains (myDomain : Bytes) (mails : List Mail) :
    (collectDomains myDomain mails).Nodup := by
  rw [collectDomains_eq]
  exact nodup_foldl_domainAdd myDomain _

/-- A transfer in which nothing was received or sent yet. -/
structure Opened (w : World) : Prop where
  connections : w.connections = List.range w.conns.length
  count : w.connectionsCount = w.conns.length
  trace : w.trace = []
  wasSent : ∀ i, w.wasSent i = false
  fresh : ∀ (p : ℕ) (c : MxConn), w.conns[p]? = some c → c.state = .init ∧
    Tracks w.mails c (.live (sessionScript w.mails c.dom))

theorem opened_sound (w : World) (h : Opened w) : Sound w ∧ AllLive w := by
  refine ⟨⟨?_, ?_, ?_, ?_, ?_, ?_⟩, ?_⟩
  · rw [h.connections]
    exact List.nodup_range
  · intro p hp
    rw [h.connections, List.mem_range] at hp
    exact ⟨_, List.getElem?_eq_getElem hp⟩
  · intro p c hc hp
    rw [h.connections, List.mem_range] at hp
    exact absurd (List.getElem?_eq_some_iff.mp hc).1 hp
  · intro p c hc
    obtain ⟨hinit, htracks⟩ := h.fresh p c hc
    rw [h.trace]
    refine ⟨⟨_, htracks, conforms_start _ _⟩, ?_⟩
    intro _
    unfold unacknowledged
    rw [hinit]
    rfl
  · intro p _
    rw [h.trace]
    rfl
  · intro i
    rw [h.wasSent i, h.trace]
    constructor
    · intro hfalse
      cases hfalse
    · intro hacc
      obtain ⟨p, before, hpre, -⟩ := hacc
      have hnil := List.prefix_nil.mp hpre
      simp at hnil
  · intro p _ c hc
    obtain ⟨hinit, -⟩ := h.fresh p c hc
    rw [hinit]
    rfl

theorem opened_insertConn (w : World) (c : MxConn) (h : Opened w) (hinit : c.state = .init)
    (htracks : Tracks w.mails c (.live (sessionScript w.mails c.dom))) :
    Opened (w.insertConn c) := by
  refine ⟨?_, ?_, h.trace, h.wasSent, ?_⟩
  · change w.connections ++ [w.conns.length] = List.range (w.conns ++ [c]).length
    rw [List.length_append, List.length_singleton, List.range_succ, h.connections]
  · change w.connectionsCount + 1 = (w.conns ++ [c]).length
    rw [List.length_append, List.length_singleton, h.count]
  · intro p a ha
    have ha : (w.conns ++ [c])[p]? = some a := ha
    rw [List.getElem?_append] at ha
    split at ha
    · exact h.fresh p a ha
    · obtain rfl := List.mem_singleton.mp (List.mem_of_getElem? ha)
      exact ⟨hinit, htracks⟩

/-- One connection is opened for each domain whose MX host was reached. -/
theorem openConnections_spec (net : Net) (w : World) (ds : List Domain) (h : Opened w)
    (hds : ∀ d ∈ ds, w.mails.any (fun m => mailHasRcptsFromDomain m d) = true) :
    ∃ w', openConnections net w ds = some w' ∧ Opened w' ∧ w'.mails = w.mails ∧
      w'.conns.map MxConn.dom =
        w.conns.map MxConn.dom ++ ds.filter fun d => (connectToMx net d.name).isSome := by
  induction ds generalizing w with
  | nil => exact ⟨w, rfl, h, rfl, by simp⟩
  | cons d ds ih =>
    have hrest : ∀ e ∈ ds, w.mails.any (fun m => mailHasRcptsFromDomain m e) = true := by
      intro e he
      exact hds e (List.mem_cons_of_mem d he)
    cases hsock : connectToMx net d.name with
    | none =>
      obtain ⟨w', hw', hopened, hmails, hdoms⟩ := ih w h hrest
      refine ⟨w', ?_, hopened, hmails, ?_⟩
      · rw [openConnections, createConnection, hsock]
        exact hw'
      · rw [hdoms, List.filter_cons, hsock]
        rfl
    | some sock =>
      obtain ⟨c, hc, hinit, hdom, -, htracks⟩ :=
        newConn_tracks w.mails d sock (net.time d.name) (hds d List.mem_cons_self)
      rw [← hdom] at htracks
      have hinsert := opened_insertConn w c h hinit htracks
      obtain ⟨w', hw', hopened, hmails, hdoms⟩ := ih (w.insertConn c) hinsert hrest
      refine ⟨w', ?_, hopened, hmails, ?_⟩
      · rw [openConnections, createConnection, hsock]
        simp only [hc]
        exact hw'
      · rw [hdoms, List.filter_cons, hsock]
        change (w.conns ++ [c]).map MxConn.dom ++ _ = _
        simp [hdom]

/-- conn_init never uses a null pointer. -/
theorem connInit_spec (myDomain : Bytes) (net : Net) (mails : List Mail) :
    ∃ w, connInit myDomain net mails = some w ∧ Opened w ∧ w.mails = mails ∧
      w.conns.map MxConn.dom =
        (collectDomains myDomain mails).filter fun d => (connectToMx net d.name).isSome := by
  have hempty : Opened ⟨mails, collectDomains myDomain mails, [], [], 0, fun _ => false, []⟩ := by
    refine ⟨rfl, rfl, rfl, fun _ => rfl, ?_⟩
    intro p c hc
    cases hc
  obtain ⟨w, hw, hopened, hmails, hdoms⟩ := openConnections_spec net _
    (collectDomains myDomain mails) hempty
    fun d hd => ((mem_collectDomains myDomain mails d).mp hd).1
  exact ⟨w, hw, hopened, hmails, hdoms⟩

theorem connInit_opened (myDomain : Bytes) (net : Net) (mails : List Mail) (w : World)
    (h : connInit myDomain net mails = some w) : Opened w := by
  obtain ⟨w', hw', hopened, -, -⟩ := connInit_spec myDomain net mails
  obtain rfl := Option.some.inj (h.symm.trans hw')
  exact hopened

/-- conn_init on a queue and some passes of conn_loop. -/
def transfer (myDomain : Bytes) (net : Net) (mails : List Mail) (timeout : ℤ)
    (inps : List PassInput) : Option World := do
  let w ← connInit myDomain net mails
  connLoop timeout w inps

/-- The state of every transfer, whatever the servers answered so far. -/
theorem transfer_sound (myDomain : Bytes) (net : Net) (mails : List Mail) (timeout : ℤ)
    (inps : List PassInput) (w : World) (h : transfer myDomain net mails timeout inps = some w) :
    (Sound w ∧ AllLive w) ∧ w.mails = mails ∧ w.conns.map MxConn.dom =
      (collectDomains myDomain mails).filter fun d => (connectToMx net d.name).isSome := by
  obtain ⟨w₀, hinit, hopened, hmails, hdoms⟩ := connInit_spec myDomain net mails
  obtain ⟨hsound, hlive⟩ := opened_sound w₀ hopened
  unfold transfer at h
  rw [hinit] at h
  obtain ⟨hend, hsame⟩ := connLoop_sound timeout w₀ w inps hsound hlive h
  exact ⟨hend, hsame.mails.trans hmails, hsame.doms.trans hdoms⟩

/-- The connections of a transfer serve remote domains. -/
theorem transfer_remote (myDomain : Bytes) (net : Net) (mails : List Mail) (timeout : ℤ)
    (inps : List PassInput) (w : World) (h : transfer myDomain net mails timeout inps = some w)
    (p : ℕ) (c : MxConn) (hc : w.conns[p]? = some c) : c.dom.name ≠ myDomain := by
  obtain ⟨-, -, hdoms⟩ := transfer_sound myDomain net mails timeout inps w h
  have hmem : c.dom ∈ w.conns.map MxConn.dom :=
    List.mem_map.mpr ⟨c, List.mem_of_getElem? hc, rfl⟩
  rw [hdoms] at hmem
  exact ((mem_collectDomains myDomain mails c.dom).mp (List.mem_of_mem_filter hmem)).2

/-- Two connections of a transfer serve different domains. -/
theorem transfer_distinct (myDomain : Bytes) (net : Net) (mails : List Mail) (timeout : ℤ)
    (inps : List PassInput) (w : World) (h : transfer myDomain net mails timeout inps = some w)
    (p q : ℕ) (a b : MxConn) (ha : w.conns[p]? = some a) (hb : w.conns[q]? = some b)
    (hdom : a.dom = b.dom) : p = q := by
  obtain ⟨-, -, hdoms⟩ := transfer_sound myDomain net mails timeout inps w h
  have hnodup : (w.conns.map MxConn.dom).Nodup := by
    rw [hdoms]
    exact (nodup_collectDomains myDomain mails).filter _
  have hp : (w.conns.map MxConn.dom)[p]? = some a.dom := by
    rw [List.getElem?_map, ha]
    rfl
  have hq : (w.conns.map MxConn.dom)[q]? = some a.dom := by
    rw [List.getElem?_map, hb, hdom]
    rfl
  have hlt : p < (w.conns.map MxConn.dom).length := (List.getElem?_eq_some_iff.mp hp).1
  exact (List.getElem?_inj hlt hnodup).mp (hp.trans hq.symm)

section Example

/-- A network in which the MX host of each domain is reached at once, or not at all. -/
def netReaching (reached : Bytes → Option ℤ) : Net where
  junk := []
  resQuery _ := some [bytes "MX 10 m."]
  getaddrinfo d _ := (reached d).map fun sock => [⟨sock, .connected⟩]
  time _ := 0

/-- A pass in which the first polled socket hands over a reply. -/
def replyInput (chunk : Chunk) : PassInput :=
  ⟨.events fun _ => pollin, fun _ => 0, .data chunk, 0, fun _ => 0⟩

/-- A pass in which the server on the first polled socket hangs up. -/
def hangup : PassInput :=
  ⟨.events fun _ => pollin, fun _ => 0, .disconnected, 0, fun _ => 0⟩

def chunk220 : Chunk := ⟨bytes "220\r\n", by decide, by decide⟩

def chunk250 : Chunk := ⟨bytes "250\r\n", by decide, by decide⟩

def chunk354 : Chunk := ⟨bytes "354\r\n", by decide, by decide⟩

def chunk221 : Chunk := ⟨bytes "221\r\n", by decide, by decide⟩

/-- The replies to a session with one mail for one recipient. -/
def acceptingInputs : List PassInput :=
  [chunk220, chunk250, chunk250, chunk250, chunk354, chunk250, chunk221].map replyInput

def mailToD : Mail :=
  ⟨bytes "MAIL FROM: <a@b>\r\n", [⟨bytes "c@d", bytes "d"⟩], bytes ".\r\n", bytes "1"⟩

/-- One mail, for which one connection is open. -/
def worldToD : World :=
  ⟨[mailToD], [⟨bytes "d"⟩], [⟨4, .init, some 0, some (0, 0), ⟨bytes "d"⟩, 0⟩], [0], 1,
    fun _ => false, []⟩

theorem connInit_mailToD :
    connInit (bytes "b") (netReaching fun _ => some 4) [mailToD] = some worldToD := rfl

end Example

end SmtpClient.Setup
