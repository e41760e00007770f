import SmtpClient.LinkedRefinement

/-!
The end of a transfer in memory. The last loop of conn_loop takes the same decision
about every file as on the lists, and conn_final frees every structure that is left
and closes every socket that is still open, each of them once.
-/
namespace SmtpClient.LinkedCleanup

open MailTypes Queues Maildir TailQueues QueueCursors LocalFiltering MxLookup Connections EventLoop
open Setup LinkedTransfer LinkedRefinement

variable {n : ℕ} {xs : List MailAt} {ds : List (ℕ × Domain)} {addr : ℕ → ℕ}
  {cs : List (ℕ × ConnNode)} {mem : Memory} {w : World}

/-- The files are deleted and moved as on the lists. -/
theorem finishMail_eq (h : Refines n xs ds addr cs mem w) :
    mem.finishMail n = some (finishMail w) := by
  have hlen : (xs.map MailAt.cell).length ≤ n := by
    rw [List.length_map]
    exact h.stored.mails_fit
  unfold Memory.finishMail finishMail
  rw [foreach_read h.stored.mails.represents (fun p m acts => acts ++
      [if mem.wasSent p then FileAction.deleteMail m.filename .new
        else .moveMail m.filename .new .notSent]) n hlen [],
    List.foldl_append_eq_append, List.nil_append, ← List.flatMap_def, ← List.map_eq_flatMap, h.mails]
  congr 1
  apply List.ext_getElem?
  intro i
  rw [List.getElem?_map, List.getElem?_map, List.getElem?_map, List.getElem?_zipIdx,
    List.getElem?_map, Nat.zero_add]
  cases hx : xs[i]? with
  | none => rfl
  | some x =>
    have hsent := h.wasSent x.ptr i ((mailPtr_iff _ i).mpr ⟨x, hx, rfl⟩)
    simp only [Option.map_some, MailAt.cell, MailAt.mail, hsent]

/-- free_mail frees every recipient. -/
theorem freeMail_spec (x : MailAt) (hn : x.rcpts.length ≤ n) :
    ∃ rcpts, freeMail n x.node = some rcpts ∧ ∀ a, rcpts.cells a = none := by
  have hloop := foreachSafe_rule id removeRcpt id (fun _ todo q => Owns q todo) ?_ ?_ n [] x.rcpts
    x.node.rcpts x.owns hn
  · obtain ⟨rcpts, hfree, hempty⟩ := hloop
    refine ⟨rcpts, ?_, hempty.empty⟩
    unfold freeMail
    rw [x.owns.represents.first]
    rw [List.map_id] at hfree
    exact hfree
  · intro done todo q hq
    rw [List.map_id]
    exact ⟨[], hq.represents⟩
  · rintro done ⟨a, r⟩ todo q hq
    obtain ⟨q', c, hremove, -, -, hq'⟩ := hq.remove_first
    refine ⟨q'.free a, ?_, hq'⟩
    unfold removeRcpt
    rw [id, hremove]
    rfl

/-- free_mail_list frees every mail and every recipient. -/
theorem freeMailList_spec (ml : TailQueue ℕ MailNode) (hml : Owns ml (xs.map MailAt.cell))
    (hrcpts : ∀ x ∈ xs, x.rcpts.length ≤ n) (passes : ℕ) (hn : xs.length ≤ passes) :
    ∃ ml' rcpts, freeMailList n passes ml = some (ml', rcpts) ∧ (∀ a, ml'.cells a = none) ∧
      ∀ q ∈ rcpts, ∀ a, q.cells a = none := by
  induction xs generalizing ml passes with
  | nil =>
    refine ⟨ml, [], ?_, hml.empty, fun q hq => absurd hq List.not_mem_nil⟩
    have hfirst : ml.first = none := hml.represents.first
    cases passes <;> simp [freeMailList, hfirst]
  | cons x xs ih =>
    obtain ⟨passes, rfl⟩ : ∃ k, passes = k + 1 :=
      ⟨passes - 1, by rw [List.length_cons] at hn; omega⟩
    obtain ⟨q, c, hremove, hcell, hnode, hq⟩ := hml.remove_first
    obtain ⟨rcpts, hfree, hempty⟩ := freeMail_spec x (hrcpts x List.mem_cons_self)
    obtain ⟨ml', rest, hrest, hml', hrest'⟩ := ih (q.free x.ptr) hq
      (fun y hy => hrcpts y (List.mem_cons_of_mem x hy)) passes
      (by rw [List.length_cons] at hn; omega)
    refine ⟨ml', rcpts :: rest, ?_, hml', ?_⟩
    · have hfirst : ml.first = some x.ptr := hml.represents.first
      rw [freeMailList, hfirst]
      simp only [hremove, hcell, hnode, hfree, hrest, Option.bind_eq_bind, Option.bind_some]
      rfl
    · intro p hp
      rcases List.mem_cons.mp hp with rfl | hp
      · exact hempty
      · exact hrest' p hp

section Filter

variable (myDomain : Bytes)

/-- The recipients of a mail while filter_my_mail walks along them. -/
structure RcptsOwned (done todo : List (ℕ × Rcpt)) (a : RcptLoop) : Prop where
  rcpts : Owns a.rcpts (done.filter (fun x => !isLocal myDomain x.2) ++ todo)
  hasLocalRcpt : a.hasLocalRcpt = done.any fun x => isLocal myDomain x.2
  otherRcpts : a.otherRcpts = done.any fun x => !isLocal myDomain x.2

theorem visitRcpt_owned (done todo : List (ℕ × Rcpt)) (x : ℕ × Rcpt) (a : RcptLoop)
    (h : RcptsOwned myDomain done (x :: todo) a) :
    ∃ a', visitRcpt myDomain x.1 a = some a' ∧ RcptsOwned myDomain (done ++ [x]) todo a' := by
  obtain ⟨t, hcell⟩ := h.rcpts.represents.cell
  by_cases hlocal : x.2.domain = myDomain
  · obtain ⟨q, hremove, hq⟩ := h.rcpts.remove
    refine ⟨⟨q.free x.1, true, a.otherRcpts⟩, ?_, ?_, ?_, ?_⟩
    · simp [visitRcpt, removeRcpt, hcell, hlocal, hremove]
    · simpa [isLocal, hlocal] using hq
    · simp [isLocal, hlocal]
    · simpa [isLocal, hlocal] using h.otherRcpts
  · refine ⟨⟨a.rcpts, a.hasLocalRcpt, true⟩, ?_, ?_, ?_, ?_⟩
    · simp [visitRcpt, hcell, hlocal]
    · simpa [isLocal, hlocal] using h.rcpts
    · simpa [isLocal, hlocal] using h.hasLocalRcpt
    · simp [isLocal, hlocal]

/-- The inner loop frees the local recipients of a mail. -/
theorem rcptLoop_owned (x : MailAt) (hn : x.rcpts.length ≤ n) :
    ∃ a, foreachSafe RcptLoop.rcpts (visitRcpt myDomain) n x.node.rcpts.first
        ⟨x.node.rcpts, false, false⟩ = some a ∧
      Owns a.rcpts (x.rcpts.filter fun y => !isLocal myDomain y.2) ∧
      a.hasLocalRcpt = x.mail.rcpts.any (isLocal myDomain) ∧
      a.otherRcpts = hasRemoteRcpt myDomain x.mail := by
  have hloop := foreachSafe_rule RcptLoop.rcpts (visitRcpt myDomain) id (RcptsOwned myDomain)
    ?_ (fun done y todo a => visitRcpt_owned myDomain done todo y a) n [] x.rcpts
    ⟨x.node.rcpts, false, false⟩ ⟨x.owns, rfl, rfl⟩ hn
  · obtain ⟨a, ha, hend⟩ := hloop
    refine ⟨a, ?_, ?_, ?_, ?_⟩
    · rw [x.owns.represents.first]
      rw [List.map_id] at ha
      exact ha
    · have hrcpts := hend.rcpts
      rw [List.append_nil] at hrcpts
      exact hrcpts
    · rw [hend.hasLocalRcpt, MailAt.mail, List.any_map]
      rfl
    · rw [hend.otherRcpts, hasRemoteRcpt, MailAt.mail, List.any_map]
      rfl
  · intro done todo a ha
    rw [List.map_id]
    exact ⟨_, ha.rcpts.represents⟩

/-- The mail without its local recipients, at its place. -/
def remoteAt (x : MailAt) (rcpts : TailQueue ℕ Rcpt)
    (h : Owns rcpts (x.rcpts.filter fun y => !isLocal myDomain y.2)) : MailAt :=
  ⟨x.ptr, { x.node with rcpts := rcpts }, x.rcpts.filter fun y => !isLocal myDomain y.2, h⟩

theorem remoteAt_mail (x : MailAt) (rcpts : TailQueue ℕ Rcpt)
    (h : Owns rcpts (x.rcpts.filter fun y => !isLocal myDomain y.2)) :
    (remoteAt myDomain x rcpts h).mail = keepRemote myDomain x.mail := by
  unfold remoteAt keepRemote MailAt.mail
  simp only [List.filter_map]
  rfl

/-- The queue while filter_my_mail walks along it. -/
structure MailsOwned (n : ℕ) (done todo : List MailAt) (s : MailLoop) : Prop where
  kept : ∃ kept : List MailAt, Owns s.ml (kept.map MailAt.cell ++ todo.map MailAt.cell) ∧
    kept.map MailAt.mail =
      ((done.map MailAt.mail).filter (hasRemoteRcpt myDomain)).map (keepRemote myDomain)
  actions : s.actions = (done.map MailAt.mail).flatMap (localActions myDomain)
  rests : ∀ q ∈ s.rests, ∀ a, q.cells a = none
  fits : ∀ x ∈ todo, x.rcpts.length ≤ n

theorem visitMail_owned (done todo : List MailAt) (x : MailAt) (s : MailLoop)
    (h : MailsOwned myDomain n done (x :: todo) s) :
    ∃ s', visitMail n myDomain x.ptr s = some s' ∧ MailsOwned myDomain n (done ++ [x]) todo s' := by
  obtain ⟨kept, hkept, hmails⟩ := h.kept
  obtain ⟨t, hcell⟩ := hkept.represents.cell
  obtain ⟨a, hloop, hleft, hlocal, hother⟩ :=
    rcptLoop_owned myDomain x (h.fits x List.mem_cons_self)
  let y := remoteAt myDomain x a.rcpts hleft
  obtain ⟨ml, hset, hml⟩ := hkept.setValue y.node
  have hfits : ∀ z ∈ todo, z.rcpts.length ≤ n := fun z hz => h.fits z (List.mem_cons_of_mem x hz)
  have hylen : y.rcpts.length ≤ n :=
    (List.length_filter_le _ _).trans (h.fits x List.mem_cons_self)
  have hset' : s.ml.setValue x.ptr { x.node with rcpts := a.rcpts } = some ml := hset
  have hactions : ((done ++ [x]).map MailAt.mail).flatMap (localActions myDomain) =
      s.actions ++ localActions myDomain x.mail := by
    rw [h.actions, List.map_append, List.flatMap_append, List.map_singleton,
      List.flatMap_singleton]
  cases hremote : hasRemoteRcpt myDomain x.mail with
  | false =>
    have hall := (all_isLocal_iff myDomain x.mail).mpr hremote
    obtain ⟨ml', hremove, hml'⟩ := hml.remove
    obtain ⟨rcpts, hfree, hempty⟩ := freeMail_spec y hylen
    have hfree' : freeMail n { x.node with rcpts := a.rcpts } = some rcpts := hfree
    refine ⟨⟨ml'.free x.ptr, s.actions ++ [.moveMail x.node.filename .new .cur],
      s.rests ++ [rcpts]⟩, ?_, ⟨kept, hml', ?_⟩, ?_, ?_, hfits⟩
    · simp [visitMail, hcell, hloop, hset', hother, hremote, hremove, hfree']
    · rw [hmails, List.map_append, List.filter_append]
      simp [hremote]
    · rw [hactions, localActions, if_pos hall]
      rfl
    · exact List.forall_mem_append.mpr ⟨h.rests, List.forall_mem_singleton.mpr hempty⟩
  | true =>
    have hall : ¬x.mail.rcpts.all (isLocal myDomain) = true := by
      rw [all_isLocal_iff, hremote]
      decide
    have hstored : Owns ml ((kept ++ [y]).map MailAt.cell ++ todo.map MailAt.cell) := by
      rw [List.map_append, List.append_assoc]
      exact hml
    have hqueue : (kept ++ [y]).map MailAt.mail =
        (((done ++ [x]).map MailAt.mail).filter (hasRemoteRcpt myDomain)).map
          (keepRemote myDomain) := by
      rw [List.map_append, List.map_singleton, remoteAt_mail, hmails, List.map_append,
        List.filter_append, List.map_append]
      simp [hremote]
    cases hcopy : x.mail.rcpts.any (isLocal myDomain) with
    | true =>
      refine ⟨⟨ml, s.actions ++ [.copyMail x.node.filename .new .cur], s.rests⟩, ?_,
        ⟨kept ++ [y], hstored, hqueue⟩, ?_, h.rests, hfits⟩
      · simp [visitMail, hcell, hloop, hset', hother, hremote, hlocal, hcopy]
      · rw [hactions, localActions, if_neg hall, if_pos hcopy]
        rfl
    | false =>
      refine ⟨⟨ml, s.actions, s.rests⟩, ?_, ⟨kept ++ [y], hstored, hqueue⟩, ?_, h.rests, hfits⟩
      · simp [visitMail, hcell, hloop, hset', hother, hremote, hlocal, hcopy]
      · rw [hactions, localActions, if_neg hall, hcopy]
        simp

/-- filter_my_mail leaves the remote mail in memory and nothing else, and no recipient of a
mail that it frees. Its calls are those for the lists. -/
theorem filter_owned (ml : TailQueue ℕ MailNode) (hml : Owns ml (xs.map MailAt.cell))
    (hn : xs.length ≤ n) (hrcpts : ∀ x ∈ xs, x.rcpts.length ≤ n) :
    ∃ (s : MailLoop) (ys : List MailAt), filterMailQueue n myDomain ml = some s ∧
      Owns s.ml (ys.map MailAt.cell) ∧ ys.map MailAt.mail =
        ((xs.map MailAt.mail).filter (hasRemoteRcpt myDomain)).map (keepRemote myDomain) ∧
      s.actions = (filterMyMail myDomain (xs.map MailAt.mail)).2 ∧
      ∀ q ∈ s.rests, ∀ a, q.cells a = none := by
  have hstart : MailsOwned myDomain n [] xs ⟨ml, [], []⟩ :=
    ⟨⟨[], hml, rfl⟩, rfl, fun _ hq => absurd hq List.not_mem_nil, hrcpts⟩
  have hloop := foreachSafe_rule MailLoop.ml (visitMail n myDomain) MailAt.cell
    (MailsOwned myDomain n) ?_ (fun done x todo s => visitMail_owned myDomain done todo x s) n [] xs
    _ hstart hn
  · obtain ⟨s, hs, hend⟩ := hloop
    obtain ⟨ys, hys, hmails⟩ := hend.kept
    refine ⟨s, ys, ?_, by simpa using hys, hmails, ?_, hend.rests⟩
    · unfold filterMailQueue
      rw [hml.represents.first]
      exact hs
    · rw [filterMyMail_eq, hend.actions]
      rfl
  · intro done todo s hs
    obtain ⟨kept, hkept, -⟩ := hs.kept
    exact ⟨_, hkept.represents⟩

end Filter

/-- The socket that a call closes. -/
def SockCall.closed : SockCall → Option ℤ
  | .close sock => some sock
  | _ => none

/-- What is left of a transfer when conn_final has run. -/
structure Released (mem : Memory) (rcpts : List (TailQueue ℕ Rcpt)) : Prop where
  mails : ∀ a, mem.mails.cells a = none
  domains : ∀ a, mem.domains.cells a = none
  connections : ∀ a, mem.connections.cells a = none
  rcpts : ∀ q ∈ rcpts, ∀ a, q.cells a = none

/-- The loop of conn_final over the connections. -/
theorem freeConnections_spec (h : Refines n xs ds addr cs mem w) :
    ∃ mem', foreachSafe Memory.connections (fun p mem => mem.freeConnection p) n
        mem.connections.first mem = some mem' ∧
      Refines n xs ds addr [] mem' (w.connections.foldl freeConnection w) := by
  have hloop := foreachSafe_rule Memory.connections (fun p mem => mem.freeConnection p)
    (fun x : ℕ × ConnNode => (addr x.1, x.2))
    (fun done todo mem =>
      Refines n xs ds addr todo mem ((done.map Prod.fst).foldl freeConnection w))
    ?_ ?_ n [] cs mem h h.fits
  · obtain ⟨mem', hfree, hend⟩ := hloop
    refine ⟨mem', ?_, ?_⟩
    · rw [h.connections.represents.first]
      exact hfree
    · rw [← h.listed]
      exact hend
  · intro done todo mem h
    exact ⟨[], h.connections.represents⟩
  · rintro done ⟨p, node⟩ todo mem h
    have hfront : Refines n xs ds addr ([] ++ (p, node) :: todo) mem _ := h
    obtain ⟨mem', hfree, hnext⟩ := hfront.freeConnection
    refine ⟨mem', hfree, ?_⟩
    rw [List.map_append, List.foldl_append]
    exact hnext

/-- The loop of conn_final over the domains. -/
theorem freeDomains_spec (h : Owns mem.domains ds) (hn : ds.length ≤ n) :
    ∃ domains, foreachSafe Memory.domains Memory.freeDomain n mem.domains.first mem =
        some { mem with domains := domains } ∧ ∀ a, domains.cells a = none := by
  have hloop := foreachSafe_rule Memory.domains Memory.freeDomain id
    (fun _ todo mem' => ∃ q, mem' = { mem with domains := q } ∧ Owns q todo) ?_ ?_ n [] ds mem
    ⟨mem.domains, rfl, h⟩ hn
  · obtain ⟨-, hfree, q, rfl, hq⟩ := hloop
    refine ⟨q, ?_, hq.empty⟩
    rw [h.represents.first]
    rw [List.map_id] at hfree
    exact hfree
  · rintro done todo - ⟨q, rfl, hq⟩
    rw [List.map_id]
    exact ⟨[], hq.represents⟩
  · rintro done ⟨a, d⟩ todo - ⟨q, rfl, hq⟩
    obtain ⟨q', c, hremove, -, -, hq'⟩ := hq.remove_first
    refine ⟨{ mem with domains := q'.free a }, ?_, q'.free a, rfl, hq'⟩
    unfold Memory.freeDomain
    simp only [id, hremove, Option.bind_eq_bind, Option.bind_some]
    rfl

theorem foldl_freeConnection_conns (l : List ℕ) : (l.foldl freeConnection w).conns = w.conns := by
  induction l generalizing w with
  | nil => rfl
  | cons p l ih => exact ih

/-- The sockets that were closed, once no connection is open. -/
theorem closed_sockets (h : Refines n xs ds addr [] mem w) :
    (mem.calls.filterMap SockCall.closed).Perm (w.conns.map MxConn.sock) := by
  have hclosed : mem.calls.filterMap SockCall.closed =
      (closedConns w.trace).map (sockOf w.conns) := by
    rw [h.calls, List.filterMap_map, closedConns, List.map_filterMap]
    congr 1
    funext a
    cases a <;> rfl
  have hcloses := h.closes
  rw [← h.listed, List.map_nil, List.append_nil] at hcloses
  have hsocks : (List.range w.conns.length).map (sockOf w.conns) = w.conns.map MxConn.sock := by
    apply List.ext_getElem?
    intro p
    rw [List.getElem?_map, List.getElem?_map]
    by_cases hp : p < w.conns.length
    · rw [List.getElem?_range hp, List.getElem?_eq_getElem hp, Option.map_some, Option.map_some,
        sockOf, List.getElem?_eq_getElem hp]
      rfl
    · have hrange : (List.range w.conns.length)[p]? = none := by
        rw [List.getElem?_eq_none_iff, List.length_range]
        omega
      rw [hrange, List.getElem?_eq_none (by omega)]
      rfl
  rw [hclosed, ← hsocks]
  exact hcloses.map _

/-- conn_final frees all that is left, and closes the connections that are still open. -/
theorem connFinal_spec (h : Refines n xs ds addr cs mem w) (hds : ds.length ≤ n) :
    ∃ mem' rcpts, mem.connFinal n = some (mem', rcpts) ∧ Released mem' rcpts ∧
      mem'.calls = (w.connections.foldl freeConnection w).trace.map (sockCall w.conns) ∧
      (mem'.calls.filterMap SockCall.closed).Perm (w.conns.map MxConn.sock) := by
  obtain ⟨mem₁, hconns, h₁⟩ := freeConnections_spec h
  obtain ⟨domains, hdomains, hnone⟩ := freeDomains_spec h₁.stored.domains hds
  obtain ⟨ml, rcpts, hmails, hml, hrcpts⟩ :=
    freeMailList_spec mem₁.mails h₁.stored.mails h₁.stored.rcpts_fit n h₁.stored.mails_fit
  refine ⟨{ mem₁ with domains := domains, mails := ml }, rcpts, ?_,
    ⟨hml, hnone, h₁.connections.empty, hrcpts⟩, ?_, ?_⟩
  · unfold Memory.connFinal
    simp only [hconns, hdomains, hmails, Option.bind_eq_bind, Option.bind_some]
    rfl
  · have hcalls := h₁.calls
    rw [foldl_freeConnection_conns] at hcalls
    exact hcalls
  · have hclosed := closed_sockets h₁
    rw [foldl_freeConnection_conns] at hclosed
    exact hclosed

/-- No connection is open on either side. -/
theorem first_eq_none_iff (h : Refines n xs ds addr cs mem w) :
    mem.connections.first = none ↔ w.connections = [] := by
  rw [h.connections.represents.first, ← h.listed]
  cases cs <;> simp

section Transfer

variable (alloc : ℕ → ℕ) (myDomain : Bytes) (net : Net) (ml : TailQueue ℕ MailNode) (timeout : ℤ)
  (inps : List PassInput)

/-- The mails that filter_my_mail leaves for the transfer. -/
def remoteMails (mails : List Mail) : List Mail := (filterMyMail myDomain mails).1

/-- Where the connection at a position is allocated. -/
def connAddr (mails : List Mail) (p : ℕ) : ℕ :=
  alloc ((collectDomains myDomain (remoteMails myDomain mails)).length + p)

/-- A transfer in memory is the same as one on lists, seen from outside. -/
structure Agrees (n : ℕ) (mem : Memory) (w : World) : Prop where
  calls : mem.calls = w.trace.map (sockCall w.conns)
  ended : mem.connections.first = none ↔ w.connections = []
  files : mem.finishMail n = some (finishMail w)

theorem remoteMails_eq (mails : List Mail) : remoteMails myDomain mails =
    (mails.filter (hasRemoteRcpt myDomain)).map (keepRemote myDomain) := by
  rw [remoteMails, filterMyMail_eq]

theorem rcpts_length (ys : List MailAt) :
    (ys.flatMap MailAt.rcpts).length = ((ys.map MailAt.mail).flatMap Mail.rcpts).length := by
  induction ys with
  | nil => rfl
  | cons y ys ih =>
    rw [List.flatMap_cons, List.map_cons, List.flatMap_cons, List.length_append,
      List.length_append, ih, MailAt.mail, List.length_map]

/-- Fewer mails with fewer recipients do not need more passes. -/
theorem enough_remote {ys : List MailAt} (henough : Enough n xs)
    (hmails : ys.map MailAt.mail = remoteMails myDomain (xs.map MailAt.mail)) : Enough n ys := by
  have hless : ∀ mails : List Mail, (remoteMails myDomain mails).length ≤ mails.length ∧
      ((remoteMails myDomain mails).flatMap Mail.rcpts).length ≤ (mails.flatMap Mail.rcpts).length := by
    intro mails
    rw [remoteMails_eq]
    induction mails with
    | nil => simp
    | cons m mails ih =>
      have hkept : (keepRemote myDomain m).rcpts.length ≤ m.rcpts.length :=
        List.length_filter_le _ _
      cases hremote : hasRemoteRcpt myDomain m <;> simp [hremote] at ih ⊢ <;> omega
  obtain ⟨hlen, hrcpts⟩ := hless (xs.map MailAt.mail)
  constructor
  · have hys := congrArg List.length hmails
    rw [List.length_map] at hys hlen
    have hxs := henough.mails
    omega
  · have hxs := henough.rcpts
    rw [rcpts_length] at hxs ⊢
    rw [hmails]
    omega

theorem length_collectDomains (mails : List Mail) :
    (collectDomains myDomain mails).length ≤ (mails.flatMap Mail.rcpts).length := by
  have hadd : ∀ (names : List Bytes) (domains : List Domain),
      (names.foldl (domainAdd myDomain) domains).length ≤ domains.length + names.length := by
    intro names
    induction names with
    | nil => simp
    | cons name names ih =>
      intro domains
      have hone := length_domainAdd myDomain domains name
      have hrest := ih (domainAdd myDomain domains name)
      rw [List.foldl_cons, List.length_cons]
      omega
  have hall := hadd ((mails.flatMap Mail.rcpts).map Rcpt.domain) []
  rw [← collectDomains_eq, List.length_map] at hall
  simpa using hall

theorem length_placed_le {ys : List MailAt} (henough : Enough n ys) :
    (placed alloc (collectDomains myDomain (ys.map MailAt.mail))).length ≤ n := by
  have hlen := length_collectDomains myDomain (ys.map MailAt.mail)
  have hrcpts := henough.rcpts
  rw [rcpts_length] at hrcpts
  unfold placed
  rw [List.length_map, List.length_zipIdx]
  omega

/-- The functions on the structures in memory and those on lists fail on the same
inputs. filter_my_mail makes the same calls. Where no function fails, the sockets have seen
the same calls, the loop is over on both sides or on none, and the same files are deleted
and moved. -/
theorem transfers_agree (hml : Owns ml (xs.map MailAt.cell)) (henough : Enough n xs)
    (hinj : alloc.Injective) :
    ∃ s, filterMailQueue n myDomain ml = some s ∧
      s.actions = (filterMyMail myDomain (xs.map MailAt.mail)).2 ∧ Option.Rel (Agrees n)
      (linkedTransfer n alloc myDomain net s.ml timeout inps)
      (transfer myDomain net (remoteMails myDomain (xs.map MailAt.mail)) timeout
        (inps.map (atPositions (connAddr alloc myDomain (xs.map MailAt.mail))))) := by
  obtain ⟨s, ys, hs, hys, hmails, hactions, -⟩ := filter_owned myDomain ml hml henough.mails
    fun x hx => henough.rcpts_of_mem hx
  rw [← remoteMails_eq] at hmails
  refine ⟨s, hs, hactions, ?_⟩
  unfold connAddr
  rw [← hmails]
  refine rel_mono (linkedTransfer_rel myDomain net s.ml hys (enough_remote myDomain henough hmails) hinj
    timeout inps) ?_
  rintro mem w ⟨cs, h⟩
  exact ⟨h.calls, first_eq_none_iff h, finishMail_eq h⟩

/-- When conn_final has run, no mail, recipient, domain or connection is left in memory,
and every socket that conn_init has connected was closed exactly once. -/
theorem all_released (hml : Owns ml (xs.map MailAt.cell)) (henough : Enough n xs)
    (hinj : alloc.Injective) (s : MailLoop) (hs : filterMailQueue n myDomain ml = some s)
    (mem : Memory) (hmem : linkedTransfer n alloc myDomain net s.ml timeout inps = some mem) :
    ∃ mem' rcpts w, mem.connFinal n = some (mem', rcpts) ∧ Released mem' (s.rests ++ rcpts) ∧
      transfer myDomain net (remoteMails myDomain (xs.map MailAt.mail)) timeout
        (inps.map (atPositions (connAddr alloc myDomain (xs.map MailAt.mail)))) = some w ∧
      (mem'.calls.filterMap SockCall.closed).Perm (w.conns.map MxConn.sock) := by
  obtain ⟨s', ys, hs', hys, hmails, -, hrests⟩ := filter_owned myDomain ml hml henough.mails
    fun x hx => henough.rcpts_of_mem hx
  obtain rfl := Option.some.inj (hs.symm.trans hs')
  rw [← remoteMails_eq] at hmails
  unfold connAddr
  rw [← hmails]
  have hfew := enough_remote myDomain henough hmails
  have hrel := linkedTransfer_rel myDomain net s.ml hys hfew hinj timeout inps
  dsimp only at hrel
  rw [hmem] at hrel
  cases htransfer : transfer myDomain net (ys.map MailAt.mail) timeout (inps.map (atPositions
      fun p => alloc ((collectDomains myDomain (ys.map MailAt.mail)).length + p))) with
  | none =>
    rw [htransfer] at hrel
    cases hrel
  | some w =>
    rw [htransfer] at hrel
    obtain ⟨cs, h⟩ : Related n ys _ _ mem w := by
      cases hrel with
      | some h => exact h
    obtain ⟨mem', rcpts, hfinal, hreleased, -, hclosed⟩ :=
      connFinal_spec h (length_placed_le alloc myDomain hfew)
    exact ⟨mem', rcpts, w, hfinal, ⟨hreleased.mails, hreleased.domains, hreleased.connections,
      List.forall_mem_append.mpr ⟨hrests, hreleased.rcpts⟩⟩, rfl, hclosed⟩

end Transfer

section Example

/-- One mail in memory. -/
theorem exists_mailToD : ∃ (ml : TailQueue ℕ MailNode) (xs : List MailAt),
    Owns ml (xs.map MailAt.cell) ∧ xs.map MailAt.mail = [mailToD] ∧ Enough 2 xs := by
  obtain ⟨rcpts, -, hrcpts⟩ := (owns_init (A := ℕ)).insertTail 0
    (⟨bytes "c@d", bytes "d"⟩ : Rcpt) List.not_mem_nil
  let x : MailAt := ⟨0, ⟨mailToD.fromLine, rcpts, mailToD.msg, mailToD.filename⟩, _, hrcpts⟩
  obtain ⟨ml, -, hml⟩ := owns_init.insertTail 0 x.node List.not_mem_nil
  exact ⟨ml, [x], hml, rfl, ⟨Nat.le_succ 1, Nat.le_succ 1⟩⟩

theorem transfers_agree_mailToD : ∃ ml s, filterMailQueue 2 (bytes "b") ml = some s ∧
    s.actions = [] ∧ Option.Rel (Agrees 2)
      (linkedTransfer 2 id (bytes "b") (netReaching fun _ => some 4) s.ml 60 acceptingInputs)
      (transfer (bytes "b") (netReaching fun _ => some 4) (remoteMails (bytes "b") [mailToD]) 60
        acceptingInputs) := by
  obtain ⟨ml, xs, hml, hmails, henough⟩ := exists_mailToD
  obtain ⟨s, hs, hactions, hrel⟩ := transfers_agree id (bytes "b") (netReaching fun _ => some 4) ml 60
    acceptingInputs hml henough Function.injective_id
  rw [hmails] at hrel hactions
  exact ⟨ml, s, hs, hactions.trans rfl, hrel⟩

theorem all_released_mailToD : ∃ mem mem' rcpts rests,
    Memory.connFinal 2 mem = some (mem', rcpts) ∧ Released mem' (rests ++ rcpts) ∧
      mem'.calls.filterMap SockCall.closed = [4] := by
  obtain ⟨ml, xs, hml, hmails, henough⟩ := exists_mailToD
  obtain ⟨s, ys, hs, hys, hremote, -⟩ := filter_owned (bytes "b") ml hml henough.mails
    fun x hx => henough.rcpts_of_mem hx
  rw [← remoteMails_eq] at hremote
  have hfew := enough_remote (bytes "b") henough hremote
  have hall : transfer (bytes "b") (netReaching fun _ => some 4)
      (remoteMails (bytes "b") (xs.map MailAt.mail)) 60 [] = some worldToD := by
    rw [hmails]
    rfl
  have hrel := linkedTransfer_rel (bytes "b") (netReaching fun _ => some 4) s.ml hys hfew
    Function.injective_id 60 []
  rw [hremote] at hrel
  obtain ⟨mem, hmem, -⟩ := exists_of_rel hrel hall
  obtain ⟨mem', rcpts, w, hfinal, hreleased, hw, hclosed⟩ := all_released id (bytes "b")
    (netReaching fun _ => some 4) ml 60 [] hml henough Function.injective_id s hs mem hmem
  obtain rfl := Option.some.inj (hall.symm.trans hw)
  exact ⟨mem, mem', rcpts, s.rests, hfinal, hreleased, List.perm_singleton.mp hclosed⟩

end Example

end SmtpClient.LinkedCleanup
