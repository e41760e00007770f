import SmtpClient.Maildir
import SmtpClient.TailQueues

/-!
Sorting out local mail in memory. The queue of mails and the recipients of each
mail are linked lists, and the two loops of filter_my_mail remove and free
elements while they walk along them. The number given to the loops bounds their
passes. What they leave in memory and the files they move and copy are those of
the list functions that the rest of the program is described with.
-/
namespace SmtpClient.LocalFiltering

open MailTypes Maildir TailQueues

/-- A mail as it lies in memory, with the list of its recipients. -/
structure MailNode where
  fromLine : Bytes
  rcpts : TailQueue ℕ Rcpt
  msg : Bytes
  filename : Bytes

/-- What the loop over the recipients of one mail changes. -/
structure RcptLoop where
  rcpts : TailQueue ℕ Rcpt
  hasLocalRcpt : Bool
  otherRcpts : Bool

/-- What the loop over the mails changes, with what free_mail leaves of the recipients. -/
structure MailLoop where
  ml : TailQueue ℕ MailNode
  actions : List FileAction
  rests : List (TailQueue ℕ Rcpt)

def removeRcpt (r : ℕ) (rcpts : TailQueue ℕ Rcpt) : Option (TailQueue ℕ Rcpt) :=
  (rcpts.remove r).map fun rcpts => rcpts.free r

def visitRcpt (myDomain : Bytes) (r : ℕ) (a : RcptLoop) : Option RcptLoop := do
  let c ← a.rcpts.cells r
  if c.value.domain ≠ myDomain then return { a with otherRcpts := true }
  else return { a with rcpts := ← removeRcpt r a.rcpts, hasLocalRcpt := true }

/-- free_mail on a mail that was taken from its queue. -/
def freeMail (n : ℕ) (m : MailNode) : Option (TailQueue ℕ Rcpt) :=
  foreachSafe id removeRcpt n m.rcpts.first m.rcpts

/-- One pass of the outer loop: the inner loop, then the decision about the mail. -/
def visitMail (n : ℕ) (myDomain : Bytes) (m : ℕ) (s : MailLoop) : Option MailLoop := do
  let c ← s.ml.cells m
  let rcpts := c.value.rcpts
  let a ← foreachSafe RcptLoop.rcpts (visitRcpt myDomain) n rcpts.first ⟨rcpts, false, false⟩
  let node := { c.value with rcpts := a.rcpts }
  let ml ← s.ml.setValue m node
  if !a.otherRcpts then
    let ml ← ml.remove m
    let rest ← freeMail n node
    return ⟨ml.free m, s.actions ++ [.moveMail node.filename .new .cur], s.rests ++ [rest]⟩
  else if a.hasLocalRcpt then
    return ⟨ml, s.actions ++ [.copyMail node.filename .new .cur], s.rests⟩
  else return ⟨ml, s.actions, s.rests⟩

/-- filter_my_mail on the lists as they lie in memory. -/
def filterMailQueue (n : ℕ) (myDomain : Bytes) (ml : TailQueue ℕ MailNode) : Option MailLoop :=
  foreachSafe MailLoop.ml (visitMail n myDomain) n ml.first ⟨ml, [], []⟩

/-- The mail that lies in memory. -/
structure RepresentsMail (node : MailNode) (m : Mail) : Prop where
  fromLine : node.fromLine = m.fromLine
  rcpts : ∃ l, Represents node.rcpts l ∧ l.map Prod.snd = m.rcpts
  msg : node.msg = m.msg
  filename : node.filename = m.filename

/-- A mail at its place in memory. -/
structure StoredMail where
  ptr : ℕ
  node : MailNode
  mail : Mail
  represents : RepresentsMail node mail

def StoredMail.cell (x : StoredMail) : ℕ × MailNode := (x.ptr, x.node)

/-- The queue of mails that lies in memory. -/
def RepresentsMails (ml : TailQueue ℕ MailNode) (mails : List Mail) : Prop :=
  ∃ l : List StoredMail, Represents ml (l.map StoredMail.cell) ∧ l.map StoredMail.mail = mails

def isLocal (myDomain : Bytes) (r : Rcpt) : Bool := decide (r.domain = myDomain)

/-- The mail without its local recipients. -/
def keepRemote (myDomain : Bytes) (m : Mail) : Mail :=
  { m with rcpts := m.rcpts.filter fun r => !isLocal myDomain r }

/-- The file action for a mail. -/
def localActions (myDomain : Bytes) (m : Mail) : List FileAction :=
  if m.rcpts.all (isLocal myDomain) then [.moveMail m.filename .new .cur]
  else if m.rcpts.any (isLocal myDomain) then [.copyMail m.filename .new .cur]
  else []

section RcptLoop

variable (myDomain : Bytes)

/-- What the loop over the recipients keeps between two passes. -/
structure RcptsVisited (done todo : List (ℕ × Rcpt)) (a : RcptLoop) : Prop where
  rcpts : Represents a.rcpts (done.filter (fun x => !isLocal myDomain x.2) ++ todo)
  hasLocalRcpt : a.hasLocalRcpt = done.any fun x => isLocal myDomain x.2
  otherRcpts : a.otherRcpts = done.any fun x => !isLocal myDomain x.2

theorem removeRcpt_spec (rcpts : TailQueue ℕ Rcpt) (l₁ l₂ : List (ℕ × Rcpt)) (x : ℕ × Rcpt)
    (h : Represents rcpts (l₁ ++ x :: l₂)) :
    ∃ rcpts', removeRcpt x.1 rcpts = some rcpts' ∧ Represents rcpts' (l₁ ++ l₂) := by
  obtain ⟨rcpts', hremove, hrep⟩ := h.remove
  refine ⟨rcpts'.free x.1, ?_, hrep⟩
  unfold removeRcpt
  rw [hremove]
  rfl

theorem visitRcpt_spec (done todo : List (ℕ × Rcpt)) (x : ℕ × Rcpt) (a : RcptLoop)
    (h : RcptsVisited myDomain done (x :: todo) a) :
    ∃ a', visitRcpt myDomain x.1 a = some a' ∧ RcptsVisited myDomain (done ++ [x]) todo a' := by
  obtain ⟨t, hcell⟩ := h.rcpts.cell
  by_cases hlocal : x.2.domain = myDomain
  · obtain ⟨rcpts', hremove, hrep⟩ := removeRcpt_spec a.rcpts _ todo x h.rcpts
    refine ⟨⟨rcpts', true, a.otherRcpts⟩, ?_, ?_, ?_, ?_⟩
    · simp [visitRcpt, hcell, hlocal, hremove]
    · simpa [isLocal, hlocal] using hrep
    · simp [isLocal, hlocal]
    · simpa [isLocal, hlocal] using h.otherRcpts
  · refine ⟨⟨a.rcpts, a.hasLocalRcpt, true⟩, ?_, ?_, ?_, ?_⟩
    · simp [visitRcpt, hcell, hlocal]
    · simpa [isLocal, hlocal] using h.rcpts
    · simpa [isLocal, hlocal] using h.hasLocalRcpt
    · simp [isLocal, hlocal]

/-- The loop over the recipients keeps the remote ones. -/
theorem rcptLoop_spec (n : ℕ) (rcpts : TailQueue ℕ Rcpt) (l : List (ℕ × Rcpt))
    (h : Represents rcpts l) (hn : l.length ≤ n) :
    ∃ a, foreachSafe RcptLoop.rcpts (visitRcpt myDomain) n rcpts.first ⟨rcpts, false, false⟩ =
        some a ∧ RcptsVisited myDomain l [] a := by
  have hstart : RcptsVisited myDomain [] l ⟨rcpts, false, false⟩ := ⟨h, rfl, rfl⟩
  have hloop := foreachSafe_rule RcptLoop.rcpts (visitRcpt myDomain) id (RcptsVisited myDomain)
    ?_ (fun done x todo a => visitRcpt_spec myDomain done todo x a) n [] l _ hstart hn
  · rw [h.first]
    simpa using hloop
  · intro done todo a ha
    rw [List.map_id]
    exact ⟨_, ha.rcpts⟩

end RcptLoop

section MailLoop

variable (n : ℕ) (myDomain : Bytes)

def hasRemoteRcpt (m : Mail) : Bool := m.rcpts.any fun r => !isLocal myDomain r

/-- What the loop over the mails keeps between two passes. -/
structure MailsVisited (done todo : List StoredMail) (s : MailLoop) : Prop where
  kept : ∃ kept : List StoredMail, Represents s.ml (kept.map StoredMail.cell ++
      todo.map StoredMail.cell) ∧ kept.map StoredMail.mail =
    ((done.map StoredMail.mail).filter (hasRemoteRcpt myDomain)).map (keepRemote myDomain)
  actions : s.actions = (done.map StoredMail.mail).flatMap (localActions myDomain)
  fits : ∀ x ∈ todo, x.mail.rcpts.length ≤ n

theorem all_isLocal_iff (m : Mail) :
    m.rcpts.all (isLocal myDomain) = true ↔ hasRemoteRcpt myDomain m = false := by
  simp [hasRemoteRcpt]

/-- A mail without recipients is freed at once. -/
theorem freeMail_empty (node : MailNode) (h : Represents node.rcpts []) :
    freeMail n node = some node.rcpts := by
  have hfirst : node.rcpts.first = none := h.first
  unfold freeMail
  rw [hfirst]
  cases n <;> rfl

/-- The inner loop leaves a mail without its local recipients, and what it tells. -/
theorem rcptLoop_mail (node : MailNode) (m : Mail) (h : RepresentsMail node m)
    (hn : m.rcpts.length ≤ n) :
    ∃ a, foreachSafe RcptLoop.rcpts (visitRcpt myDomain) n node.rcpts.first
        ⟨node.rcpts, false, false⟩ = some a ∧
      RepresentsMail { node with rcpts := a.rcpts } (keepRemote myDomain m) ∧
      a.otherRcpts = hasRemoteRcpt myDomain m ∧
      a.hasLocalRcpt = m.rcpts.any (isLocal myDomain) := by
  obtain ⟨l, hl, hrcpts⟩ := h.rcpts
  have hlen : l.length ≤ n := by
    rw [← hrcpts, List.length_map] at hn
    exact hn
  obtain ⟨a, hloop, ha⟩ := rcptLoop_spec myDomain n node.rcpts l hl hlen
  have hleft := ha.rcpts
  rw [List.append_nil] at hleft
  refine ⟨a, hloop, ⟨h.fromLine, ⟨_, hleft, ?_⟩, h.msg, h.filename⟩, ?_, ?_⟩
  · rw [keepRemote, ← hrcpts, List.filter_map]
    rfl
  · rw [ha.otherRcpts, hasRemoteRcpt, ← hrcpts, List.any_map]
    rfl
  · rw [ha.hasLocalRcpt, ← hrcpts, List.any_map]
    rfl

/-- A mail for local recipients only has no recipients left. -/
theorem keepRemote_rcpts_nil (m : Mail) (h : hasRemoteRcpt myDomain m = false) :
    (keepRemote myDomain m).rcpts = [] := by
  have hall := List.all_eq_true.mp ((all_isLocal_iff myDomain m).mpr h)
  apply List.filter_eq_nil_iff.mpr
  intro r hr
  simp [hall r hr]

theorem RepresentsMail.no_rcpts {node : MailNode} {m : Mail} (h : RepresentsMail node m)
    (hnil : m.rcpts = []) : Represents node.rcpts [] := by
  obtain ⟨l, hl, hrcpts⟩ := h.rcpts
  rw [hnil, List.map_eq_nil_iff] at hrcpts
  exact hrcpts ▸ hl

theorem visitMail_spec (done todo : List StoredMail) (x : StoredMail) (s : MailLoop)
    (h : MailsVisited n myDomain done (x :: todo) s) :
    ∃ s', visitMail n myDomain x.ptr s = some s' ∧
      MailsVisited n myDomain (done ++ [x]) todo s' := by
  obtain ⟨kept, hkept, hmails⟩ := h.kept
  obtain ⟨t, hcell⟩ := hkept.cell
  obtain ⟨a, hloop, hleft, hother, hlocal⟩ :=
    rcptLoop_mail n myDomain x.node x.mail x.represents (h.fits x List.mem_cons_self)
  obtain ⟨ml, hset, hml⟩ := hkept.setValue { x.node with rcpts := a.rcpts }
  have hfits : ∀ y ∈ todo, y.mail.rcpts.length ≤ n := by
    intro y hy
    exact h.fits y (List.mem_cons_of_mem x hy)
  have hactions : ((done ++ [x]).map StoredMail.mail).flatMap (localActions myDomain) =
      s.actions ++ localActions myDomain x.mail := by
    rw [h.actions, List.map_append, List.flatMap_append, List.map_singleton,
      List.flatMap_singleton]
  cases hremote : hasRemoteRcpt myDomain x.mail with
  | false =>
    -- all recipients are local: the mail leaves the queue
    have hall := (all_isLocal_iff myDomain x.mail).mpr hremote
    have hfree := freeMail_empty n { x.node with rcpts := a.rcpts }
      (hleft.no_rcpts (keepRemote_rcpts_nil myDomain x.mail hremote))
    obtain ⟨ml', hremove, hml'⟩ := hml.remove
    refine ⟨⟨ml'.free x.ptr, s.actions ++ [.moveMail x.node.filename .new .cur],
      s.rests ++ [a.rcpts]⟩, ?_, ?_, ?_, hfits⟩
    · simp [visitMail, hcell, hloop, hset, hother, hremote, hremove, hfree]
    · refine ⟨kept, hml', ?_⟩
      rw [hmails, List.map_append, List.filter_append]
      simp [hremote]
    · rw [hactions, x.represents.filename]
      simp [localActions, hall]
  | true =>
    have hall : x.mail.rcpts.all (isLocal myDomain) = false := by
      rw [← Bool.not_eq_true, all_isLocal_iff, hremote]
      decide
    let x' : StoredMail :=
      ⟨x.ptr, { x.node with rcpts := a.rcpts }, keepRemote myDomain x.mail, hleft⟩
    have hstored : Represents ml ((kept ++ [x']).map StoredMail.cell ++
        todo.map StoredMail.cell) := by
      rw [List.map_append, List.append_assoc]
      exact hml
    have hqueue : (kept ++ [x']).map StoredMail.mail =
        (((done ++ [x]).map StoredMail.mail).filter (hasRemoteRcpt myDomain)).map
          (keepRemote myDomain) := by
      rw [List.map_append, hmails, List.map_append, List.filter_append, List.map_append]
      simp [hremote, x']
    cases hcopy : x.mail.rcpts.any (isLocal myDomain) with
    | true =>
      refine ⟨⟨ml, s.actions ++ [.copyMail x.node.filename .new .cur], s.rests⟩, ?_,
        ⟨kept ++ [x'], hstored, hqueue⟩, ?_, hfits⟩
      · simp [visitMail, hcell, hloop, hset, hother, hremote, hlocal, hcopy]
      · rw [hactions, x.represents.filename]
        simp [localActions, hall, hcopy]
    | false =>
      refine ⟨⟨ml, s.actions, s.rests⟩, ?_, ⟨kept ++ [x'], hstored, hqueue⟩, ?_, hfits⟩
      · simp [visitMail, hcell, hloop, hset, hother, hremote, hlocal, hcopy]
      · rw [hactions]
        simp [localActions, hall, hcopy]

end MailLoop

section ListFunctions

variable (myDomain : Bytes)

theorem foldl_visit (rs kept : List Rcpt) (hasLocal other : Bool) :
    rs.foldl (RcptFilter.visit myDomain) ⟨kept, hasLocal, other⟩ =
      ⟨kept ++ rs.filter (fun r => !isLocal myDomain r), hasLocal || rs.any (isLocal myDomain),
        other || rs.any fun r => !isLocal myDomain r⟩ := by
  induction rs generalizing kept hasLocal other with
  | nil => simp
  | cons r rs ih =>
    rw [List.foldl_cons]
    by_cases hlocal : r.domain = myDomain
    · simp [RcptFilter.visit, hlocal, ih, isLocal]
    · simp [RcptFilter.visit, hlocal, ih, isLocal]

theorem filterMail_eq (m : Mail) : filterMail myDomain m =
    (if hasRemoteRcpt myDomain m then some (keepRemote myDomain m) else none,
      localActions myDomain m) := by
  unfold filterMail
  simp only [foldl_visit, List.nil_append, Bool.false_or]
  cases hremote : hasRemoteRcpt myDomain m with
  | false =>
    have hall := (all_isLocal_iff myDomain m).mpr hremote
    unfold hasRemoteRcpt at hremote
    simp [hremote, localActions, hall]
  | true =>
    have hall : m.rcpts.all (isLocal myDomain) = false := by
      rw [← Bool.not_eq_true, all_isLocal_iff, hremote]
      decide
    unfold hasRemoteRcpt at hremote
    cases hcopy : m.rcpts.any (isLocal myDomain) <;>
      simp [hremote, localActions, hall, hcopy, keepRemote]

theorem filterMyMail_eq (mails : List Mail) : filterMyMail myDomain mails =
    ((mails.filter (hasRemoteRcpt myDomain)).map (keepRemote myDomain),
      mails.flatMap (localActions myDomain)) := by
  unfold filterMyMail
  simp only [filterMail_eq]
  congr 1
  induction mails with
  | nil => rfl
  | cons m mails ih =>
    cases hremote : hasRemoteRcpt myDomain m <;> simp [hremote, ih]

end ListFunctions

theorem exists_representsMails (mails : List Mail) : ∃ ml, RepresentsMails ml mails := by
  have hnode : ∀ m : Mail, ∃ node, RepresentsMail node m := by
    intro m
    obtain ⟨rcpts, l, hrcpts, hl⟩ := exists_represents id m.rcpts
    exact ⟨⟨m.fromLine, rcpts, m.msg, m.filename⟩, rfl, ⟨_, hrcpts, by simpa using hl⟩, rfl, rfl⟩
  choose node hnode using hnode
  obtain ⟨ml, l, hml, hl⟩ := exists_represents node mails
  refine ⟨ml, l.map fun x => ⟨x.1, node x.2, x.2, hnode x.2⟩, ?_, ?_⟩
  · rw [List.map_map]
    exact hml
  · rw [List.map_map]
    exact hl

/-- The loops of filter_my_mail leave in memory exactly the mails with a remote
recipient in their order, each with its remote recipients in their order, and
they perform one move for a mail without remote recipients, one copy for a mail
with recipients of both kinds, and nothing for the others. -/
theorem filterMailQueue_spec (n : ℕ) (myDomain : Bytes) (ml : TailQueue ℕ MailNode)
    (mails : List Mail) (h : RepresentsMails ml mails) (hn : mails.length ≤ n)
    (hrcpts : ∀ m ∈ mails, m.rcpts.length ≤ n) :
    ∃ s, filterMailQueue n myDomain ml = some s ∧
      RepresentsMails s.ml
        ((mails.filter (hasRemoteRcpt myDomain)).map (keepRemote myDomain)) ∧
      s.actions = mails.flatMap (localActions myDomain) ∧
      filterMyMail myDomain mails =
        ((mails.filter (hasRemoteRcpt myDomain)).map (keepRemote myDomain), s.actions) := by
  obtain ⟨l, hl, rfl⟩ := h
  have hstart : MailsVisited n myDomain [] l ⟨ml, [], []⟩ := by
    refine ⟨⟨[], hl, rfl⟩, rfl, ?_⟩
    intro x hx
    exact hrcpts x.mail (List.mem_map_of_mem hx)
  have hloop := foreachSafe_rule MailLoop.ml (visitMail n myDomain) StoredMail.cell
    (MailsVisited n myDomain) ?_
    (fun done x todo s => visitMail_spec n myDomain done todo x s) n [] l _ hstart
    (by simpa using hn)
  · obtain ⟨s, hs, hend⟩ := hloop
    obtain ⟨kept, hkept, hmails⟩ := hend.kept
    refine ⟨s, ?_, ⟨kept, by simpa using hkept, hmails⟩, hend.actions, ?_⟩
    · unfold filterMailQueue
      rw [hl.first]
      exact hs
    · rw [filterMyMail_eq, hend.actions]
      rfl
  · intro done todo s hs
    obtain ⟨kept, hkept, -⟩ := hs.kept
    exact ⟨_, hkept⟩

/-- A mail with a local and a remote recipient, and one for local recipients only. -/
theorem filterMailQueue_spec_two_mails :
    ∃ ml s, RepresentsMails ml
        [⟨bytes "MAIL FROM: <a@b>\r\n", [⟨bytes "c@d", bytes "d"⟩, ⟨bytes "e@b", bytes "b"⟩],
          bytes ".\r\n", bytes "1"⟩,
        ⟨bytes "MAIL FROM: <a@b>\r\n", [⟨bytes "e@b", bytes "b"⟩], bytes ".\r\n", bytes "2"⟩] ∧
      filterMailQueue 2 (bytes "b") ml = some s ∧
      RepresentsMails s.ml
        [⟨bytes "MAIL FROM: <a@b>\r\n", [⟨bytes "c@d", bytes "d"⟩], bytes ".\r\n", bytes "1"⟩] ∧
      s.actions = [.copyMail (bytes "1") .new .cur, .moveMail (bytes "2") .new .cur] := by
  obtain ⟨ml, hml⟩ := exists_representsMails
    [⟨bytes "MAIL FROM: <a@b>\r\n", [⟨bytes "c@d", bytes "d"⟩, ⟨bytes "e@b", bytes "b"⟩],
      bytes ".\r\n", bytes "1"⟩,
    ⟨bytes "MAIL FROM: <a@b>\r\n", [⟨bytes "e@b", bytes "b"⟩], bytes ".\r\n", bytes "2"⟩]
  obtain ⟨s, hs, hleft, hactions, -⟩ :=
    filterMailQueue_spec 2 (bytes "b") ml _ hml (by decide) (by decide)
  exact ⟨ml, s, hml, hs, hleft, hactions⟩

end SmtpClient.LocalFiltering
