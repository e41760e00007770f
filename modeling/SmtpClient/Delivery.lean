import SmtpClient.Acceptance
import SmtpClient.Coverage
import SmtpClient.DataFraming
import SmtpClient.LocalFiltering
import SmtpClient.RcptLines
import SmtpClient.TextStreams

/-!
What a server makes of the bytes of a session. It reads command lines and texts, and
with each text it takes an envelope: the sender line, the recipients named since then
and the text. Mails that were read from files arrive as the envelopes that stand in the
files, whatever part of the stream has arrived.
-/
namespace SmtpClient.Delivery

open MailTypes Queues Backtracking Regexp LineReading ClosingLine Maildir HeaderLines SeenLines
open MailGrammar RcptLines SendCommands Dialogues SessionScript ScriptOrder MxLookup Connections
open EventLoop Passes TransferInvariant Setup Coverage Acceptance DataFraming LocalFiltering
open TextStreams

inductive Verb
  | mail | rcpt | data | other
deriving DecidableEq, Repr

/-- The verb of a command line, in letters of either case. -/
def verbOf (l : Bytes) : Verb :=
  let letters := (l.take 4).map toLower
  if letters = bytes "mail" then .mail
  else if letters = bytes "rcpt" then .rcpt
  else if letters = bytes "data" then .data
  else .other

def announcesText (l : Bytes) : Bool := decide (verbOf l = .data)

structure Envelope where
  sender : Bytes
  rcpts : List Rcpt
  text : Bytes
deriving DecidableEq, Repr

structure Server where
  sender : Bytes
  rcpts : List Rcpt
  delivered : List Envelope

/-- What a server does with a command line or with a text. -/
def Server.take (a : Server) : Item UInt8 → Server
  | .line l =>
    match verbOf l with
    | .mail => { a with sender := l, rcpts := [] }
    | .rcpt => { a with rcpts := a.rcpts ++ [rcptOfLine l] }
    | _ => a
  | .text t => ⟨[], [], a.delivered ++ [⟨a.sender, a.rcpts, t⟩]⟩

def serve (items : List (Item UInt8)) : Server := items.foldl Server.take ⟨[], [], []⟩

/-- The envelopes that a server has taken when these bytes have arrived. -/
def delivered (s : Bytes) : List Envelope :=
  (serve (Receiver.start.putAll newline crlf dotLine announcesText s).taken).delivered

/-- The bytes that were sent on connection p. -/
def wire (w : World) (p : ℕ) : Bytes := (sentOn w p).flatMap Sent.text

/-- The mail as it is meant for a domain. -/
def envelope (d : Domain) (m : Mail) : Envelope :=
  ⟨m.fromLine, m.rcpts.filter fun r => decide (r.domain = d.name), m.msg⟩

/-- The envelopes for a domain, in the order of the queue. -/
def envelopes (mails : List Mail) (d : Domain) : List Envelope :=
  (mails.filter fun m => decide (∃ r ∈ m.rcpts, r.domain = d.name)).map (envelope d)

/-- The mails whose texts were sent. -/
def textsOf (cs : List Sent) : List ℕ := cs.filterMap fun x => Command.text? x.command

def itemOf (x : Sent) : Item UInt8 :=
  match x.command with
  | .datastr _ => .text x.text
  | _ => .line x.text

/-- A mail of the queue as it was read from a file, with a text that is one message. -/
structure FromFile (myDomain : Bytes) (m : Mail) : Prop where
  read : ∃ filename f m₀, (readMailFile filename (some f)).1 = some m₀ ∧
    (filterMail myDomain m₀).1 = some m
  framed : Framed m.msg

/-- What the session needs to know of a mail. -/
structure Sendable (m : Mail) : Prop where
  sender : IsLine newline m.fromLine ∧ verbOf m.fromLine = .mail
  rcpts : ∀ r ∈ m.rcpts, newline ∉ r.name ∧ rcptOfLine (msgRcptto r.name) = r
  framed : Framed m.msg

section Files

theorem verbOf_mailFrom (l : Bytes) (h : reMatch .reMailFrom l = true) : verbOf l = .mail := by
  obtain ⟨t, r, rfl, ht⟩ := (reMatch_anchored .reMailFrom _ l rfl).mp h
  rw [reads_chain_cons] at ht
  obtain ⟨w, s, rfl, hw, -⟩ := ht
  have hletters : ((w ++ s ++ r).take 4).map toLower = bytes "mail" := by
    rw [List.append_assoc, List.map_take, List.map_append, (reads_word_toLower _ _ _).mp hw]
    rfl
  unfold verbOf
  simp only [hletters, if_true]

theorem verbOf_msgRcptto (name : Bytes) : verbOf (msgRcptto name) = .rcpt := rfl

/-- The command for a recipient that was read is read as the same recipient. -/
theorem rcptOfLine_msgRcptto (l : Bytes) (h : SeenLine .reRcptTo l) :
    newline ∉ (rcptOfLine l).name ∧ rcptOfLine (msgRcptto (rcptOfLine l).name) = rcptOfLine l := by
  obtain ⟨name, a, d, hname, hsplit, hnl, hto, hdomain⟩ := captured_rcpt l h.line h.matched
  have hread : rcptOfLine l = ⟨name, d⟩ := by rw [rcptOfLine_eq l h.matched h.no_nul, hto, hdomain]
  have hmatch := reMatch_of_bracketed (bracketed_msgRcptto name) hsplit hnl
  have hnul : 0 ∉ msgRcptto name := by
    unfold msgRcptto
    rw [List.mem_append, List.mem_append, not_or, not_or]
    refine ⟨⟨by decide, ?_⟩, by decide⟩
    intro hmem
    obtain ⟨w, sp, rfl, -⟩ := hname
    exact h.no_nul (by simp [hmem])
  obtain ⟨name', a', d', hname', hsplit', -, hto', hdomain'⟩ :=
    captured_rcpt (msgRcptto name) (isLine_msgRcptto name hnl) hmatch
  obtain rfl := hname'.unique (bracketed_msgRcptto name)
  obtain ⟨-, rfl⟩ := hsplit'.unique hsplit
  rw [hread]
  exact ⟨hnl, by rw [rcptOfLine_eq _ hmatch hnul, hto', hdomain']⟩

theorem FromFile.sendable {myDomain : Bytes} {m : Mail} (h : FromFile myDomain m) : Sendable m := by
  obtain ⟨filename, f, m₀, hread, hfilter⟩ := h.read
  have haccepted : ∃ l rs body, Accepted f l rs body ∧
      m₀ = ⟨l, rs.map rcptOfLine, MailData.textOf body, filename⟩ := by
    obtain ⟨l, rs, body, hacc, -⟩ := accepted_of_readMailFile filename f m₀ hread
    rw [readMailFile_of_accepted filename f l rs body hacc] at hread
    exact ⟨l, rs, body, hacc, (Option.some.inj hread).symm⟩
  obtain ⟨l, rs, body, hacc, rfl⟩ := haccepted
  rw [filterMail_eq] at hfilter
  simp only at hfilter
  split at hfilter
  · obtain rfl := Option.some.inj hfilter
    refine ⟨⟨hacc.mailFrom.line, verbOf_mailFrom l hacc.mailFrom.matched⟩, ?_, h.framed⟩
    intro r hr
    obtain ⟨k, hk, rfl⟩ := List.mem_map.mp (List.mem_of_mem_filter hr)
    exact rcptOfLine_msgRcptto k (hacc.rcpts k hk)
  · cases hfilter

end Files

section Items

variable (mails : List Mail) (d : Domain)

theorem symbols_itemOf (x : Sent) : (itemOf x).symbols = x.text := by
  obtain ⟨command, text⟩ := x
  cases command <;> rfl

theorem flatMap_symbols (cs : List Sent) :
    (cs.map itemOf).flatMap Item.symbols = cs.flatMap Sent.text := by
  rw [List.flatMap_map]
  exact List.flatMap_congr fun x _ => symbols_itemOf x

/-- The recipients of a mail can follow its sender, and more recipients or DATA them. -/
theorem follows_rcpts (i : ℕ) (rs : List (Rcpt × ℕ)) (rest : List (Item UInt8))
    (hrs : ∀ x ∈ rs, newline ∉ x.1.name)
    (h : Follows newline crlf dotLine announcesText false rest) :
    Follows newline crlf dotLine announcesText false
      ((rs.map fun x => itemOf ⟨.rcptto i x.2, msgRcptto x.1.name⟩) ++ rest) := by
  induction rs with
  | nil => exact h
  | cons x rs ih =>
    rw [List.forall_mem_cons] at hrs
    exact .line _ _ (isLine_msgRcptto x.1.name hrs.1) (ih hrs.2)

theorem follows_mail (m : Mail) (i : ℕ) (rest : List (Item UInt8)) (hm : Sendable m)
    (h : Follows newline crlf dotLine announcesText false rest) :
    Follows newline crlf dotLine announcesText false
      ((mailCommands d (m, i)).map itemOf ++ rest) := by
  have hdata : Follows newline crlf dotLine announcesText false
      (.line msgData :: .text m.msg :: rest) :=
    .line msgData _ ⟨bytes "DATA\r", rfl, by decide⟩ (.text m.msg rest hm.framed h)
  have hrcpts := follows_rcpts i (rcptsFrom d m 0) _ (fun x hx => ?_) hdata
  · have hannounce : announcesText m.fromLine = false := by
      unfold announcesText
      rw [hm.sender.2]
      rfl
    rw [← hannounce] at hrcpts
    have hall := Follows.line m.fromLine _ hm.sender.1 hrcpts
    rw [mailCommands_eq]
    simpa [itemOf, Function.comp_def] using hall
  · obtain ⟨r, j⟩ := x
    obtain ⟨hr, -⟩ := (mem_rcptsFrom_zero d m r j).mp hx
    exact (hm.rcpts r (List.mem_of_getElem? hr)).1

/-- The commands of a session are lines and texts that a receiver can tell apart. -/
theorem follows_script (h : ∀ m ∈ mails, Sendable m) :
    Follows newline crlf dotLine announcesText false ((scriptCommands mails d).map itemOf) := by
  have hquit : Follows newline crlf dotLine announcesText false [.line msgQuit] :=
    .line msgQuit [] ⟨bytes "QUIT\r", rfl, by decide⟩ (.nil _)
  have hqueue : ∀ l : List (Mail × ℕ), (∀ x ∈ l, Sendable x.1) →
      Follows newline crlf dotLine announcesText false
        ((l.flatMap (mailCommands d)).map itemOf ++ [.line msgQuit]) := by
    intro l hl
    induction l with
    | nil => exact hquit
    | cons x l ih =>
      rw [List.forall_mem_cons] at hl
      rw [List.flatMap_cons, List.map_append, List.append_assoc]
      exact follows_mail d x.1 x.2 _ hl.1 (ih hl.2)
  rw [scriptCommands_eq, List.map_cons, List.map_append]
  refine .line msgHelo _ ⟨bytes "HELO quint.nope\r", rfl, by decide⟩ (hqueue _ ?_)
  intro x hx
  obtain ⟨hget, -⟩ := (mem_mailsFrom_zero mails d x.1 x.2).mp hx
  exact h x.1 (List.mem_of_getElem? hget)

end Items

section Envelopes

variable (mails : List Mail) (d : Domain)

theorem serve_append (a b : List (Item UInt8)) : serve (a ++ b) = b.foldl Server.take (serve a) :=
  List.foldl_append

/-- An envelope that was taken stays. -/
theorem delivered_foldl_prefix (a : Server) (items : List (Item UInt8)) :
    a.delivered <+: (items.foldl Server.take a).delivered := by
  induction items generalizing a with
  | nil => exact List.prefix_rfl
  | cons x items ih =>
    refine List.IsPrefix.trans ?_ (ih (a.take x))
    cases x with
    | line l =>
      simp only [Server.take]
      split <;> exact List.prefix_rfl
    | text t => exact List.prefix_append _ _

/-- One envelope is taken for each text. -/
theorem delivered_foldl_length (a : Server) (cs : List Sent) :
    ((cs.map itemOf).foldl Server.take a).delivered.length =
      a.delivered.length + (textsOf cs).length := by
  induction cs generalizing a with
  | nil => rfl
  | cons x cs ih =>
    rw [List.map_cons, List.foldl_cons, ih]
    obtain ⟨command, text⟩ := x
    have hline : (a.take (.line text)).delivered = a.delivered := by
      simp only [Server.take]
      split <;> rfl
    cases command with
    | datastr i =>
      change (a.delivered ++ [_]).length + _ = _ + (i :: textsOf cs).length
      rw [List.length_append, List.length_singleton, List.length_cons]
      omega
    | helo => exact congrArg (fun l => List.length l + _) hline
    | mailfrom i => exact congrArg (fun l => List.length l + _) hline
    | rcptto i j => exact congrArg (fun l => List.length l + _) hline
    | data => exact congrArg (fun l => List.length l + _) hline
    | quit => exact congrArg (fun l => List.length l + _) hline

theorem foldl_rcpts (i : ℕ) (rs : List (Rcpt × ℕ)) (a : Server)
    (hrs : ∀ x ∈ rs, rcptOfLine (msgRcptto x.1.name) = x.1) :
    (rs.map fun x => itemOf ⟨.rcptto i x.2, msgRcptto x.1.name⟩).foldl Server.take a =
      { a with rcpts := a.rcpts ++ rs.map Prod.fst } := by
  induction rs generalizing a with
  | nil => rw [List.map_nil, List.map_nil, List.append_nil]; rfl
  | cons x rs ih =>
    rw [List.forall_mem_cons] at hrs
    have htake : a.take (itemOf ⟨.rcptto i x.2, msgRcptto x.1.name⟩) =
        { a with rcpts := a.rcpts ++ [x.1] } := by
      simp only [itemOf, Server.take, verbOf_msgRcptto, hrs.1]
    rw [List.map_cons, List.foldl_cons, htake, ih _ hrs.2, List.map_cons, List.append_assoc]
    rfl

theorem pending_map_fst {α : Type*} (p : α → Bool) (l : List α) :
    (pending p l 0).map Prod.fst = l.filter p := by
  unfold pending
  rw [List.drop_zero]
  have hfilter := List.filter_map (f := Prod.fst) (p := p) (l := l.zipIdx)
  rw [List.zipIdx_map_fst] at hfilter
  exact hfilter.symm

/-- The commands of a mail make a server take its envelope. -/
theorem foldl_mail (m : Mail) (i : ℕ) (a : Server) (hm : Sendable m) :
    ((mailCommands d (m, i)).map itemOf).foldl Server.take a =
      ⟨[], [], a.delivered ++ [envelope d m]⟩ := by
  have hstart : a.take (itemOf ⟨.mailfrom i, m.fromLine⟩) = ⟨m.fromLine, [], a.delivered⟩ := by
    simp only [itemOf, Server.take, hm.sender.2]
  have hrcpts := foldl_rcpts i (rcptsFrom d m 0) ⟨m.fromLine, [], a.delivered⟩ (fun x hx => ?_)
  · rw [mailCommands_eq, List.map_cons, List.foldl_cons, hstart, List.map_append, List.map_map,
      List.foldl_append]
    simp only [Function.comp_def, hrcpts, List.nil_append]
    rw [rcptsFrom, pending_map_fst]
    rfl
  · obtain ⟨r, j⟩ := x
    obtain ⟨hr, -⟩ := (mem_rcptsFrom_zero d m r j).mp hx
    exact (hm.rcpts r (List.mem_of_getElem? hr)).2

theorem serve_script (h : ∀ m ∈ mails, Sendable m) :
    (serve ((scriptCommands mails d).map itemOf)).delivered = envelopes mails d := by
  have hqueue : ∀ (l : List (Mail × ℕ)) (a : Server), (∀ x ∈ l, Sendable x.1) →
      (((l.flatMap (mailCommands d)).map itemOf).foldl Server.take a).delivered =
        a.delivered ++ l.map fun x => envelope d x.1 := by
    intro l a hl
    induction l generalizing a with
    | nil => exact (List.append_nil _).symm
    | cons x l ih =>
      rw [List.forall_mem_cons] at hl
      rw [List.flatMap_cons, List.map_append, List.foldl_append, foldl_mail d x.1 x.2 a hl.1,
        ih _ hl.2, List.map_cons, List.append_assoc]
      rfl
  have hsendable : ∀ x ∈ mailsFrom d mails 0, Sendable x.1 := by
    intro x hx
    obtain ⟨hget, -⟩ := (mem_mailsFrom_zero mails d x.1 x.2).mp hx
    exact h x.1 (List.mem_of_getElem? hget)
  rw [scriptCommands_eq, List.map_cons, List.map_append, ← List.cons_append, serve_append]
  change ((((mailsFrom d mails 0).flatMap (mailCommands d)).map itemOf).foldl Server.take
    ⟨[], [], []⟩).delivered = _
  rw [hqueue _ _ hsendable, List.nil_append, envelopes, ← pending_map_fst, List.map_map]
  rfl

theorem textsOf_append (a b : List Sent) : textsOf (a ++ b) = textsOf a ++ textsOf b :=
  List.filterMap_append

theorem textsOf_script : textsOf (scriptCommands mails d) = (mailsFrom d mails 0).map Prod.snd := by
  have hmail : ∀ x : Mail × ℕ, textsOf (mailCommands d x) = [x.2] := by
    intro x
    have hrcpts : textsOf ((rcptsFrom d x.1 0).map
        fun y => ⟨.rcptto x.2 y.2, msgRcptto y.1.name⟩) = [] := by
      apply List.filterMap_eq_nil_iff.mpr
      intro y hy
      obtain ⟨z, -, rfl⟩ := List.mem_map.mp hy
      rfl
    rw [show mailCommands d x = mailCommands d (x.1, x.2) from rfl, mailCommands_eq]
    change textsOf (_ ++ _) = _
    rw [textsOf_append, hrcpts]
    rfl
  rw [scriptCommands_eq]
  change textsOf (_ ++ _) = _
  rw [textsOf_append]
  change textsOf ((mailsFrom d mails 0).flatMap (mailCommands d)) ++ [] = _
  rw [List.append_nil]
  induction mailsFrom d mails 0 with
  | nil => rfl
  | cons x l ih => rw [List.flatMap_cons, textsOf_append, hmail, ih]; rfl

end Envelopes

section Sessions

variable (mails : List Mail) (d : Domain)

theorem follows_beginning (h : ∀ m ∈ mails, Sendable m) (cs : List Sent)
    (hcs : cs <+: scriptCommands mails d) :
    Follows newline crlf dotLine announcesText false (cs.map itemOf) := by
  have hall := follows_script mails d h
  obtain ⟨rest, hrest⟩ := hcs
  rw [← hrest, List.map_append] at hall
  exact hall.of_append

/-- The beginning of a session delivers one envelope for each text in it. -/
theorem serve_prefix (h : ∀ m ∈ mails, Sendable m) (cs : List Sent)
    (hcs : cs <+: scriptCommands mails d) :
    (serve (cs.map itemOf)).delivered = (envelopes mails d).take (textsOf cs).length ∧
      textsOf cs = ((mailsFrom d mails 0).take (textsOf cs).length).map Prod.snd := by
  have hserve : (serve (cs.map itemOf)).delivered <+: envelopes mails d := by
    obtain ⟨rest, hrest⟩ := hcs
    rw [← serve_script mails d h, ← hrest, List.map_append, serve_append]
    exact delivered_foldl_prefix _ _
  have htexts : textsOf cs <+: (mailsFrom d mails 0).map Prod.snd := by
    obtain ⟨rest, hrest⟩ := hcs
    rw [← textsOf_script, ← hrest, textsOf_append]
    exact List.prefix_append _ _
  have hlen : (serve (cs.map itemOf)).delivered.length = (textsOf cs).length := by
    have hcount := delivered_foldl_length ⟨[], [], []⟩ cs
    rw [List.length_nil, Nat.zero_add] at hcount
    exact hcount
  constructor
  · rw [← hlen]
    exact List.prefix_iff_eq_take.mp hserve
  · rw [List.map_take]
    exact List.prefix_iff_eq_take.mp htexts

theorem delivered_commands (h : ∀ m ∈ mails, Sendable m) (cs : List Sent)
    (hcs : cs <+: scriptCommands mails d) :
    delivered (cs.flatMap Sent.text) = (serve (cs.map itemOf)).delivered := by
  have hitems := putAll_items newline crlf dotLine announcesText [] (List.cons_ne_nil _ _) _ _
    (follows_beginning mails d h cs hcs)
  rw [flatMap_symbols, List.nil_append] at hitems
  unfold delivered
  rw [← hitems]
  rfl

/-- More bytes never take an envelope back. -/
theorem delivered_mono (s t : Bytes) (h : s <+: t) : delivered s <+: delivered t := by
  obtain ⟨rest, rfl⟩ := h
  obtain ⟨more, hmore⟩ := taken_putAll_prefix newline crlf dotLine announcesText
    (Receiver.start.putAll newline crlf dotLine announcesText s) rest
  unfold delivered
  rw [putAll_append, ← hmore, serve_append]
  exact delivered_foldl_prefix _ _

end Sessions

section Transfer

variable (myDomain : Bytes) (net : Net) (mails : List Mail) (timeout : ℤ)
  (inps : List PassInput) (w : World)

/-- At every moment the bytes that have arrived from a connection are, for a server, the
first envelopes of its domain, one for each text that was sent. A connection that is
done has delivered all of them. -/
theorem delivered_envelopes (h : transfer myDomain net mails timeout inps = some w)
    (hmails : ∀ m ∈ mails, FromFile myDomain m) (p : ℕ) (c : MxConn) (hc : w.conns[p]? = some c) :
    (∀ s, s <+: wire w p → delivered s <+: envelopes mails c.dom) ∧
    delivered (wire w p) = (envelopes mails c.dom).take (textsOf (sentOn w p)).length ∧
    (c.state = .done → delivered (wire w p) = envelopes mails c.dom) := by
  obtain ⟨⟨hsound, -⟩, rfl, -⟩ := transfer_sound myDomain net mails timeout inps w h
  have hsend : ∀ m ∈ w.mails, Sendable m := fun m hm => (hmails m hm).sendable
  have hpre := sentOn_prefix w hsound p c hc
  have hwire : delivered (wire w p) = (serve ((sentOn w p).map itemOf)).delivered :=
    delivered_commands w.mails c.dom hsend (sentOn w p) hpre
  obtain ⟨hserve, -⟩ := serve_prefix w.mails c.dom hsend (sentOn w p) hpre
  refine ⟨?_, hwire.trans hserve, ?_⟩
  · intro s hs
    refine (delivered_mono s (wire w p) hs).trans ?_
    rw [hwire, hserve]
    exact List.take_prefix _ _
  · intro hdone
    rw [hwire, sentOn_done w hsound p c hc hdone]
    exact serve_script w.mails c.dom hsend

/-- A mail whose file is deleted was delivered: some server that has accepted its text
has taken its envelope. -/
theorem deleted_delivered (h : transfer myDomain net mails timeout inps = some w)
    (hmails : ∀ m ∈ mails, FromFile myDomain m) (i : ℕ) (m : Mail) (hm : mails[i]? = some m)
    (hdeleted : (finishMail w)[i]? = some (.deleteMail m.filename .new)) :
    ∃ p c, w.conns[p]? = some c ∧ AcceptedBy w p i ∧
      envelope c.dom m ∈ delivered (wire w p) := by
  obtain ⟨⟨hsound, -⟩, rfl, -⟩ := transfer_sound myDomain net mails timeout inps w h
  have hsend : ∀ m ∈ w.mails, Sendable m := fun m hm => (hmails m hm).sendable
  have hsent : w.wasSent i = true := by
    rw [getElem?_finishMail w i m hm] at hdeleted
    by_contra hnot
    rw [if_neg hnot] at hdeleted
    cases hdeleted
  obtain ⟨p, hp⟩ := (hsound.marks i).mp hsent
  obtain ⟨c, -, hc, -⟩ := acceptedBy_conn w hsound p i hp
  refine ⟨p, c, hc, hp, ?_⟩
  obtain ⟨before, hbefore, htext⟩ := hp
  obtain ⟨text, hsaid⟩ := lastText_mem before i htext
  have hmem : ⟨.datastr i, text⟩ ∈ sentOn w p :=
    (mem_saidOf _ _).mpr (hbefore.subset (List.mem_append_left _ hsaid))
  have hi : i ∈ textsOf (sentOn w p) := List.mem_filterMap.mpr ⟨_, hmem, rfl⟩
  have hpre := sentOn_prefix w hsound p c hc
  obtain ⟨hserve, htexts⟩ := serve_prefix w.mails c.dom hsend (sentOn w p) hpre
  rw [htexts] at hi
  obtain ⟨⟨m', k⟩, hmail, rfl⟩ := List.mem_map.mp hi
  obtain ⟨hget, -⟩ := (mem_mailsFrom_zero w.mails c.dom m' _).mp (List.mem_of_mem_take hmail)
  obtain rfl := Option.some.inj (hm.symm.trans hget)
  have hwire : delivered (wire w p) = (serve ((sentOn w p).map itemOf)).delivered :=
    delivered_commands w.mails c.dom hsend (sentOn w p) hpre
  rw [hwire, hserve, envelopes, ← pending_map_fst, List.map_map, ← List.map_take]
  exact List.mem_map.mpr ⟨_, hmail, rfl⟩

end Transfer

section Example

theorem fromFile_mailToD : FromFile (bytes "b") mailToD := by
  refine ⟨⟨bytes "1", header ++ dotLine, mailToD, by decide, by decide⟩, by decide, by decide⟩

theorem transfer_mailToD :
    (transfer (bytes "b") (netReaching fun _ => some 4) [mailToD] 60 acceptingInputs).map
      (fun w => (finishMail w, w.conns.map fun c => (c.state, c.dom))) =
    some ([.deleteMail (bytes "1") .new], [(.done, ⟨bytes "d"⟩)]) := by
  decide

theorem delivered_envelopes_one_mail :
    ∃ w, transfer (bytes "b") (netReaching fun _ => some 4) [mailToD] 60 acceptingInputs = some w ∧
      delivered (wire w 0) = [⟨mailToD.fromLine, mailToD.rcpts, dotLine⟩] := by
  obtain ⟨w, hw, hobs⟩ := Option.map_eq_some_iff.mp transfer_mailToD
  obtain ⟨-, hconns⟩ := Prod.mk.inj hobs
  obtain ⟨c, rest, hcs, hc, -⟩ := List.map_eq_cons_iff.mp hconns
  obtain ⟨hdone, hdom⟩ := Prod.mk.inj hc
  obtain ⟨-, -, hall⟩ := delivered_envelopes _ _ _ _ _ w hw
    (List.forall_mem_singleton.mpr fromFile_mailToD) 0 c (by rw [hcs]; rfl)
  refine ⟨w, hw, ?_⟩
  rw [hall hdone, hdom]
  decide

theorem deleted_delivered_one_mail :
    ∃ w p, transfer (bytes "b") (netReaching fun _ => some 4) [mailToD] 60 acceptingInputs = some w ∧
      AcceptedBy w p 0 := by
  obtain ⟨w, hw, hobs⟩ := Option.map_eq_some_iff.mp transfer_mailToD
  obtain ⟨hfinish, -⟩ := Prod.mk.inj hobs
  obtain ⟨p, c, -, hacc, -⟩ := deleted_delivered _ _ _ _ _ w hw
    (List.forall_mem_singleton.mpr fromFile_mailToD) 0 mailToD rfl (by rw [hfinish]; rfl)
  exact ⟨w, p, hw, hacc⟩

end Example

end SmtpClient.Delivery
