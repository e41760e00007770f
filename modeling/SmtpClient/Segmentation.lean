import SmtpClient.Independence
import SmtpClient.ReplyLines

/-!
How a stream of replies is cut. Every chunk of recv counts as one reply and
nothing is kept between chunks, so a session depends on the codes that its
chunks begin with, and on a stream that opens a session every cut matters.
-/
namespace SmtpClient.Segmentation

open MailTypes SendCommands ClientFsm Dialogues SessionScript Transcript MxLookup Connections
open EventLoop Passes TransferInvariant Setup Isolation Runs Independence ReplyLines

/-- The chunks that arrive on one connection, each with the clock at its arrival. -/
abbrev Chunks := List (Chunk × ℤ)

def stream (cs : Chunks) : Bytes := (cs.map fun x => x.1.buf).flatten

def codes (cs : Chunks) : List FsmEvent := cs.map fun x => replyEvent x.1.buf

def feedChunks (w : World) (p : ℕ) (cs : Chunks) : Option World :=
  deliverAll w (cs.map fun x => ⟨p, x.1.buf, x.2⟩)

theorem buffersFor_feedChunks (p : ℕ) (cs : Chunks) :
    buffersFor (cs.map fun x => ⟨p, x.1.buf, x.2⟩) p = cs.map fun x => x.1.buf := by
  induction cs with
  | nil => rfl
  | cons x cs ih =>
    unfold buffersFor at ih ⊢
    rw [List.map_cons, List.map_cons, Interleavings.project_cons_self, ih]
    rfl

/-- The chunks of one connection, as a session on its own hears them. -/
theorem feedChunks_session (w : World) (h : Opened w) (p : ℕ) (hp : p < w.conns.length)
    (cs : Chunks) :
    ∃ a t, feedChunks w p cs = some a ∧ feed w.mails (freshSessions w p) (codes cs) = some t ∧
      cursors a p = some (t.conn.state, t.conn.m, t.conn.r) ∧ sentOn a p = t.sent := by
  have hσ : ∀ x ∈ cs.map (fun x => (⟨p, x.1.buf, x.2⟩ : Delivery)), x.conn < w.conns.length := by
    intro x hx
    obtain ⟨y, -, rfl⟩ := List.mem_map.mp hx
    exact hp
  obtain ⟨a, s, ha, hcomp, -, hlen, hruns, -⟩ := deliverAll_composed w h _ hσ
  have hrun := hruns p
  rw [buffersFor_feedChunks, run_hearBuf, List.map_map] at hrun
  refine ⟨a, s p, ha, hrun, ?_, hcomp.sent p⟩
  have hc := List.getElem?_eq_getElem (hlen.symm ▸ hp : p < a.conns.length)
  unfold cursors
  rw [hc, hcomp.conns p _ hc]
  rfl

theorem freshSessions_tracks (w : World) (h : Opened w) (p : ℕ) (hp : p < w.conns.length) :
    (freshSessions w p).conn.state = .init ∧ (freshSessions w p).sent = [] ∧
      ∃ d, Tracks w.mails (freshSessions w p).conn (.live (sessionScript w.mails d)) := by
  have hc := List.getElem?_eq_getElem hp
  obtain ⟨hinit, htracks⟩ := h.fresh p _ hc
  unfold freshSessions
  rw [hc]
  exact ⟨hinit, rfl, _, Tracks.at_time htracks 0⟩

/-- Something is sent exactly when the first chunk begins with a 220 line. -/
theorem sent_ne_nil_iff (w : World) (h : Opened w) (p : ℕ) (hp : p < w.conns.length)
    (evts : List FsmEvent) (hevts : ∀ evt ∈ evts, evt.isReply = true) (t : Session)
    (ht : feed w.mails (freshSessions w p) evts = some t) :
    t.sent ≠ [] ↔ [.r220] <+: evts := by
  obtain ⟨-, hnil, d, htracks⟩ := freshSessions_tracks w h p hp
  obtain ⟨t', ht', -, hsent⟩ := feed_refines w.mails _ _ evts htracks hevts
  obtain rfl := Option.some.inj (ht.symm.trans ht')
  have hfirst := talk_said_iff FsmEvent.r221 (sessionScript w.mails d) evts 0 (Nat.zero_lt_succ _)
  rw [hnil, List.nil_append] at hsent
  rw [hsent, ← List.length_pos_iff]
  exact hfirst

theorem codes_isReply (cs : Chunks) : ∀ evt ∈ codes cs, evt.isReply = true := by
  intro evt hevt
  obtain ⟨x, -, rfl⟩ := List.mem_map.mp hevt
  exact replyEvent_isReply x.1.buf

/-- A session fails on a first reply other than 220, whatever comes then. -/
theorem feed_wrong_first (mails : List Mail) (s : Session) (evt : FsmEvent)
    (evts : List FsmEvent) (hinit : s.conn.state = .init) (hreply : evt.isReply = true)
    (hne : evt ≠ .r220) : feed mails s (evt :: evts) = some (s.setState .invalid) := by
  have hlive : s.conn.state.terminal = false := by
    rw [hinit]
    rfl
  have hadv : advance mails s evt = some (s.setState .invalid) := by
    unfold advance
    rw [step_wrong_reply mails s s.conn.state evt hlive hreply (by rw [hinit]; exact hne)]
    rfl
  unfold feed
  rw [run_cons, restIn, if_neg (by simp [hlive]), hadv, Option.bind_some]
  exact run_of_halted _ _ _ _ rfl

/-- A stream in chunks of one byte each. -/
def singles (s : Bytes) : Chunks :=
  s.map fun x => (⟨[x], List.cons_ne_nil x [], by simp⟩, 0)

theorem stream_singles (s : Bytes) : stream (singles s) = s := by
  unfold stream singles
  rw [List.map_map]
  induction s with
  | nil => rfl
  | cons x s ih => exact congrArg (List.cons x) ih

theorem beginsWithReply_length (code : String) (str : Bytes) (h : BeginsWithReply code str) :
    (bytes code).length + 2 ≤ str.length := by
  obtain ⟨text, rest, -, rfl⟩ := h
  have hend : (bytes "\r\n").length = 2 := rfl
  simp only [List.length_append, hend]
  omega

theorem replyEvent_220_iff (str : Bytes) : replyEvent str = .r220 ↔ BeginsWithReply "220" str :=
  replyEvent_iff .r220 .r220 "220" str rfl

/-- One byte is never a reply. -/
theorem codes_singles (s : Bytes) : ¬ [.r220] <+: codes (singles s) := by
  intro hpre
  cases s with
  | nil => exact absurd (List.prefix_nil.mp hpre) (List.cons_ne_nil _ _)
  | cons x s =>
    have hfirst := (List.cons_prefix_cons.mp hpre).1
    have hlen := beginsWithReply_length "220" [x] ((replyEvent_220_iff [x]).mp hfirst.symm)
    have hthree : (bytes "220").length = 3 := rfl
    rw [hthree, List.length_singleton] at hlen
    omega

/-- The outcome of feeding chunks: the state, the cursors and what was sent. -/
def SameOutcome (w : World) (p : ℕ) (cs ds : Chunks) : Prop :=
  ∃ a b, feedChunks w p cs = some a ∧ feedChunks w p ds = some b ∧
    cursors a p = cursors b p ∧ sentOn a p = sentOn b p

theorem sameOutcome_of_codes (w : World) (h : Opened w) (p : ℕ) (hp : p < w.conns.length)
    (cs ds : Chunks) (hcodes : codes cs = codes ds) : SameOutcome w p cs ds := by
  obtain ⟨a, t, ha, ht, hcur, hsent⟩ := feedChunks_session w h p hp cs
  obtain ⟨b, u, hb, hu, hcur', hsent'⟩ := feedChunks_session w h p hp ds
  rw [hcodes, hu] at ht
  obtain rfl := Option.some.inj ht
  exact ⟨a, b, ha, hb, hcur.trans hcur'.symm, hsent.trans hsent'.symm⟩

/-- A cut of a stream that opens no session fails at its first chunk. -/
theorem feedChunks_no_greeting (w : World) (h : Opened w) (p : ℕ) (hp : p < w.conns.length)
    (cs : Chunks) (hne : cs ≠ [])
    (hnone : ∀ u, u <+: stream cs → u.length ≤ 500 → ¬ BeginsWithReply "220" u) :
    feed w.mails (freshSessions w p) (codes cs) =
      some ((freshSessions w p).setState .invalid) := by
  obtain ⟨x, cs, rfl⟩ := List.exists_cons_of_ne_nil hne
  have hpre : x.1.buf <+: stream (x :: cs) := List.prefix_append _ _
  have hfirst : replyEvent x.1.buf ≠ .r220 := by
    intro heq
    exact hnone _ hpre x.1.le_size ((replyEvent_220_iff _).mp heq)
  obtain ⟨hinit, -, -⟩ := freshSessions_tracks w h p hp
  exact feed_wrong_first w.mails _ _ (codes cs) hinit (replyEvent_isReply _) hfirst

theorem codes_nil_of_stream_nil (cs : Chunks) (h : stream cs = []) : cs = [] := by
  cases cs with
  | nil => rfl
  | cons x cs =>
    have happ : x.1.buf ++ stream cs = [] := h
    exact absurd (List.append_eq_nil_iff.mp happ).1 x.1.ne_nil

/-- All cuts of a stream have the same outcome exactly when it opens no session. -/
theorem all_cuts_agree_iff (w : World) (h : Opened w) (p : ℕ) (hp : p < w.conns.length)
    (s : Bytes) :
    (∀ cs ds, stream cs = s → stream ds = s → SameOutcome w p cs ds) ↔
      ∀ u, u <+: s → u.length ≤ 500 → ¬ BeginsWithReply "220" u := by
  constructor
  · intro hagree u hpre hlen hbegins
    obtain ⟨rest, rfl⟩ := hpre
    have hne : u ≠ [] := by
      intro hnil
      have hlen' := beginsWithReply_length "220" u hbegins
      rw [hnil, List.length_nil] at hlen'
      omega
    have hwhole : stream ((⟨u, hne, hlen⟩, 0) :: singles rest) = u ++ rest :=
      congrArg (u ++ ·) (stream_singles rest)
    obtain ⟨a, b, ha, hb, -, hsent⟩ := hagree _ _ hwhole (stream_singles (u ++ rest))
    obtain ⟨a', t, ha', ht, -, hsent'⟩ :=
      feedChunks_session w h p hp ((⟨u, hne, hlen⟩, 0) :: singles rest)
    obtain ⟨b', v, hb', hv, -, hsent''⟩ := feedChunks_session w h p hp (singles (u ++ rest))
    obtain rfl := Option.some.inj (ha.symm.trans ha')
    obtain rfl := Option.some.inj (hb.symm.trans hb')
    have hsame : t.sent = v.sent := hsent'.symm.trans (hsent.trans hsent'')
    have hyes := sent_ne_nil_iff w h p hp _ (codes_isReply _) t ht
    have hno := sent_ne_nil_iff w h p hp _ (codes_isReply _) v hv
    rw [hsame, hno] at hyes
    apply codes_singles (u ++ rest)
    apply hyes.mpr
    have hcode : replyEvent u = .r220 := (replyEvent_220_iff u).mpr hbegins
    exact ⟨codes (singles rest), by rw [← hcode]; rfl⟩
  · intro hnone cs ds hcs hds
    by_cases hnil : s = []
    · rw [hnil] at hcs hds
      apply sameOutcome_of_codes w h p hp
      rw [codes_nil_of_stream_nil cs hcs, codes_nil_of_stream_nil ds hds]
    · have hcne : cs ≠ [] := by
        intro heq
        rw [heq] at hcs
        exact hnil hcs.symm
      have hdne : ds ≠ [] := by
        intro heq
        rw [heq] at hds
        exact hnil hds.symm
      obtain ⟨a, t, ha, ht, hcur, hsent⟩ := feedChunks_session w h p hp cs
      obtain ⟨b, u, hb, hu, hcur', hsent'⟩ := feedChunks_session w h p hp ds
      rw [feedChunks_no_greeting w h p hp cs hcne (hcs ▸ hnone)] at ht
      rw [feedChunks_no_greeting w h p hp ds hdne (hds ▸ hnone)] at hu
      obtain rfl := Option.some.inj (ht.symm.trans hu)
      exact ⟨a, b, ha, hb, hcur.trans hcur'.symm, hsent.trans hsent'.symm⟩

/-- Each chunk counts as the reply whose complete line it begins with, or as
invalid, and the outcome depends on these codes only. All cuts of a stream
agree exactly when none of them opens the session. -/
theorem outcome_depends_on_codes (myDomain : Bytes) (net : Net) (mails : List Mail) (w : World)
    (p : ℕ) (hinit : connInit myDomain net mails = some w) (hp : p < w.conns.length) :
    (∀ chunk : Chunk,
      (replyEvent chunk.buf = .r220 ↔ BeginsWithReply "220" chunk.buf) ∧
      (replyEvent chunk.buf = .r221 ↔ BeginsWithReply "221" chunk.buf) ∧
      (replyEvent chunk.buf = .r250 ↔ BeginsWithReply "250" chunk.buf) ∧
      (replyEvent chunk.buf = .r354 ↔ BeginsWithReply "354" chunk.buf) ∧
      (replyEvent chunk.buf).isReply = true) ∧
    (∀ cs ds, codes cs = codes ds → SameOutcome w p cs ds) ∧
    ∀ s, (∀ cs ds, stream cs = s → stream ds = s → SameOutcome w p cs ds) ↔
      ∀ u, u <+: s → u.length ≤ 500 → ¬ BeginsWithReply "220" u := by
  have hopened := connInit_opened myDomain net mails w hinit
  refine ⟨?_, sameOutcome_of_codes w hopened p hp, all_cuts_agree_iff w hopened p hp⟩
  intro chunk
  exact ⟨replyEvent_220_iff chunk.buf, replyEvent_iff .r221 .r221 "221" chunk.buf rfl,
    replyEvent_iff .r250 .r250 "250" chunk.buf rfl, replyEvent_iff .r354 .r354 "354" chunk.buf rfl,
    replyEvent_isReply chunk.buf⟩

/-- A greeting that arrives in two pieces fails the session. -/
theorem cuts_disagree :
    ¬ ∀ (myDomain : Bytes) (net : Net) (mails : List Mail) (w : World) (p : ℕ) (cs ds : Chunks),
        connInit myDomain net mails = some w → p < w.conns.length → stream cs = stream ds →
        SameOutcome w p cs ds := by
  intro hclaim
  obtain ⟨a, b, ha, hb, -, hsent⟩ := hclaim (bytes "b") (netReaching fun _ => some 4) [mailToD]
    worldToD 0 [(⟨bytes "220\r\n", by decide, by decide⟩, 0)]
    [(⟨bytes "2", by decide, by decide⟩, 0), (⟨bytes "20\r\n", by decide, by decide⟩, 0)]
    connInit_mailToD (by decide) (by decide)
  have hwhole : (feedChunks worldToD 0 [(⟨bytes "220\r\n", by decide, by decide⟩, 0)]).map
      (fun w => sentOn w 0) = some [⟨.helo, msgHelo⟩] := by
    decide
  have hpieces : (feedChunks worldToD 0 [(⟨bytes "2", by decide, by decide⟩, 0),
      (⟨bytes "20\r\n", by decide, by decide⟩, 0)]).map (fun w => sentOn w 0) = some [] := by
    decide
  rw [ha] at hwhole
  rw [hb] at hpieces
  have h₁ : sentOn a 0 = [⟨.helo, msgHelo⟩] := Option.some.inj hwhole
  have h₂ : sentOn b 0 = [] := Option.some.inj hpieces
  rw [h₁, h₂] at hsent
  cases hsent

/-- The same greeting with and without a text. -/
theorem outcome_depends_on_codes_greeting :
    SameOutcome worldToD 0 [(⟨bytes "220\r\n", by decide, by decide⟩, 0)]
      [(⟨bytes "220 hello\r\n", by decide, by decide⟩, 5)] := by
  obtain ⟨-, hcodes, -⟩ := outcome_depends_on_codes _ _ _ worldToD 0 connInit_mailToD (by decide)
  exact hcodes _ _ (by decide)

end SmtpClient.Segmentation
