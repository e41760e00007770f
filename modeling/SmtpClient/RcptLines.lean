import SmtpClient.MailGrammar
import SmtpClient.SendCommands

/-!
Recipient lines as they are read and sent. The two recipient patterns match the
same lines, and the second one captures what stands behind the last at sign that
has text on both sides. The command that is sent for a captured name is such a
line again, with the same name and domain.
-/
namespace SmtpClient.RcptLines

open MailTypes Backtracking Regexp LineReading Maildir HeaderLines MailGrammar SendCommands

/-- The line is a recipient line with this text between its brackets. -/
def Bracketed (l body : Bytes) : Prop :=
  ∃ w sp, l = w ++ (sp ++ 60 :: (body ++ bytes ">\r\n")) ∧
    w.map toLower = (bytes "RCPT TO:").map toLower ∧ ∀ x ∈ sp, isSpace x = true

/-- A name and its domain, behind the last at sign with text on both sides. -/
structure SplitsAt (name a d : Bytes) : Prop where
  eq : name = a ++ 64 :: d
  left : a ≠ []
  right : d ≠ []
  last : ∀ a' d', name = a' ++ 64 :: d' → a' ≠ [] → d' ≠ [] → a'.length ≤ a.length

theorem SplitsAt.unique {name a d a' d' : Bytes} (h : SplitsAt name a d) (h' : SplitsAt name a' d') :
    a = a' ∧ d = d' := by
  have hle := h.last a' d' h'.eq h'.left h'.right
  have hge := h'.last a d h.eq h.left h.right
  have heq := h.eq.symm.trans h'.eq
  obtain ⟨ha, hd⟩ := List.append_inj heq (Nat.le_antisymm hge hle)
  exact ⟨ha, (List.cons.inj hd).2⟩

theorem spaces_unique (sp sp' r r' : Bytes) (hsp : ∀ x ∈ sp, isSpace x = true)
    (hsp' : ∀ x ∈ sp', isSpace x = true) (h : sp ++ 60 :: r = sp' ++ 60 :: r') : r = r' := by
  induction sp generalizing sp' with
  | nil =>
    cases sp' with
    | nil => exact (List.cons.inj h).2
    | cons y sp' =>
      have hy := hsp' y List.mem_cons_self
      rw [← (List.cons.inj h).1] at hy
      exact absurd hy (by decide)
  | cons x sp ih =>
    cases sp' with
    | nil =>
      have hx := hsp x List.mem_cons_self
      rw [(List.cons.inj h).1] at hx
      exact absurd hx (by decide)
    | cons y sp' =>
      apply ih sp' _ _ (List.cons.inj h).2
      · intro z hz
        exact hsp z (List.mem_cons_of_mem x hz)
      · intro z hz
        exact hsp' z (List.mem_cons_of_mem y hz)

/-- A line has one text between its brackets at most. -/
theorem Bracketed.unique {l body body' : Bytes} (h : Bracketed l body) (h' : Bracketed l body') :
    body = body' := by
  obtain ⟨w, sp, rfl, hw, hsp⟩ := h
  obtain ⟨w', sp', heq, hw', hsp'⟩ := h'
  have hlen : w.length = w'.length := by
    have hmap := congrArg List.length (hw.trans hw'.symm)
    simpa using hmap
  obtain ⟨-, heq⟩ := List.append_inj heq hlen
  exact List.append_cancel_right (spaces_unique sp sp' _ _ hsp hsp' heq)

/-- Nothing stands behind the newline of a line. -/
theorem line_end (x r : Bytes) (h : IsLine newline (x ++ newline :: r)) : r = [] := by
  obtain ⟨w, heq, hw⟩ := h
  rcases List.eq_nil_or_concat' r with hr | ⟨r', y, rfl⟩
  · exact hr
  · have happ : (x ++ newline :: r') ++ [y] = w ++ [newline] := by simpa using heq
    obtain ⟨rfl, -⟩ := List.append_inj' happ rfl
    exact absurd (List.mem_append_right x List.mem_cons_self) hw

theorem dot_iff (t : Bytes) : (∀ x ∈ t, isDot x = true) ↔ newline ∉ t := by
  constructor
  · intro h hmem
    have hdot := h newline hmem
    exact absurd hdot (by decide)
  · intro h x hx
    refine decide_eq_true ?_
    intro heq
    have heq : x = newline := heq
    exact h (heq ▸ hx)

/-- A name on one line is read by dots on both sides of each of its at signs. -/
theorem newline_not_mem_iff (a d : Bytes) :
    newline ∉ a ++ 64 :: d ↔ (∀ x ∈ a, isDot x = true) ∧ ∀ x ∈ d, isDot x = true := by
  rw [List.mem_append, List.mem_cons, not_or, not_or, dot_iff, dot_iff]
  constructor
  · intro h
    exact ⟨h.1, h.2.2⟩
  · intro h
    exact ⟨h.1, by decide, h.2⟩

theorem reads_close (t r : Bytes) : Reads (word ">\r\n") t r ↔ t = bytes ">\r\n" :=
  ReplyLines.reads_word _ t r (ReplyLines.caseless_of_all _ (by decide))

theorem reads_open (t r : Bytes) : Reads (lit 60) t r ↔ t = [60] :=
  ReplyLines.reads_lit 60 (by decide) t r

theorem reads_at (t r : Bytes) : Reads (lit 64) t r ↔ t = [64] :=
  ReplyLines.reads_lit 64 (by decide) t r

/-- What both recipient patterns read before the first bracket. -/
theorem execAt_rcpt (l : Bytes) (pats : List (Pattern UInt8)) (m : Match UInt8)
    (h : execAt (chain (word "RCPT TO:" :: .many isSpace :: lit 60 :: pats)) l = some m) :
    ∃ w sp s k, l = w ++ (sp ++ 60 :: s) ∧ w.map toLower = (bytes "RCPT TO:").map toLower ∧
      (∀ x ∈ sp, isSpace x = true) ∧ execAt (chain pats) s = some k ∧
      m.captured = k.captured := by
  obtain ⟨w, r₁, k₁, rfl, hw, hk₁, hc₁⟩ := execAt_cons_groupFree _ _ l m (groupFree_word _) h
  obtain ⟨sp, r₂, k₂, rfl, hsp, hk₂, hc₂⟩ := execAt_cons_groupFree _ _ r₁ k₁ rfl hk₁
  obtain ⟨o, s, k, rfl, ho, hk, hc⟩ := execAt_cons_groupFree _ _ r₂ k₂ rfl hk₂
  rw [reads_open] at ho
  subst ho
  exact ⟨w, sp, s, k, rfl, (reads_word_toLower _ w _).mp hw, (reads_many _ sp _).mp hsp, hk,
    hc₁.trans (hc₂.trans hc)⟩

/-- The closing bracket of a recipient pattern is the end of its line. -/
theorem execAt_close (x s : Bytes) (k : Match UInt8) (hl : IsLine newline (x ++ s))
    (h : execAt (chain [word ">\r\n"]) s = some k) :
    s = bytes ">\r\n" ∧ k.captured = none := by
  have hnone := execAt_captured_none _ s k
    (groupFree_chain _ (by simp [groupFree_word])) h
  obtain ⟨e, r, -, rfl, he, -, -⟩ := execAt_cons_groupFree _ _ s k (groupFree_word _) h
  rw [reads_close] at he
  subst he
  have hend : x ++ (bytes ">\r\n" ++ r) = (x ++ [62, 13]) ++ newline :: r := by
    simp [newline, bytes]
  rw [hend] at hl
  rw [line_end _ r hl, List.append_nil]
  exact ⟨rfl, hnone⟩

/-- RE_rcpt_to captures the whole text between the brackets. -/
theorem execAt_rcptTo (l : Bytes) (m : Match UInt8) (hl : IsLine newline l)
    (h : execAt (patterns .reRcptTo).2 l = some m) :
    ∃ body, Bracketed l body ∧ m.captured = some body := by
  obtain ⟨w, sp, s, k, rfl, hw, hsp, hk, hcap⟩ := execAt_rcpt l _ m h
  obtain ⟨body, r, k', rfl, -, hk', hcap'⟩ := execAt_cons_group _ _ s k hk
  have hl' : IsLine newline ((w ++ (sp ++ 60 :: body)) ++ r) := by simpa using hl
  obtain ⟨rfl, hnone⟩ := execAt_close _ r k' hl' hk'
  refine ⟨body, ⟨w, sp, rfl, hw, hsp⟩, ?_⟩
  rw [hcap, hcap', hnone]
  rfl

/-- Behind the text before an at sign, a domain and the end of the line match. -/
theorem execAt_domain_isSome (d : Bytes) (hne : d ≠ []) (hdot : ∀ x ∈ d, isDot x = true) :
    (execAt (chain [lit 64, .group (plus isDot), word ">\r\n"])
      (64 :: (d ++ bytes ">\r\n"))).isSome = true := by
  rw [execAt_isSome_iff]
  refine ⟨64 :: (d ++ bytes ">\r\n"), [], by simp, ?_⟩
  simp only [reads_chain_cons, reads_chain_nil, reads_group]
  exact ⟨[64], _, rfl, (reads_at _ _).mpr rfl, d, _, rfl, (reads_plus _ _ _).mpr ⟨hne, hdot⟩,
    _, [], by simp, (reads_close _ _).mpr rfl, rfl⟩

/-- RE_rcpt_domain captures what stands behind the last at sign with text on
both sides. -/
theorem execAt_rcptDomain (l : Bytes) (m : Match UInt8) (hl : IsLine newline l)
    (h : execAt (patterns .reRcptDomain).2 l = some m) :
    ∃ body a d, Bracketed l body ∧ SplitsAt body a d ∧ newline ∉ body ∧ m.captured = some d := by
  obtain ⟨w, sp, s, k, rfl, hw, hsp, hk, hcap⟩ := execAt_rcpt l _ m h
  obtain ⟨n, hn, k₁, hk₁, rfl, hlongest⟩ := execAt_plus _ _ s k hk
  have hs := ways_append _ s n hn
  have ha : Reads (plus isDot) n.text n.rest := ⟨n, hs ▸ hn, rfl⟩
  obtain ⟨hane, hadot⟩ := (reads_plus _ _ _).mp ha
  obtain ⟨t, r₁, k₂, hr, ht, hk₂, hcap₂⟩ := execAt_cons_groupFree _ _ n.rest k₁ rfl hk₁
  rw [reads_at] at ht
  subst ht
  obtain ⟨d, r₂, k₃, rfl, hd, hk₃, hcap₃⟩ := execAt_cons_group _ _ r₁ k₂ hk₂
  obtain ⟨hdne, hddot⟩ := (reads_plus _ _ _).mp hd
  rw [hr] at hs
  subst hs
  have hl' : IsLine newline ((w ++ (sp ++ 60 :: (n.text ++ 64 :: d))) ++ r₂) := by simpa using hl
  obtain ⟨rfl, hnone⟩ := execAt_close _ r₂ k₃ hl' hk₃
  have hbody := (newline_not_mem_iff n.text d).mpr ⟨hadot, hddot⟩
  refine ⟨n.text ++ 64 :: d, n.text, d, ⟨w, sp, by simp, hw, hsp⟩, ⟨rfl, hane, hdne, ?_⟩, hbody, ?_⟩
  · intro a' d' heq hane' hdne'
    by_contra hlonger
    -- a longer text before an at sign would have been taken
    obtain ⟨hadot', hddot'⟩ := (newline_not_mem_iff a' d').mp (heq ▸ hbody)
    have hs : n.text ++ ([64] ++ (d ++ bytes ">\r\n")) =
        a' ++ (64 :: (d' ++ bytes ">\r\n")) := by
      have happ := congrArg (fun x => x ++ bytes ">\r\n") heq
      simpa using happ
    obtain ⟨n', hn', htext⟩ := (reads_plus isDot a' (64 :: (d' ++ bytes ">\r\n"))).mpr
      ⟨hane', hadot'⟩
    have hrest := mem_ways_rest _ a' _ n' hn' htext
    rw [← hs] at hn'
    have hfail := hlongest n' hn' (by rw [htext]; omega)
    have hmatch := execAt_domain_isSome d' hdne' hddot'
    rw [← hrest, hfail] at hmatch
    cases hmatch
  · rw [hcap, Match.followedBy, ways_captured_none (plus isDot) _ n rfl hn, hcap₂, hcap₃, hnone]
    rfl

theorem captured_eq (name : SmtpReName) (a : Pattern UInt8) (l : Bytes)
    (ha : patterns name = (true, a)) (h : reMatch name l = true) :
    ∃ m, execAt a l = some m ∧ captured name l = m.captured.getD [] := by
  obtain ⟨m, hm⟩ := Option.isSome_iff_exists.mp h
  have hexec : execAt a l = some m := by
    unfold pcreExec at hm
    rw [ha] at hm
    exact hm
  refine ⟨m, hexec, ?_⟩
  unfold captured
  rw [hm]
  rfl

/-- A bracketed text with an at sign inside is matched. -/
theorem reMatch_of_bracketed {l body a d : Bytes} (h : Bracketed l body) (hs : SplitsAt body a d)
    (hnl : newline ∉ body) : reMatch .reRcptTo l = true := by
  obtain ⟨w, sp, rfl, hw, hsp⟩ := h
  rw [hs.eq] at hnl
  obtain ⟨ha, hd⟩ := (newline_not_mem_iff a d).mp hnl
  apply (reMatch_anchored .reRcptTo _ _ rfl).mpr
  refine ⟨w ++ (sp ++ 60 :: (body ++ bytes ">\r\n")), [], (List.append_nil _).symm, ?_⟩
  simp only [reads_chain_cons, reads_chain_nil, reads_group]
  refine ⟨w, _, rfl, (reads_word_toLower _ _ _).mpr hw, sp, _, rfl, (reads_many _ _ _).mpr hsp,
    [60], _, rfl, (reads_open _ _).mpr rfl, body, _, rfl, ?_, _, [], by simp,
    (reads_close _ _).mpr rfl, rfl⟩
  exact ⟨a, 64 :: d, hs.eq, (reads_plus _ _ _).mpr ⟨hs.left, ha⟩, [64], d, rfl,
    (reads_at _ _).mpr rfl, d, [], by simp, (reads_plus _ _ _).mpr ⟨hs.right, hd⟩, rfl⟩

/-- The two patterns match the same lines. -/
theorem reMatch_rcptTo_iff (l : Bytes) (hl : IsLine newline l) :
    reMatch .reRcptTo l = true ↔ reMatch .reRcptDomain l = true := by
  constructor
  · exact reMatch_reRcptDomain l
  · intro h
    obtain ⟨m, hm, -⟩ := captured_eq .reRcptDomain _ l rfl h
    obtain ⟨body, a, d, hbody, hsplit, hnl, -⟩ := execAt_rcptDomain l m hl hm
    exact reMatch_of_bracketed hbody hsplit hnl

/-- What the two patterns capture in one line. -/
theorem captured_rcpt (l : Bytes) (hl : IsLine newline l) (h : reMatch .reRcptTo l = true) :
    ∃ body a d, Bracketed l body ∧ SplitsAt body a d ∧ newline ∉ body ∧
      captured .reRcptTo l = body ∧ captured .reRcptDomain l = d := by
  obtain ⟨m, hm, hname⟩ := captured_eq .reRcptTo _ l rfl h
  obtain ⟨n, hn, hdomain⟩ := captured_eq .reRcptDomain _ l rfl (reMatch_reRcptDomain l h)
  obtain ⟨body, hbody, hm⟩ := execAt_rcptTo l m hl hm
  obtain ⟨body', a, d, hbody', hsplit, hnl, hn⟩ := execAt_rcptDomain l n hl hn
  obtain rfl := hbody.unique hbody'
  refine ⟨body, a, d, hbody, hsplit, hnl, ?_, ?_⟩
  · rw [hname, hm]
    rfl
  · rw [hdomain, hn]
    rfl

/-- The command for a name has the name between its brackets. -/
theorem bracketed_msgRcptto (name : Bytes) : Bracketed (msgRcptto name) name := by
  refine ⟨bytes "RCPT TO:", [32], ?_, rfl, ?_⟩
  · have hopen : bytes "RCPT TO: <" = bytes "RCPT TO:" ++ [32, 60] := by decide
    unfold msgRcptto
    rw [hopen]
    simp
  · intro x hx
    rw [List.mem_singleton.mp hx]
    rfl

theorem isLine_msgRcptto (name : Bytes) (h : newline ∉ name) : IsLine newline (msgRcptto name) := by
  refine ⟨bytes "RCPT TO: <" ++ name ++ [62, 13], ?_, ?_⟩
  · simp [msgRcptto, bytes, newline]
  · rw [List.mem_append, List.mem_append, not_or, not_or]
    exact ⟨⟨by decide, h⟩, by decide⟩

/-- Both patterns match the same lines. The name that is captured is what stands between
the brackets of the line. It is some text, an at sign and the captured domain, at the last
at sign with text on both sides, and the command sent for it is a line with the same
recipient. -/
theorem rcpt_line_round_trip (l : Bytes) (hl : IsLine newline l) (hnul : 0 ∉ l) :
    (reMatch .reRcptTo l = true ↔ reMatch .reRcptDomain l = true) ∧
    (reMatch .reRcptTo l = true → ∃ name a d, rcptOfLine l = ⟨name, d⟩ ∧ Bracketed l name ∧
      SplitsAt name a d ∧
      msgRcptto name = bytes "RCPT TO: <" ++ name ++ bytes ">\r\n" ∧
      IsLine newline (msgRcptto name) ∧
      reMatch .reRcptTo (msgRcptto name) = true ∧
      reMatch .reRcptDomain (msgRcptto name) = true ∧
      rcptOfLine (msgRcptto name) = ⟨name, d⟩) := by
  refine ⟨reMatch_rcptTo_iff l hl, ?_⟩
  intro h
  obtain ⟨name, a, d, hname, hsplit, hnl, hto, hdomain⟩ := captured_rcpt l hl h
  have hline := isLine_msgRcptto name hnl
  have hmatch := reMatch_of_bracketed (bracketed_msgRcptto name) hsplit hnl
  have hnul' : 0 ∉ msgRcptto name := by
    unfold msgRcptto
    rw [List.mem_append, List.mem_append, not_or, not_or]
    refine ⟨⟨by decide, ?_⟩, by decide⟩
    intro hmem
    obtain ⟨w, sp, hl, -⟩ := hname
    exact hnul (by simp [hl, hmem])
  obtain ⟨name', a', d', hname', hsplit', -, hto', hdomain'⟩ :=
    captured_rcpt (msgRcptto name) hline hmatch
  obtain rfl := hname'.unique (bracketed_msgRcptto name)
  obtain ⟨-, rfl⟩ := hsplit'.unique hsplit
  refine ⟨name', a, d', ?_, hname, hsplit, rfl, hline, hmatch, reMatch_reRcptDomain _ hmatch, ?_⟩
  · rw [rcptOfLine_eq l h hnul, hto, hdomain]
  · rw [rcptOfLine_eq _ hmatch hnul', hto', hdomain']

/-- A name with at signs at both ends. Its domain begins behind the last one that has text
on both sides. -/
theorem rcpt_line_round_trip_three_signs :
    rcptOfLine (bytes "RCPT TO: <@a@b@>\r\n") = ⟨bytes "@a@b@", bytes "b@"⟩ ∧
      SplitsAt (bytes "@a@b@") (bytes "@a") (bytes "b@") ∧
      rcptOfLine (msgRcptto (bytes "@a@b@")) = ⟨bytes "@a@b@", bytes "b@"⟩ := by
  have hline : IsLine newline (bytes "RCPT TO: <@a@b@>\r\n") :=
    ⟨bytes "RCPT TO: <@a@b@>\r", by decide, by decide⟩
  obtain ⟨-, hround⟩ := rcpt_line_round_trip (bytes "RCPT TO: <@a@b@>\r\n") hline (by decide)
  obtain ⟨name, a, d, hrcpt, hname, hsplit, -, -, -, -, hsent⟩ := hround (by decide +kernel)
  have hcommand : msgRcptto (bytes "@a@b@") = bytes "RCPT TO: <@a@b@>\r\n" := by decide
  have hbetween : Bracketed (bytes "RCPT TO: <@a@b@>\r\n") (bytes "@a@b@") :=
    hcommand ▸ bracketed_msgRcptto (bytes "@a@b@")
  obtain rfl := hname.unique hbetween
  have hread : rcptOfLine (bytes "RCPT TO: <@a@b@>\r\n") = ⟨bytes "@a@b@", bytes "b@"⟩ := by
    decide +kernel
  obtain rfl : d = bytes "b@" := congrArg Rcpt.domain (hrcpt.symm.trans hread)
  obtain rfl : a = bytes "@a" := List.append_cancel_right hsplit.eq.symm
  exact ⟨hread, hsplit, hsent⟩

end SmtpClient.RcptLines
