import SmtpClient.SeenLines

/-!
The grammar of mail files. Header and body are read as the grammar says but for
the last line of the body: the reader looks at its last full buffer only, so it
takes some overlong last lines for the dot line.
-/
namespace SmtpClient.MailGrammar

open MailTypes Backtracking Regexp LineReading Maildir HeaderLines MailData SeenLines

/-- A header of at least one recipient, with the body behind it. -/
structure HeaderOf (f l : Bytes) (rs : List Bytes) (body : Bytes) : Prop where
  mailFrom : HeaderLine .reMailFrom l
  rcpts : ∃ rest, f = l ++ rest ∧ RcptSection rest rs body
  some_rcpt : rs ≠ []

/-- The grammar of a mail file. -/
def IsMailFile (f l : Bytes) (rs : List Bytes) : Prop :=
  ∃ body, HeaderOf f l rs body ∧ (splitLines newline body).getLast? = some dotLine

/-- What a pattern captures in a line. -/
def captured (name : SmtpReName) (l : Bytes) : Bytes :=
  ((pcreExec name l).bind Match.captured).getD []

theorem captured_subset (name : SmtpReName) (a : Pattern UInt8) (l : Bytes)
    (h : patterns name = (true, a)) : ∀ x ∈ captured name l, x ∈ l := by
  unfold captured pcreExec
  rw [h]
  simp only [if_true]
  cases hm : execAt a l with
  | none => simp
  | some m =>
    simp only [Option.bind_some]
    cases hg : m.captured with
    | none => simp
    | some g =>
      intro x hx
      have hmem : m ∈ ways a l := List.mem_of_head? hm
      have hread := ways_captured_subset a l m hmem g hg x hx
      rw [ways_append a l m hmem]
      exact List.mem_append_left _ hread

/-- A recipient line gives its captured name and domain. -/
theorem rcptOfLine_eq (l : Bytes) (h : reMatch .reRcptTo l = true) (hnul : 0 ∉ l) :
    rcptOfLine l = ⟨captured .reRcptTo l, captured .reRcptDomain l⟩ := by
  have hcut : ∀ name a, patterns name = (true, a) → cstr (captured name l) = captured name l := by
    intro name a ha
    apply cstr_eq_self
    intro hzero
    exact hnul (captured_subset name a l ha 0 hzero)
  have hfill : ∀ name substr, reMatch name l = true →
      (reMatchAndFillSubstring name l substr).2 = captured name l := by
    intro name substr hm
    obtain ⟨m, hm⟩ := Option.isSome_iff_exists.mp hm
    unfold reMatchAndFillSubstring captured
    rw [hm]
    rfl
  unfold rcptOfLine
  simp only [cstr_eq_self l hnul]
  rw [hfill .reRcptTo [] h, hfill .reRcptDomain _ (reMatch_reRcptDomain l h),
    hcut .reRcptTo _ rfl, hcut .reRcptDomain _ rfl]

/-- In a file without NUL the readers see the headers of the grammar. -/
theorem seenHeader_iff (f l : Bytes) (rs : List Bytes) (body : Bytes) (hnul : 0 ∉ f) :
    SeenHeader f l rs body ↔ HeaderOf f l rs body := by
  constructor
  · intro h
    obtain ⟨d, hd, hf⟩ := h.data
    refine ⟨h.mailFrom.toHeaderLine, ⟨_, hf, d, by simp, ?_, hd.toHeaderLine⟩, h.some_rcpt⟩
    intro r hr
    exact (h.rcpts r hr).toHeaderLine
  · intro h
    obtain ⟨rest, hf, d, hrest, hrs, hd⟩ := h.rcpts
    rw [hrest, List.append_assoc] at hf
    have hparts := hnul
    rw [hf, List.mem_append, List.mem_append, List.mem_append, not_or, not_or, not_or] at hparts
    obtain ⟨hl, hrcpts, hdata, -⟩ := hparts
    refine ⟨⟨h.mailFrom, hl⟩, ?_, h.some_rcpt, d, ⟨hd, hdata⟩, hf⟩
    intro r hr
    exact ⟨hrs r hr, fun hzero => hrcpts (List.mem_flatten.mpr ⟨r, hr, hzero⟩)⟩

theorem HeaderOf.body_no_nul (f l : Bytes) (rs : List Bytes) (body : Bytes) (hnul : 0 ∉ f)
    (h : HeaderOf f l rs body) : 0 ∉ body := by
  obtain ⟨rest, hf, d, hrest, -, -⟩ := h.rcpts
  intro hzero
  rw [hf, hrest] at hnul
  exact hnul (List.mem_append_right l (List.mem_append_right _ hzero))

theorem readMailFile_header (filename f l : Bytes) (rs : List Bytes) (body : Bytes)
    (hnul : 0 ∉ f) (h : HeaderOf f l rs body) :
    readMailFile filename (some f) =
      if (chunks newline 1000 body).getLast? = some dotLine then
        (some ⟨l, rs.map rcptOfLine, body, filename⟩, [])
      else (none, [.moveMail filename .new .notSent]) := by
  have hbody := HeaderOf.body_no_nul f l rs body hnul h
  have hseen := (seenHeader_iff f l rs body hnul).mpr h
  rw [readMailFile_seenHeader filename f l rs body hseen, getLast?_no_nul body hbody,
    textOf_eq_self body hbody]

theorem readMailFile_no_header (filename f : Bytes) (hnul : 0 ∉ f)
    (h : ∀ l rs body, ¬ HeaderOf f l rs body) :
    readMailFile filename (some f) = (none, [.moveMail filename .new .notSent]) := by
  apply readMailFile_no_seenHeader
  intro l rs body hseen
  exact h l rs body ((seenHeader_iff f l rs body hnul).mp hseen)

/-- The header of a file determines its body. -/
theorem headerOf_body (f l l' : Bytes) (rs rs' : List Bytes) (body body' : Bytes)
    (hnul : 0 ∉ f) (h : HeaderOf f l rs body) (h' : HeaderOf f l' rs' body') : body = body' := by
  have hseen := (seenHeader_iff f l rs body hnul).mpr h
  have hseen' := (seenHeader_iff f l' rs' body' hnul).mpr h'
  exact hseen.body_eq f l l' rs rs' body body' hseen'

/-- read_mail_file does what the grammar says: it returns the mail of a file in
the grammar, and moves every other file to NOT_SENT. -/
def FollowsGrammar (filename f : Bytes) : Prop :=
  (∀ l rs, IsMailFile f l rs → ∃ m, readMailFile filename (some f) = (some m, []) ∧
    m.fromLine = l ∧
    m.rcpts = rs.map fun r => ⟨captured .reRcptTo r, captured .reRcptDomain r⟩) ∧
  ((∀ l rs, ¬ IsMailFile f l rs) →
    readMailFile filename (some f) = (none, [.moveMail filename .new .notSent]))

/-- Behind a good header, the last line of the body is overlong and would be
the dot line from its last full buffer on. -/
def FalseDotLine (f : Bytes) : Prop :=
  ∃ l rs body last, HeaderOf f l rs body ∧ (splitLines newline body).getLast? = some last ∧
    999 < last.length ∧ last.length % 999 = 3 ∧ dotLine <:+ last

/-- The reader follows the grammar on exactly the files without a false dot line. -/
theorem follows_grammar_iff (filename f : Bytes) (hnul : 0 ∉ f) :
    FollowsGrammar filename f ↔ ¬ FalseDotLine f := by
  constructor
  · intro hfollows hfalse
    obtain ⟨l, rs, body, last, hheader, hlast, hlong, hmod, hsuffix⟩ := hfalse
    have hdot := (last_chunk_dotLine_iff body last hlast).mpr (Or.inr ⟨hlong, hmod, hsuffix⟩)
    have hread := readMailFile_header filename f l rs body hnul hheader
    rw [if_pos hdot] at hread
    have hnot : ∀ l' rs', ¬ IsMailFile f l' rs' := by
      intro l' rs' hfile
      obtain ⟨body', hheader', hlast'⟩ := hfile
      rw [← headerOf_body f l l' rs rs' body body' hnul hheader hheader', hlast] at hlast'
      have hlen : last.length = 3 := by
        rw [Option.some.inj hlast']
        rfl
      omega
    have hmoved := hfollows.2 hnot
    rw [hread] at hmoved
    cases hmoved
  · intro hgood
    constructor
    · intro l rs hfile
      obtain ⟨body, hheader, hlast⟩ := hfile
      have hdot := (last_chunk_dotLine_iff body dotLine hlast).mpr (Or.inl rfl)
      have hread := readMailFile_header filename f l rs body hnul hheader
      rw [if_pos hdot] at hread
      refine ⟨_, hread, rfl, ?_⟩
      apply List.map_congr_left
      intro r hr
      have hseen := ((seenHeader_iff f l rs body hnul).mpr hheader).rcpts r hr
      exact rcptOfLine_eq r hseen.matched hseen.no_nul
    · intro hnot
      by_cases hheader : ∃ l rs body, HeaderOf f l rs body
      · obtain ⟨l, rs, body, hheader⟩ := hheader
        rw [readMailFile_header filename f l rs body hnul hheader]
        apply if_neg
        intro hdot
        obtain ⟨last, hlast⟩ := splitLines_getLast?_of_chunk body hdot
        rcases (last_chunk_dotLine_iff body last hlast).mp hdot with rfl | hfalse
        · exact hnot l rs ⟨body, hheader, hlast⟩
        · exact hgood ⟨l, rs, body, last, hheader, hlast, hfalse⟩
      · apply readMailFile_no_header filename f hnul
        intro l rs body h
        exact hheader ⟨l, rs, body, h⟩

section Example

def fromLine : Bytes := bytes "MAIL FROM: <a@b>\r\n"

def rcptLine : Bytes := bytes "RCPT TO: <c@d>\r\n"

def dataLine : Bytes := bytes "DATA\r\n"

theorem header_of_body (body : Bytes) :
    HeaderOf (fromLine ++ (rcptLine ++ (dataLine ++ body))) fromLine [rcptLine] body := by
  have hline : ∀ w : Bytes, newline ∉ w → IsLine newline (w ++ [newline]) := by
    intro w hw
    exact ⟨w, rfl, hw⟩
  have hfrom : HeaderLine .reMailFrom fromLine :=
    ⟨hline (bytes "MAIL FROM: <a@b>\r") (by decide), by decide, by decide⟩
  have hrcpt : HeaderLine .reRcptTo rcptLine :=
    ⟨hline (bytes "RCPT TO: <c@d>\r") (by decide), by decide, by decide⟩
  have hdata : HeaderLine .reData dataLine :=
    ⟨hline (bytes "DATA\r") (by decide), by decide, by decide⟩
  refine ⟨hfrom, ⟨_, rfl, dataLine, rfl, ?_, hdata⟩, by decide⟩
  intro r hr
  rw [List.mem_singleton] at hr
  exact hr ▸ hrcpt

/-- The last line of the body is the dot line itself. -/
theorem follows_grammar_iff_one_line :
    FollowsGrammar [49] (fromLine ++ (rcptLine ++ (dataLine ++ dotLine))) := by
  have hnul : 0 ∉ fromLine ++ (rcptLine ++ (dataLine ++ dotLine)) := by decide
  apply (follows_grammar_iff [49] _ hnul).mpr
  rintro ⟨l, rs, body, last, hheader, hlast, hlong, -⟩
  rw [← headerOf_body _ _ l _ rs _ body hnul (header_of_body dotLine) hheader] at hlast
  have hdot : dotLine = last := Option.some.inj (hlast ▸ rfl)
  have hlen : last.length = 3 := hdot ▸ rfl
  omega

/-- A dot line in front of which 999 bytes are missing a line end. -/
def overlongLine : Bytes := List.replicate 999 97 ++ dotLine

theorem grammar_not_followed :
    ¬ ∀ filename f : Bytes, 0 ∉ f → FollowsGrammar filename f := by
  intro hall
  have hheader := header_of_body overlongLine
  have hnul : 0 ∉ fromLine ++ (rcptLine ++ (dataLine ++ overlongLine)) := by
    intro hzero
    simp only [overlongLine, List.mem_append, List.mem_replicate] at hzero
    revert hzero
    decide
  have hlast : (splitLines newline overlongLine).getLast? = some overlongLine := by
    have hne : overlongLine ≠ [] := List.append_ne_nil_of_right_ne_nil _ (by decide)
    rw [splitLines_single newline overlongLine hne]
    · rfl
    · have hdrop : overlongLine.dropLast = List.replicate 999 97 ++ bytes ".\r" := by
        unfold overlongLine
        rw [List.dropLast_append_of_ne_nil (by decide)]
        rfl
      rw [hdrop, List.mem_append, List.mem_replicate]
      decide
  have hlen : overlongLine.length = 1002 := by
    rw [overlongLine, List.length_append, List.length_replicate]
    rfl
  have hdot : (chunks newline 1000 overlongLine).getLast? = some dotLine := by
    apply (last_chunk_dotLine_iff overlongLine overlongLine hlast).mpr
    rw [hlen]
    exact Or.inr ⟨by omega, by omega, List.suffix_append _ _⟩
  have hread := readMailFile_header [] _ _ _ _ hnul hheader
  rw [if_pos hdot] at hread
  have hmoved := (hall [] _ hnul).2 ?_
  · rw [hread] at hmoved
    cases hmoved
  · intro l rs hfile
    obtain ⟨body, hheader', hlast'⟩ := hfile
    rw [← headerOf_body _ _ l _ rs _ body hnul hheader hheader', hlast] at hlast'
    rw [Option.some.inj hlast'] at hlen
    exact absurd hlen (by decide)

end Example

end SmtpClient.MailGrammar
