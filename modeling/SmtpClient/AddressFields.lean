import SmtpClient.FullSessions
import SmtpClient.LocalFiltering
import SmtpClient.RcptLines
import SmtpClient.SeenLines

/-!
The arrays of fixed size that addresses are copied to: the fields of mails,
recipients and domains, and the buffer of a recipient command. Nothing limits the
lengths but the line buffer of the readers, which is longer than each of them. The
copies of a file fit in every run exactly when its lines are short enough.
-/
namespace SmtpClient.AddressFields

open MailTypes Regexp LineReading Maildir HeaderLines MailData MailGrammar SendCommands
open ScriptOrder MxLookup Connections EventLoop Passes TransferInvariant Setup LocalFiltering
open FullSessions RcptLines SeenLines

inductive FixedArray
  | mailFrom | rcptName | rcptDomain | domainName | rcpttoMsg
deriving DecidableEq, Repr

/-- The fields from, name and domain, the name of a domain, and msg in send_rcptto. -/
def FixedArray.size : FixedArray → ℕ
  | .mailFrom | .rcptName | .rcpttoMsg => 200
  | .rcptDomain | .domainName => 100

/-- One call of strcpy or sprintf. -/
structure Copy where
  array : FixedArray
  str : Bytes
deriving DecidableEq, Repr

/-- The string fits with its terminator. -/
def Copy.Fits (c : Copy) : Prop := c.str.length + 1 ≤ c.array.size

def rcptCopies (r : Rcpt) : List Copy := [⟨.rcptName, r.name⟩, ⟨.rcptDomain, r.domain⟩]

/-- The copies of the two header readers. Both run, also on a file that is refused. -/
def readCopies (f : Bytes) : List Copy :=
  (readMailFrom f).1.toList.map (Copy.mk .mailFrom) ++
    (readMailTo (readMailFrom f).2).2.1.flatMap rcptCopies

/-- The copies of a queued mail's addresses, in some queue and run with the mail. -/
inductive UseCopy (myDomain : Bytes) (m : Mail) : Copy → Prop
  | domainAdd (mails : List Mail) (d : Domain) (hm : m ∈ mails)
      (hd : d ∈ collectDomains myDomain mails) (hr : mailHasRcptsFromDomain m d = true) :
      UseCopy myDomain m ⟨.domainName, d.name⟩
  | sendRcptto (mails : List Mail) (net : Net) (timeout : ℤ) (inps : List PassInput) (w : World)
      (i p j : ℕ) (text : Bytes) (hm : mails[i]? = some m)
      (hw : transfer myDomain net mails timeout inps = some w)
      (hsent : ⟨.rcptto i j, text⟩ ∈ sentOn w p) :
      UseCopy myDomain m ⟨.rcpttoMsg, text⟩

/-- The copies of the addresses in a file, while it is read and later. -/
inductive FileCopy (myDomain filename f : Bytes) : Copy → Prop
  | read (c : Copy) (hc : c ∈ readCopies f) : FileCopy myDomain filename f c
  | use (m m' : Mail) (c : Copy) (hread : (readMailFile filename (some f)).1 = some m)
      (hfilter : (filterMail myDomain m).1 = some m') (hc : UseCopy myDomain m' c) :
      FileCopy myDomain filename f c

/-- The name and the domain that stand in a recipient line. -/
def AddressIn (l name d : Bytes) : Prop := ∃ a, Bracketed l name ∧ SplitsAt name a d

/-- The lines that are short enough for the arrays. Behind the first line buffer every
recipient line counts; a command is sent for the remote recipients of an accepted file,
with ten bytes before the name and three behind it. -/
structure ShortAddresses (myDomain f : Bytes) : Prop where
  mailFrom : ∀ l rest, f = l ++ rest → SeenLine .reMailFrom l → l.length ≤ 199
  rcpts : ∀ (rs : List Bytes) (l rest : Bytes),
    (takeLine newline 499 f).2 = rs.flatten ++ (l ++ rest) →
    (∀ k ∈ rs ++ [l], SeenLine .reRcptTo k) →
    ∀ name d, AddressIn l name d → name.length ≤ 199 ∧ d.length ≤ 99
  remote : ∀ l rs body, Accepted f l rs body → ∀ r ∈ rs,
    ∀ name d, AddressIn r name d → d ≠ myDomain → name.length ≤ 186

theorem addressIn_rcptOfLine (l : Bytes) (h : SeenLine .reRcptTo l) :
    AddressIn l (rcptOfLine l).name (rcptOfLine l).domain := by
  obtain ⟨name, a, d, hname, hsplit, -, hto, hdomain⟩ := captured_rcpt l h.line h.matched
  rw [rcptOfLine_eq l h.matched h.no_nul, hto, hdomain]
  exact ⟨a, hname, hsplit⟩

theorem AddressIn.unique {l name d name' d' : Bytes} (h : AddressIn l name d)
    (h' : AddressIn l name' d') : name = name' ∧ d = d' := by
  obtain ⟨a, hname, hsplit⟩ := h
  obtain ⟨a', hname', hsplit'⟩ := h'
  obtain rfl := hname.unique hname'
  exact ⟨rfl, (hsplit.unique hsplit').2⟩

theorem msgRcptto_length (name : Bytes) : (msgRcptto name).length = name.length + 13 := by
  have hopen : (bytes "RCPT TO: <").length = 10 := by decide
  have hclose : (bytes ">\r\n").length = 3 := by decide
  unfold msgRcptto
  rw [List.length_append, List.length_append, hopen, hclose]
  omega

/-- What the header readers copy, in terms of the lines of the file. -/
theorem mem_readCopies_iff (f : Bytes) (c : Copy) :
    c ∈ readCopies f ↔
      (∃ l rest, f = l ++ rest ∧ SeenLine .reMailFrom l ∧ c = ⟨.mailFrom, l⟩) ∨
      ∃ (rs : List Bytes) (l rest : Bytes),
        (takeLine newline 499 f).2 = rs.flatten ++ (l ++ rest) ∧
        (∀ k ∈ rs ++ [l], SeenLine .reRcptTo k) ∧ c ∈ rcptCopies (rcptOfLine l) := by
  unfold readCopies
  rw [List.mem_append, List.mem_map, List.mem_flatMap, readMailFrom_snd]
  simp only [Option.mem_toList, readMailFrom_fst_iff, mem_readMailTo_iff]
  apply or_congr
  · constructor
    · intro h
      obtain ⟨l, ⟨rest, hf, hl⟩, rfl⟩ := h
      exact ⟨l, rest, hf, hl, rfl⟩
    · intro h
      obtain ⟨l, rest, hf, hl, rfl⟩ := h
      exact ⟨l, ⟨rest, hf, hl⟩, rfl⟩
  · constructor
    · intro h
      obtain ⟨r, ⟨rs, l, rest, hf, hrs, rfl⟩, hc⟩ := h
      exact ⟨rs, l, rest, hf, hrs, hc⟩
    · intro h
      obtain ⟨rs, l, rest, hf, hrs, hc⟩ := h
      exact ⟨rcptOfLine l, ⟨rs, l, rest, hf, hrs, rfl⟩, hc⟩

theorem rcptCopies_fit_iff (r : Rcpt) :
    (∀ c ∈ rcptCopies r, c.Fits) ↔ r.name.length ≤ 199 ∧ r.domain.length ≤ 99 := by
  unfold rcptCopies Copy.Fits
  simp only [List.mem_cons, List.not_mem_nil, or_false, forall_eq_or_imp, forall_eq]
  change r.name.length + 1 ≤ 200 ∧ r.domain.length + 1 ≤ 100 ↔ _
  omega

/-- The recipients that stay in the queue are the remote ones. -/
theorem mem_queued_rcpts (myDomain : Bytes) (m m' : Mail) (r : Rcpt)
    (h : (filterMail myDomain m).1 = some m') :
    r ∈ m'.rcpts ↔ r ∈ m.rcpts ∧ r.domain ≠ myDomain := by
  rw [filterMail_eq] at h
  simp only at h
  split at h
  · obtain rfl := Option.some.inj h
    simp [keepRemote, isLocal]
  · cases h

/-- A mail with a remote recipient stays in the queue. -/
theorem exists_queued (myDomain : Bytes) (m : Mail) (r : Rcpt) (hr : r ∈ m.rcpts)
    (hremote : r.domain ≠ myDomain) : ∃ m', (filterMail myDomain m).1 = some m' := by
  have hany : hasRemoteRcpt myDomain m = true := by
    unfold hasRemoteRcpt
    exact List.any_eq_true.mpr ⟨r, hr, by simp [isLocal, hremote]⟩
  refine ⟨keepRemote myDomain m, ?_⟩
  rw [filterMail_eq, if_pos hany]

/-- In some run the command for a remote recipient of a queued mail is printed. -/
theorem useCopy_rcptto (myDomain : Bytes) (m : Mail) (r : Rcpt) (hr : r ∈ m.rcpts)
    (hremote : r.domain ≠ myDomain) : UseCopy myDomain m ⟨.rcpttoMsg, msgRcptto r.name⟩ := by
  have hd : (⟨r.domain⟩ : Domain) ∈ collectDomains myDomain [m] := by
    rw [mem_collectDomains]
    refine ⟨?_, hremote⟩
    rw [List.any_cons, List.any_nil, Bool.or_false]
    exact (SessionScript.mailHasRcptsFromDomain_iff m _).mpr ⟨r, hr, rfl⟩
  obtain ⟨j, hj⟩ := List.mem_iff_getElem?.mp hr
  obtain ⟨inps, w, hw, hsent⟩ := exists_full_session myDomain [m] ⟨r.domain⟩ hd
  apply UseCopy.sendRcptto [m] _ 60 inps w 0 0 j _ rfl hw
  rw [hsent]
  exact (mem_scriptCommands_rcptto_iff [m] _ 0 j _).mpr ⟨m, r, rfl, hj, rfl, rfl⟩

/-- Later copies are those of the domain and of the name of a remote recipient. -/
theorem useCopy_cases (myDomain : Bytes) (m : Mail) (c : Copy) (h : UseCopy myDomain m c) :
    ∃ r ∈ m.rcpts, c = ⟨.domainName, r.domain⟩ ∨ c = ⟨.rcpttoMsg, msgRcptto r.name⟩ := by
  cases h with
  | domainAdd mails d hm hd hr =>
    obtain ⟨r, hmem, hdom⟩ := (SessionScript.mailHasRcptsFromDomain_iff m d).mp hr
    exact ⟨r, hmem, Or.inl (by rw [hdom])⟩
  | sendRcptto mails net timeout inps w i p j text hm hw hsent =>
    obtain ⟨⟨hsound, -⟩, hmails, -⟩ := transfer_sound myDomain net mails timeout inps w hw
    obtain ⟨a, -, hscript⟩ := mem_sentOn w hsound p _ hsent
    rw [hmails] at hscript
    obtain ⟨m', r, hm', hr, -, rfl⟩ :=
      (mem_scriptCommands_rcptto_iff mails a.dom i j text).mp hscript
    obtain rfl := Option.some.inj (hm.symm.trans hm')
    exact ⟨r, List.mem_of_getElem? hr, Or.inr rfl⟩

/-- The recipient lines of an accepted file are among those that are read. -/
theorem Accepted.rcpt_read (f l : Bytes) (rs : List Bytes) (body k : Bytes)
    (h : Accepted f l rs body) (hk : k ∈ rs) :
    ∃ (a : List Bytes) (rest : Bytes), (takeLine newline 499 f).2 = a.flatten ++ (k ++ rest) ∧
      ∀ x ∈ a ++ [k], SeenLine .reRcptTo x := by
  obtain ⟨d, -, hf⟩ := h.data
  obtain ⟨a, b, hab⟩ := List.append_of_mem hk
  refine ⟨a, b.flatten ++ (d ++ body), ?_, ?_⟩
  · rw [← readMailFrom_snd, hf, readMailFrom_seen l _ h.mailFrom, hab]
    simp
  · intro x hx
    apply h.rcpts x
    rw [hab, List.append_cons]
    exact List.mem_append_left b hx

/-- The copies of the header readers fit exactly when the lines that they see are short. -/
theorem readCopies_fit_iff (f : Bytes) :
    (∀ c ∈ readCopies f, c.Fits) ↔
      (∀ l rest, f = l ++ rest → SeenLine .reMailFrom l → l.length ≤ 199) ∧
      ∀ (rs : List Bytes) (l rest : Bytes),
        (takeLine newline 499 f).2 = rs.flatten ++ (l ++ rest) →
        (∀ k ∈ rs ++ [l], SeenLine .reRcptTo k) →
        ∀ name d, AddressIn l name d → name.length ≤ 199 ∧ d.length ≤ 99 := by
  constructor
  · intro hread
    constructor
    · intro l rest hf hl
      have hcopy : l.length + 1 ≤ 200 :=
        hread ⟨.mailFrom, l⟩ ((mem_readCopies_iff f _).mpr (Or.inl ⟨l, rest, hf, hl, rfl⟩))
      omega
    · intro rs l rest hf hrs name d haddr
      have hl := hrs l (List.mem_append_right rs (List.mem_singleton_self l))
      obtain ⟨rfl, rfl⟩ := haddr.unique (addressIn_rcptOfLine l hl)
      apply (rcptCopies_fit_iff (rcptOfLine l)).mp
      intro c hc
      exact hread c ((mem_readCopies_iff f c).mpr (Or.inr ⟨rs, l, rest, hf, hrs, hc⟩))
  · intro hshort c hc
    obtain ⟨hfrom, hrcpts⟩ := hshort
    rcases (mem_readCopies_iff f c).mp hc with ⟨l, rest, hf, hl, rfl⟩ | ⟨rs, l, rest, hf, hrs, hc⟩
    · have hlen := hfrom l rest hf hl
      change l.length + 1 ≤ 200
      omega
    · have hl := hrs l (List.mem_append_right rs (List.mem_singleton_self l))
      have hlen := hrcpts rs l rest hf hrs _ _ (addressIn_rcptOfLine l hl)
      exact (rcptCopies_fit_iff (rcptOfLine l)).mpr hlen c hc

/-- The command for a remote recipient of an accepted file is printed in some run. -/
theorem fileCopy_rcptto (myDomain filename f l : Bytes) (rs : List Bytes) (body k : Bytes)
    (h : Accepted f l rs body) (hk : k ∈ rs) (hremote : (rcptOfLine k).domain ≠ myDomain) :
    FileCopy myDomain filename f ⟨.rcpttoMsg, msgRcptto (rcptOfLine k).name⟩ := by
  have hmail := readMailFile_of_accepted filename f l rs body h
  have hmem : rcptOfLine k ∈ (Mail.mk l (rs.map rcptOfLine) (textOf body) filename).rcpts :=
    List.mem_map_of_mem hk
  obtain ⟨m', hm'⟩ := exists_queued myDomain _ _ hmem hremote
  have hqueued := (mem_queued_rcpts myDomain _ m' _ hm').mpr ⟨hmem, hremote⟩
  exact .use _ m' _ hmail hm' (useCopy_rcptto myDomain m' _ hqueued hremote)

/-- Later copies of a file are those of a remote recipient line of an accepted file. -/
theorem fileCopy_cases (myDomain filename f : Bytes) (c : Copy)
    (h : FileCopy myDomain filename f c) :
    c ∈ readCopies f ∨
      ∃ l rs body k, Accepted f l rs body ∧ k ∈ rs ∧ (rcptOfLine k).domain ≠ myDomain ∧
        (c = ⟨.domainName, (rcptOfLine k).domain⟩ ∨
          c = ⟨.rcpttoMsg, msgRcptto (rcptOfLine k).name⟩) := by
  cases h with
  | read c hc => exact Or.inl hc
  | use m m' c hmail hfilter hc =>
    obtain ⟨r, hr, hcopy⟩ := useCopy_cases myDomain m' c hc
    obtain ⟨hmem, hremote⟩ := (mem_queued_rcpts myDomain m m' r hfilter).mp hr
    obtain ⟨l, rs, body, hacc, hrcpts⟩ := accepted_of_readMailFile filename f m hmail
    rw [hrcpts] at hmem
    obtain ⟨k, hk, rfl⟩ := List.mem_map.mp hmem
    exact Or.inr ⟨l, rs, body, k, hacc, hk, hremote, hcopy⟩

/-- Every copy of a file's addresses fits, in every queue and run, exactly when the
lines of the file are short enough. -/
theorem address_copies_fit_iff (myDomain filename f : Bytes) :
    (∀ c, FileCopy myDomain filename f c → c.Fits) ↔ ShortAddresses myDomain f := by
  constructor
  · intro hfit
    obtain ⟨hfrom, hrcpts⟩ := (readCopies_fit_iff f).mp fun c hc => hfit c (.read c hc)
    refine ⟨hfrom, hrcpts, ?_⟩
    intro l rs body hacc r hr name d haddr hremote
    obtain ⟨rfl, rfl⟩ := haddr.unique (addressIn_rcptOfLine r (hacc.rcpts r hr))
    have hcopy : (msgRcptto (rcptOfLine r).name).length + 1 ≤ 200 :=
      hfit _ (fileCopy_rcptto myDomain filename f l rs body r hacc hr hremote)
    rw [msgRcptto_length] at hcopy
    omega
  · intro hshort c hc
    rcases fileCopy_cases myDomain filename f c hc with
      hc | ⟨l, rs, body, k, hacc, hk, hremote, hcopy⟩
    · exact (readCopies_fit_iff f).mpr ⟨hshort.mailFrom, hshort.rcpts⟩ c hc
    · have haddr := addressIn_rcptOfLine k (hacc.rcpts k hk)
      rcases hcopy with rfl | rfl
      · obtain ⟨a, rest, hf, ha⟩ := Accepted.rcpt_read f l rs body k hacc hk
        have hlen := (hshort.rcpts a k rest hf ha _ _ haddr).2
        change (rcptOfLine k).domain.length + 1 ≤ 100
        omega
      · have hlen := hshort.remote l rs body hacc k hk _ _ haddr hremote
        change (msgRcptto (rcptOfLine k).name).length + 1 ≤ 200
        rw [msgRcptto_length]
        omega

section Example

/-- A name that is longer than its array. -/
def longName : Bytes := List.replicate 200 97 ++ bytes "@d"

def longNameFile : Bytes := fromLine ++ (msgRcptto longName ++ (dataLine ++ dotLine))

theorem splitsAt_longName : SplitsAt longName (List.replicate 200 97) (bytes "d") := by
  refine ⟨rfl, List.cons_ne_nil _ _, List.cons_ne_nil _ _, ?_⟩
  intro a d heq _ hd
  have hlen := congrArg List.length heq
  have hlong : longName.length = 202 := by
    rw [longName, List.length_append, List.length_replicate]
    rfl
  have hpos := List.length_pos_of_ne_nil hd
  rw [hlong, List.length_append, List.length_cons] at hlen
  rw [List.length_replicate]
  omega

theorem not_mem_longName (x : UInt8) (h : x ≠ 97) (hd : x ∉ bytes "@d") : x ∉ longName := by
  unfold longName
  rw [List.mem_append, not_or]
  refine ⟨?_, hd⟩
  intro hmem
  exact h (List.eq_of_mem_replicate hmem)

theorem seenLine_longName : SeenLine .reRcptTo (msgRcptto longName) := by
  have hnl := not_mem_longName newline (by decide) (by decide)
  have hnul := not_mem_longName 0 (by decide) (by decide)
  refine ⟨⟨isLine_msgRcptto longName hnl, ?_, ?_⟩, ?_⟩
  · rw [msgRcptto_length, longName, List.length_append, List.length_replicate]
    decide
  · exact reMatch_of_bracketed (bracketed_msgRcptto longName) splitsAt_longName hnl
  · unfold msgRcptto
    rw [List.mem_append, List.mem_append, not_or, not_or]
    exact ⟨⟨by decide, hnul⟩, by decide⟩

/-- A file with such a name is accepted, and the name is written behind its array. -/
theorem long_name_overruns :
    (readMailFile (bytes "1") (some longNameFile)).1.isSome = true ∧
      ∃ c, FileCopy (bytes "b") (bytes "1") longNameFile c ∧ ¬ c.Fits := by
  have hfrom : SeenLine .reMailFrom fromLine :=
    ⟨(header_of_body dotLine).mailFrom, by decide⟩
  have hdata : SeenLine .reData dataLine :=
    ⟨⟨⟨bytes "DATA\r", by decide, by decide⟩, by decide, by decide⟩, by decide⟩
  have hrcpts : ∀ r ∈ [msgRcptto longName], SeenLine .reRcptTo r := by
    intro r hr
    rw [List.mem_singleton.mp hr]
    exact seenLine_longName
  constructor
  · have hacc : Accepted longNameFile fromLine [msgRcptto longName] dotLine :=
      ⟨⟨hfrom, hrcpts, List.cons_ne_nil _ _, dataLine, hdata, by simp [longNameFile]⟩,
        by decide +kernel⟩
    rw [readMailFile_of_accepted (bytes "1") _ _ _ _ hacc]
    rfl
  · have hname : (rcptOfLine (msgRcptto longName)).name = longName :=
      ((addressIn_rcptOfLine _ seenLine_longName).unique
        ⟨_, bracketed_msgRcptto longName, splitsAt_longName⟩).1
    have hrest : (takeLine newline 499 longNameFile).2 =
        msgRcptto longName ++ (dataLine ++ dotLine) := by
      rw [← readMailFrom_snd, longNameFile, readMailFrom_seen fromLine _ hfrom]
    refine ⟨⟨.rcptName, (rcptOfLine (msgRcptto longName)).name⟩, .read _ ?_, ?_⟩
    · rw [mem_readCopies_iff]
      exact Or.inr ⟨[], msgRcptto longName, dataLine ++ dotLine, hrest, hrcpts,
        List.mem_cons_self⟩
    · rw [hname]
      change ¬ (longName.length + 1 ≤ 200)
      rw [longName, List.length_append, List.length_replicate]
      decide

end Example

end SmtpClient.AddressFields
