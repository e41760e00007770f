import SmtpClient.MailData

/-!
The header readers on files that may contain NUL bytes. A line buffer that is cut
at a NUL has lost its newline and matches no header pattern, so the readers see
whole lines without NUL. They store the recipients of all recipient lines behind
the first buffer, also when they refuse the file later.
-/
namespace SmtpClient.SeenLines

open MailTypes Regexp LineReading Maildir HeaderLines MailData

/-- A header line that the string functions see whole. -/
structure SeenLine (name : SmtpReName) (l : Bytes) : Prop extends HeaderLine name l where
  no_nul : 0 ∉ l

/-- A string that is not its whole buffer stands in front of the last byte. -/
theorem cstr_prefix_dropLast (buf : Bytes) (h : 0 ∈ buf) : cstr buf <+: buf.dropLast := by
  obtain ⟨a, b, rfl, ha⟩ := List.eq_append_cons_of_mem h
  rw [cstr_append_nul a b ha, List.dropLast_append_of_ne_nil (List.cons_ne_nil 0 b)]
  exact List.prefix_append _ _

theorem seenLine_of_fgets (name : SmtpReName) (f c rest : Bytes) (hname : IsHeader name)
    (h : fgets newline 500 f = some (c, rest)) (hm : reMatch name (cstr c) = true) :
    SeenLine name c ∧ cstr c = c := by
  have hnul : 0 ∉ c := by
    intro hzero
    obtain ⟨-, htake, -⟩ := fgets_eq_some f c rest h
    have hlast := takeLine_dropLast newline 499 f
    rw [htake] at hlast
    have hmem := reMatch_header_newline name (cstr c) hname hm
    exact hlast ((cstr_prefix_dropLast c hzero).subset hmem)
  have hcut := cstr_eq_self c hnul
  rw [hcut] at hm
  exact ⟨⟨headerLine_of_fgets name f c rest hname h hm, hnul⟩, hcut⟩

theorem readMailFrom_snd (f : Bytes) : (readMailFrom f).2 = (takeLine newline 499 f).2 := by
  unfold readMailFrom fgets
  by_cases hf : f = []
  · rw [if_pos hf, hf]
    rfl
  · rw [if_neg hf]
    simp only
    split
    · rfl
    · rfl

theorem readMailFrom_seen (l rest : Bytes) (h : SeenLine .reMailFrom l) :
    readMailFrom (l ++ rest) = (some l, rest) := by
  unfold readMailFrom
  rw [fgets_headerLine .reMailFrom l rest h.toHeaderLine]
  simp only [cstr_eq_self l h.no_nul, h.matched, if_true]

/-- The MAIL FROM line that is stored. -/
theorem readMailFrom_fst_iff (f l : Bytes) :
    (readMailFrom f).1 = some l ↔ ∃ rest, f = l ++ rest ∧ SeenLine .reMailFrom l := by
  constructor
  · intro h
    unfold readMailFrom at h
    cases hget : fgets newline 500 f with
    | none =>
      rw [hget] at h
      cases h
    | some x =>
      obtain ⟨c, s⟩ := x
      rw [hget] at h
      simp only at h
      split at h
      · rename_i hm
        obtain ⟨hseen, hcut⟩ := seenLine_of_fgets _ f c s (Or.inl rfl) hget hm
        rw [hcut] at h
        obtain rfl := Option.some.inj h
        exact ⟨s, (fgets_eq_some f c s hget).2.2, hseen⟩
      · cases h
  · intro h
    obtain ⟨rest, rfl, hseen⟩ := h
    rw [readMailFrom_seen l rest hseen]

/-- The loop over the recipient lines reads them one by one. -/
theorem readMailToN_append (n : ℕ) (rs : List Bytes) (f : Bytes) (acc : List Rcpt)
    (hrs : ∀ l ∈ rs, SeenLine .reRcptTo l) :
    readMailToN (rs.length + n) (rs.flatten ++ f) acc =
      readMailToN n f (acc ++ rs.map rcptOfLine) := by
  induction rs generalizing acc with
  | nil =>
    rw [List.length_nil, Nat.zero_add, List.map_nil, List.append_nil]
    rfl
  | cons l rs ih =>
    have hl := hrs l List.mem_cons_self
    have hmore : ∀ k ∈ rs, SeenLine .reRcptTo k := fun k hk => hrs k (List.mem_cons_of_mem l hk)
    have hlen : (l :: rs).length + n = rs.length + n + 1 := by
      rw [List.length_cons]
      omega
    rw [hlen, List.flatten_cons, List.append_assoc, readMailToN,
      fgets_headerLine .reRcptTo l _ hl.toHeaderLine]
    simp only [cstr_eq_self l hl.no_nul, not_reData_of_reRcptTo l hl.matched, hl.matched, if_true,
      Bool.false_eq_true, if_false]
    rw [ih (acc ++ [rcptOfLine l]) hmore, List.append_assoc, List.map_cons]
    rfl

/-- What the loop stored, and where it stopped when it found the DATA line. -/
theorem readMailToN_reads (n : ℕ) (f : Bytes) (acc : List Rcpt) :
    ∃ (rs : List Bytes) (more : Bytes), f = rs.flatten ++ more ∧
      (∀ l ∈ rs, SeenLine .reRcptTo l) ∧
      (readMailToN n f acc).2.1 = acc ++ rs.map rcptOfLine ∧
      ((readMailToN n f acc).1 ≠ 0 → (acc ++ rs.map rcptOfLine ≠ [] ∧
        ∃ d, more = d ++ (readMailToN n f acc).2.2 ∧ SeenLine .reData d)) := by
  induction n generalizing f acc with
  | zero => exact ⟨[], f, rfl, by simp, by simp [readMailToN], fun h => absurd rfl h⟩
  | succ n ih =>
    rw [readMailToN]
    cases hget : fgets newline 500 f with
    | none => exact ⟨[], f, rfl, by simp, by simp, fun h => absurd rfl h⟩
    | some x =>
      obtain ⟨c, s⟩ := x
      obtain ⟨-, -, happ⟩ := fgets_eq_some f c s hget
      simp only
      split
      · rename_i hdata
        obtain ⟨hseen, -⟩ := seenLine_of_fgets _ f c s (Or.inr (Or.inr rfl)) hget hdata
        refine ⟨[], f, rfl, by simp, by simp, ?_⟩
        intro hcount
        refine ⟨?_, c, happ, hseen⟩
        intro hnil
        rw [List.map_nil, List.append_nil] at hnil
        rw [hnil] at hcount
        exact hcount rfl
      · split
        · rename_i hrcpt
          obtain ⟨hseen, -⟩ := seenLine_of_fgets _ f c s (Or.inr (Or.inl rfl)) hget hrcpt
          obtain ⟨rs, more, rfl, hrs, hout, hdata⟩ := ih s (acc ++ [rcptOfLine c])
          have hlist : acc ++ [rcptOfLine c] ++ rs.map rcptOfLine =
              acc ++ (c :: rs).map rcptOfLine := by
            rw [List.map_cons, List.append_assoc]
            rfl
          rw [hlist] at hout hdata
          refine ⟨c :: rs, more, ?_, ?_, hout, hdata⟩
          · rw [happ, List.flatten_cons, List.append_assoc]
          · intro l hl
            rcases List.mem_cons.mp hl with rfl | hl
            · exact hseen
            · exact hrs l hl
        · exact ⟨[], f, rfl, by simp, by simp, fun h => absurd rfl h⟩

theorem readMailTo_append (rs : List Bytes) (f : Bytes) (hrs : ∀ l ∈ rs, SeenLine .reRcptTo l) :
    ∃ n, readMailTo (rs.flatten ++ f) = readMailToN (n + 1) f (rs.map rcptOfLine) := by
  have hshort : rs.length ≤ rs.flatten.length := by
    apply length_le_flatten
    intro l hl hnil
    obtain ⟨w, hw, -⟩ := (hrs l hl).line
    rw [hnil] at hw
    exact absurd hw.symm (List.append_ne_nil_of_right_ne_nil w (List.cons_ne_nil _ _))
  have hfuel : (rs.flatten ++ f).length + 1 =
      rs.length + (rs.flatten.length + f.length - rs.length + 1) := by
    rw [List.length_append]
    omega
  refine ⟨rs.flatten.length + f.length - rs.length, ?_⟩
  unfold readMailTo
  rw [hfuel, readMailToN_append _ rs f [] hrs, List.nil_append]

/-- The recipients that read_mail_to stores, in a file that it may refuse later. -/
theorem mem_readMailTo_iff (f : Bytes) (r : Rcpt) :
    r ∈ (readMailTo f).2.1 ↔ ∃ (rs : List Bytes) (l rest : Bytes),
      f = rs.flatten ++ (l ++ rest) ∧ (∀ k ∈ rs ++ [l], SeenLine .reRcptTo k) ∧
      r = rcptOfLine l := by
  constructor
  · intro hr
    obtain ⟨rs, more, hf, hrs, hout, -⟩ := readMailToN_reads (f.length + 1) f []
    unfold readMailTo at hr
    rw [hout, List.nil_append] at hr
    obtain ⟨l, hl, rfl⟩ := List.mem_map.mp hr
    obtain ⟨a, b, rfl⟩ := List.append_of_mem hl
    refine ⟨a, l, b.flatten ++ more, ?_, ?_, rfl⟩
    · simp [hf]
    · intro k hk
      apply hrs k
      rw [List.append_cons]
      exact List.mem_append_left b hk
  · intro h
    obtain ⟨rs, l, rest, rfl, hrs, rfl⟩ := h
    have hflat : rs.flatten ++ (l ++ rest) = (rs ++ [l]).flatten ++ rest := by simp
    obtain ⟨n, hn⟩ := readMailTo_append (rs ++ [l]) rest hrs
    obtain ⟨more, -, -, -, hout, -⟩ :=
      readMailToN_reads (n + 1) rest ((rs ++ [l]).map rcptOfLine)
    rw [hflat, hn, hout]
    simp

/-- A header of at least one recipient as the readers see it, with the body behind it. -/
structure SeenHeader (f l : Bytes) (rs : List Bytes) (body : Bytes) : Prop where
  mailFrom : SeenLine .reMailFrom l
  rcpts : ∀ r ∈ rs, SeenLine .reRcptTo r
  some_rcpt : rs ≠ []
  data : ∃ d, SeenLine .reData d ∧ f = l ++ (rs.flatten ++ (d ++ body))

/-- The two header readers stop behind the header. -/
theorem SeenHeader.read (f l : Bytes) (rs : List Bytes) (body : Bytes)
    (h : SeenHeader f l rs body) : (readMailFrom f).1 = some l ∧
      readMailTo (readMailFrom f).2 = ((rs.map rcptOfLine).length, rs.map rcptOfLine, body) := by
  obtain ⟨d, hd, rfl⟩ := h.data
  obtain ⟨n, hn⟩ := readMailTo_append rs (d ++ body) h.rcpts
  rw [readMailFrom_seen l _ h.mailFrom, hn, readMailToN,
    fgets_headerLine .reData d body hd.toHeaderLine]
  simp only [cstr_eq_self d hd.no_nul, hd.matched, if_true, and_self]

/-- The header of a file determines its body. -/
theorem SeenHeader.body_eq (f l l' : Bytes) (rs rs' : List Bytes) (body body' : Bytes)
    (h : SeenHeader f l rs body) (h' : SeenHeader f l' rs' body') : body = body' := by
  obtain ⟨-, hto⟩ := h.read
  obtain ⟨-, hto'⟩ := h'.read
  exact (Prod.mk.inj (Prod.mk.inj (hto.symm.trans hto')).2).2

/-- A MAIL FROM line and a positive count of recipients come from a header. -/
theorem seenHeader_of_read (f l : Bytes) (hfrom : (readMailFrom f).1 = some l)
    (hcount : (readMailTo (readMailFrom f).2).1 ≠ 0) :
    ∃ rs, SeenHeader f l rs (readMailTo (readMailFrom f).2).2.2 := by
  obtain ⟨rest, hf, hseen⟩ := (readMailFrom_fst_iff f l).mp hfrom
  have hrest : (readMailFrom f).2 = rest := by rw [hf, readMailFrom_seen l rest hseen]
  rw [hrest] at hcount ⊢
  obtain ⟨rs, more, hsplit, hrs, -, hstop⟩ := readMailToN_reads (rest.length + 1) rest []
  obtain ⟨hne, d, hmore, hd⟩ := hstop hcount
  refine ⟨rs, hseen, hrs, ?_, d, hd, ?_⟩
  · rintro rfl
    exact hne rfl
  · have hjoin : rest = rs.flatten ++ (d ++ (readMailTo rest).2.2) := by
      refine hsplit.trans ?_
      rw [hmore]
      rfl
    exact hf.trans (congrArg (l ++ ·) hjoin)

/-- What read_mail_file does with a file that has a header. -/
theorem readMailFile_seenHeader (filename f l : Bytes) (rs : List Bytes) (body : Bytes)
    (h : SeenHeader f l rs body) :
    readMailFile filename (some f) =
      if (chunks newline 1000 body).getLast?.map cstr = some dotLine then
        (some ⟨l, rs.map rcptOfLine, textOf body, filename⟩, [])
      else (none, [.moveMail filename .new .notSent]) := by
  obtain ⟨hfrom, hto⟩ := h.read
  have hcount : (rs.map rcptOfLine).length ≠ 0 := by
    intro hzero
    exact h.some_rcpt (List.map_eq_nil_iff.mp (List.eq_nil_of_length_eq_zero hzero))
  unfold readMailFile
  simp only [hfrom, hto, readMailData_eq body]
  by_cases hdot : (chunks newline 1000 body).getLast?.map cstr = some dotLine
  · simp only [if_pos hdot, if_neg hcount, cstr_textOf body]
  · simp only [if_neg hdot]

/-- A file without a header is moved away. -/
theorem readMailFile_no_seenHeader (filename f : Bytes)
    (h : ∀ l rs body, ¬ SeenHeader f l rs body) :
    readMailFile filename (some f) = (none, [.moveMail filename .new .notSent]) := by
  unfold readMailFile
  simp only
  split
  · rename_i l msg hfrom hdata
    by_cases hcount : (readMailTo (readMailFrom f).2).1 = 0
    · rw [if_pos hcount]
    · obtain ⟨rs, hheader⟩ := seenHeader_of_read f l hfrom hcount
      exact absurd hheader (h l rs _)
  · rfl

/-- A file that read_mail_file accepts: its header, and a body whose last buffer
says the dot line. -/
structure Accepted (f l : Bytes) (rs : List Bytes) (body : Bytes) : Prop
    extends SeenHeader f l rs body where
  dot : (chunks newline 1000 body).getLast?.map cstr = some dotLine

theorem readMailFile_of_accepted (filename f l : Bytes) (rs : List Bytes) (body : Bytes)
    (h : Accepted f l rs body) :
    (readMailFile filename (some f)).1 = some ⟨l, rs.map rcptOfLine, textOf body, filename⟩ := by
  rw [readMailFile_seenHeader filename f l rs body h.toSeenHeader, if_pos h.dot]

/-- A mail is returned for accepted files only, with the recipients of their lines. -/
theorem accepted_of_readMailFile (filename f : Bytes) (m : Mail)
    (h : (readMailFile filename (some f)).1 = some m) :
    ∃ l rs body, Accepted f l rs body ∧ m.rcpts = rs.map rcptOfLine := by
  by_cases hheader : ∃ l rs body, SeenHeader f l rs body
  · obtain ⟨l, rs, body, hheader⟩ := hheader
    rw [readMailFile_seenHeader filename f l rs body hheader] at h
    split at h
    · rename_i hdot
      obtain rfl := Option.some.inj h
      exact ⟨l, rs, body, ⟨hheader, hdot⟩, rfl⟩
    · cases h
  · rw [readMailFile_no_seenHeader filename f fun l rs body hh => hheader ⟨l, rs, body, hh⟩] at h
    cases h

end SmtpClient.SeenLines
