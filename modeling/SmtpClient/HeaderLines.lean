import SmtpClient.Maildir
import SmtpClient.ReplyLines
import Mathlib.Data.List.TakeWhile

/-!
The header of a mail file. A buffer that matches a header pattern is one whole
line, so the bounded reads of the header see the lines of the file, and a line
too long for the buffer matches nothing.
-/
namespace SmtpClient.HeaderLines

open MailTypes Backtracking Regexp LineReading Maildir

theorem toLower_newline (x : UInt8) (h : toLower x = 10) : x = 10 := by
  have hten : toLower 10 = 10 := rfl
  rw [← hten] at h
  exact (ReplyLines.toLower_eq_iff x 10 (by decide)).mp h

theorem groupFree_word (s : String) : groupFree (word s) = true := by
  apply groupFree_chain
  intro a ha
  obtain ⟨c, -, rfl⟩ := List.mem_map.mp ha
  rfl

/-- What a caseless word matches. -/
theorem reads_word_toLower (s : String) (t r : Bytes) :
    Reads (word s) t r ↔ t.map toLower = (bytes s).map toLower := by
  unfold word
  generalize bytes s = l
  induction l generalizing t with
  | nil => simp
  | cons c l ih =>
    rw [List.map_cons, reads_chain_cons]
    constructor
    · intro h
      obtain ⟨t₁, t₂, rfl, h₁, h₂⟩ := h
      obtain ⟨x, rfl, hx⟩ := (reads_one _ _ _).mp h₁
      rw [List.map_append, (ih t₂).mp h₂, List.map_cons, of_decide_eq_true hx]
      rfl
    · intro h
      obtain ⟨x, t₂, rfl, hx, h₂⟩ := List.map_eq_cons_iff.mp h
      exact ⟨[x], t₂, rfl, (reads_one _ _ _).mpr ⟨x, rfl, decide_eq_true hx⟩, (ih t₂).mpr h₂⟩

theorem newline_mem_of_toLower (t : Bytes) (s : String)
    (h : t.map toLower = (bytes s).map toLower) (hs : 10 ∈ (bytes s).map toLower) : 10 ∈ t := by
  rw [← h] at hs
  obtain ⟨x, hx, hlow⟩ := List.mem_map.mp hs
  rw [toLower_newline x hlow] at hx
  exact hx

theorem reMatch_anchored (name : SmtpReName) (a : Pattern UInt8) (str : Bytes)
    (h : patterns name = (true, a)) :
    reMatch name str = true ↔ ∃ t r, str = t ++ r ∧ Reads a t r := by
  unfold reMatch pcreExec
  rw [h]
  exact execAt_isSome_iff a str

/-- The headers that the patterns of the client describe. -/
def IsHeader (name : SmtpReName) : Prop :=
  name = .reMailFrom ∨ name = .reRcptTo ∨ name = .reData

theorem reads_word_newline (s : String) (t r : Bytes) (hs : 10 ∈ (bytes s).map toLower)
    (h : Reads (word s) t r) : 10 ∈ t :=
  newline_mem_of_toLower t s ((reads_word_toLower s t r).mp h) hs

/-- A pattern of five parts that closes with a bracket reads a newline. -/
theorem reads_closed_newline (a b c d : Pattern UInt8) (t r : Bytes)
    (h : Reads (chain [a, b, c, d, word ">\r\n"]) t r) : 10 ∈ t := by
  simp only [reads_chain_cons, reads_chain_nil] at h
  obtain ⟨_, _, rfl, -, _, _, rfl, -, _, _, rfl, -, _, _, rfl, -, e, _, rfl, he, rfl⟩ := h
  have hmem := reads_word_newline ">\r\n" e _ (by decide) he
  simp [hmem]

/-- A header is matched with its newline. -/
theorem reMatch_header_newline (name : SmtpReName) (str : Bytes) (hname : IsHeader name)
    (h : reMatch name str = true) : 10 ∈ str := by
  rcases hname with rfl | rfl | rfl
  · obtain ⟨t, r, rfl, ht⟩ := (reMatch_anchored _ _ str rfl).mp h
    exact List.mem_append_left r (reads_closed_newline _ _ _ _ t r ht)
  · obtain ⟨t, r, rfl, ht⟩ := (reMatch_anchored _ _ str rfl).mp h
    exact List.mem_append_left r (reads_closed_newline _ _ _ _ t r ht)
  · obtain ⟨t, r, rfl, ht⟩ := (reMatch_anchored _ _ str rfl).mp h
    exact List.mem_append_left r (reads_word_newline "DATA\r\n" t r (by decide) ht)

/-- The two recipient patterns differ in what they capture only. -/
theorem reMatch_reRcptDomain (str : Bytes) (h : reMatch .reRcptTo str = true) :
    reMatch .reRcptDomain str = true := by
  obtain ⟨t, r, rfl, ht⟩ := (reMatch_anchored .reRcptTo _ str rfl).mp h
  apply (reMatch_anchored .reRcptDomain _ _ rfl).mpr
  refine ⟨t, r, rfl, ?_⟩
  simp only [reads_chain_cons, reads_chain_nil, reads_group] at ht ⊢
  obtain ⟨a, _, rfl, ha, b, _, rfl, hb, c, _, rfl, hc, _, _, rfl,
    ⟨d, _, rfl, hd, e, _, rfl, he, f, _, rfl, hf, rfl⟩, g, _, rfl, hg, rfl⟩ := ht
  refine ⟨a, _, rfl, ?_, b, _, rfl, ?_, c, _, rfl, ?_, d, e ++ (f ++ (g ++ [])), ?_, ?_,
    e, _, rfl, ?_, f, _, rfl, ?_, g, _, rfl, ?_, rfl⟩
  · simpa using ha
  · simpa using hb
  · simpa using hc
  · simp
  · simpa using hd
  · simpa using he
  · simpa using hf
  · simpa using hg

/-- A line of a header that fits into the buffer of its reader. -/
structure HeaderLine (name : SmtpReName) (l : Bytes) : Prop where
  line : IsLine newline l
  fits : l.length ≤ 499
  matched : reMatch name l = true

theorem fgets_eq_some (f c rest : Bytes) (h : fgets newline 500 f = some (c, rest)) :
    f ≠ [] ∧ takeLine newline 499 f = (c, rest) ∧ f = c ++ rest := by
  unfold fgets at h
  split at h
  · cases h
  · rename_i hne
    have htake := Option.some.inj h
    have happ := takeLine_append newline 499 f
    rw [htake] at happ
    exact ⟨hne, htake, happ.symm⟩

/-- A buffer that matches a header is a whole line of the file. -/
theorem headerLine_of_fgets (name : SmtpReName) (f c rest : Bytes) (hname : IsHeader name)
    (h : fgets newline 500 f = some (c, rest)) (hm : reMatch name c = true) :
    HeaderLine name c := by
  obtain ⟨-, htake, -⟩ := fgets_eq_some f c rest h
  have hlen := takeLine_length_le newline 499 f
  have hlast := takeLine_dropLast newline 499 f
  rw [htake] at hlen hlast
  exact ⟨isLine_of_mem newline c (reMatch_header_newline name c hname hm) hlast, hlen, hm⟩

theorem fgets_headerLine (name : SmtpReName) (l s : Bytes) (h : HeaderLine name l) :
    fgets newline 500 (l ++ s) = some (l, s) := by
  have hne : l ++ s ≠ [] := by
    obtain ⟨w, rfl, -⟩ := h.line
    simp
  unfold fgets
  rw [if_neg hne, takeLine_line newline 499 l s h.line h.fits]

/-- Recipient lines and the DATA line behind them, with the rest of the file. -/
def RcptSection (f : Bytes) (rs : List Bytes) (body : Bytes) : Prop :=
  ∃ d, f = rs.flatten ++ d ++ body ∧ (∀ l ∈ rs, HeaderLine .reRcptTo l) ∧ HeaderLine .reData d

/-- A line is not both a recipient and DATA. -/
theorem not_reData_of_reRcptTo (l : Bytes) (h : reMatch .reRcptTo l = true) :
    reMatch .reData l = false := by
  by_contra hdata
  rw [Bool.not_eq_false] at hdata
  obtain ⟨t, r, rfl, ht⟩ := (reMatch_anchored .reData _ _ rfl).mp hdata
  obtain ⟨t', r', heq, ht'⟩ := (reMatch_anchored .reRcptTo _ _ rfl).mp h
  rw [reads_chain_cons] at ht'
  obtain ⟨a, b, rfl, ha, -⟩ := ht'
  have hdata := (reads_word_toLower _ _ _).mp ht
  have hrcpt := (reads_word_toLower _ _ _).mp ha
  have hfirst := congrArg (fun s => (s.map toLower).head?) heq
  simp only [List.map_append, hdata, hrcpt] at hfirst
  have hletters : some (toLower 68) = some (toLower 82) := hfirst
  exact absurd hletters (by decide)

theorem length_le_flatten (rs : List Bytes) (h : ∀ l ∈ rs, l ≠ []) :
    rs.length ≤ rs.flatten.length := by
  induction rs with
  | nil => exact Nat.le_refl 0
  | cons l rs ih =>
    have hl := List.length_pos_of_ne_nil (h l List.mem_cons_self)
    have hih := ih fun k hk => h k (List.mem_cons_of_mem l hk)
    rw [List.flatten_cons, List.length_append, List.length_cons]
    omega

end SmtpClient.HeaderLines
