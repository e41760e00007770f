import SmtpClient.MailData
import SmtpClient.Doubling
import Mathlib.Data.List.Induction

/-!
The buffer in which a message grows. It is a tight doubling array, so that both
sizes stay in the range of int. The size check counts the string of a line buffer
and not its terminator: the terminator lands behind the buffer exactly when the
strings read so far fill it.
-/
namespace SmtpClient.MessageBuffer

open MailTypes LineReading Maildir MailData Doubling

/-- The message buffer after some line buffers were read. -/
def bufferAfter (bufs : List Bytes) : MsgBuf := bufs.foldl MsgBuf.append .empty

/-- Both sizes are in the range of int. -/
structure InRange (b : MsgBuf) : Prop where
  currSize_lt : b.currSize < 2147483648
  maxSize_lt : b.maxSize < 2147483648

/-- One iteration of the loop: every byte that strcpy writes, up to the terminator,
lies in the buffer as it is allocated then. -/
structure CopyFits (b : MsgBuf) (buf : Bytes) : Prop where
  written : ∀ k, k ≤ (cstr buf).length → b.currSize + k < (b.append buf).maxSize
  inRange : InRange (b.append buf)

/-- Every iteration of the loop. -/
def Fits (bufs : List Bytes) : Prop :=
  ∀ before buf after, bufs = before ++ buf :: after → CopyFits (bufferAfter before) buf

theorem bufferAfter_concat (bufs : List Bytes) (buf : Bytes) :
    bufferAfter (bufs ++ [buf]) = (bufferAfter bufs).append buf := by
  unfold bufferAfter
  rw [List.foldl_append, List.foldl_cons, List.foldl_nil]

/-- A line buffer counts with its string, and the buffer grows by doubling. -/
theorem append_sizes (b : MsgBuf) (buf : Bytes) (hlen : buf.length ≤ 999) :
    (b.append buf).currSize = b.currSize + (cstr buf).length ∧
      (b.append buf).maxSize = grow b.currSize b.maxSize (cstr buf).length := by
  have hcut := cstr_length_le buf
  have hshort : ¬ (cstr buf).length > 1000 := by omega
  unfold MsgBuf.append grow
  simp only [if_neg hshort, and_self]

theorem bufferAfter_tight (bufs : List Bytes) (hlen : ∀ buf ∈ bufs, buf.length ≤ 999) :
    Tight 1000 (bufferAfter bufs).currSize (bufferAfter bufs).maxSize := by
  induction bufs using List.reverseRecOn with
  | nil => exact tight_start 1000
  | append_singleton bufs buf ih =>
    have hbuf := hlen buf (List.mem_append_right bufs (List.mem_singleton_self buf))
    obtain ⟨hcurr, hmax⟩ := append_sizes (bufferAfter bufs) buf hbuf
    have hcut := cstr_length_le buf
    have hold := ih fun c hc => hlen c (List.mem_append_left [buf] hc)
    rw [bufferAfter_concat, hcurr, hmax]
    apply hold.grow
    omega

theorem bufferAfter_currSize (bufs : List Bytes) (hlen : ∀ buf ∈ bufs, buf.length ≤ 999) :
    (bufferAfter bufs).currSize = (said bufs).length := by
  obtain ⟨hsize, -⟩ := foldl_append_spec bufs MsgBuf.empty [] [] rfl rfl (Nat.zero_le 1) hlen
  exact hsize

theorem said_length_le (bufs : List Bytes) : (said bufs).length ≤ bufs.flatten.length := by
  induction bufs with
  | nil => exact Nat.le_refl 0
  | cons buf bufs ih =>
    have hcut := cstr_length_le buf
    have hsaid : said (buf :: bufs) = cstr buf ++ said bufs := rfl
    rw [hsaid, List.flatten_cons, List.length_append, List.length_append]
    omega

/-- Neither size overflows while less than 2^30 bytes are read. -/
theorem bufferAfter_inRange (bufs : List Bytes) (hlen : ∀ buf ∈ bufs, buf.length ≤ 999)
    (hshort : bufs.flatten.length < 1073741824) : InRange (bufferAfter bufs) := by
  have hcurr := bufferAfter_currSize bufs hlen
  have hsaid := said_length_le bufs
  have htight := bufferAfter_tight bufs hlen
  have hused := htight.used_le
  have hdoubled := htight.doubled
  constructor
  · omega
  · omega

theorem flatten_length_le_of_prefix (read bufs : List Bytes) (h : read <+: bufs) :
    read.flatten.length ≤ bufs.flatten.length := by
  obtain ⟨rest, rfl⟩ := h
  rw [List.flatten_append, List.length_append]
  omega

/-- The copy of one line buffer fits unless the strings read with it fill a size. -/
theorem copyFits_iff (bufs : List Bytes) (buf : Bytes)
    (hlen : ∀ c ∈ bufs ++ [buf], c.length ≤ 999)
    (hshort : (bufs ++ [buf]).flatten.length < 1073741824) :
    CopyFits (bufferAfter bufs) buf ↔ ∀ k, (said (bufs ++ [buf])).length ≠ capacity 1000 k := by
  have hbuf := hlen buf (List.mem_append_right bufs (List.mem_singleton_self buf))
  obtain ⟨hcurr, -⟩ := append_sizes (bufferAfter bufs) buf hbuf
  have hafter := bufferAfter_currSize (bufs ++ [buf]) hlen
  have htight := bufferAfter_tight (bufs ++ [buf]) hlen
  have hrange := bufferAfter_inRange (bufs ++ [buf]) hlen hshort
  have hfull := htight.full_iff 1000 _ _ (by decide)
  rw [bufferAfter_concat] at hafter htight hrange hfull
  rw [← hafter]
  constructor
  · intro hfits k hk
    have hlast := hfits.written (cstr buf).length (Nat.le_refl _)
    have heq := hfull.mpr ⟨k, hk⟩
    omega
  · intro hne
    refine ⟨?_, hrange⟩
    intro k hk
    have hle := htight.used_le
    have hopen : ((bufferAfter bufs).append buf).currSize ≠
        ((bufferAfter bufs).append buf).maxSize := by
      intro heq
      obtain ⟨j, hj⟩ := hfull.mp heq
      exact hne j hj
    omega

/-- Every copy fits exactly when the strings of no sequence of first line buffers
together are as long as a size the buffer can have. -/
theorem copies_fit_iff (f : Bytes) (bufs : List Bytes) (hsplit : bufs.flatten = f)
    (hlen : ∀ buf ∈ bufs, 1 ≤ buf.length ∧ buf.length ≤ 999) (hshort : f.length < 1073741824) :
    Fits bufs ↔ ∀ read, read <+: bufs → ∀ k, (said read).length ≠ capacity 1000 k := by
  subst f
  have hmem : ∀ read, read <+: bufs → ∀ c ∈ read, c.length ≤ 999 := by
    intro read hread c hc
    exact (hlen c (hread.subset hc)).2
  have hfew : ∀ read, read <+: bufs → read.flatten.length < 1073741824 := by
    intro read hread
    have hle := flatten_length_le_of_prefix read bufs hread
    omega
  constructor
  · intro hfits read hread
    rcases List.eq_nil_or_concat read with rfl | ⟨before, buf, rfl⟩
    · intro k hk
      have hbase := base_le_capacity 1000 k
      rw [← hk] at hbase
      exact absurd hbase (by decide)
    · rw [List.concat_eq_append] at hread ⊢
      obtain ⟨after, hafter⟩ := hread
      have hcopy := hfits before buf after (by rw [← hafter, List.append_assoc]; rfl)
      exact (copyFits_iff before buf (hmem _ ⟨after, hafter⟩) (hfew _ ⟨after, hafter⟩)).mp hcopy
  · intro hne before buf after hsplit
    have hread : before ++ [buf] <+: bufs := ⟨after, by rw [hsplit, List.append_assoc]; rfl⟩
    exact (copyFits_iff before buf (hmem _ hread) (hfew _ hread)).mpr (hne _ hread)

/-- A body whose first line ends a few bytes behind the first buffer. -/
def grownBody : Bytes := List.replicate 999 97 ++ (bytes "aa\r\n" ++ dotLine)

theorem not_mem_letters (b : UInt8) (h : b ≠ 97) : b ∉ List.replicate 999 97 := by
  intro hmem
  exact h (List.eq_of_mem_replicate hmem)

/-- A buffer of letters is full, and the rest of the line is read into the next ones. -/
theorem chunks_letters (rest : Bytes) : chunks newline 1000 (List.replicate 999 97 ++ rest) =
    List.replicate 999 97 :: chunks newline 1000 rest := by
  have hne : List.replicate 999 97 ++ rest ≠ [] := List.append_ne_nil_of_left_ne_nil (by decide) _
  have hfirst : takeLine newline 999 (List.replicate 999 97 ++ rest) =
      (List.replicate 999 97, rest) :=
    takeLine_full newline 999 _ _ (not_mem_letters newline (by decide)) List.length_replicate
  rw [chunks_of_ne_nil newline 1000 (by decide) _ hne, hfirst]

theorem grownBody_chunks :
    chunks newline 1000 grownBody = [List.replicate 999 97, bytes "aa\r\n", dotLine] := by
  have hrest : chunks newline 1000 (bytes "aa\r\n" ++ dotLine) = [bytes "aa\r\n", dotLine] := by
    decide +kernel
  rw [grownBody, chunks_letters, hrest]

theorem cstr_letters : cstr (List.replicate 999 97) = List.replicate 999 97 :=
  cstr_eq_self _ (not_mem_letters 0 (by decide))

theorem grownBody_length : grownBody.length = 1006 := by
  rw [grownBody, List.length_append, List.length_replicate]
  rfl

theorem grownBody_chunk_length :
    ∀ buf ∈ chunks newline 1000 grownBody, 1 ≤ buf.length ∧ buf.length ≤ 999 := by
  rw [grownBody_chunks, List.forall_mem_cons]
  refine ⟨?_, by decide⟩
  rw [List.length_replicate]
  decide

theorem said_letters_length (bufs : List Bytes) :
    (said (List.replicate 999 97 :: bufs)).length = 999 + (said bufs).length := by
  have hsaid : said (List.replicate 999 97 :: bufs) =
      cstr (List.replicate 999 97) ++ said bufs := rfl
  rw [hsaid, cstr_letters, List.length_append, List.length_replicate]

/-- The first sizes of the buffer are 1000 and 2000 bytes. -/
theorem capacity_cases (k : ℕ) : capacity 1000 k = 1000 ∨ capacity 1000 k = 2000 ∨
    4000 ≤ capacity 1000 k := by
  have hnext : ∀ i, capacity 1000 (i + 1) = capacity 1000 i * 2 := fun _ => rfl
  rcases k with _ | _ | k
  · exact Or.inl rfl
  · exact Or.inr (Or.inl rfl)
  · have hbase := base_le_capacity 1000 k
    rw [hnext, hnext]
    omega

/-- No sum of its line buffers is a size, and the buffer grows for the second one. -/
theorem copies_fit_iff_grownBody :
    Fits (chunks newline 1000 grownBody) ∧
      (bufferAfter (chunks newline 1000 grownBody)).maxSize = 2000 := by
  have hlong := grownBody_length
  have hsplit := chunks_flatten newline 1000 (by decide) grownBody
  have hlen := grownBody_chunk_length
  constructor
  · rw [copies_fit_iff grownBody _ hsplit hlen (by omega), grownBody_chunks]
    intro read hread k hk
    have hsums : (said read).length = 0 ∨ (said read).length = 999 ∨ (said read).length = 1003 ∨
        (said read).length = 1006 := by
      simp only [List.prefix_cons_iff, List.prefix_nil] at hread
      rcases hread with rfl | ⟨read, rfl, rfl | ⟨read, rfl, rfl | ⟨read, rfl, rfl⟩⟩⟩
      · exact Or.inl rfl
      · exact Or.inr (Or.inl (said_letters_length []))
      · exact Or.inr (Or.inr (Or.inl (said_letters_length [bytes "aa\r\n"])))
      · exact Or.inr (Or.inr (Or.inr (said_letters_length [bytes "aa\r\n", dotLine])))
    have hsizes := capacity_cases k
    omega
  · have hbufs : ∀ buf ∈ chunks newline 1000 grownBody, buf.length ≤ 999 :=
      fun buf hbuf => (hlen buf hbuf).2
    have htight := bufferAfter_tight _ hbufs
    have hused : (said (chunks newline 1000 grownBody)).length = 1006 := by
      rw [grownBody_chunks]
      exact said_letters_length [bytes "aa\r\n", dotLine]
    rw [bufferAfter_currSize _ hbufs, hused] at htight
    obtain ⟨⟨k, hk⟩, hle, hdoubled⟩ := htight
    have hsizes := capacity_cases k
    omega

/-- A body whose first line is as long as the first buffer. -/
def fillingBody : Bytes := List.replicate 999 97 ++ newline :: dotLine

theorem fillingBody_chunks :
    chunks newline 1000 fillingBody = [List.replicate 999 97, [newline], dotLine] := by
  have hrest : chunks newline 1000 (newline :: dotLine) = [[newline], dotLine] := by
    decide +kernel
  rw [fillingBody, chunks_letters, hrest]

/-- The body is accepted, and the terminator of its second line buffer is written
behind the message buffer. -/
theorem fillingBody_overruns :
    readMailData fillingBody ≠ none ∧ fillingBody.length < 1073741824 ∧
      ¬ Fits (chunks newline 1000 fillingBody) := by
  have hlong : fillingBody.length = 1003 := by
    rw [fillingBody, List.length_append, List.length_replicate]
    rfl
  refine ⟨?_, by omega, ?_⟩
  · rw [readMailData_eq, fillingBody_chunks]
    intro hnone
    cases hnone
  · intro hfits
    have hcopy := hfits [List.replicate 999 97] [newline] [dotLine] fillingBody_chunks
    have hfull : (said ([List.replicate 999 97] ++ [[newline]])).length = capacity 1000 0 := by
      have hsaid : said ([List.replicate 999 97] ++ [[newline]]) =
          cstr (List.replicate 999 97) ++ [newline] := rfl
      rw [hsaid, cstr_letters, List.length_append, List.length_replicate]
      rfl
    refine (copyFits_iff [List.replicate 999 97] [newline] ?_ ?_).mp hcopy 0 hfull
    · intro c hc
      rcases List.mem_append.mp hc with h | h
      · rw [List.mem_singleton.mp h, List.length_replicate]
      · rw [List.mem_singleton.mp h]
        decide
    · have hflat : ([List.replicate 999 (97 : UInt8)] ++ [[newline]]).flatten =
          List.replicate 999 97 ++ [newline] := rfl
      rw [hflat, List.length_append, List.length_replicate]
      decide

/-- A body without NUL that ends in a dot line buffer becomes the message, byte for
byte, and every other body is refused; no size overflows on the way. -/
theorem message_reassembled (f : Bytes) (hnul : 0 ∉ f) (hshort : f.length < 1073741824) :
    readMailData f =
        (if f ≠ [] ∧ (chunks newline 1000 f).getLast? = some dotLine then some (f ++ [0])
        else none) ∧
      ∀ read, read <+: chunks newline 1000 f →
        InRange (bufferAfter read) ∧ (bufferAfter read).currSize = read.flatten.length ∧
          (read ≠ [] → (bufferAfter read).msg = read.flatten ++ [0]) := by
  have hflat := chunks_flatten newline 1000 (by decide) f
  have hchunk := chunks_length_le newline 1000 (by decide) f
  constructor
  · rw [readMailData_eq, textOf_eq_self f hnul, getLast?_no_nul f hnul]
    by_cases hlast : (chunks newline 1000 f).getLast? = some dotLine
    · have hne : f ≠ [] := by
        rintro rfl
        cases hlast
      rw [if_pos hlast, if_pos ⟨hne, hlast⟩]
    · rw [if_neg hlast, if_neg fun h => hlast h.2]
  · intro read hread
    have hle := flatten_length_le_of_prefix read (chunks newline 1000 f) hread
    rw [hflat] at hle
    have hlen : ∀ buf ∈ read, buf.length ≤ 999 := fun buf hbuf => hchunk buf (hread.subset hbuf)
    have hsaid : said read = read.flatten := by
      have hmap : read.map cstr = read.map id := by
        apply List.map_congr_left
        intro buf hbuf
        exact chunk_no_nul f buf hnul (hread.subset hbuf)
      rw [said, hmap, List.map_id]
    obtain ⟨hsize, hmsg⟩ := foldl_append_spec read MsgBuf.empty [] [] rfl rfl (Nat.zero_le 1) hlen
    rw [List.nil_append, hsaid] at hsize hmsg
    refine ⟨bufferAfter_inRange read hlen (by omega), hsize, ?_⟩
    intro hne
    rw [if_neg hne] at hmsg
    exact hmsg

/-- The three line buffers are put together again, across the growth of the buffer. -/
theorem message_reassembled_grownBody : readMailData grownBody = some (grownBody ++ [0]) := by
  have hnul : 0 ∉ grownBody := by
    rw [grownBody, List.mem_append, not_or]
    exact ⟨not_mem_letters 0 (by decide), by decide⟩
  have hlong := grownBody_length
  obtain ⟨hread, -⟩ := message_reassembled grownBody hnul (by omega)
  have hne : grownBody ≠ [] := List.append_ne_nil_of_right_ne_nil _ (by decide)
  rw [hread, grownBody_chunks]
  exact if_pos ⟨hne, rfl⟩

end SmtpClient.MessageBuffer
