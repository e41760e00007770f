import SmtpClient.HeaderLines

/-!
The body of a mail file. The message is what the strings in the buffers say, one
behind the other, so it is the rest of the file as long as that has no NUL. The
last buffer can be the dot line although the last line is not.
-/
namespace SmtpClient.MailData

open MailTypes LineReading Maildir HeaderLines

/-- One buffer is put behind the message so far. -/
theorem append_spec (b : MsgBuf) (acc rest c : Bytes) (hsize : b.currSize = acc.length)
    (hmsg : b.msg = acc ++ rest) (hrest : rest.length ≤ 1) (hlen : c.length ≤ 999) :
    (b.append c).currSize = (acc ++ cstr c).length ∧
      (b.append c).msg = acc ++ cstr c ++ [0] := by
  have hcut := cstr_length_le c
  have hshort : ¬ (cstr c).length > 1000 := by omega
  unfold MsgBuf.append
  simp only [if_neg hshort]
  constructor
  · rw [hsize, List.length_append]
  · unfold strcpyAt
    have hdrop : (acc ++ rest).drop (acc.length + (cstr c).length + 1) = [] := by
      apply List.drop_eq_nil_of_le
      rw [List.length_append]
      omega
    rw [hsize, hmsg, hdrop, List.take_left, List.append_nil]

/-- What the buffers of a body say. -/
def said (bufs : List Bytes) : Bytes := (bufs.map cstr).flatten

theorem foldl_append_spec (bufs : List Bytes) (b : MsgBuf) (acc rest : Bytes)
    (hsize : b.currSize = acc.length) (hmsg : b.msg = acc ++ rest) (hrest : rest.length ≤ 1)
    (hbufs : ∀ c ∈ bufs, c.length ≤ 999) :
    (bufs.foldl MsgBuf.append b).currSize = (acc ++ said bufs).length ∧
      (bufs.foldl MsgBuf.append b).msg =
        acc ++ said bufs ++ if bufs = [] then rest else [0] := by
  induction bufs generalizing b acc rest with
  | nil => simp [said, hsize, hmsg]
  | cons c bufs ih =>
    have hlen := hbufs c List.mem_cons_self
    obtain ⟨hsize', hmsg'⟩ := append_spec b acc rest c hsize hmsg hrest hlen
    have hmore : ∀ d ∈ bufs, d.length ≤ 999 := by
      intro d hd
      exact hbufs d (List.mem_cons_of_mem c hd)
    obtain ⟨hend, hbuf⟩ := ih (b.append c) (acc ++ cstr c) [0] hsize' hmsg' (Nat.le_refl 1) hmore
    have hsaid : acc ++ said (c :: bufs) = acc ++ cstr c ++ said bufs := by
      rw [said, List.map_cons, List.flatten_cons, ← said, List.append_assoc]
    rw [List.foldl_cons, hsaid]
    refine ⟨hend, ?_⟩
    rw [hbuf, if_neg (List.cons_ne_nil c bufs), ite_self]

/-- The text of a body is what its buffers say. -/
def textOf (f : Bytes) : Bytes := said (chunks newline 1000 f)

/-- The message is the text of the body, accepted when its last buffer says the
dot line. -/
theorem readMailData_eq (f : Bytes) :
    readMailData f =
      if (chunks newline 1000 f).getLast?.map cstr = some dotLine then some (textOf f ++ [0])
      else none := by
  have hchunk := chunks_length_le newline 1000 (by decide) f
  obtain ⟨hsize, hmsg⟩ := foldl_append_spec (chunks newline 1000 f) MsgBuf.empty [] [] rfl rfl
    (Nat.zero_le 1) hchunk
  rw [List.nil_append] at hsize hmsg
  unfold readMailData textOf
  simp only [hsize, hmsg]
  by_cases hdot : (chunks newline 1000 f).getLast?.map cstr = some dotLine
  · obtain ⟨c, hc, hcdot⟩ := Option.map_eq_some_iff.mp hdot
    have hmem := List.mem_of_getLast? hc
    have hne : chunks newline 1000 f ≠ [] := List.ne_nil_of_mem hmem
    have hsaid : (said (chunks newline 1000 f)).length ≠ 0 := by
      intro hzero
      have hnil := List.flatten_eq_nil_iff.mp (List.eq_nil_of_length_eq_zero hzero) (cstr c)
        (List.mem_map_of_mem hmem)
      rw [hcdot] at hnil
      cases hnil
    have hok : ¬ ((said (chunks newline 1000 f)).length = 0 ∨
        (chunks newline 1000 f).getLast?.map cstr ≠ some dotLine) := by
      intro h
      rcases h with h | h
      · exact hsaid h
      · exact h hdot
    rw [if_neg hok, if_pos hdot, if_neg hne]
    congr 1
    apply List.take_of_length_le
    simp
  · rw [if_pos (Or.inr hdot), if_neg hdot]

theorem cstr_textOf (f : Bytes) : cstr (textOf f ++ [0]) = textOf f := by
  have hnul : 0 ∉ textOf f := by
    intro hzero
    obtain ⟨t, ht, hmem⟩ := List.mem_flatten.mp hzero
    obtain ⟨c, -, rfl⟩ := List.mem_map.mp ht
    exact zero_not_mem_cstr c hmem
  exact cstr_append_nul (textOf f) [] hnul

theorem chunk_no_nul (f c : Bytes) (hnul : 0 ∉ f) (hc : c ∈ chunks newline 1000 f) :
    cstr c = c := by
  have hflat := chunks_flatten newline 1000 (by decide) f
  apply cstr_eq_self
  intro hzero
  exact hnul (hflat ▸ List.mem_flatten.mpr ⟨c, hc, hzero⟩)

theorem textOf_eq_self (f : Bytes) (hnul : 0 ∉ f) : textOf f = f := by
  have hmap : (chunks newline 1000 f).map cstr = (chunks newline 1000 f).map id := by
    apply List.map_congr_left
    intro c hc
    exact chunk_no_nul f c hnul hc
  rw [textOf, said, hmap, List.map_id, chunks_flatten newline 1000 (by decide)]

theorem getLast?_no_nul (f : Bytes) (hnul : 0 ∉ f) :
    (chunks newline 1000 f).getLast?.map cstr = (chunks newline 1000 f).getLast? := by
  cases hl : (chunks newline 1000 f).getLast? with
  | none => rfl
  | some c => exact congrArg some (chunk_no_nul f c hnul (List.mem_of_getLast? hl))

/-- When the last buffer of a body is the dot line. -/
theorem last_chunk_dotLine_iff (body last : Bytes)
    (h : (splitLines newline body).getLast? = some last) :
    (chunks newline 1000 body).getLast? = some dotLine ↔
      last = dotLine ∨ (999 < last.length ∧ last.length % 999 = 3 ∧ dotLine <:+ last) := by
  have hlen : dotLine.length = 3 := rfl
  rw [chunks_getLast? newline 1000 (by decide) body last h, Option.some.injEq]
  constructor
  · intro hdrop
    have hdroplen := congrArg List.length hdrop
    rw [List.length_drop, hlen] at hdroplen
    by_cases hshort : last.length ≤ 999
    · have hzero : (last.length - 1) / (1000 - 1) = 0 := Nat.div_eq_of_lt (by omega)
      rw [hzero, Nat.zero_mul, List.drop_zero] at hdrop
      exact Or.inl hdrop
    · refine Or.inr ⟨by omega, by omega, ?_⟩
      rw [← hdrop]
      exact List.drop_suffix _ _
  · intro h
    rcases h with rfl | ⟨hlong, hmod, hsuffix⟩
    · rfl
    · obtain ⟨front, rfl⟩ := hsuffix
      rw [List.length_append, hlen] at hlong hmod ⊢
      have hcut : (front.length + 3 - 1) / (1000 - 1) * (1000 - 1) = front.length := by omega
      rw [hcut, List.drop_left]

theorem splitLines_getLast?_of_chunk (body : Bytes)
    (h : (chunks newline 1000 body).getLast? = some dotLine) :
    ∃ last, (splitLines newline body).getLast? = some last := by
  have hne : body ≠ [] := by
    intro hnil
    rw [hnil] at h
    cases h
  exact ⟨_, List.getLast?_eq_some_getLast (splitLines_ne_nil newline body hne)⟩

end SmtpClient.MailData
