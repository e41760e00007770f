import SmtpClient.BoundedOutput
import SmtpClient.MailTypes

/-!
The copy of a text without line ends that the log prints. It is written into a
static buffer, which holds what earlier calls have left there. The length is
tested once for each byte of the text, and a line end takes two bytes, so two
bytes are kept free for the last one and its terminator.
-/
namespace SmtpClient.NewlineEscaping

open MailTypes BoundedOutput

abbrev utilsBufSize : ℕ := 1000

abbrev UtilsBuf := Vector UInt8 utilsBufSize

/-- An assignment to one byte of the buffer; none is an index outside it. -/
def UtilsBuf.put (buf : UtilsBuf) (j : ℕ) (x : UInt8) : Option UtilsBuf :=
  if h : j < utilsBufSize then some (buf.set j x h) else none

/-- The loop on the bytes that are left, with the index into the buffer. -/
def escapeLoop : Bytes → ℕ → UtilsBuf → Option (ℕ × UtilsBuf)
  | [], j, buf => some (j, buf)
  | x :: rest, j, buf =>
    if j < utilsBufSize - 2 then
      if x = 10 then do
        let buf ← UtilsBuf.put buf j 92
        let buf ← UtilsBuf.put buf (j + 1) 110
        escapeLoop rest (j + 2) buf
      else if x = 13 then do
        let buf ← UtilsBuf.put buf j 92
        let buf ← UtilsBuf.put buf (j + 1) 114
        escapeLoop rest (j + 2) buf
      else do
        let buf ← UtilsBuf.put buf j x
        escapeLoop rest (j + 1) buf
    else some (j, buf)

/-- The buffer that is returned, when it held buf before. -/
def strWithoutNewLine (buf : UtilsBuf) (str : Bytes) (length : ℕ) : Option UtilsBuf := do
  let (j, buf) ← escapeLoop (str.take length) 0 buf
  UtilsBuf.put buf j 0

/-- A line end is written as a backslash and a letter. -/
def escape (x : UInt8) : Bytes :=
  if x = 10 then bytes "\\n" else if x = 13 then bytes "\\r" else [x]

theorem escape_length_le (x : UInt8) : (escape x).length ≤ 2 := by
  unfold escape
  split
  · exact Nat.le_refl 2
  · split
    · exact Nat.le_refl 2
    · exact Nat.le_succ 1

theorem not_mem_escape (x : UInt8) : 10 ∉ escape x ∧ 13 ∉ escape x := by
  unfold escape
  split
  · decide
  · rename_i hlf
    split
    · decide
    · rename_i hcr
      simp only [List.mem_singleton]
      exact ⟨Ne.symm hlf, Ne.symm hcr⟩

/-- One byte is written behind those that are there. -/
theorem put_spec (buf : UtilsBuf) (out rest : Bytes) (x y : UInt8)
    (h : buf.toList = out ++ y :: rest) :
    ∃ buf', UtilsBuf.put buf out.length x = some buf' ∧ buf'.toList = out ++ x :: rest := by
  have hlen : out.length < utilsBufSize := by
    have hsize := congrArg List.length h
    rw [Vector.length_toList, List.length_append, List.length_cons] at hsize
    omega
  refine ⟨buf.set out.length x hlen, dif_pos hlen, ?_⟩
  rw [Vector.toList_set, h, List.set_append_right _ _ (Nat.le_refl _), Nat.sub_self]
  rfl

theorem put_two_spec (buf : UtilsBuf) (out rest : Bytes) (a b y z : UInt8)
    (h : buf.toList = out ++ y :: z :: rest) :
    ∃ buf₁ buf₂, UtilsBuf.put buf out.length a = some buf₁ ∧
      UtilsBuf.put buf₁ (out.length + 1) b = some buf₂ ∧ buf₂.toList = out ++ [a, b] ++ rest := by
  obtain ⟨buf₁, hput₁, h₁⟩ := put_spec buf out (z :: rest) a y h
  rw [List.append_cons] at h₁
  obtain ⟨buf₂, hput₂, h₂⟩ := put_spec buf₁ (out ++ [a]) rest b z h₁
  rw [List.length_append, List.length_singleton] at hput₂
  refine ⟨buf₁, buf₂, hput₁, hput₂, ?_⟩
  rw [h₂]
  simp

/-- One pass of the loop writes the text of one byte. -/
theorem escapeLoop_cons (x : UInt8) (s out rest : Bytes) (buf : UtilsBuf)
    (h : buf.toList = out ++ rest) (hopen : out.length < utilsBufSize - 2) :
    ∃ buf', escapeLoop (x :: s) out.length buf =
        escapeLoop s (out.length + (escape x).length) buf' ∧
      buf'.toList = out ++ escape x ++ rest.drop (escape x).length := by
  obtain ⟨y, z, rest, rfl⟩ : ∃ y z rest', rest = y :: z :: rest' := by
    have hsize := congrArg List.length h
    rw [Vector.length_toList, List.length_append] at hsize
    match rest, hsize with
    | [], hsize => simp only [List.length_nil] at hsize; omega
    | [y], hsize => simp only [List.length_singleton] at hsize; omega
    | y :: z :: rest', _ => exact ⟨y, z, rest', rfl⟩
  rw [escapeLoop, if_pos hopen]
  unfold escape
  by_cases hlf : x = 10
  · obtain ⟨buf₁, buf₂, hput₁, hput₂, h₂⟩ := put_two_spec buf out rest 92 110 y z h
    refine ⟨buf₂, ?_, ?_⟩
    · rw [if_pos hlf, if_pos hlf, hput₁]
      simp only [Option.bind_eq_bind, Option.bind_some, hput₂]
      rfl
    · rw [if_pos hlf]
      exact h₂
  · rw [if_neg hlf, if_neg hlf]
    by_cases hcr : x = 13
    · obtain ⟨buf₁, buf₂, hput₁, hput₂, h₂⟩ := put_two_spec buf out rest 92 114 y z h
      refine ⟨buf₂, ?_, ?_⟩
      · rw [if_pos hcr, if_pos hcr, hput₁]
        simp only [Option.bind_eq_bind, Option.bind_some, hput₂]
        rfl
      · rw [if_pos hcr]
        exact h₂
    · obtain ⟨buf₁, hput₁, h₁⟩ := put_spec buf out (z :: rest) x y h
      refine ⟨buf₁, ?_, ?_⟩
      · rw [if_neg hcr, if_neg hcr, hput₁]
        rfl
      · rw [if_neg hcr, h₁]
        simp

/-- The loop writes the texts of the bytes that a space of two bytes less takes. -/
theorem escapeLoop_spec (s out rest : Bytes) (buf : UtilsBuf) (h : buf.toList = out ++ rest) :
    ∃ text buf', text = (translated escape (utilsBufSize - 2) out.length s).flatMap escape ∧
      escapeLoop s out.length buf = some (out.length + text.length, buf') ∧
      buf'.toList = out ++ text ++ rest.drop text.length := by
  induction s generalizing out rest buf with
  | nil => exact ⟨[], buf, rfl, rfl, by simpa using h⟩
  | cons x s ih =>
    rw [translated]
    by_cases hopen : out.length < utilsBufSize - 2
    · obtain ⟨buf₁, hstep, h₁⟩ := escapeLoop_cons x s out rest buf h hopen
      obtain ⟨text, buf₂, htext, hloop, h₂⟩ := ih (out ++ escape x) _ buf₁ h₁
      rw [List.length_append] at htext hloop
      refine ⟨escape x ++ text, buf₂, ?_, ?_, ?_⟩
      · rw [if_pos hopen, List.flatMap_cons, htext]
      · rw [hstep, hloop, List.length_append, Nat.add_assoc]
      · rw [h₂, List.drop_drop, List.length_append]
        simp
    · refine ⟨[], buf, ?_, ?_, by simpa using h⟩
      · rw [if_neg hopen]
        rfl
      · rw [escapeLoop, if_neg hopen]
        rfl

/-- What stands before the terminator. -/
def escapedText (s : Bytes) : Bytes := (translated escape (utilsBufSize - 2) 0 s).flatMap escape

theorem strWithoutNewLine_spec (buf : UtilsBuf) (str : Bytes) (length : ℕ) :
    ∃ buf', strWithoutNewLine buf str length = some buf' ∧
      buf'.toList = escapedText (str.take length) ++
        0 :: buf.toList.drop ((escapedText (str.take length)).length + 1) := by
  obtain ⟨text, buf₁, htext, hloop, h₁⟩ := escapeLoop_spec (str.take length) [] buf.toList buf rfl
  have htext : text = escapedText (str.take length) := htext
  have hlt := translated_length_lt escape (utilsBufSize - 2) 2 escape_length_le 0
    (str.take length) (by decide)
  rw [Nat.zero_add] at hlt
  change (escapedText (str.take length)).length < utilsBufSize at hlt
  rw [← htext] at hlt ⊢
  rw [List.nil_append] at h₁
  have hfits : text.length < buf.toList.length := by
    rw [Vector.length_toList]
    exact hlt
  rw [List.drop_eq_getElem_cons hfits] at h₁
  obtain ⟨buf₂, hput, h₂⟩ := put_spec buf₁ text _ 0 _ h₁
  refine ⟨buf₂, ?_, h₂⟩
  unfold strWithoutNewLine
  rw [List.length_nil, Nat.zero_add] at hloop
  rw [hloop]
  exact hput

/-- Every byte is written inside the buffer. Before the terminator stand the texts
of the first bytes, without a line end, and no byte is left out unless the buffer
is full; behind it the buffer keeps what it held. -/
theorem newlines_escaped (buf : UtilsBuf) (str : Bytes) (length : ℕ) :
    ∃ read buf', strWithoutNewLine buf str length = some buf' ∧ read <+: str.take length ∧
      buf'.toList = read.flatMap escape ++ 0 :: buf.toList.drop ((read.flatMap escape).length + 1) ∧
      10 ∉ read.flatMap escape ∧ 13 ∉ read.flatMap escape ∧
      (read = str.take length ∨ 998 ≤ (read.flatMap escape).length) := by
  obtain ⟨buf', hbuf', hlist⟩ := strWithoutNewLine_spec buf str length
  have hall := translated_all_or_full escape (utilsBufSize - 2) 0 (str.take length)
  rw [Nat.zero_add] at hall
  refine ⟨_, buf', hbuf', translated_prefix escape (utilsBufSize - 2) 0 (str.take length), hlist,
    ?_, ?_, hall⟩
  · intro hmem
    obtain ⟨x, -, hx⟩ := List.mem_flatMap.mp hmem
    exact (not_mem_escape x).1 hx
  · intro hmem
    obtain ⟨x, -, hx⟩ := List.mem_flatMap.mp hmem
    exact (not_mem_escape x).2 hx

end SmtpClient.NewlineEscaping
