import SmtpClient.Regexp
import SmtpClient.LineReading
import Mathlib.Data.List.TakeWhile

/-!
Reading mail files and sorting out local mail. A file is the list of bytes that
is still to be read. The buffers of fgets are cut at their first NUL wherever
the source treats them as strings. File operations are recorded; MailStore says
what they do. Sizes are counted without overflow and arrays without a limit.
-/
namespace SmtpClient.Maildir

open MailTypes Regexp LineReading

inductive MaildirDir
  | root | new | cur | notSent
deriving DecidableEq, Repr

/-- The calls rename, link and unlink of the source, with their arguments. -/
inductive FileAction
  | moveMail (filename : Bytes) (fromDir toDir : MaildirDir)
  | copyMail (filename : Bytes) (fromDir toDir : MaildirDir)
  | deleteMail (filename : Bytes) (dir : MaildirDir)
deriving DecidableEq, Repr

def FileAction.filename : FileAction → Bytes
  | .moveMail filename _ _ | .copyMail filename _ _ | .deleteMail filename _ => filename

def newline : UInt8 := 10

/-- The string that a buffer holds. -/
def cstr (buf : Bytes) : Bytes := buf.takeWhile fun x => x ≠ 0

theorem cstr_length_le (buf : Bytes) : (cstr buf).length ≤ buf.length :=
  (List.takeWhile_prefix _).length_le

theorem cstr_eq_self (buf : Bytes) (h : 0 ∉ buf) : cstr buf = buf := by
  unfold cstr
  rw [List.takeWhile_eq_self_iff]
  intro x hx
  refine decide_eq_true ?_
  intro hzero
  exact h (hzero ▸ hx)

theorem zero_not_mem_cstr (buf : Bytes) : 0 ∉ cstr buf := by
  intro hzero
  have hkeep := List.mem_takeWhile_imp hzero
  simp at hkeep

theorem cstr_append_of_not_mem (s rest : Bytes) (h : 0 ∉ s) : cstr (s ++ rest) = s ++ cstr rest := by
  unfold cstr
  apply List.takeWhile_append_of_pos
  intro x hx
  refine decide_eq_true ?_
  intro hzero
  exact h (hzero ▸ hx)

theorem cstr_cons (x : UInt8) (s : Bytes) (hx : x ≠ 0) : cstr (x :: s) = x :: cstr s := by
  unfold cstr
  rw [List.takeWhile_cons, if_pos (decide_eq_true hx)]

theorem cstr_append_of_mem (s rest : Bytes) (h : 0 ∈ s) : cstr (s ++ rest) = cstr s := by
  induction s with
  | nil => cases h
  | cons x s ih =>
    by_cases hx : x = 0
    · subst hx
      rfl
    · have hmem : 0 ∈ s := (List.mem_cons.mp h).resolve_left (Ne.symm hx)
      rw [List.cons_append, cstr_cons x _ hx, cstr_cons x s hx, ih hmem]

/-- A string ends at the first terminator behind it. -/
theorem cstr_append_nul (str rest : Bytes) (h : 0 ∉ str) : cstr (str ++ 0 :: rest) = str := by
  rw [cstr_append_of_not_mem str _ h]
  exact List.append_nil str

/-- The text that strcpy leaves in the buffer at an offset, terminator included. -/
def strcpyAt (msg : Bytes) (offset : ℕ) (str : Bytes) : Bytes :=
  msg.take offset ++ str ++ [0] ++ msg.drop (offset + str.length + 1)

/-- The first line, and none when it is not a MAIL FROM line. -/
def readMailFrom (f : Bytes) : Option Bytes × Bytes :=
  match fgets newline 500 f with
  | none => (none, f)
  | some (buf, f') =>
    if reMatch .reMailFrom (cstr buf) then (some (cstr buf), f') else (none, f')

/-- The recipient of a line that matched RE_rcpt_to. The second match fills the
same buffer as the first one. -/
def rcptOfLine (buf : Bytes) : Rcpt :=
  let name := (reMatchAndFillSubstring .reRcptTo (cstr buf) []).2
  let domain := (reMatchAndFillSubstring .reRcptDomain (cstr buf) name).2
  ⟨cstr name, cstr domain⟩

/-- The loop over the recipient lines; n bounds the number of lines. The result
is the returned count, the recipients stored so far and the rest of the file. -/
def readMailToN : ℕ → Bytes → List Rcpt → ℕ × List Rcpt × Bytes
  | 0, f, rcpts => (0, rcpts, f)
  | n + 1, f, rcpts =>
    match fgets newline 500 f with
    | none => (0, rcpts, f)
    | some (buf, f') =>
      if reMatch .reData (cstr buf) then (rcpts.length, rcpts, f')
      else if reMatch .reRcptTo (cstr buf) then readMailToN n f' (rcpts ++ [rcptOfLine buf])
      else (0, rcpts, f')

def readMailTo (f : Bytes) : ℕ × List Rcpt × Bytes := readMailToN (f.length + 1) f []

/-- The message under construction: the two sizes the source keeps, and what has
been written to the buffer. -/
structure MsgBuf where
  currSize : ℕ
  maxSize : ℕ
  msg : Bytes
deriving DecidableEq, Repr

def MsgBuf.empty : MsgBuf := ⟨0, 1000, []⟩

/-- One iteration of the reading loop. -/
def MsgBuf.append (b : MsgBuf) (buf : Bytes) : MsgBuf :=
  let bytesRead := if (cstr buf).length > 1000 then 1000 else (cstr buf).length
  let maxSize := if b.currSize + bytesRead > b.maxSize then b.maxSize * 2 else b.maxSize
  ⟨b.currSize + bytesRead, maxSize, strcpyAt b.msg b.currSize (cstr buf)⟩

def dotLine : Bytes := bytes ".\r\n"

/-- The message with its terminator. The last chunk is still in the buffer when
the file has ended, and it has to be the dot line. -/
def readMailData (f : Bytes) : Option Bytes :=
  let bufs := chunks newline 1000 f
  let b := bufs.foldl MsgBuf.append .empty
  if b.currSize = 0 ∨ bufs.getLast?.map cstr ≠ some dotLine then none
  else some (b.msg.take (b.currSize + 1))

/-- All three readers run, whether or not the one before failed. A file that
cannot be opened has no content. -/
def readMailFile (filename : Bytes) (content : Option Bytes) : Option Mail × List FileAction :=
  match content with
  | none => (none, [])
  | some f =>
    let start := readMailFrom f
    let header := readMailTo start.2
    match start.1, readMailData header.2.2 with
    | some fromLine, some msg =>
      if header.1 = 0 then (none, [.moveMail filename .new .notSent])
      else (some ⟨fromLine, header.2.1, cstr msg, filename⟩, [])
    | _, _ => (none, [.moveMail filename .new .notSent])

/-- What the loop over the recipients of one mail keeps, and its two flags. -/
structure RcptFilter where
  rcpts : List Rcpt
  hasLocalRcpt : Bool
  otherRcpts : Bool
deriving DecidableEq, Repr

def RcptFilter.visit (myDomain : Bytes) (a : RcptFilter) (r : Rcpt) : RcptFilter :=
  if r.domain ≠ myDomain then { a with rcpts := a.rcpts ++ [r], otherRcpts := true }
  else { a with hasLocalRcpt := true }

/-- One mail of the filter loop: the mail if it stays queued, and the file actions. -/
def filterMail (myDomain : Bytes) (m : Mail) : Option Mail × List FileAction :=
  let a := m.rcpts.foldl (RcptFilter.visit myDomain) ⟨[], false, false⟩
  let m' := { m with rcpts := a.rcpts }
  if !a.otherRcpts then (none, [.moveMail m.filename .new .cur])
  else if a.hasLocalRcpt then (some m', [.copyMail m.filename .new .cur])
  else (some m', [])

def filterMyMail (myDomain : Bytes) (ml : List Mail) : List Mail × List FileAction :=
  (ml.filterMap fun m => (filterMail myDomain m).1, ml.flatMap fun m => (filterMail myDomain m).2)

end SmtpClient.Maildir
