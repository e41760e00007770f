import SmtpClient.Decimals
import SmtpClient.EventLoop
import SmtpClient.LogFraming
import SmtpClient.NewlineEscaping

/-!
The messages that a received reply leaves in the log. They are printed into an
array of 1000 bytes, and the log process collects them in one of 500 bytes. How
long they are depends on the reply, since its line ends are printed with two
bytes each and a NUL ends the text. Both arrays are large enough exactly when the
smaller one is.
-/
namespace SmtpClient.LoggedReplies

open MailTypes Maildir Frames BoundedOutput Decimals NewlineEscaping LogFraming Connections EventLoop

def debugSymbol : UInt8 := 3

def maxLogMessageSize : ℕ := 1000

def red : Bytes := 27 :: bytes "[31;1m"

def blue : Bytes := 27 :: bytes "[34;1m"

def magenta : Bytes := 27 :: bytes "[35;1m"

/-- The DLOG of wait_for_response. -/
def dlogRecv (dom : Domain) (res : ℕ) (text : Bytes) : Bytes :=
  logImp debugSymbol (blue ++ bytes "[" ++ cstr dom.name ++ bytes "] " ++ magenta ++
    bytes "recv [" ++ decimal res ++ bytes "]: >" ++ text)

/-- The ELOG of parse_response. -/
def elogUnexpected (dom : Domain) (text : Bytes) : Bytes :=
  logImp stderrSymbol (blue ++ bytes "[" ++ cstr dom.name ++ bytes "] " ++ red ++
    bytes "Received unexpected message: '" ++ text ++ bytes "'.")

/-- The messages for a chunk, when the static buffer of str_without_new_line held
buf before. -/
def replyLogs (buf : UtilsBuf) (dom : Domain) (chunk : Chunk) : Option (List Bytes) := do
  let buf ← strWithoutNewLine buf chunk.buf chunk.buf.length
  let received := dlogRecv dom chunk.buf.length (cstr buf.toList)
  if replyEvent chunk.buf = .invalid then do
    let buf ← strWithoutNewLine buf chunk.buf chunk.buf.length
    return [received, elogUnexpected dom (cstr buf.toList)]
  else return [received]

/-- The messages fit into the array of LOG_IMP with their terminators, and when
they reach a log process that waits for a message, its index stays in its buffer. -/
structure LogFits (msgs : List Bytes) : Prop where
  size : ∀ msg ∈ msgs, msg.length + 1 ≤ maxLogMessageSize
  received : ∀ s, Holds s [] → logLoop s (msgs.flatMap sendLog) ≠ none

/-- The bytes before the first NUL, of which the line ends count twice. -/
def printedLength (buf : Bytes) : ℕ :=
  (cstr buf).length + (cstr buf).countP fun x => decide (x = 10 ∨ x = 13)

/-- With 28 bytes around them, the name, the length and the text of a reply are
not longer than 499 bytes; for an unexpected reply 50 bytes stand around the name
and the text. -/
structure ShortReply (dom : Domain) (chunk : Chunk) : Prop where
  received : (cstr dom.name).length + (decimal chunk.buf.length).length +
    printedLength chunk.buf ≤ 471
  unexpected : replyEvent chunk.buf = .invalid →
    (cstr dom.name).length + printedLength chunk.buf ≤ 449

section Receive

variable {s : LogLoop} {part : Bytes}

/-- The loop goes on behind a text that its buffer takes. -/
theorem logLoop_text (h : Holds s part) (text : Bytes) (htext : 0 ∉ text)
    (hfit : part.length + text.length ≤ 500) :
    ∃ s', Holds s' (part ++ text) ∧ ∀ rest, logLoop s (text ++ rest) = logLoop s' rest := by
  induction text generalizing s part with
  | nil => exact ⟨s, by rwa [List.append_nil], fun _ => rfl⟩
  | cons x text ih =>
    rw [List.mem_cons, not_or] at htext
    rw [List.length_cons] at hfit
    obtain ⟨s₁, hs₁, hholds, -⟩ := h.receive_text x (Ne.symm htext.1) (by omega)
    obtain ⟨s₂, hs₂, hloop⟩ := ih hholds htext.2 (by
      rw [List.length_append, List.length_singleton]
      omega)
    refine ⟨s₂, by rwa [List.append_assoc] at hs₂, ?_⟩
    intro rest
    rw [List.cons_append, logLoop_cons s s₁ x _ hs₁ hholds.running]
    exact hloop rest

/-- No byte is taken by a full buffer. -/
theorem logLoop_full (h : Holds s part) (hfull : part.length = 500) (x : UInt8) (rest : Bytes) :
    logLoop s (x :: rest) = none := by
  have hreceive : s.receive x = none := by
    unfold LogLoop.receive
    rw [dif_neg]
    rw [h.index]
    omega
  rw [logLoop, hreceive]
  rfl

/-- A message of 499 bytes or less is taken in, and a longer one runs over. -/
theorem logLoop_message (h : Holds s []) (msg : Bytes) (hne : msg ≠ []) (hnul : 0 ∉ msg) :
    (msg.length ≤ 499 → ∃ s', Holds s' [] ∧
      ∀ rest, logLoop s (sendLog msg ++ rest) = logLoop s' rest) ∧
    (500 ≤ msg.length → ∀ rest, logLoop s (sendLog msg ++ rest) = none) := by
  unfold sendLog
  rw [cstr_eq_self msg hnul]
  constructor
  · intro hshort
    obtain ⟨s₁, h₁, hloop⟩ := logLoop_text h msg hnul (by rw [List.length_nil]; omega)
    obtain ⟨s₂, hs₂, h₂, -⟩ := h₁.receive_end hne (by rw [List.nil_append]; omega)
    refine ⟨s₂, h₂, ?_⟩
    intro rest
    rw [List.append_assoc, hloop]
    exact logLoop_cons s₁ s₂ 0 rest hs₂ h₂.running
  · intro hlong rest
    have hsplit : msg = msg.take 500 ++ msg.drop 500 := (List.take_append_drop 500 msg).symm
    have htake : (msg.take 500).length = 500 := by
      rw [List.length_take]
      omega
    have hnul' : 0 ∉ msg.take 500 := fun hmem => hnul (List.mem_of_mem_take hmem)
    obtain ⟨s₁, h₁, hloop⟩ := logLoop_text h (msg.take 500) hnul' (by rw [htake]; decide)
    rw [hsplit, List.append_assoc, List.append_assoc, hloop]
    cases hrest : msg.drop 500 ++ ([0] ++ rest) with
    | nil => simp at hrest
    | cons x rest => exact logLoop_full h₁ htake x rest

theorem logLoop_messages (h : Holds s []) (msgs : List Bytes)
    (hmsgs : ∀ msg ∈ msgs, msg ≠ [] ∧ 0 ∉ msg) :
    logLoop s (msgs.flatMap sendLog) ≠ none ↔ ∀ msg ∈ msgs, msg.length ≤ 499 := by
  induction msgs generalizing s with
  | nil => simp [logLoop]
  | cons msg msgs ih =>
    obtain ⟨hne, hnul⟩ := hmsgs msg List.mem_cons_self
    obtain ⟨hshort, hlong⟩ := logLoop_message h msg hne hnul
    rw [List.flatMap_cons, List.forall_mem_cons]
    by_cases hlen : msg.length ≤ 499
    · obtain ⟨s', h', hloop⟩ := hshort hlen
      rw [hloop, ih h' fun m hm => hmsgs m (List.mem_cons_of_mem msg hm)]
      exact ⟨fun hall => ⟨hlen, hall⟩, fun hall => hall.2⟩
    · rw [hlong (by omega)]
      exact ⟨fun hnone => absurd rfl hnone, fun hall => absurd hall.1 hlen⟩

end Receive

/-- The array of LOG_IMP is large enough for every message that the log process takes. -/
theorem logFits_iff (msgs : List Bytes) (hmsgs : ∀ msg ∈ msgs, msg ≠ [] ∧ 0 ∉ msg) :
    LogFits msgs ↔ ∀ msg ∈ msgs, msg.length ≤ 499 := by
  constructor
  · intro hfits
    have hstart : Holds (.start (Vector.replicate 500 0)) [] := ⟨rfl, rfl, rfl, List.not_mem_nil⟩
    exact (logLoop_messages hstart msgs hmsgs).mp (hfits.received _ hstart)
  · intro hshort
    constructor
    · intro msg hmem
      have hlen := hshort msg hmem
      unfold maxLogMessageSize
      omega
    · intro s hs
      exact (logLoop_messages hs msgs hmsgs).mpr hshort

section Printed

/-- The string that str_without_new_line leaves for a reply. -/
def printedText (s : Bytes) : Bytes := cstr (escapedText s)

theorem escape_of_ne (x : UInt8) (hlf : x ≠ 10) (hcr : x ≠ 13) : escape x = [x] := by
  unfold escape
  rw [if_neg hlf, if_neg hcr]

/-- A NUL is copied, and ends the text there. -/
theorem cstr_flatMap_escape (s : Bytes) : cstr (s.flatMap escape) = (cstr s).flatMap escape := by
  induction s with
  | nil => rfl
  | cons x s ih =>
    rw [List.flatMap_cons]
    by_cases hx : x = 0
    · subst hx
      rfl
    · have hnul : 0 ∉ escape x := by
        unfold escape
        split
        · decide
        · split
          · decide
          · exact fun hmem => hx (List.mem_singleton.mp hmem).symm
      rw [cstr_append_of_not_mem _ _ hnul, ih, cstr_cons x s hx, List.flatMap_cons]

theorem length_flatMap_escape (s : Bytes) :
    (s.flatMap escape).length = s.length + s.countP fun x => decide (x = 10 ∨ x = 13) := by
  induction s with
  | nil => rfl
  | cons x s ih =>
    rw [List.flatMap_cons, List.length_append, ih, List.length_cons, List.countP_cons]
    by_cases hlf : x = 10
    · subst hlf
      have htwo : (escape 10).length = 2 := rfl
      simp only [htwo, true_or, decide_true, if_true]
      omega
    · by_cases hcr : x = 13
      · subst hcr
        have htwo : (escape 13).length = 2 := rfl
        simp only [htwo, or_true, decide_true, if_true]
        omega
      · rw [escape_of_ne x hlf hcr]
        simp only [hlf, hcr, or_self, decide_false, List.length_singleton]
        simp only [Bool.false_eq_true, if_false]
        omega

/-- The printed text has the length of the escaped reply, or the buffer is full. -/
theorem printedText_length (s : Bytes) :
    (printedText s).length = printedLength s ∨
      998 ≤ (printedText s).length ∧ 998 ≤ printedLength s := by
  obtain ⟨rest, hrest⟩ := translated_prefix escape (utilsBufSize - 2) 0 s
  have hall := translated_all_or_full escape (utilsBufSize - 2) 0 s
  have htext : (printedText s).length =
      printedLength (translated escape (utilsBufSize - 2) 0 s) := by
    rw [printedText, escapedText, cstr_flatMap_escape, length_flatMap_escape]
    rfl
  rw [Nat.zero_add, length_flatMap_escape] at hall
  generalize translated escape (utilsBufSize - 2) 0 s = t at hrest hall htext
  rcases hall with rfl | hfull
  · exact Or.inl htext
  · by_cases hnul : 0 ∈ t
    · left
      rw [htext, printedLength, printedLength, ← hrest, cstr_append_of_mem t rest hnul]
    · right
      have hself := cstr_eq_self t hnul
      have hreply : printedLength s = printedLength t + printedLength rest := by
        rw [printedLength, ← hrest, cstr_append_of_not_mem t rest hnul, List.length_append,
          List.countP_append, printedLength, printedLength, hself]
        omega
      have hprinted : 998 ≤ printedLength t := by
        rw [printedLength, hself]
        exact hfull
      omega

end Printed

theorem dlogRecv_length (dom : Domain) (res : ℕ) (text : Bytes) :
    (dlogRecv dom res text).length =
      28 + (cstr dom.name).length + (decimal res).length + text.length := by
  have hrecv : (bytes "recv [").length = 6 := rfl
  have hclose : (bytes "] ").length = 2 := rfl
  have hend : (bytes "]: >").length = 4 := rfl
  have hopen : (bytes "[").length = 1 := rfl
  have hblue : blue.length = 7 := rfl
  have hmagenta : magenta.length = 7 := rfl
  simp only [dlogRecv, logImp, List.length_cons, List.length_append, hrecv, hclose, hend, hopen,
    hblue, hmagenta]
  omega

theorem elogUnexpected_length (dom : Domain) (text : Bytes) :
    (elogUnexpected dom text).length = 50 + (cstr dom.name).length + text.length := by
  have htext : (bytes "Received unexpected message: '").length = 30 := rfl
  have hclose : (bytes "] ").length = 2 := rfl
  have hend : (bytes "'.").length = 2 := rfl
  have hopen : (bytes "[").length = 1 := rfl
  have hblue : blue.length = 7 := rfl
  have hred : red.length = 7 := rfl
  simp only [elogUnexpected, logImp, List.length_cons, List.length_append, htext, hclose, hend,
    hopen, hblue, hred]
  omega

theorem zero_not_mem_dlogRecv (dom : Domain) (res : ℕ) (text : Bytes) (h : 0 ∉ text) :
    0 ∉ dlogRecv dom res text := by
  have hname := zero_not_mem_cstr dom.name
  have hres := not_mem_decimal res 0 (by decide)
  simp only [dlogRecv, logImp, List.mem_cons, List.mem_append, not_or, hname, hres, h,
    not_false_eq_true, and_true]
  decide

theorem zero_not_mem_elogUnexpected (dom : Domain) (text : Bytes) (h : 0 ∉ text) :
    0 ∉ elogUnexpected dom text := by
  have hname := zero_not_mem_cstr dom.name
  simp only [elogUnexpected, logImp, List.mem_cons, List.mem_append, not_or, hname, h,
    not_false_eq_true, and_true]
  decide

/-- The messages that are logged for a chunk. -/
theorem replyLogs_eq (buf : UtilsBuf) (dom : Domain) (chunk : Chunk) :
    replyLogs buf dom chunk = some (dlogRecv dom chunk.buf.length (printedText chunk.buf) ::
      if replyEvent chunk.buf = .invalid then [elogUnexpected dom (printedText chunk.buf)]
      else []) := by
  have hprint : ∀ b : UtilsBuf, ∃ b', strWithoutNewLine b chunk.buf chunk.buf.length = some b' ∧
      cstr b'.toList = printedText chunk.buf := by
    intro b
    obtain ⟨b', hb', hlist⟩ := strWithoutNewLine_spec b chunk.buf chunk.buf.length
    refine ⟨b', hb', ?_⟩
    rw [List.take_length] at hlist
    rw [hlist, printedText]
    by_cases hnul : 0 ∈ escapedText chunk.buf
    · exact cstr_append_of_mem _ _ hnul
    · rw [cstr_append_nul _ _ hnul, cstr_eq_self _ hnul]
  obtain ⟨buf₁, hbuf₁, htext₁⟩ := hprint buf
  obtain ⟨buf₂, hbuf₂, htext₂⟩ := hprint buf₁
  unfold replyLogs
  simp only [hbuf₁, hbuf₂, htext₁, htext₂, Option.bind_eq_bind, Option.bind_some]
  split <;> rfl

theorem replyLogs_messages (dom : Domain) (res : ℕ) (text : Bytes) (h : 0 ∉ text) :
    (dlogRecv dom res text ≠ [] ∧ 0 ∉ dlogRecv dom res text) ∧
      elogUnexpected dom text ≠ [] ∧ 0 ∉ elogUnexpected dom text :=
  ⟨⟨List.cons_ne_nil _ _, zero_not_mem_dlogRecv dom res text h⟩,
    List.cons_ne_nil _ _, zero_not_mem_elogUnexpected dom text h⟩

/-- The messages of a reply fit exactly when the reply is short enough for the
buffer of the log process. -/
theorem reply_logs_fit_iff (buf : UtilsBuf) (dom : Domain) (chunk : Chunk) :
    (∃ msgs, replyLogs buf dom chunk = some msgs ∧ LogFits msgs) ↔ ShortReply dom chunk := by
  have hnul : 0 ∉ printedText chunk.buf := zero_not_mem_cstr _
  obtain ⟨hrecv, hunexpected⟩ :=
    replyLogs_messages dom chunk.buf.length (printedText chunk.buf) hnul
  have hrecvlen := dlogRecv_length dom chunk.buf.length (printedText chunk.buf)
  have hunexpectedlen := elogUnexpected_length dom (printedText chunk.buf)
  have hprinted := printedText_length chunk.buf
  rw [replyLogs_eq]
  by_cases hevent : replyEvent chunk.buf = .invalid
  · rw [if_pos hevent]
    have hmsgs : ∀ msg ∈ [dlogRecv dom chunk.buf.length (printedText chunk.buf),
        elogUnexpected dom (printedText chunk.buf)], msg ≠ [] ∧ 0 ∉ msg :=
      List.forall_mem_cons.mpr ⟨hrecv, List.forall_mem_singleton.mpr hunexpected⟩
    have hiff := (logFits_iff _ hmsgs).trans List.forall_mem_cons
    rw [List.forall_mem_singleton, hrecvlen, hunexpectedlen] at hiff
    constructor
    · intro hfits
      obtain ⟨msgs, heq, hfits⟩ := hfits
      obtain rfl := Option.some.inj heq
      obtain ⟨h₁, h₂⟩ := hiff.mp hfits
      exact ⟨by omega, fun _ => by omega⟩
    · intro hshort
      have h₁ := hshort.received
      have h₂ := hshort.unexpected hevent
      exact ⟨_, rfl, hiff.mpr ⟨by omega, by omega⟩⟩
  · rw [if_neg hevent]
    have hiff := logFits_iff _ (List.forall_mem_singleton.mpr hrecv)
    rw [List.forall_mem_singleton, hrecvlen] at hiff
    constructor
    · intro hfits
      obtain ⟨msgs, heq, hfits⟩ := hfits
      obtain rfl := Option.some.inj heq
      have h₁ := hiff.mp hfits
      exact ⟨by omega, fun hinvalid => absurd hinvalid hevent⟩
    · intro hshort
      have h₁ := hshort.received
      exact ⟨_, rfl, hiff.mpr (by omega)⟩

/-- As many line ends as one call of recv takes. -/
def lineEnds : Chunk := ⟨List.replicate 500 10, List.cons_ne_nil _ _, by rw [List.length_replicate]⟩

/-- The message for 500 line ends is longer than the array it is printed into. -/
theorem line_ends_overrun :
    ¬ ∀ (buf : UtilsBuf) (dom : Domain) (chunk : Chunk), (cstr dom.name).length ≤ 99 →
        ∃ msgs, replyLogs buf dom chunk = some msgs ∧ LogFits msgs := by
  intro hclaim
  obtain ⟨msgs, heq, hfits⟩ := hclaim (Vector.replicate 1000 0) ⟨bytes "d"⟩ lineEnds (by decide)
  rw [replyLogs_eq] at heq
  obtain rfl := Option.some.inj heq
  have hsize := hfits.size _ List.mem_cons_self
  rw [dlogRecv_length] at hsize
  unfold maxLogMessageSize at hsize
  have hself : cstr lineEnds.buf = lineEnds.buf := by
    apply cstr_eq_self
    intro hmem
    exact absurd (List.eq_of_mem_replicate hmem) (by decide)
  have hlong : printedLength lineEnds.buf = 1000 := by
    have hbuf : lineEnds.buf = List.replicate 500 10 := rfl
    rw [printedLength, hself, hbuf, List.length_replicate, List.countP_replicate,
      if_pos (by decide)]
  have hprinted := printedText_length lineEnds.buf
  omega

end SmtpClient.LoggedReplies
