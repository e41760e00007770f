import SmtpClient.Frames
import SmtpClient.Interleavings
import SmtpClient.Maildir

/-!
The log process. Messages reach it through one socket as strings with their
terminators, and it collects each of them in a buffer byte by byte. A
terminator at the beginning of the buffer is the signal to stop. The loop is
the receiver of frames, as long as every message fits into the buffer.
-/
namespace SmtpClient.LogFraming

open MailTypes Maildir Frames Interleavings

def exitSymbol : UInt8 := 0

def stdoutSymbol : UInt8 := 1

def stderrSymbol : UInt8 := 2

/-- What send_log writes to the socket: a string and its terminator. -/
def sendLog (msg : Bytes) : Bytes := cstr msg ++ [0]

/-- close_log sends the string that begins with the exit symbol. -/
def closeLog : Bytes := sendLog ((33 :: [0] : Bytes).set 0 exitSymbol)

/-- The message that the macro LOG_IMP prints for a formatted text. -/
def logImp (symbol : UInt8) (text : Bytes) : Bytes := symbol :: text

/-- One call of log_message. -/
structure LogMessage where
  buf : Bytes
  type : UInt8
deriving DecidableEq

/-- The variables of log_loop, and the calls that it has made. -/
structure LogLoop where
  running : Bool
  i : ℕ
  buf : Vector UInt8 500
  calls : List LogMessage

/-- The buffer is not initialised. -/
def LogLoop.start (junk : Vector UInt8 500) : LogLoop := ⟨true, 0, junk, []⟩

/-- One byte comes from recv. The result none is an index outside the buffer. -/
def LogLoop.receive (s : LogLoop) (x : UInt8) : Option LogLoop :=
  if h : s.i < 500 then
    let buf := s.buf.set s.i x h
    if buf[s.i] = exitSymbol then
      if s.i = 0 then some { s with running := false, buf := buf }
      else
        let call := ⟨cstr (buf.toList.drop 1), buf[0]⟩
        some { s with i := 0, buf := buf, calls := s.calls ++ [call] }
    else some { s with i := s.i + 1, buf := buf }
  else none

/-- The loop on the bytes that are left in the socket, with the unread ones. At
their end recv fails. -/
def logLoop : LogLoop → Bytes → Option (LogLoop × Bytes)
  | s, [] =>
    let call := ⟨bytes "Some error occured while logging...", stderrSymbol⟩
    some ({ s with running := false, calls := s.calls ++ [call] }, [])
  | s, x :: stream => do
    let s ← s.receive x
    if s.running then logLoop s stream else some (s, stream)

/-- The call that a message leads to. -/
def callOf (msg : Bytes) : LogMessage := ⟨msg.drop 1, msg.headD 0⟩

/-- The buffer holds the text of the open frame. -/
structure Holds (s : LogLoop) (part : Bytes) : Prop where
  running : s.running = true
  index : s.i = part.length
  buffer : s.buf.toList.take s.i = part
  text : 0 ∉ part

section Receive

variable {s : LogLoop} {part : Bytes}

/-- The buffer after a byte was put behind the text of the open frame. -/
theorem Holds.set_buf (h : Holds s part) (x : UInt8) (hi : s.i < 500) :
    (s.buf.set s.i x hi).toList = part ++ x :: s.buf.toList.drop (s.i + 1) := by
  rw [Vector.toList_set, List.set_eq_take_append_cons_drop, if_pos (by simpa using hi), h.buffer]

theorem Holds.receive_text (h : Holds s part) (x : UInt8) (hx : x ≠ 0) (hlen : part.length < 500) :
    ∃ s', s.receive x = some s' ∧ Holds s' (part ++ [x]) ∧ s'.calls = s.calls := by
  have hi : s.i < 500 := by
    rw [h.index]
    exact hlen
  refine ⟨{ s with i := s.i + 1, buf := s.buf.set s.i x hi }, ?_, ?_, rfl⟩
  · unfold LogLoop.receive
    rw [dif_pos hi]
    simp [exitSymbol, hx]
  · refine ⟨h.running, ?_, ?_, ?_⟩
    · change s.i + 1 = _
      rw [List.length_append, h.index]
      rfl
    · change (s.buf.set s.i x hi).toList.take (s.i + 1) = _
      rw [h.set_buf x hi]
      change (part ++ ([x] ++ _)).take _ = _
      rw [← List.append_assoc]
      apply List.take_left'
      rw [List.length_append, h.index]
      rfl
    · rw [List.mem_append, List.mem_singleton]
      intro hmem
      rcases hmem with hmem | hmem
      · exact h.text hmem
      · exact hx hmem.symm

/-- A terminator behind some text makes one call, with that text and type. -/
theorem Holds.receive_end (h : Holds s part) (hne : part ≠ []) (hlen : part.length < 500) :
    ∃ s', s.receive 0 = some s' ∧ Holds s' [] ∧ s'.calls = s.calls ++ [callOf part] := by
  have hi : s.i < 500 := by
    rw [h.index]
    exact hlen
  have hpos : s.i ≠ 0 := by
    have hpos := List.length_pos_iff.mpr hne
    have hindex := h.index
    omega
  have hbuf := h.set_buf 0 hi
  have hcall : (⟨cstr ((s.buf.set s.i 0 hi).toList.drop 1), (s.buf.set s.i 0 hi)[0]⟩ : LogMessage) =
      callOf part := by
    obtain ⟨x, text, rfl⟩ := List.exists_cons_of_ne_nil hne
    have htext : 0 ∉ text := by
      intro hmem
      exact h.text (List.mem_cons_of_mem x hmem)
    have hhead : (s.buf.set s.i 0 hi)[0] = x := by
      have hget : (s.buf.set s.i 0 hi).toList[0]? = some x := by
        rw [hbuf]
        rfl
      simpa using hget
    rw [hhead, hbuf]
    change LogMessage.mk (cstr (text ++ 0 :: _)) x = ⟨text, x⟩
    rw [cstr_append_nul text _ htext]
  refine ⟨{ s with i := 0, buf := s.buf.set s.i 0 hi, calls := s.calls ++ [callOf part] },
    ?_, ?_, rfl⟩
  · unfold LogLoop.receive
    rw [dif_pos hi]
    simp only [Vector.getElem_set_self, exitSymbol, if_pos, if_neg hpos, hcall]
  · exact ⟨h.running, rfl, rfl, List.not_mem_nil⟩

/-- A terminator with nothing before it stops the loop without a call. -/
theorem Holds.receive_exit (h : Holds s []) :
    ∃ s', s.receive 0 = some s' ∧ s'.running = false ∧ s'.calls = s.calls := by
  have hzero : s.i = 0 := h.index
  have hi : s.i < 500 := by omega
  refine ⟨{ s with running := false, buf := s.buf.set s.i 0 hi }, ?_, rfl, rfl⟩
  unfold LogLoop.receive
  rw [dif_pos hi]
  simp [exitSymbol, hzero]

end Receive

theorem logLoop_cons (s s' : LogLoop) (x : UInt8) (stream : Bytes) (h : s.receive x = some s')
    (hrun : s'.running = true) : logLoop s (x :: stream) = logLoop s' stream := by
  rw [logLoop, h]
  simp only [Option.bind_eq_bind, Option.bind_some, hrun, if_true]

/-- The text of the open frame fits when the texts to come do. -/
theorem open_frame_fits (part stream rest : Bytes) (texts : List Bytes)
    (h : deframe 0 part stream = (texts, some rest)) (hfit : ∀ text ∈ texts, text.length ≤ 499) :
    part.length < 500 := by
  by_cases hpart : part = []
  · subst hpart
    decide
  · obtain ⟨text, hmem, hpre⟩ := deframe_open 0 part stream rest texts hpart h
    have hle := hpre.length_le
    have hmax := hfit text hmem
    omega

/-- The loop calls log_message for the texts that the receiver of frames finds,
when they fit into the buffer, and leaves the same bytes unread. -/
theorem logLoop_of_deframe (s : LogLoop) (part stream rest : Bytes) (texts : List Bytes)
    (hs : Holds s part) (h : deframe 0 part stream = (texts, some rest))
    (hfit : ∀ text ∈ texts, text.length ≤ 499) :
    ∃ s', logLoop s stream = some (s', rest) ∧ s'.running = false ∧
      s'.calls = s.calls ++ texts.map callOf := by
  induction stream generalizing s part texts with
  | nil => cases h
  | cons x stream ih =>
    have hlen := open_frame_fits part _ rest texts h hfit
    rw [deframe] at h
    by_cases hx : x = 0
    · subst hx
      rw [if_pos rfl] at h
      by_cases hpart : part = []
      · subst hpart
        rw [if_pos rfl] at h
        obtain ⟨rfl, hrest⟩ := Prod.mk.inj h
        obtain rfl := Option.some.inj hrest
        obtain ⟨s', hs', hstop, hcalls⟩ := hs.receive_exit
        refine ⟨s', ?_, hstop, by simpa using hcalls⟩
        rw [logLoop, hs']
        simp [hstop]
      · rw [if_neg hpart] at h
        obtain ⟨rfl, hrest⟩ := Prod.mk.inj h
        obtain ⟨s', hs', hholds, hcalls⟩ := hs.receive_end hpart hlen
        have hfit' : ∀ text ∈ (deframe 0 [] stream).1, text.length ≤ 499 := by
          intro text hmem
          exact hfit text (List.mem_cons_of_mem part hmem)
        obtain ⟨t, ht, hstop, htcalls⟩ := ih s' [] _ hholds (Prod.ext rfl hrest) hfit'
        refine ⟨t, ?_, hstop, ?_⟩
        · rw [logLoop_cons s s' 0 stream hs' hholds.running]
          exact ht
        · rw [htcalls, hcalls, List.append_assoc]
          rfl
    · rw [if_neg hx] at h
      obtain ⟨s', hs', hholds, hcalls⟩ := hs.receive_text x hx hlen
      obtain ⟨t, ht, hstop, htcalls⟩ := ih s' (part ++ [x]) texts hholds h hfit
      refine ⟨t, ?_, hstop, ?_⟩
      · rw [logLoop_cons s s' x stream hs' hholds.running]
        exact ht
      · rw [htcalls, hcalls]

/-- The processes that write to the log. -/
inductive Sender
  | main | keyboard
deriving DecidableEq

/-- A message that fits into the buffer of the log with its terminator. -/
structure IsMessage (msg : Bytes) : Prop where
  ne_nil : msg ≠ []
  text : 0 ∉ msg
  fits : msg.length ≤ 499

/-- The bytes of some messages in the socket. -/
def sentBytes (σ : List (Sender × Bytes)) : Bytes := σ.flatMap fun x => sendLog x.2

theorem sentBytes_eq (σ : List (Sender × Bytes)) (h : ∀ x ∈ σ, 0 ∉ x.2) :
    sentBytes σ = (σ.map Prod.snd).flatMap (frame 0) := by
  unfold sentBytes
  rw [List.flatMap_map]
  apply List.flatMap_congr
  intro x hx
  unfold sendLog frame
  rw [cstr_eq_self x.2 (h x hx)]

/-- However the messages of two processes are interleaved, log_loop calls
log_message once for each of them in the order of the stream, with its text and
type, stays in its buffer, and stops at the byte of close_log. -/
theorem log_round_trip (main keyboard : List Bytes) (σ : List (Sender × Bytes))
    (junk : Vector UInt8 500) (rest : Bytes) (hmain : project σ .main = main)
    (hkeyboard : project σ .keyboard = keyboard)
    (hmsg : ∀ msg ∈ main ++ keyboard, IsMessage msg) :
    ∃ s, logLoop (.start junk) (sentBytes σ ++ closeLog ++ rest) = some (s, rest) ∧
      s.running = false ∧ s.calls = σ.map fun x => callOf x.2 := by
  have hall : ∀ x ∈ σ, IsMessage x.2 := by
    intro x hx
    have hproject : x.2 ∈ project σ x.1 := List.mem_filterMap.mpr ⟨x, hx, if_pos rfl⟩
    apply hmsg x.2
    rw [List.mem_append, ← hmain, ← hkeyboard]
    cases hsender : x.1 with
    | main => exact Or.inl (hsender ▸ hproject)
    | keyboard => exact Or.inr (hsender ▸ hproject)
  have hframes : ∀ text ∈ σ.map Prod.snd, text ≠ [] ∧ 0 ∉ text := by
    intro text hmem
    obtain ⟨x, hx, rfl⟩ := List.mem_map.mp hmem
    exact ⟨(hall x hx).ne_nil, (hall x hx).text⟩
  have hfit : ∀ text ∈ σ.map Prod.snd, text.length ≤ 499 := by
    intro text hmem
    obtain ⟨x, hx, rfl⟩ := List.mem_map.mp hmem
    exact (hall x hx).fits
  have hstart : Holds (.start junk) [] := ⟨rfl, rfl, rfl, List.not_mem_nil⟩
  rw [sentBytes_eq σ fun x hx => (hall x hx).text]
  obtain ⟨s, hs, hstop, hcalls⟩ := logLoop_of_deframe (.start junk) [] _ rest _ hstart
    (deframe_frames 0 (σ.map Prod.snd) rest hframes) hfit
  refine ⟨s, hs, hstop, ?_⟩
  rw [hcalls, List.map_map]
  rfl

/-- One message of each process. -/
theorem log_round_trip_two :
    ∃ s, logLoop (.start (Vector.replicate 500 7))
        (sentBytes [(.keyboard, logImp stdoutSymbol (bytes "b")),
          (.main, logImp stderrSymbol (bytes "a"))] ++ closeLog ++ []) = some (s, []) ∧
      s.calls = [⟨bytes "b", stdoutSymbol⟩, ⟨bytes "a", stderrSymbol⟩] := by
  have hmsg : ∀ msg ∈ [logImp stderrSymbol (bytes "a")] ++ [logImp stdoutSymbol (bytes "b")],
      IsMessage msg := by
    intro msg hmem
    have hmem : msg = logImp stderrSymbol (bytes "a") ∨ msg = logImp stdoutSymbol (bytes "b") := by
      simpa using hmem
    rcases hmem with rfl | rfl
    · exact ⟨by decide, by decide, by decide⟩
    · exact ⟨by decide, by decide, by decide⟩
  obtain ⟨s, hs, -, hcalls⟩ := log_round_trip _ _ [(.keyboard, logImp stdoutSymbol (bytes "b")),
    (.main, logImp stderrSymbol (bytes "a"))] (Vector.replicate 500 7) [] rfl rfl hmsg
  exact ⟨s, hs, hcalls⟩

end SmtpClient.LogFraming
