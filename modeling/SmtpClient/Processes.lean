import SmtpClient.LogFraming
import SmtpClient.Runs

/-!
The three processes of the program: the client, the listener that waits for the quit key,
and the log. The listener tells the client about the key through a socket pair, and both
write to the log through another one. An action is one system call of one process, and
it is only possible when that call does not block.
-/
namespace SmtpClient.Processes

open MailTypes Maildir LogFraming Interleavings Runs

/-- Where the client is: in init behind its forks, in smtp_client_loop, or in one of the
steps of final. A client whose init fails ends without final. -/
inductive MainState
  | init | looping | closing | listenerDone | flushing | ended | failed
deriving DecidableEq, Repr

/-- Where the listener is. -/
inductive KeyState
  | starting | listening | pressed | logged | told | gone
deriving DecidableEq, Repr

/-- The processes and their sockets, with the messages sent in front of the exit symbol
and behind it. -/
structure Program where
  main : MainState
  keys : KeyState
  keyByte : Bool
  stream : Bytes
  log : LogLoop
  logGone : Bool
  exitSent : Bool
  sent : List (Sender × Bytes)
  late : List (Sender × Bytes)

/-- All three processes were forked. -/
def Program.start (junk : Vector UInt8 500) : Program :=
  ⟨.init, .starting, false, [], .start junk, false, false, [], []⟩

def green : Bytes := 27 :: bytes "[32;1m"

def startedMsg : Bytes := logImp stdoutSymbol (green ++ bytes "Keyboard reader started.")

def quitMsg : Bytes :=
  logImp stdoutSymbol (bytes "Key listener got 'Q' from keyboard, sending quit signal...")

def stoppedMsg : Bytes := logImp stdoutSymbol (green ++ bytes "Keyboard reader stopped.")

def errorCall : LogMessage := ⟨bytes "Some error occured while logging...", stderrSymbol⟩

/-- The system calls of the processes. -/
inductive Action
  | keyStarts
  | getch (c : UInt8)
  | keyLogs
  | keyTells
  | keyStops
  | mainLogs (msg : Bytes)
  | mainStarts
  | mainFails
  | quitKeyPressed
  | listenerFinal
  | closesLog
  | mainLeaves
  | logReads
  | logLeaves
deriving DecidableEq

/-- q or Q. -/
def isQuitKey (c : UInt8) : Bool := decide (c = 113 ∨ c = 81)

def Program.send (p : Program) (sender : Sender) (msg : Bytes) : Program :=
  { p with
    stream := p.stream ++ sendLog msg
    sent := if p.exitSent then p.sent else p.sent ++ [(sender, msg)]
    late := if p.exitSent then p.late ++ [(sender, msg)] else p.late }

/-- The listener writes to the log. Without a reader on the other side it is killed. -/
def Program.keyboardLogs (p : Program) (msg : Bytes) (next : KeyState) : Program :=
  if p.logGone then { p with keys := .gone }
  else { p.send .keyboard msg with keys := next }

/-- recv of no byte on the key socket: it does not block when the byte is there, which
it leaves, or when the listener has gone. -/
def Program.keyReadable (p : Program) : Bool := p.keyByte || decide (p.keys = .gone)

/-- recv of one byte in log_loop. It blocks on an empty socket while somebody can write
to it, and fails when nobody can. -/
def Program.logReads (p : Program) : Option Program :=
  match p.stream with
  | x :: rest => do
    let log ← p.log.receive x
    return { p with log := log, stream := rest }
  | [] =>
    if (p.main = .ended ∨ p.main = .failed) ∧ p.keys = .gone then
      some { p with log := { p.log with running := false, calls := p.log.calls ++ [errorCall] } }
    else none

def step (p : Program) : Action → Option Program
  | .keyStarts => if p.keys = .starting then some (p.keyboardLogs startedMsg .listening) else none
  | .getch c =>
    if p.keys = .listening then
      some (if isQuitKey c then { p with keys := .pressed } else p)
    else none
  | .keyLogs => if p.keys = .pressed then some (p.keyboardLogs quitMsg .logged) else none
  | .keyTells =>
    if p.keys = .logged then
      -- without a client on the other side the listener is killed
      if p.main = .ended ∨ p.main = .failed then some { p with keys := .gone }
      else some { p with keyByte := true, keys := .told }
    else none
  | .keyStops => if p.keys = .told then some (p.keyboardLogs stoppedMsg .gone) else none
  | .mainLogs msg =>
    if p.main = .init ∨ p.main = .looping then some (p.send .main msg) else none
  | .mainStarts => if p.main = .init then some { p with main := .looping } else none
  | .mainFails => if p.main = .init then some { p with main := .failed } else none
  | .quitKeyPressed =>
    if p.main = .looping then some (if p.keyReadable then { p with main := .closing } else p)
    else none
  | .listenerFinal =>
    if p.main = .closing ∧ p.keyReadable = true then some { p with main := .listenerDone }
    else none
  | .closesLog =>
    if p.main = .listenerDone then
      some { p with main := .flushing, exitSent := true, stream := p.stream ++ closeLog }
    else none
  | .mainLeaves =>
    if p.main = .flushing ∧ p.logGone = true then some { p with main := .ended } else none
  | .logReads => if p.log.running then p.logReads else none
  | .logLeaves =>
    if p.log.running = false ∧ p.logGone = false then some { p with logGone := true } else none

def runProgram : Program → List Action → Option Program := run step

section Printing

/-- The log while it runs: it has printed the first messages and holds a part of the
next one, and the socket has the rest of them. -/
def Printing (s : LogLoop) (stream : Bytes) (msgs : List Bytes) (tail : Bytes) : Prop :=
  ∃ printed pending part, msgs = printed ++ pending ∧ s.calls = printed.map callOf ∧
    Holds s part ∧ part ++ stream = pending.flatMap sendLog ++ tail

variable {s : LogLoop} {stream tail : Bytes} {msgs : List Bytes}

theorem printing_start (junk : Vector UInt8 500) : Printing (.start junk) [] [] [] :=
  ⟨[], [], [], rfl, rfl, ⟨rfl, rfl, rfl, List.not_mem_nil⟩, rfl⟩

/-- A message comes behind those that were sent. -/
theorem Printing.send (h : Printing s stream msgs []) (msg : Bytes) :
    Printing s (stream ++ sendLog msg) (msgs ++ [msg]) [] := by
  obtain ⟨printed, pending, part, rfl, hcalls, hholds, hstream⟩ := h
  refine ⟨printed, pending ++ [msg], part, List.append_assoc .., hcalls, hholds, ?_⟩
  rw [List.append_nil] at hstream ⊢
  rw [← List.append_assoc, hstream, List.flatMap_append, List.flatMap_singleton]

theorem Printing.more (h : Printing s stream msgs tail) (more : Bytes) :
    Printing s (stream ++ more) msgs (tail ++ more) := by
  obtain ⟨printed, pending, part, hmsgs, hcalls, hholds, hstream⟩ := h
  refine ⟨printed, pending, part, hmsgs, hcalls, hholds, ?_⟩
  rw [← List.append_assoc, hstream, List.append_assoc]

/-- The first terminator of two equal streams ends the same text. -/
theorem text_unique {a b c d : Bytes} (h : a ++ 0 :: b = c ++ 0 :: d) (ha : 0 ∉ a) (hc : 0 ∉ c) :
    a = c ∧ b = d := by
  have htext : a = c := by
    have heq := congrArg cstr h
    rwa [cstr_append_nul a b ha, cstr_append_nul c d hc] at heq
  subst htext
  exact ⟨rfl, (List.cons.inj (List.append_cancel_left h)).2⟩

theorem beginning_of_text {a b c d : Bytes} (h : a ++ b = c ++ 0 :: d) (ha : 0 ∉ a) : a <+: c := by
  have hc : c ++ [0] <+: a ++ b := ⟨d, by rw [h, List.append_assoc]; rfl⟩
  rcases List.prefix_or_prefix_of_prefix (List.prefix_append a b) hc with hpre | hpre
  · rcases List.prefix_concat_iff.mp hpre with rfl | hpre
    · exact absurd (by simp) ha
    · exact hpre
  · exact absurd (hpre.subset (by simp)) ha

theorem sendLog_message (msg : Bytes) (h : 0 ∉ msg) : sendLog msg = msg ++ [0] := by
  unfold sendLog
  rw [cstr_eq_self msg h]

/-- One byte that the log reads: some text, the end of a message, or the exit symbol. -/
theorem Printing.read {x : UInt8} (h : Printing s (x :: stream) msgs tail)
    (hmsgs : ∀ msg ∈ msgs, IsMessage msg) (htail : tail = [] ∨ ∃ late, tail = 0 :: late) :
    ∃ s', s.receive x = some s' ∧ (Printing s' stream msgs tail ∨
      (s'.running = false ∧ s'.calls = msgs.map callOf ∧ tail = 0 :: stream)) := by
  obtain ⟨printed, pending, part, rfl, hcalls, hholds, hstream⟩ := h
  cases pending with
  | nil =>
    have hexit : part ++ x :: stream = tail := hstream
    rcases htail with rfl | ⟨late, rfl⟩
    · exact absurd hexit (by simp)
    · -- no text comes in front of the exit symbol
      cases part with
      | cons y part =>
        obtain ⟨rfl, -⟩ := List.cons.inj hexit
        exact absurd List.mem_cons_self hholds.text
      | nil =>
        obtain ⟨rfl, rfl⟩ := List.cons.inj hexit
        obtain ⟨s', hs', hstop, hsame⟩ := hholds.receive_exit
        exact ⟨s', hs', Or.inr ⟨hstop, by rw [hsame, hcalls, List.append_nil], rfl⟩⟩
  | cons msg pending =>
    have hmsg : IsMessage msg := hmsgs msg (by simp)
    have hsplit : part ++ x :: stream = msg ++ 0 :: (pending.flatMap sendLog ++ tail) := by
      rw [hstream, List.flatMap_cons, sendLog_message msg hmsg.text]
      simp
    by_cases hx : x = 0
    · subst hx
      obtain ⟨rfl, hrest⟩ := text_unique hsplit hholds.text hmsg.text
      have hfits := hmsg.fits
      obtain ⟨s', hs', hholds', hcalls'⟩ := hholds.receive_end hmsg.ne_nil (by omega)
      refine ⟨s', hs', Or.inl ⟨printed ++ [part], pending, [], ?_, ?_, hholds', hrest⟩⟩
      · rw [List.append_assoc]
        rfl
      · rw [hcalls', hcalls, List.map_append]
        rfl
    · have htext : 0 ∉ part ++ [x] := by
        rw [List.mem_append, List.mem_singleton, not_or]
        exact ⟨hholds.text, Ne.symm hx⟩
      have hlen : part.length < 500 := by
        have hpre := beginning_of_text hsplit hholds.text
        have hle := hpre.length_le
        have hfits := hmsg.fits
        omega
      obtain ⟨s', hs', hholds', hcalls'⟩ := hholds.receive_text x hx hlen
      refine ⟨s', hs', Or.inl ⟨printed, msg :: pending, part ++ [x], rfl, ?_, hholds', ?_⟩⟩
      · rw [hcalls', hcalls]
      · rw [← hstream, List.append_assoc]
        rfl

end Printing

/-- One step of the program: the action is possible, and this is what it does. -/
inductive Stepped (p : Program) : Action → Program → Prop
  | keyStarts (keys : p.keys = .starting) :
      Stepped p .keyStarts (p.keyboardLogs startedMsg .listening)
  | getch (c : UInt8) (keys : p.keys = .listening) :
      Stepped p (.getch c) (if isQuitKey c then { p with keys := .pressed } else p)
  | keyLogs (keys : p.keys = .pressed) : Stepped p .keyLogs (p.keyboardLogs quitMsg .logged)
  | keyKilled (keys : p.keys = .logged) (main : p.main = .ended ∨ p.main = .failed) :
      Stepped p .keyTells { p with keys := .gone }
  | keyTells (keys : p.keys = .logged) (main : ¬ (p.main = .ended ∨ p.main = .failed)) :
      Stepped p .keyTells { p with keyByte := true, keys := .told }
  | keyStops (keys : p.keys = .told) : Stepped p .keyStops (p.keyboardLogs stoppedMsg .gone)
  | mainLogs (msg : Bytes) (main : p.main = .init ∨ p.main = .looping) :
      Stepped p (.mainLogs msg) (p.send .main msg)
  | mainStarts (main : p.main = .init) : Stepped p .mainStarts { p with main := .looping }
  | mainFails (main : p.main = .init) : Stepped p .mainFails { p with main := .failed }
  | quitKeyPressed (main : p.main = .looping) :
      Stepped p .quitKeyPressed (if p.keyReadable then { p with main := .closing } else p)
  | listenerFinal (main : p.main = .closing) (key : p.keyReadable = true) :
      Stepped p .listenerFinal { p with main := .listenerDone }
  | closesLog (main : p.main = .listenerDone) : Stepped p .closesLog
      { p with main := .flushing, exitSent := true, stream := p.stream ++ closeLog }
  | mainLeaves (main : p.main = .flushing) (log : p.logGone = true) :
      Stepped p .mainLeaves { p with main := .ended }
  | logReads (x : UInt8) (rest : Bytes) (log : LogLoop) (running : p.log.running = true)
      (stream : p.stream = x :: rest) (receives : p.log.receive x = some log) :
      Stepped p .logReads { p with log := log, stream := rest }
  | logFails (running : p.log.running = true) (stream : p.stream = [])
      (main : p.main = .ended ∨ p.main = .failed) (keys : p.keys = .gone) : Stepped p .logReads
      { p with log := { p.log with running := false, calls := p.log.calls ++ [errorCall] } }
  | logLeaves (running : p.log.running = false) (log : p.logGone = false) :
      Stepped p .logLeaves { p with logGone := true }

theorem stepped_of_step (p p' : Program) (a : Action) (h : step p a = some p') :
    Stepped p a p' := by
  cases a with
  | logReads =>
    simp only [step] at h
    split at h
    · rename_i hrun
      unfold Program.logReads at h
      split at h
      · rename_i x rest hstream
        obtain ⟨log, hlog, h⟩ := Option.bind_eq_some_iff.mp h
        obtain rfl := Option.some.inj h
        exact .logReads x rest log hrun hstream hlog
      · rename_i hstream
        split at h
        · rename_i hend
          obtain rfl := Option.some.inj h
          exact .logFails hrun hstream hend.1 hend.2
        · cases h
    · cases h
  | keyTells =>
    simp only [step] at h
    split at h
    · rename_i hkeys
      split at h
      · rename_i hmain
        obtain rfl := Option.some.inj h
        exact .keyKilled hkeys hmain
      · rename_i hmain
        obtain rfl := Option.some.inj h
        exact .keyTells hkeys hmain
    · cases h
  | keyStarts | getch c | keyLogs | keyStops | mainLogs msg | mainStarts | mainFails
  | quitKeyPressed | listenerFinal | closesLog | mainLeaves | logLeaves =>
    simp only [step] at h
    split at h
    · rename_i hguard
      obtain rfl := Option.some.inj h
      first
      | constructor <;> exact hguard
      | exact .listenerFinal hguard.1 hguard.2
      | exact .mainLeaves hguard.1 hguard.2
      | exact .logLeaves hguard.1 hguard.2
    · cases h

/-- The messages of the listener in front of the exit symbol and behind it. -/
inductive KeyTrace : KeyState → List Bytes → List (Sender × Bytes) → Prop
  | starting : KeyTrace .starting [] []
  | listening : KeyTrace .listening [startedMsg] []
  | pressed : KeyTrace .pressed [startedMsg] []
  | logged : KeyTrace .logged [startedMsg, quitMsg] []
  | told : KeyTrace .told [startedMsg, quitMsg] []
  | stopped : KeyTrace .gone [startedMsg, quitMsg, stoppedMsg] []
  | late : KeyTrace .gone [startedMsg, quitMsg] [(.keyboard, stoppedMsg)]
  | killed : KeyTrace .gone [startedMsg, quitMsg] []

section KeyTrace

variable {a : List Bytes} {late : List (Sender × Bytes)}

theorem KeyTrace.of_starting (h : KeyTrace .starting a late) :
    KeyTrace .listening (a ++ [startedMsg]) late := by
  cases h
  exact .listening

theorem KeyTrace.of_listening (h : KeyTrace .listening a late) : KeyTrace .pressed a late := by
  cases h
  exact .pressed

theorem KeyTrace.of_pressed (h : KeyTrace .pressed a late) :
    KeyTrace .logged (a ++ [quitMsg]) late := by
  cases h
  exact .logged

theorem KeyTrace.of_logged (h : KeyTrace .logged a late) :
    KeyTrace .told a late ∧ KeyTrace .gone a late := by
  cases h
  exact ⟨.told, .killed⟩

theorem KeyTrace.of_told (h : KeyTrace .told a late) :
    KeyTrace .gone (a ++ [stoppedMsg]) late ∧
      KeyTrace .gone a (late ++ [(.keyboard, stoppedMsg)]) ∧ KeyTrace .gone a late := by
  cases h
  exact ⟨.stopped, .late, .killed⟩

theorem KeyTrace.of_ended {keys : KeyState} (h : KeyTrace keys a late)
    (hkeys : keys = .told ∨ keys = .gone) :
    a = [startedMsg, quitMsg] ∨ a = [startedMsg, quitMsg, stoppedMsg] := by
  cases h with
  | stopped => exact Or.inr rfl
  | told | late | killed => exact Or.inl rfl
  | starting | listening | pressed | logged => rcases hkeys with hkeys | hkeys <;> cases hkeys

end KeyTrace

/-- The exit symbol and what comes behind it. -/
def Program.tail (p : Program) : Bytes :=
  if p.exitSent then closeLog ++ (p.late.map Prod.snd).flatMap sendLog else []

/-- What the log has done so far. -/
inductive LogState (p : Program) : Prop
  | prints (running : p.log.running = true)
      (printing : Printing p.log p.stream (p.sent.map Prod.snd) p.tail)
  | stopped (running : p.log.running = false) (exitSent : p.exitSent = true)
      (calls : p.log.calls = p.sent.map fun x => callOf x.2)
  | failed (running : p.log.running = false) (main : p.main = .failed) (keys : p.keys = .gone)
      (calls : p.log.calls = (p.sent.map fun x => callOf x.2) ++ [errorCall])

/-- The invariant of the program. -/
structure Consistent (p : Program) : Prop where
  trace : KeyTrace p.keys (project p.sent .keyboard) p.late
  byte : p.keyByte = true → p.keys = .told ∨ p.keys = .gone
  told : p.keys = .told → p.keyByte = true
  gone : p.keys = .gone → p.keyByte = true ∨ p.main = .failed
  left : p.main = .closing ∨ p.main = .listenerDone ∨ p.main = .flushing ∨ p.main = .ended →
    p.keyByte = true
  exits : p.exitSent = true ↔ p.main = .flushing ∨ p.main = .ended
  punctual : p.exitSent = false → p.late = []
  logGone : p.logGone = true → p.log.running = false
  ended : p.main = .ended → p.logGone = true
  messages : ∀ x ∈ p.sent, IsMessage x.2
  log : LogState p

section Invariant

variable {p p' : Program}

theorem consistent_start (junk : Vector UInt8 500) : Consistent (.start junk) := by
  refine ⟨.starting, ?_, ?_, ?_, ?_, ?_, fun _ => rfl, ?_, ?_, ?_, .prints rfl (printing_start junk)⟩
  · intro h
    cases h
  · intro h
    cases h
  · intro h
    cases h
  · intro h
    rcases h with h | h | h | h <;> cases h
  · simp [Program.start]
  · intro h
    cases h
  · intro h
    cases h
  · intro x hx
    exact absurd hx List.not_mem_nil

/-- A step that leaves the log and its socket alone. -/
theorem LogState.congr (h : LogState p) (hlog : p'.log = p.log) (hstream : p'.stream = p.stream)
    (hsent : p'.sent = p.sent) (hlate : p'.late = p.late) (hexit : p'.exitSent = p.exitSent)
    (hmain : p.main = .failed → p'.main = .failed) (hkeys : p.keys = .gone → p'.keys = .gone) :
    LogState p' := by
  have htail : p'.tail = p.tail := by
    unfold Program.tail
    rw [hexit, hlate]
  cases h with
  | prints hrun hprint =>
    refine .prints (hlog ▸ hrun) ?_
    rw [hlog, hstream, hsent, htail]
    exact hprint
  | stopped hrun hex hcalls => exact .stopped (hlog ▸ hrun) (hexit ▸ hex) (by rw [hlog, hsent, hcalls])
  | failed hrun hm hk hcalls =>
    exact .failed (hlog ▸ hrun) (hmain hm) (hkeys hk) (by rw [hlog, hsent, hcalls])

section Sends

variable (sender : Sender) (msg : Bytes)

theorem Program.sent_send (hexit : p.exitSent = false) :
    (p.send sender msg).sent = p.sent ++ [(sender, msg)] := by
  simp [Program.send, hexit]

theorem Program.late_send (hexit : p.exitSent = false) : (p.send sender msg).late = p.late := by
  simp [Program.send, hexit]

theorem Program.sent_send_late (hexit : p.exitSent = true) :
    (p.send sender msg).sent = p.sent := by
  simp [Program.send, hexit]

theorem Program.late_send_late (hexit : p.exitSent = true) :
    (p.send sender msg).late = p.late ++ [(sender, msg)] := by
  simp [Program.send, hexit]

theorem Consistent.messages_send (h : Consistent p) (hexit : p.exitSent = false)
    (hmsg : IsMessage msg) : ∀ x ∈ (p.send sender msg).sent, IsMessage x.2 := by
  intro x hx
  rw [Program.sent_send sender msg hexit] at hx
  rcases List.mem_append.mp hx with hx | hx
  · exact h.messages x hx
  · obtain rfl := List.mem_singleton.mp hx
    exact hmsg

end Sends

/-- The client writes to the log before it closes it. -/
theorem Consistent.not_exitSent (h : Consistent p) (hmain : p.main = .init ∨ p.main = .looping) :
    p.exitSent = false := by
  rw [← Bool.not_eq_true, h.exits]
  rcases hmain with hmain | hmain <;> simp [hmain]

/-- A message that is sent in front of the exit symbol. -/
theorem LogState.send (h : LogState p) (hexit : p.exitSent = false) (hkeys : p.keys ≠ .gone ∨
    p.main ≠ .failed) (sender : Sender) (msg : Bytes) : LogState (p.send sender msg) := by
  cases h with
  | prints hrun hprint =>
    have htail : p.tail = [] := by
      unfold Program.tail
      rw [hexit]
      rfl
    have htail' : (p.send sender msg).tail = [] := by
      unfold Program.tail Program.send
      simp [hexit]
    rw [htail] at hprint
    refine .prints hrun ?_
    rw [htail', Program.sent_send sender msg hexit, List.map_append]
    exact hprint.send msg
  | stopped _ hex =>
    rw [hexit] at hex
    cases hex
  | failed _ hm hk =>
    rcases hkeys with hkeys | hkeys
    · exact absurd hk hkeys
    · exact absurd hm hkeys

/-- A message that is sent behind the exit symbol. -/
theorem LogState.sendLate (h : LogState p) (hexit : p.exitSent = true) (sender : Sender)
    (msg : Bytes) : LogState (p.send sender msg) := by
  have hsent := Program.sent_send_late sender msg hexit
  cases h with
  | prints hrun hprint =>
    have htail : (p.send sender msg).tail = p.tail ++ sendLog msg := by
      unfold Program.tail Program.send
      simp [hexit]
    refine .prints hrun ?_
    rw [htail, hsent]
    exact hprint.more (sendLog msg)
  | stopped hrun _ hcalls => exact .stopped hrun hexit (by rw [hsent]; exact hcalls)
  | failed hrun hm hk hcalls => exact .failed hrun hm hk (by rw [hsent]; exact hcalls)

/-- Before the listener has told the client, nobody has left. -/
theorem Consistent.early (h : Consistent p) (hkeys : p.keys ≠ .told ∧ p.keys ≠ .gone) :
    p.keyByte = false ∧ p.exitSent = false ∧ p.logGone = false := by
  have hbyte : p.keyByte = false := by
    rw [← Bool.not_eq_true]
    intro hbyte
    rcases h.byte hbyte with htold | hgone
    · exact hkeys.1 htold
    · exact hkeys.2 hgone
  have hexit : p.exitSent = false := by
    rw [← Bool.not_eq_true]
    intro hexit
    have hleft := h.left (Or.inr (Or.inr (h.exits.mp hexit)))
    rw [hbyte] at hleft
    cases hleft
  refine ⟨hbyte, hexit, ?_⟩
  rw [← Bool.not_eq_true]
  intro hgone
  have hended := h.logGone hgone
  cases h.log with
  | prints hrun =>
    rw [hended] at hrun
    cases hrun
  | stopped _ hex =>
    rw [hexit] at hex
    cases hex
  | failed _ _ hk => exact hkeys.2 hk

/-- The listener writes a message while the log is there to read it. -/
theorem Consistent.keyboardLogs (h : Consistent p) (msg : Bytes) (next : KeyState)
    (hmsg : IsMessage msg) (hkeys : p.keys ≠ .told ∧ p.keys ≠ .gone)
    (hnext : next ≠ .told ∧ next ≠ .gone)
    (htrace : KeyTrace next (project p.sent .keyboard ++ [msg]) p.late) :
    Consistent (p.keyboardLogs msg next) := by
  obtain ⟨hbyte, hexit, hgone⟩ := h.early hkeys
  have hlogs : p.keyboardLogs msg next = { p.send .keyboard msg with keys := next } := by
    unfold Program.keyboardLogs
    rw [hgone]
    rfl
  have hsent := Program.sent_send .keyboard msg hexit
  have hlate := Program.late_send .keyboard msg hexit
  rw [hlogs]
  refine ⟨?_, ?_, ?_, ?_, h.left, h.exits, ?_, h.logGone, h.ended, ?_, ?_⟩
  · change KeyTrace next (project (p.send .keyboard msg).sent .keyboard) (p.send .keyboard msg).late
    rw [hsent, hlate, project_append]
    exact htrace
  · intro htold
    rw [show p.keyByte = true from htold] at hbyte
    cases hbyte
  · intro htold
    exact absurd htold hnext.1
  · intro hend
    exact absurd hend hnext.2
  · intro _
    exact hlate.trans (h.punctual hexit)
  · exact h.messages_send .keyboard msg hexit hmsg
  · exact (h.log.send hexit (Or.inl hkeys.2) .keyboard msg).congr rfl rfl rfl rfl rfl id
      (fun hend => absurd hend hkeys.2)

theorem isMessage_startedMsg : IsMessage startedMsg := ⟨by decide, by decide, by decide⟩

theorem isMessage_quitMsg : IsMessage quitMsg := ⟨by decide, by decide, by decide⟩

theorem isMessage_stoppedMsg : IsMessage stoppedMsg := ⟨by decide, by decide, by decide⟩

/-- A step of one of the processes that leaves the log and the messages alone. -/
theorem Consistent.moves (h : Consistent p) (main : MainState) (keys : KeyState) (keyByte : Bool)
    (htrace : KeyTrace keys (project p.sent .keyboard) p.late)
    (hbyte : keyByte = true → keys = .told ∨ keys = .gone)
    (htold : keys = .told → keyByte = true)
    (hgone : keys = .gone → keyByte = true ∨ main = .failed)
    (hleft : main = .closing ∨ main = .listenerDone ∨ main = .flushing ∨ main = .ended →
      keyByte = true)
    (hexits : main = .flushing ∨ main = .ended ↔ p.main = .flushing ∨ p.main = .ended)
    (hended : main = .ended → p.logGone = true) (hfailed : p.main = .failed → main = .failed)
    (hkeys : p.keys = .gone → keys = .gone) :
    Consistent { p with main := main, keys := keys, keyByte := keyByte } :=
  ⟨htrace, hbyte, htold, hgone, hleft, h.exits.trans hexits.symm, h.punctual, h.logGone, hended,
    h.messages, h.log.congr rfl rfl rfl rfl rfl hfailed hkeys⟩

/-- The last message of the listener: nobody may be there to read it. -/
theorem Consistent.keyStops (h : Consistent p) (hkeys : p.keys = .told) :
    Consistent (p.keyboardLogs stoppedMsg .gone) := by
  obtain ⟨hstopped, hlater, hkilled⟩ := (hkeys ▸ h.trace).of_told
  have hbyte := h.told hkeys
  unfold Program.keyboardLogs
  split
  · exact h.moves p.main .gone p.keyByte hkilled (fun _ => Or.inr rfl) (fun _ => hbyte)
      (fun _ => Or.inl hbyte) h.left Iff.rfl h.ended id (fun _ => rfl)
  · have hgone : p.keys ≠ .gone := by simp [hkeys]
    cases hexit : p.exitSent with
    | false =>
      have hsent := Program.sent_send .keyboard stoppedMsg hexit
      have hlate := Program.late_send .keyboard stoppedMsg hexit
      have hlog := h.log.send hexit (Or.inl hgone) .keyboard stoppedMsg
      refine ⟨?_, fun _ => Or.inr rfl, fun _ => hbyte, fun _ => Or.inl hbyte, h.left, h.exits,
        fun _ => hlate.trans (h.punctual hexit), h.logGone, h.ended,
        h.messages_send .keyboard stoppedMsg hexit isMessage_stoppedMsg,
        hlog.congr rfl rfl rfl rfl rfl id fun _ => rfl⟩
      change KeyTrace .gone (project (p.send .keyboard stoppedMsg).sent .keyboard)
        (p.send .keyboard stoppedMsg).late
      rw [hsent, hlate, project_append]
      exact hstopped
    | true =>
      have hsent := Program.sent_send_late .keyboard stoppedMsg hexit
      have hlate := Program.late_send_late .keyboard stoppedMsg hexit
      have hlog := h.log.sendLate hexit .keyboard stoppedMsg
      refine ⟨?_, fun _ => Or.inr rfl, fun _ => hbyte, fun _ => Or.inl hbyte, h.left, h.exits,
        ?_, h.logGone, h.ended, ?_, hlog.congr rfl rfl rfl rfl rfl id fun _ => rfl⟩
      · change KeyTrace .gone (project (p.send .keyboard stoppedMsg).sent .keyboard)
          (p.send .keyboard stoppedMsg).late
        rw [hsent, hlate]
        exact hlater
      · intro hfalse
        rw [show p.exitSent = false from hfalse] at hexit
        cases hexit
      · intro x hx
        change x ∈ (p.send .keyboard stoppedMsg).sent at hx
        rw [hsent] at hx
        exact h.messages x hx

theorem Consistent.mainLogs (h : Consistent p) (msg : Bytes) (hmsg : IsMessage msg)
    (hmain : p.main = .init ∨ p.main = .looping) : Consistent (p.send .main msg) := by
  have hexit := h.not_exitSent hmain
  have hsent := Program.sent_send .main msg hexit
  have hlate := Program.late_send .main msg hexit
  have hlog := h.log.send hexit (Or.inr (by rcases hmain with hmain | hmain <;> simp [hmain])) .main
    msg
  refine ⟨?_, h.byte, h.told, h.gone, h.left, h.exits, fun _ => hlate.trans (h.punctual hexit),
    h.logGone, h.ended, h.messages_send .main msg hexit hmsg, hlog⟩
  have hproject : project [(Sender.main, msg)] .keyboard = [] := rfl
  rw [hsent, hlate, project_append, hproject, List.append_nil]
  exact h.trace

theorem Consistent.closesLog (h : Consistent p) (hmain : p.main = .listenerDone) : Consistent
    { p with main := .flushing, exitSent := true, stream := p.stream ++ closeLog } := by
  have hexit : p.exitSent = false := by
    rw [← Bool.not_eq_true, h.exits]
    simp [hmain]
  have hlate := h.punctual hexit
  have hbyte := h.left (Or.inr (Or.inl hmain))
  refine ⟨h.trace, h.byte, h.told, fun _ => Or.inl hbyte, fun _ => hbyte, ?_, ?_, h.logGone, ?_,
    h.messages, ?_⟩
  · simp
  · intro hfalse
    cases hfalse
  · intro hend
    cases hend
  · cases h.log with
    | prints hrun hprint =>
      have htail : p.tail = [] := by
        unfold Program.tail
        rw [hexit]
        rfl
      rw [htail] at hprint
      refine .prints hrun ?_
      have hmore := hprint.more closeLog
      unfold Program.tail
      simpa [hlate] using hmore
    | stopped _ hex =>
      rw [hexit] at hex
      cases hex
    | failed _ hm =>
      rw [hmain] at hm
      cases hm

theorem Printing.running {s : LogLoop} {stream tail : Bytes} {msgs : List Bytes}
    (h : Printing s stream msgs tail) : s.running = true := by
  obtain ⟨printed, pending, part, -, -, hholds, -⟩ := h
  exact hholds.running

theorem Consistent.printing (h : Consistent p) (hrun : p.log.running = true) :
    Printing p.log p.stream (p.sent.map Prod.snd) p.tail := by
  cases h.log with
  | prints _ hprint => exact hprint
  | stopped hstop =>
    rw [hrun] at hstop
    cases hstop
  | failed hstop =>
    rw [hrun] at hstop
    cases hstop

/-- The log can read whatever stands in its socket. -/
theorem Consistent.reads (h : Consistent p) (x : UInt8) (rest : Bytes)
    (hrun : p.log.running = true) (hstream : p.stream = x :: rest) :
    ∃ log, p.log.receive x = some log ∧
      (Printing log rest (p.sent.map Prod.snd) p.tail ∨ (log.running = false ∧
        log.calls = (p.sent.map Prod.snd).map callOf ∧ p.tail = 0 :: rest)) := by
  have hprint := h.printing hrun
  rw [hstream] at hprint
  apply hprint.read
  · intro msg hmsg
    obtain ⟨y, hy, rfl⟩ := List.mem_map.mp hmsg
    exact h.messages y hy
  · unfold Program.tail
    split
    · exact Or.inr ⟨_, rfl⟩
    · exact Or.inl rfl

theorem Consistent.logReads (h : Consistent p) (x : UInt8) (rest : Bytes) (log : LogLoop)
    (hrun : p.log.running = true) (hstream : p.stream = x :: rest)
    (hreceives : p.log.receive x = some log) :
    Consistent { p with log := log, stream := rest } := by
  obtain ⟨log', hlog', hnext⟩ := h.reads x rest hrun hstream
  obtain rfl := Option.some.inj (hreceives.symm.trans hlog')
  refine ⟨h.trace, h.byte, h.told, h.gone, h.left, h.exits, h.punctual, ?_, h.ended, h.messages, ?_⟩
  · intro hgone
    rw [h.logGone hgone] at hrun
    cases hrun
  · rcases hnext with hprint | ⟨hstop, hcalls, htail⟩
    · exact .prints hprint.running hprint
    · refine .stopped hstop ?_ (by rw [hcalls, List.map_map]; rfl)
      unfold Program.tail at htail
      split at htail
      · assumption
      · cases htail

/-- Without anybody to write to it and nothing left to read, the log has printed all. -/
theorem Consistent.logFails (h : Consistent p) (hrun : p.log.running = true)
    (hstream : p.stream = []) (hmain : p.main = .ended ∨ p.main = .failed)
    (hkeys : p.keys = .gone) : Consistent
    { p with log := { p.log with running := false, calls := p.log.calls ++ [errorCall] } } := by
  have hfailed : p.main = .failed := by
    rcases hmain with hmain | hmain
    · rw [h.logGone (h.ended hmain)] at hrun
      cases hrun
    · exact hmain
  have hexit : p.exitSent = false := by
    rw [← Bool.not_eq_true, h.exits]
    simp [hfailed]
  refine ⟨h.trace, h.byte, h.told, h.gone, h.left, h.exits, h.punctual, fun _ => rfl, h.ended,
    h.messages, .failed rfl hfailed hkeys ?_⟩
  obtain ⟨printed, pending, part, hmsgs, hcalls, hholds, hrest⟩ := h.printing hrun
  have htail : p.tail = [] := by
    unfold Program.tail
    rw [hexit]
    rfl
  rw [hstream, htail, List.append_nil, List.append_nil] at hrest
  have hnil : pending = [] := by
    cases pending with
    | nil => rfl
    | cons msg pending =>
      refine absurd ?_ hholds.text
      rw [hrest]
      simp [sendLog]
  rw [hnil, List.append_nil] at hmsgs
  rw [hcalls, ← hmsgs, List.map_map]
  rfl

theorem consistent_step (a : Action) (h : Consistent p) (hstep : Stepped p a p')
    (hmsg : ∀ msg, a = .mainLogs msg → IsMessage msg) : Consistent p' := by
  cases hstep with
  | keyStarts hkeys =>
    exact h.keyboardLogs startedMsg .listening isMessage_startedMsg (by simp [hkeys])
      (by decide) (hkeys ▸ h.trace).of_starting
  | keyLogs hkeys =>
    exact h.keyboardLogs quitMsg .logged isMessage_quitMsg (by simp [hkeys])
      (by decide) (hkeys ▸ h.trace).of_pressed
  | getch c hkeys =>
    split
    · exact h.moves p.main .pressed p.keyByte (hkeys ▸ h.trace).of_listening (by grind [h.byte])
        (by grind) (by grind) h.left Iff.rfl h.ended id (by grind)
    · exact h
  | keyKilled hkeys hmain =>
    have hfailed : p.main = .failed := by
      rcases hmain with hmain | hmain
      · have hbyte := (h.early (by simp [hkeys])).1
        rw [h.left (Or.inr (Or.inr (Or.inr hmain)))] at hbyte
        cases hbyte
      · exact hmain
    exact h.moves p.main .gone p.keyByte (hkeys ▸ h.trace).of_logged.2 (fun _ => Or.inr rfl)
      (by grind) (fun _ => Or.inr hfailed) h.left Iff.rfl h.ended id (fun _ => rfl)
  | keyTells hkeys hmain =>
    exact h.moves p.main .told true (hkeys ▸ h.trace).of_logged.1 (fun _ => Or.inl rfl)
      (fun _ => rfl) (by grind) (fun _ => rfl) Iff.rfl h.ended id (by grind)
  | keyStops hkeys => exact h.keyStops hkeys
  | mainLogs msg hmain => exact h.mainLogs msg (hmsg msg rfl) hmain
  | mainStarts hmain =>
    exact h.moves .looping p.keys p.keyByte h.trace h.byte h.told (by grind [h.gone]) (by grind)
      (by grind) (by grind) (by grind) id
  | mainFails hmain =>
    exact h.moves .failed p.keys p.keyByte h.trace h.byte h.told (fun _ => Or.inr rfl) (by grind)
      (by grind) (by grind) (by grind) id
  | quitKeyPressed hmain =>
    split
    · rename_i hread
      have hbyte : p.keyByte = true := by
        rcases Bool.or_eq_true_iff.mp hread with hbyte | hgone
        · exact hbyte
        · rcases h.gone (of_decide_eq_true hgone) with hbyte | hfailed
          · exact hbyte
          · rw [hmain] at hfailed
            cases hfailed
      exact h.moves .closing p.keys p.keyByte h.trace h.byte h.told (fun _ => Or.inl hbyte)
        (fun _ => hbyte) (by grind) (by grind) (by grind) id
    · exact h
  | listenerFinal hmain hkey =>
    have hbyte := h.left (Or.inl hmain)
    exact h.moves .listenerDone p.keys p.keyByte h.trace h.byte h.told (fun _ => Or.inl hbyte)
      (fun _ => hbyte) (by grind) (by grind) (by grind) id
  | closesLog hmain => exact h.closesLog hmain
  | mainLeaves hmain hlog =>
    have hbyte := h.left (Or.inr (Or.inr (Or.inl hmain)))
    exact h.moves .ended p.keys p.keyByte h.trace h.byte h.told (fun _ => Or.inl hbyte)
      (fun _ => hbyte) (by grind) (fun _ => hlog) (by grind) id
  | logReads x rest log hrun hstream hreceives => exact h.logReads x rest log hrun hstream hreceives
  | logFails hrun hstream hmain hkeys => exact h.logFails hrun hstream hmain hkeys
  | logLeaves hrun hlog =>
    exact ⟨h.trace, h.byte, h.told, h.gone, h.left, h.exits, h.punctual, fun _ => hrun,
      fun _ => rfl, h.messages, h.log.congr rfl rfl rfl rfl rfl id id⟩

end Invariant

section Runs

variable {p p' : Program}

def Action.message : Action → Option Bytes
  | .mainLogs msg => some msg
  | _ => none

/-- What the client logs in a run. -/
def mainMessages (acts : List Action) : List Bytes := acts.filterMap Action.message

def IsMessages (acts : List Action) : Prop := ∀ msg ∈ mainMessages acts, IsMessage msg

theorem keyboardLogs_main (msg : Bytes) (next : KeyState) :
    project (p.keyboardLogs msg next).sent .main = project p.sent .main := by
  unfold Program.keyboardLogs
  split
  · rfl
  · change project (p.send .keyboard msg).sent .main = project p.sent .main
    unfold Program.send
    split
    · rfl
    · have hproject : project [(Sender.keyboard, msg)] .main = [] := rfl
      rw [project_append, hproject, List.append_nil]

theorem step_main (a : Action) (h : Consistent p) (hstep : Stepped p a p') :
    project p'.sent .main = project p.sent .main ++ a.message.toList := by
  cases hstep with
  | keyStarts | keyLogs | keyStops =>
    rw [keyboardLogs_main]
    exact (List.append_nil _).symm
  | getch | quitKeyPressed => split <;> exact (List.append_nil _).symm
  | mainLogs msg hmain =>
    rw [Program.sent_send .main msg (h.not_exitSent hmain), project_append]
    rfl
  | _ => exact (List.append_nil _).symm

/-- The listener has read the quit key. -/
def Pressed (p : Program) : Prop := p.keys ≠ .starting ∧ p.keys ≠ .listening

/-- Only the quit key takes the listener out of its loop. -/
theorem step_pressed (a : Action) (h : Consistent p) (hstep : Stepped p a p')
    (hpressed : Pressed p') : Pressed p ∨ ∃ c, a = .getch c ∧ isQuitKey c = true := by
  cases hstep with
  | keyStarts hkeys =>
    have hgone := (h.early (by simp [hkeys])).2.2
    refine absurd rfl (?_ : KeyState.listening ≠ .listening)
    unfold Program.keyboardLogs at hpressed
    rw [if_neg (by simp [hgone])] at hpressed
    exact hpressed.2
  | getch c hkeys =>
    cases hquit : isQuitKey c with
    | true => exact Or.inr ⟨c, rfl, hquit⟩
    | false =>
      rw [hquit] at hpressed
      exact Or.inl hpressed
  | keyLogs hkeys | keyKilled hkeys | keyTells hkeys | keyStops hkeys =>
    exact Or.inl (by simp [Pressed, hkeys])
  | quitKeyPressed =>
    refine Or.inl ?_
    split at hpressed <;> exact hpressed
  | _ => exact Or.inl hpressed

theorem consistent_run (acts : List Action) (h : Consistent p) (hmsgs : IsMessages acts)
    (hrun : runProgram p acts = some p') :
    Consistent p' ∧ project p'.sent .main = project p.sent .main ++ mainMessages acts ∧
      (Pressed p' → Pressed p ∨ ∃ c, .getch c ∈ acts ∧ isQuitKey c = true) := by
  induction acts generalizing p with
  | nil =>
    obtain rfl := Option.some.inj hrun
    exact ⟨h, (List.append_nil _).symm, Or.inl⟩
  | cons a acts ih =>
    obtain ⟨q, hq, hrun⟩ := Option.bind_eq_some_iff.mp hrun
    have hstep := stepped_of_step p q a hq
    have hsplit : mainMessages (a :: acts) = a.message.toList ++ mainMessages acts := by
      unfold mainMessages
      cases hmsg : a.message <;> simp [hmsg]
    have hnext : Consistent q := by
      apply consistent_step a h hstep
      rintro msg rfl
      exact hmsgs msg (by rw [hsplit]; exact List.mem_cons_self)
    obtain ⟨hend, hmain, hkey⟩ := ih hnext
      (fun msg hmsg => hmsgs msg (by rw [hsplit]; exact List.mem_append_right _ hmsg)) hrun
    refine ⟨hend, ?_, fun hpressed => ?_⟩
    · rw [hmain, step_main a h hstep, hsplit, List.append_assoc]
    · rcases hkey hpressed with hpressed | ⟨c, hc, hquit⟩
      · rcases step_pressed a h hstep hpressed with hpressed | ⟨c, rfl, hquit⟩
        · exact Or.inl hpressed
        · exact Or.inr ⟨c, List.mem_cons_self, hquit⟩
      · exact Or.inr ⟨c, List.mem_cons_of_mem _ hc, hquit⟩

/-- What the log has printed, in every state: a beginning of what was sent. -/
theorem LogState.calls_prefix (h : LogState p) :
    p.log.calls <+: (p.sent.map fun x => callOf x.2) ++ [errorCall] := by
  cases h with
  | prints _ hprint =>
    obtain ⟨printed, pending, part, hmsgs, hcalls, -, -⟩ := hprint
    refine ⟨pending.map callOf ++ [errorCall], ?_⟩
    have hsent : (p.sent.map fun x => callOf x.2) = (p.sent.map Prod.snd).map callOf := by
      rw [List.map_map]
      rfl
    rw [hsent, hmsgs, hcalls, List.map_append, List.append_assoc]
  | stopped _ _ hcalls =>
    rw [hcalls]
    exact List.prefix_append ..
  | failed _ _ _ hcalls => exact hcalls ▸ List.prefix_rfl

/-- When the log has stopped. -/
theorem Consistent.stopped (h : Consistent p) (hstop : p.log.running = false) :
    (p.keys = .told ∨ p.keys = .gone) ∧ p.log.calls = (p.sent.map fun x => callOf x.2) ++
      if p.main = .failed then [errorCall] else [] := by
  cases h.log with
  | prints hrun =>
    rw [hstop] at hrun
    cases hrun
  | stopped _ hexit hcalls =>
    have hmain := h.exits.mp hexit
    have hfailed : p.main ≠ .failed := by
      rcases hmain with hmain | hmain <;> simp [hmain]
    refine ⟨h.byte (h.left (Or.inr (Or.inr hmain))), ?_⟩
    rw [if_neg hfailed, List.append_nil, hcalls]
  | failed _ hmain hkeys hcalls => exact ⟨Or.inr hkeys, by rw [if_pos hmain, hcalls]⟩

/-- Whatever order the processes run in: the log prints what was sent to it, in that
order, and when it leaves it has printed all that the client logged in its whole run, all
that the listener logged before it told the client, and a line of its own only when the
client could not start. -/
theorem log_complete (junk : Vector UInt8 500) (acts : List Action) (hmsgs : IsMessages acts)
    (hrun : runProgram (.start junk) acts = some p) :
    project p.sent .main = mainMessages acts ∧
    p.log.calls <+: (p.sent.map fun x => callOf x.2) ++ [errorCall] ∧
    (p.logGone = true →
      (project p.sent .keyboard = [startedMsg, quitMsg] ∨
        project p.sent .keyboard = [startedMsg, quitMsg, stoppedMsg]) ∧
      p.log.calls = (p.sent.map fun x => callOf x.2) ++
        if p.main = .failed then [errorCall] else []) := by
  obtain ⟨h, hmain, -⟩ := consistent_run acts (consistent_start junk) hmsgs hrun
  refine ⟨hmain, h.log.calls_prefix, ?_⟩
  intro hgone
  obtain ⟨hkeys, hcalls⟩ := h.stopped (h.logGone hgone)
  exact ⟨h.trace.of_ended hkeys, hcalls⟩

/-- A client that logs one line and starts, and a log that prints it. -/
def logsALine : List Action :=
  [.mainLogs (logImp stderrSymbol (bytes "a")), .mainStarts, .logReads, .logReads, .logReads]

theorem log_complete_logsALine :
    ∃ p, runProgram (.start (Vector.replicate 500 7)) logsALine = some p ∧
      project p.sent .main = [logImp stderrSymbol (bytes "a")] := by
  have hmsgs : IsMessages logsALine := by
    intro msg hmsg
    obtain rfl : msg = logImp stderrSymbol (bytes "a") := List.mem_singleton.mp hmsg
    exact ⟨by decide, by decide, by decide⟩
  exact ⟨_, rfl, (log_complete (Vector.replicate 500 7) logsALine hmsgs rfl).1⟩

end Runs

section Shutdown

variable {p p' : Program}

/-- The key was pressed, and the client has left its loop or could not start. -/
structure Leaving (p : Program) : Prop where
  main : p.main ≠ .init ∧ p.main ≠ .looping
  keys : Pressed p

/-- All three processes have left. -/
structure Over (p : Program) : Prop where
  main : p.main = .ended ∨ p.main = .failed
  keys : p.keys = .gone
  log : p.logGone = true

/-- What the listener still does, with the bytes that the log reads because of it. -/
def KeyState.work : KeyState → ℕ
  | .starting | .listening | .gone => 0
  | .told => (sendLog stoppedMsg).length + 1
  | .logged => (sendLog stoppedMsg).length + 2
  | .pressed => (sendLog quitMsg).length + (sendLog stoppedMsg).length + 3

def MainState.work : MainState → ℕ
  | .init | .looping | .ended | .failed => 0
  | .flushing => 1
  | .listenerDone => closeLog.length + 2
  | .closing => closeLog.length + 3

def Program.work (p : Program) : ℕ :=
  p.stream.length + p.keys.work + p.main.work + (if p.log.running then 1 else 0) +
    if p.logGone then 0 else 1

theorem keyboardLogs_work (msg : Bytes) (next : KeyState)
    (hkeys : (sendLog msg).length + next.work < p.keys.work) :
    (p.keyboardLogs msg next).work < p.work := by
  unfold Program.keyboardLogs
  split
  · have hgone : KeyState.gone.work = 0 := rfl
    unfold Program.work
    simp only [hgone]
    omega
  · have hlen : (p.stream ++ sendLog msg).length = p.stream.length + (sendLog msg).length :=
      List.length_append
    unfold Program.work Program.send
    simp only [hlen]
    omega

theorem keyboardLogs_leaving (msg : Bytes) (next : KeyState)
    (hmain : p.main ≠ .init ∧ p.main ≠ .looping) (hnext : next ≠ .starting ∧ next ≠ .listening) :
    Leaving (p.keyboardLogs msg next) := by
  unfold Program.keyboardLogs
  split
  · exact ⟨hmain, by simp [Pressed]⟩
  · exact ⟨hmain, hnext⟩

theorem leaving_step (a : Action) (h : Leaving p) (hstep : Stepped p a p') :
    Leaving p' ∧ p'.work < p.work := by
  obtain ⟨⟨hinit, hloop⟩, ⟨hstarting, hlistening⟩⟩ := h
  cases hstep with
  | keyStarts hkeys => exact absurd hkeys hstarting
  | getch c hkeys => exact absurd hkeys hlistening
  | mainLogs msg hmain =>
    rcases hmain with hmain | hmain
    · exact absurd hmain hinit
    · exact absurd hmain hloop
  | mainStarts hmain => exact absurd hmain hinit
  | mainFails hmain => exact absurd hmain hinit
  | quitKeyPressed hmain => exact absurd hmain hloop
  | keyLogs hkeys =>
    refine ⟨keyboardLogs_leaving quitMsg .logged ⟨hinit, hloop⟩ (by decide), ?_⟩
    apply keyboardLogs_work
    simp only [hkeys, KeyState.work]
    omega
  | keyStops hkeys =>
    refine ⟨keyboardLogs_leaving stoppedMsg .gone ⟨hinit, hloop⟩ (by decide), ?_⟩
    apply keyboardLogs_work
    simp only [hkeys, KeyState.work]
    omega
  | keyKilled hkeys =>
    refine ⟨⟨⟨hinit, hloop⟩, by simp [Pressed]⟩, ?_⟩
    unfold Program.work
    simp only [hkeys, KeyState.work]
    omega
  | keyTells hkeys =>
    refine ⟨⟨⟨hinit, hloop⟩, by simp [Pressed]⟩, ?_⟩
    unfold Program.work
    simp only [hkeys, KeyState.work]
    omega
  | listenerFinal hmain =>
    refine ⟨⟨by simp, ⟨hstarting, hlistening⟩⟩, ?_⟩
    unfold Program.work
    simp only [hmain, MainState.work]
    omega
  | closesLog hmain =>
    refine ⟨⟨by simp, ⟨hstarting, hlistening⟩⟩, ?_⟩
    unfold Program.work
    simp only [hmain, MainState.work, List.length_append]
    omega
  | mainLeaves hmain =>
    refine ⟨⟨by simp, ⟨hstarting, hlistening⟩⟩, ?_⟩
    unfold Program.work
    simp only [hmain, MainState.work]
    omega
  | logReads x rest log hrun hstream =>
    refine ⟨⟨⟨hinit, hloop⟩, ⟨hstarting, hlistening⟩⟩, ?_⟩
    unfold Program.work
    simp only [hrun, hstream, List.length_cons, if_true]
    split <;> omega
  | logFails hrun =>
    refine ⟨⟨⟨hinit, hloop⟩, ⟨hstarting, hlistening⟩⟩, ?_⟩
    unfold Program.work
    simp [hrun]
  | logLeaves hrun hlog =>
    refine ⟨⟨⟨hinit, hloop⟩, ⟨hstarting, hlistening⟩⟩, ?_⟩
    unfold Program.work
    simp [hlog]

/-- Behind the exit symbol the log finds something to read until it stops. -/
theorem stream_ne_nil (h : Consistent p) (hrun : p.log.running = true) (hexit : p.exitSent = true) :
    p.stream ≠ [] := by
  intro hstream
  obtain ⟨printed, pending, part, -, -, hholds, hrest⟩ := h.printing hrun
  refine absurd ?_ hholds.text
  rw [hstream, List.append_nil] at hrest
  rw [hrest]
  unfold Program.tail
  rw [if_pos hexit]
  exact List.mem_append_right _ (List.mem_append_left _ (by decide))

/-- The log can go on until it has left. -/
theorem log_moves (h : Consistent p) (hgone : p.logGone = false)
    (hend : p.exitSent = true ∨ (p.main = .failed ∧ p.keys = .gone)) :
    step p .logReads ≠ none ∨ step p .logLeaves ≠ none := by
  cases hrun : p.log.running with
  | false =>
    right
    simp [step, hrun, hgone]
  | true =>
    left
    cases hstream : p.stream with
    | nil =>
      rcases hend with hexit | ⟨hmain, hkeys⟩
      · exact absurd hstream (stream_ne_nil h hrun hexit)
      · simp [step, Program.logReads, hrun, hstream, hmain, hkeys]
    | cons x rest =>
      obtain ⟨log, hlog, -⟩ := h.reads x rest hrun hstream
      simp [step, Program.logReads, hrun, hstream, hlog]

/-- A program that is leaving stops only when it is over. -/
theorem over_of_stuck (h : Consistent p) (hleaving : Leaving p) (hstuck : ∀ a, step p a = none) :
    Over p := by
  have hlog : p.exitSent = true ∨ (p.main = .failed ∧ p.keys = .gone) → p.logGone = true := by
    intro hend
    rw [← Bool.not_eq_false]
    intro hgone
    rcases log_moves h hgone hend with hmoves | hmoves
    · exact hmoves (hstuck .logReads)
    · exact hmoves (hstuck .logLeaves)
  have hkeys : p.keys = .gone := by
    have hlogs := hstuck .keyLogs
    have htells := hstuck .keyTells
    have hstops := hstuck .keyStops
    simp only [step] at hlogs htells hstops
    cases hkeys : p.keys with
    | starting => exact absurd hkeys hleaving.keys.1
    | listening => exact absurd hkeys hleaving.keys.2
    | pressed => simp [hkeys] at hlogs
    | logged =>
      rw [if_pos hkeys] at htells
      split at htells <;> cases htells
    | told => simp [hkeys] at hstops
    | gone => rfl
  cases hmain : p.main with
  | init => exact absurd hmain hleaving.main.1
  | looping => exact absurd hmain hleaving.main.2
  | closing =>
    have hfinal := hstuck .listenerFinal
    have hbyte := h.left (Or.inl hmain)
    simp [step, hmain, Program.keyReadable, hbyte] at hfinal
  | listenerDone =>
    have hcloses := hstuck .closesLog
    simp [step, hmain] at hcloses
  | flushing =>
    have hleaves := hstuck .mainLeaves
    have hgone := hlog (Or.inl (h.exits.mpr (Or.inl hmain)))
    simp [step, hmain, hgone] at hleaves
  | ended => exact ⟨Or.inl hmain, hkeys, h.ended hmain⟩
  | failed => exact ⟨Or.inr hmain, hkeys, hlog (Or.inr ⟨hmain, hkeys⟩)⟩

/-- However the processes run: once the key was pressed and the client has left its loop,
or could not start, no process waits for another for ever. The program ends within a
bounded number of steps, and where it can do no step all three processes have left. -/
theorem shutdown_completes (junk : Vector UInt8 500) (acts more : List Action)
    (hmsgs : IsMessages acts) (hrun : runProgram (.start junk) acts = some p) (hleaving : Leaving p)
    (hmore : runProgram p more = some p') :
    more.length ≤ p.work ∧ ((∀ a, step p' a = none) → Over p') := by
  obtain ⟨h, -⟩ := consistent_run acts (consistent_start junk) hmsgs hrun
  have hstep : ∀ q a q', Consistent q ∧ Leaving q → step q a = some q' →
      (Consistent q' ∧ Leaving q') ∧ q'.work < q.work := by
    rintro q a q' ⟨hq, hleaving⟩ hstep
    have hstepped := stepped_of_step q q' a hstep
    obtain ⟨hleaving', hwork⟩ := leaving_step a hleaving hstepped
    refine ⟨⟨consistent_step a hq hstepped ?_, hleaving'⟩, hwork⟩
    rintro msg rfl
    cases hstepped with
    | mainLogs _ hmain =>
      rcases hmain with hmain | hmain
      · exact absurd hmain hleaving.main.1
      · exact absurd hmain hleaving.main.2
  have hlen := run_length_le _ Program.work hstep more p' ⟨h, hleaving⟩ hmore
  refine ⟨by omega, fun hstuck => ?_⟩
  obtain ⟨hend, hleaving'⟩ := run_invariant _ (fun q a q' hq hs => (hstep q a q' hq hs).1) more p'
    ⟨h, hleaving⟩ hmore
  exact over_of_stuck hend hleaving' hstuck

/-- The quit key right after the start, and a client that looks for it once. -/
def quitsAtOnce : List Action :=
  [.keyStarts, .mainStarts, .getch 113, .keyLogs, .keyTells, .quitKeyPressed]

theorem isMessages_quitsAtOnce : IsMessages quitsAtOnce := fun _ hmsg => absurd hmsg List.not_mem_nil

theorem shutdown_completes_quitsAtOnce :
    ∃ p, runProgram (.start (Vector.replicate 500 7)) quitsAtOnce = some p ∧
      ∀ more p', runProgram p more = some p' → more.length ≤ p.work := by
  refine ⟨_, rfl, fun more p' hmore => ?_⟩
  exact (shutdown_completes (Vector.replicate 500 7) quitsAtOnce more isMessages_quitsAtOnce rfl
    ⟨by decide, by decide, by decide⟩ hmore).1

/-- However the processes run: no process leaves, and the client does not leave its loop,
before the listener has read q or Q. This includes the listener and the log of a client
that could not start. -/
theorem ends_only_on_q (junk : Vector UInt8 500) (acts : List Action) (hmsgs : IsMessages acts)
    (hrun : runProgram (.start junk) acts = some p)
    (hend : p.log.running = false ∨ p.keys = .gone ∨ p.main = .closing ∨ p.main = .listenerDone ∨
      p.main = .flushing ∨ p.main = .ended) :
    ∃ c, .getch c ∈ acts ∧ isQuitKey c = true := by
  obtain ⟨h, -, hkey⟩ := consistent_run acts (consistent_start junk) hmsgs hrun
  have hkeys : p.keys = .told ∨ p.keys = .gone := by
    rcases hend with hstop | hgone | hleft
    · exact (h.stopped hstop).1
    · exact Or.inr hgone
    · exact h.byte (h.left hleft)
  have hpressed : Pressed p := by
    rcases hkeys with hkeys | hkeys <;> simp [Pressed, hkeys]
  rcases hkey hpressed with hstart | hquit
  · exact absurd rfl hstart.1
  · exact hquit

theorem ends_only_on_q_quitsAtOnce :
    ∃ p, runProgram (.start (Vector.replicate 500 7)) quitsAtOnce = some p ∧ p.main = .closing ∧
      ∃ c, .getch c ∈ quitsAtOnce ∧ isQuitKey c = true :=
  ⟨_, rfl, rfl, ends_only_on_q (Vector.replicate 500 7) quitsAtOnce isMessages_quitsAtOnce rfl
    (Or.inr (Or.inr (Or.inl rfl)))⟩

end Shutdown

end SmtpClient.Processes
