import SmtpClient.Connections
import SmtpClient.Maildir

/-!
The loop that serves all connections. Each pass waits for one reply, feeds it
to the state machine of its connection, and then removes the connections that
are finished, failed or silent for too long. What the system answers in a pass
is its input; none stands for the use of a null pointer.
-/
namespace SmtpClient.EventLoop

open MailTypes Regexp SendCommands ClientFsm Connections Maildir

/-- The event that parse_response makes of a received buffer. -/
def replyEvent (str : Bytes) : FsmEvent :=
  match reMatchAny str with
  | some .r220 => .r220
  | some .r221 => .r221
  | some .r250 => .r250
  | some .r354 => .r354
  | _ => .invalid

theorem replyEvent_isReply (str : Bytes) : (replyEvent str).isReply = true := by
  unfold replyEvent
  split <;> rfl

def World.setConn (w : World) (p : ℕ) (c : MxConn) : World := { w with conns := w.conns.set p c }

def World.log (w : World) (acts : List Act) : World := { w with trace := w.trace ++ acts }

/-- Run the state machine of connection p on a received buffer. -/
def parseResponse (w : World) (p : ℕ) (str : Bytes) (now : ℤ) : Option World := do
  let c ← w.conns[p]?
  let c := { c with timeOfLastResponse := now }
  let (st, s) ← smtpClientFsmStep w.mails c.state (replyEvent str) ⟨c, w.wasSent, []⟩
  let w := { w with wasSent := s.wasSent }
  return World.log (World.setConn w p (s.setState st).conn) (s.sent.map (Act.send p))

def invalidateConnection (w : World) (p : ℕ) : World :=
  match w.conns[p]? with
  | none => w
  | some c => World.setConn w p { c with state := .invalid }

/-- The last open connection with the socket. -/
def getConnBySocket (w : World) (sock : ℤ) : Option ℕ :=
  w.connections.foldl
    (fun rc p => if (w.conns[p]?).map MxConn.sock = some sock then some p else rc) none

/-- What poll reports: an error, or the returned events of each entry. -/
inductive PollResult
  | error
  | events (revents : ℕ → UInt16)

def pollin : UInt16 := 1

/-- What the system answers in one pass: poll, recv, and the clock readings of
parse_response and of the check for silent connections. The entries of pfds
that no connection fills hold whatever is on the stack. -/
structure PassInput where
  poll : PollResult
  stack : ℕ → ℤ
  recv : RecvResult
  now : ℤ
  clock : ℕ → ℤ

/-- The sockets in the array handed to poll. -/
def pollFds (w : World) (stack : ℕ → ℤ) (i : ℕ) : ℤ :=
  match (w.connections[i]?).bind fun p => w.conns[p]? with
  | some c => c.sock
  | none => stack i

/-- poll returns the number of entries with events. -/
def PollResult.res (count : ℕ) : PollResult → ℤ
  | .error => -1
  | .events revents => ((List.range count).countP fun i => decide (revents i ≠ 0) : ℕ)

/-- The first entry below the result of poll that is readable. -/
def readableEntry (count : ℕ) (poll : PollResult) : Option ℕ :=
  match poll with
  | .error => none
  | .events revents =>
    (List.range (poll.res count).toNat).find? fun i => decide (revents i &&& pollin ≠ 0)

/-- One call of wait_for_response, with its result. -/
def waitForResponse (w : World) (inp : PassInput) : Option (ℕ × World) :=
  match readableEntry w.connectionsCount inp.poll with
  | none => some (0, w)
  | some i => do
    let p ← getConnBySocket w (pollFds w inp.stack i)
    let w := World.log w [.recv p inp.recv]
    match inp.recv with
    | .error => return (0, invalidateConnection w p)
    | .disconnected => return (0, invalidateConnection w p)
    | .data chunk => return (1, ← parseResponse w p chunk.buf inp.now)

def freeConnection (w : World) (p : ℕ) : World :=
  World.log { w with connections := w.connections.erase p } [.close p]

/-- Silent for longer than the timeout. -/
def timedOut (timeout : ℤ) (clock : ℕ → ℤ) (p : ℕ) (c : MxConn) : Bool :=
  decide (clock p - c.timeOfLastResponse > timeout)

/-- The check of one connection at the end of a pass. -/
def sweepConn (timeout : ℤ) (clock : ℕ → ℤ) (w : World) (p : ℕ) : World :=
  match w.conns[p]? with
  | none => w
  | some c =>
    let w := if timedOut timeout clock p c then invalidateConnection w p else w
    let state := if timedOut timeout clock p c then .invalid else c.state
    if state = .done ∨ state = .invalid then freeConnection w p else w

def sweep (timeout : ℤ) (clock : ℕ → ℤ) (w : World) : World :=
  w.connections.foldl (sweepConn timeout clock) w

def connLoopPass (timeout : ℤ) (w : World) (inp : PassInput) : Option World := do
  let (_, w) ← waitForResponse w inp
  return sweep timeout inp.clock w

/-- The passes of conn_loop while connections are open and inputs are left. -/
def connLoop (timeout : ℤ) : World → List PassInput → Option World
  | w, [] => some w
  | w, inp :: inps =>
    if w.connections = [] then some w
    else do
      let w ← connLoopPass timeout w inp
      connLoop timeout w inps

/-- The loop of conn_loop over the queue, once no connection is left. -/
def finishMail (w : World) : List FileAction :=
  w.mails.zipIdx.map fun (m, i) =>
    if w.wasSent i then .deleteMail m.filename .new else .moveMail m.filename .new .notSent

end SmtpClient.EventLoop
