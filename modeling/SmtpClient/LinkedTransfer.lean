import SmtpClient.QueueCursors
import SmtpClient.LocalFiltering
import SmtpClient.TransferInvariant

/-!
A transfer on the structures as they lie in memory: the queues of mails, domains
and connections are linked lists, the cursors of a connection are pointers into
them, and what is allocated and freed is seen in the memory of the queues. A
result of none is the use of a null pointer or of freed memory. The number
handed to the loops bounds their passes.
-/
namespace SmtpClient.LinkedTransfer

open MailTypes Queues Maildir TailQueues QueueCursors LocalFiltering SendCommands ClientFsm
open MxLookup Connections EventLoop

/-- A connection in memory. The recipient pointer names the mail that owns it. -/
structure ConnNode where
  sock : ℤ
  state : FsmState
  m : Option ℕ
  r : Option (ℕ × ℕ)
  dom : ℕ
  timeOfLastResponse : ℤ

/-- What the sockets of the connections see. -/
inductive SockCall
  | recv (sock : ℤ) (result : RecvResult)
  | send (sock : ℤ) (text : Bytes)
  | close (sock : ℤ)
deriving DecidableEq

/-- The global variables of the transfer, with the was_sent flags of the mails and
the number of structures that were allocated. -/
structure Memory where
  mails : TailQueue ℕ MailNode
  wasSent : ℕ → Bool
  domains : TailQueue ℕ Domain
  connections : TailQueue ℕ ConnNode
  connectionsCount : ℕ
  mallocs : ℕ
  calls : List SockCall

/-- What one connection can touch while its state machine runs. -/
structure LinkedSession where
  conn : ConnNode
  wasSent : ℕ → Bool
  sent : List Bytes

namespace LinkedSession

def send (s : LinkedSession) (text : Bytes) : LinkedSession := { s with sent := s.sent ++ [text] }

def setM (s : LinkedSession) (m : Option ℕ) : LinkedSession :=
  { s with conn := { s.conn with m := m } }

def setR (s : LinkedSession) (r : Option (ℕ × ℕ)) : LinkedSession :=
  { s with conn := { s.conn with r := r } }

def setState (s : LinkedSession) (state : FsmState) : LinkedSession :=
  { s with conn := { s.conn with state := state } }

def markSent (s : LinkedSession) (p : ℕ) : LinkedSession :=
  { s with wasSent := Function.update s.wasSent p true }

end LinkedSession

section Fsm

variable (n : ℕ)

/-- mail_has_rcpts_from_domain along the links. -/
def hasRcptsFromDomain (d : Domain) (m : MailNode) : Option Bool :=
  foreach (fun _ => m.rcpts)
    (fun r ret => (m.rcpts.cells r).map fun c => ret || rcptIsFromDomain c.value d)
    n m.rcpts.first false

variable (mem : Memory)

def Memory.sendMailfrom (s : LinkedSession) : Option LinkedSession := do
  let p ← s.conn.m
  let c ← mem.mails.cells p
  return s.send c.value.fromLine

def Memory.sendRcptto (s : LinkedSession) : Option (Bool × LinkedSession) :=
  match s.conn.r with
  | none => some (false, s)
  | some (p, a) => do
    let c ← mem.mails.cells p
    let d ← mem.domains.cells s.conn.dom
    let found ← search c.value.rcpts (fun r => some (rcptIsFromDomain r d.value)) n (some a)
    match found with
    | none => return (false, s.setR none)
    | some b => do
      let r ← c.value.rcpts.cells b
      return (true, (s.send (msgRcptto r.value.name)).setR (r.next.map fun x => (p, x)))

def Memory.sendDatastr (s : LinkedSession) : Option LinkedSession := do
  let p ← s.conn.m
  let c ← mem.mails.cells p
  return s.send c.value.msg

def Memory.transAction
    (step : FsmState → FsmEvent → LinkedSession → Option (FsmState × LinkedSession))
    (nxtSt : FsmState) (s : LinkedSession) : FsmTrans → Option (FsmState × LinkedSession)
  | .datastrNoMail => return (nxtSt, s.send msgQuit)
  | .datastrR250 => do
    let p ← s.conn.m
    let c ← mem.mails.cells p
    let d ← mem.domains.cells s.conn.dom
    let s := s.markSent p
    let found ← search mem.mails (hasRcptsFromDomain n d.value) n c.next
    match found with
    | none => step .datastr .noMail (s.setM none)
    | some k => do
      let c ← mem.mails.cells k
      let s := (s.setM (some k)).setR (c.value.rcpts.first.map fun a => (k, a))
      return (nxtSt, ← mem.sendMailfrom s)
  | .dataR354 => return (nxtSt, ← mem.sendDatastr s)
  | .heloR250 => return (nxtSt, ← mem.sendMailfrom s)
  | .initR220 => return (nxtSt, s.send msgHelo)
  | .invalid => return (.invalid, s)
  | .mailfromR250 => return (nxtSt, (← mem.sendRcptto n s).2)
  | .rcpttoNoRcpt => return (nxtSt, s.send msgData)
  | .rcpttoR250 => do
    let (more, s) ← mem.sendRcptto n s
    if more then return (nxtSt, s) else step .rcptto .noRcpt s
  | .quitR221 => return (nxtSt, s)
  | .datastrTimeout | .dataTimeout | .heloTimeout | .initTimeout | .mailfromTimeout
  | .quitTimeout | .rcpttoTimeout => return (nxtSt, s)

def Memory.fsmStepN :
    ℕ → FsmState → FsmEvent → LinkedSession → Option (FsmState × LinkedSession)
  | 0, _, _, _ => none
  | k + 1, st, evt, s =>
    if st.terminal then some (.init, s)
    else
      let (nxtSt, tr) := if evt = .invalid then (.invalid, .invalid) else fsmTransTable st evt
      mem.transAction n (Memory.fsmStepN k) nxtSt s tr

def Memory.fsmStep : FsmState → FsmEvent → LinkedSession → Option (FsmState × LinkedSession) :=
  mem.fsmStepN n 2

end Fsm

section Setup

variable (n : ℕ) (alloc : ℕ → ℕ) (myDomain : Bytes) (net : Net)

/-- The loop looks at every domain, also behind the one it has found. -/
def Memory.domainAdd (newDomainName : Bytes) (mem : Memory) : Option Memory :=
  if newDomainName = myDomain then some mem
  else do
    let exist ← foreach (fun _ => mem.domains)
      (fun d exist => (mem.domains.cells d).map fun c =>
        exist || decide (c.value.name = newDomainName))
      n mem.domains.first false
    if exist then return mem
    else
      let domains ← mem.domains.insertTail (alloc mem.mallocs) ⟨newDomainName⟩
      return { mem with domains := domains, mallocs := mem.mallocs + 1 }

/-- Both searches of create_connection run without a check for the end of their list. -/
def Memory.newConn (mem : Memory) (dom : ℕ) (sock time : ℤ) : Option ConnNode := do
  let d ← mem.domains.cells dom
  let found ← search mem.mails (hasRcptsFromDomain n d.value) n mem.mails.first
  let p ← found
  let c ← mem.mails.cells p
  let found ← search c.value.rcpts (fun r => some (rcptIsFromDomain r d.value)) n
    c.value.rcpts.first
  let a ← found
  return ⟨sock, .init, some p, some (p, a), dom, time⟩

def Memory.createConnection (mem : Memory) (dom : ℕ) : Option (Option ConnNode) := do
  let d ← mem.domains.cells dom
  match connectToMx net d.value.name with
  | none => return none
  | some sock => (mem.newConn n dom sock (net.time d.value.name)).map some

def Memory.insertConn (mem : Memory) (conn : ConnNode) : Option Memory := do
  let connections ← mem.connections.insertTail (alloc mem.mallocs) conn
  return { mem with
    connections := connections
    connectionsCount := mem.connectionsCount + 1
    mallocs := mem.mallocs + 1 }

/-- The domains of the recipients of one mail. -/
def Memory.addDomains (p : ℕ) (mem : Memory) : Option Memory := do
  let c ← mem.mails.cells p
  foreach (fun _ => c.value.rcpts)
    (fun r mem => (c.value.rcpts.cells r).bind fun x =>
      mem.domainAdd n alloc myDomain x.value.domain)
    n c.value.rcpts.first mem

def Memory.openConnection (dom : ℕ) (mem : Memory) : Option Memory := do
  let conn ← mem.createConnection n net dom
  match conn with
  | none => return mem
  | some conn => mem.insertConn alloc conn

/-- conn_init behind read_all_mail, which left this queue. -/
def Memory.connInit (ml : TailQueue ℕ MailNode) : Option Memory := do
  let mem : Memory := ⟨ml, fun _ => false, .init, .init, 0, 0, []⟩
  let mem ← foreach Memory.mails (Memory.addDomains n alloc myDomain) n mem.mails.first mem
  foreach Memory.domains (Memory.openConnection n alloc net) n mem.domains.first mem

end Setup

section Loop

variable (n : ℕ) (timeout : ℤ)

def Memory.log (mem : Memory) (calls : List SockCall) : Memory :=
  { mem with calls := mem.calls ++ calls }

/-- The messages of the state machine name the domain of the connection. -/
def Memory.parseResponse (mem : Memory) (p : ℕ) (str : Bytes) (now : ℤ) : Option Memory := do
  let c ← mem.connections.cells p
  let conn := { c.value with timeOfLastResponse := now }
  let _ ← mem.domains.cells conn.dom
  let (st, s) ← mem.fsmStep n conn.state (replyEvent str) ⟨conn, mem.wasSent, []⟩
  let connections ← mem.connections.setValue p (s.setState st).conn
  let mem := { mem with connections := connections, wasSent := s.wasSent }
  return mem.log (s.sent.map (SockCall.send conn.sock))

def Memory.invalidateConnection (mem : Memory) (p : ℕ) : Option Memory := do
  let c ← mem.connections.cells p
  let connections ← mem.connections.setValue p { c.value with state := .invalid }
  return { mem with connections := connections }

/-- The last connection of the list with the socket. -/
def Memory.getConnBySocket (mem : Memory) (sock : ℤ) : Option (Option ℕ) :=
  foreach (fun _ => mem.connections)
    (fun p rc => (mem.connections.cells p).map fun c => if c.value.sock = sock then some p else rc)
    n mem.connections.first none

/-- The loop that fills the array for poll. -/
def Memory.pollSocks (mem : Memory) : Option (List ℤ) :=
  foreach (fun _ => mem.connections)
    (fun p socks => (mem.connections.cells p).map fun c => socks ++ [c.value.sock])
    n mem.connections.first []

/-- The message about the result of recv names the domain of the connection. -/
def Memory.waitForResponse (mem : Memory) (inp : PassInput) : Option (ℕ × Memory) := do
  let socks ← mem.pollSocks n
  match readableEntry mem.connectionsCount inp.poll with
  | none => return (0, mem)
  | some i => do
    let rc ← mem.getConnBySocket n ((socks[i]?).getD (inp.stack i))
    let p ← rc
    let c ← mem.connections.cells p
    let mem := mem.log [.recv c.value.sock inp.recv]
    let _ ← mem.domains.cells c.value.dom
    match inp.recv with
    | .error => return (0, ← mem.invalidateConnection p)
    | .disconnected => return (0, ← mem.invalidateConnection p)
    | .data chunk => return (1, ← mem.parseResponse n p chunk.buf inp.now)

def Memory.freeConnection (mem : Memory) (p : ℕ) : Option Memory := do
  let connections ← mem.connections.remove p
  let c ← connections.cells p
  return { mem with
    connections := connections.free p
    calls := mem.calls ++ [.close c.value.sock] }

/-- The check of one connection at the end of a pass. Its messages name the domain. -/
def Memory.sweepConn (clock : ℕ → ℤ) (p : ℕ) (mem : Memory) : Option Memory := do
  let c ← mem.connections.cells p
  let mem ← if clock p - c.value.timeOfLastResponse > timeout then do
      let _ ← mem.domains.cells c.value.dom
      mem.invalidateConnection p
    else some mem
  let c ← mem.connections.cells p
  if c.value.state = .done ∨ c.value.state = .invalid then do
    let _ ← mem.domains.cells c.value.dom
    mem.freeConnection p
  else some mem

def Memory.sweep (clock : ℕ → ℤ) (mem : Memory) : Option Memory :=
  foreachSafe Memory.connections (Memory.sweepConn timeout clock) n mem.connections.first mem

def Memory.connLoopPass (mem : Memory) (inp : PassInput) : Option Memory := do
  let (_, mem) ← mem.waitForResponse n inp
  mem.sweep n timeout inp.clock

def Memory.connLoop : Memory → List PassInput → Option Memory
  | mem, [] => some mem
  | mem, inp :: inps =>
    if mem.connections.first = none then some mem
    else do
      let mem ← mem.connLoopPass n timeout inp
      Memory.connLoop mem inps

/-- The loop of conn_loop over the mails, once no connection is left. -/
def Memory.finishMail (mem : Memory) : Option (List FileAction) :=
  foreach (fun _ => mem.mails)
    (fun p acts => (mem.mails.cells p).map fun c => acts ++
      [if mem.wasSent p then FileAction.deleteMail c.value.filename .new
        else .moveMail c.value.filename .new .notSent])
    n mem.mails.first []

def Memory.freeDomain (d : ℕ) (mem : Memory) : Option Memory := do
  let domains ← mem.domains.remove d
  return { mem with domains := domains.free d }

/-- The loop of free_mail_list, with what is left of the recipients of each mail. -/
def freeMailList : ℕ → TailQueue ℕ MailNode →
    Option (TailQueue ℕ MailNode × List (TailQueue ℕ Rcpt))
  | 0, ml => if ml.first = none then some (ml, []) else none
  | passes + 1, ml =>
    match ml.first with
    | none => some (ml, [])
    | some m => do
      let ml ← ml.remove m
      let c ← ml.cells m
      let rcpts ← freeMail n c.value
      let (ml, rest) ← freeMailList passes (ml.free m)
      return (ml, rcpts :: rest)

def Memory.connFinal (mem : Memory) : Option (Memory × List (TailQueue ℕ Rcpt)) := do
  let mem ← foreachSafe Memory.connections (fun p mem => mem.freeConnection p) n
    mem.connections.first mem
  let mem ← foreachSafe Memory.domains Memory.freeDomain n mem.domains.first mem
  let (mails, rcpts) ← freeMailList n n mem.mails
  return ({ mem with mails := mails }, rcpts)

end Loop

/-- conn_init and the passes of conn_loop. -/
def linkedTransfer (n : ℕ) (alloc : ℕ → ℕ) (myDomain : Bytes) (net : Net)
    (ml : TailQueue ℕ MailNode) (timeout : ℤ) (inps : List PassInput) : Option Memory := do
  let mem ← Memory.connInit n alloc myDomain net ml
  mem.connLoop n timeout inps

end SmtpClient.LinkedTransfer
