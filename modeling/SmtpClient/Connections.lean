import SmtpClient.MxLookup
import SmtpClient.SessionScript

/-!
Setting up a transfer: the set of domains to serve and one connection for each
of them. The structures of connections stay in a list that is never shortened,
and a pointer is a position in it; the queue of open connections holds pointers.
The trace lists the calls on the sockets of connections in their order.
-/
namespace SmtpClient.Connections

open MailTypes Queues SendCommands MxLookup

/-- One call of recv hands over between 1 and 500 bytes. -/
structure Chunk where
  buf : Bytes
  ne_nil : buf ≠ []
  le_size : buf.length ≤ 500
deriving DecidableEq

inductive RecvResult
  | error
  | disconnected
  | data (chunk : Chunk)
deriving DecidableEq

inductive Act
  | recv (conn : ℕ) (result : RecvResult)
  | send (conn : ℕ) (sent : Sent)
  | close (conn : ℕ)
deriving DecidableEq

/-- The global variables of the transfer, with the was_sent flags of the queue. -/
@[ext] structure World where
  mails : List Mail
  domains : List Domain
  conns : List MxConn
  connections : List ℕ
  connectionsCount : ℕ
  wasSent : ℕ → Bool
  trace : List Act

/-- Add a domain unless it is the local one or already there. -/
def domainAdd (myDomain : Bytes) (domains : List Domain) (newDomainName : Bytes) : List Domain :=
  if newDomainName = myDomain then domains
  else if domains.any fun d => decide (d.name = newDomainName) then domains
  else domains ++ [⟨newDomainName⟩]

/-- The domains of all recipients of the queue. -/
def collectDomains (myDomain : Bytes) (mails : List Mail) : List Domain :=
  mails.foldl (fun ds m => m.rcpts.foldl (fun ds r => domainAdd myDomain ds r.domain) ds) []

/-- The structure that create_connection fills for a connected socket. Both
searches run without a check for the end of their list. -/
def newConn (mails : List Mail) (dom : Domain) (sock time : ℤ) : Option MxConn := do
  let i ← seek (fun m => mailHasRcptsFromDomain m dom) 0 mails
  let m ← mails[i]?
  let j ← seek (fun r => rcptIsFromDomain r dom) 0 m.rcpts
  return ⟨sock, .init, some i, some (i, j), dom, time⟩

/-- The outer none is the use of a null pointer, the inner one the result 0. -/
def createConnection (net : Net) (mails : List Mail) (dom : Domain) : Option (Option MxConn) :=
  match connectToMx net dom.name with
  | none => some none
  | some sock => (newConn mails dom sock (net.time dom.name)).map some

def World.insertConn (w : World) (conn : MxConn) : World :=
  { w with
    conns := w.conns ++ [conn]
    connections := w.connections ++ [w.conns.length]
    connectionsCount := w.connectionsCount + 1 }

/-- The loop of conn_init over the domain set. -/
def openConnections (net : Net) : World → List Domain → Option World
  | w, [] => some w
  | w, d :: ds => do
    match ← createConnection net w.mails d with
    | none => openConnections net w ds
    | some conn => openConnections net (w.insertConn conn) ds

/-- conn_init behind read_all_mail, which left this queue. -/
def connInit (myDomain : Bytes) (net : Net) (mails : List Mail) : Option World :=
  let domains := collectDomains myDomain mails
  openConnections net ⟨mails, domains, [], [], 0, fun _ => false, []⟩ domains

end SmtpClient.Connections
