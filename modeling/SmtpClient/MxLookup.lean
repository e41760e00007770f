import SmtpClient.Regexp

/-!
Finding the MX host of a domain and connecting to it. The answers of the
resolver are given as the texts that ns_sprintrr prints, and each address of a
host with what socket, connect and poll will make of it. Buffers that the
source leaves uninitialised hold some junk.
-/
namespace SmtpClient.MxLookup

open MailTypes Regexp

/-- The number at the beginning of a text, saturated as a long. -/
def strtol (s : Bytes) : ℤ :=
  let t := s.dropWhile isSpace
  let (neg, t) := match t with
    | 45 :: t => (true, t)
    | 43 :: t => (false, t)
    | _ => (false, t)
  let value : ℤ := (t.takeWhile isDigit).foldl (fun n x => 10 * n + (x.toNat - 48 : ℤ)) 0
  max (-9223372036854775808) (min 9223372036854775807 (if neg then -value else value))

/-- The conversion from long to int keeps the low 32 bits. -/
def toInt (x : ℤ) : ℤ := x.bmod 4294967296

/-- The variables of check_dns that live across its loop. -/
structure DnsScan where
  dnsAddr : Bytes
  prioStr : Bytes
  dnsAddrBest : Bytes
  prioBest : ℤ
deriving DecidableEq, Repr

def DnsScan.visit (a : DnsScan) (dispbuf : Bytes) : DnsScan :=
  let addr := reMatchAndFillSubstring .reMxDns dispbuf a.dnsAddr
  let prio := reMatchAndFillSubstring .reMxDnsPrio dispbuf a.prioStr
  let a := { a with dnsAddr := addr.2, prioStr := prio.2 }
  if addr.1 || prio.1 then
    let n := toInt (strtol prio.2)
    if n < a.prioBest then { a with prioBest := n, dnsAddrBest := addr.2 } else a
  else a

/-- The best MX host among the answers; none for the result 0. A failed query
has no answers to look at. -/
def checkDns (junk : Bytes) (answers : Option (List Bytes)) : Option Bytes :=
  match answers with
  | none => none
  | some texts =>
    let a := texts.foldl DnsScan.visit ⟨junk, junk, junk, 999999⟩
    if a.prioBest < 999999 then some a.dnsAddrBest else none

/-- What becomes of connecting to an address: it is decided at once, or while
poll waits for it. A refused connection makes poll report the socket too. -/
inductive ConnectOutcome
  | connected | failed | pendingConnected | pendingRefused | pendingSilent | pendingError
deriving DecidableEq, Repr

/-- The result of poll on the one socket of an attempt in progress. -/
def ConnectOutcome.pollResult : ConnectOutcome → ℤ
  | .pendingConnected | .pendingRefused => 1
  | .pendingError => -1
  | _ => 0

/-- A negative socket is a failed call of socket. -/
structure AddrInfo where
  sock : ℤ
  outcome : ConnectOutcome
deriving DecidableEq, Repr

inductive SockOp
  | socket (sock : ℤ)
  | setNonblocking (sock : ℤ)
  | setBlocking (sock : ℤ)
  | close (sock : ℤ)
deriving DecidableEq, Repr

/-- The socket, or 0 for a failed attempt, and the calls made on the socket. -/
def connectWithTimeout (sock : ℤ) (outcome : ConnectOutcome) : ℤ × List SockOp :=
  let ops := [.setNonblocking sock]
  match outcome with
  | .connected => (sock, ops ++ [.setBlocking sock])
  | .failed => (0, ops)
  | _ => if outcome.pollResult ≤ 0 then (0, ops) else (sock, ops ++ [.setBlocking sock])

def connectToAnyWithTimeout : List AddrInfo → ℤ × List SockOp
  | [] => (0, [])
  | addr :: info =>
    let ops := [.socket addr.sock]
    if addr.sock < 0 then
      let r := connectToAnyWithTimeout info
      (r.1, ops ++ r.2)
    else
      let c := connectWithTimeout addr.sock addr.outcome
      if c.1 = 0 then
        let r := connectToAnyWithTimeout info
        (r.1, ops ++ c.2 ++ [.close addr.sock] ++ r.2)
      else (addr.sock, ops ++ c.2)

/-- The network as one run of conn_init meets it. The addresses of a host are
given for the domain they are looked up for, since each lookup opens sockets of
its own. -/
structure Net where
  junk : Bytes
  resQuery : Bytes → Option (List Bytes)
  getaddrinfo : Bytes → Bytes → Option (List AddrInfo)
  time : Bytes → ℤ

/-- The socket connected to the MX host of a domain, if there is one. -/
def connectToMx (net : Net) (domain : Bytes) : Option ℤ :=
  match checkDns net.junk (net.resQuery domain) with
  | none => none
  | some mxAddress =>
    match net.getaddrinfo domain mxAddress with
    | none => none
    | some servinfo =>
      let sock := (connectToAnyWithTimeout servinfo).1
      if sock = 0 then none else some sock

end SmtpClient.MxLookup
