import SmtpClient.MailTypes
import SmtpClient.Queues

/-!
The functions the state machine uses to talk to a server. What is sent is
recorded with its text and with the queue positions it was read from. A result
of none is the use of a null pointer. A call to send is taken as made: the
source does not look at its result.
-/
namespace SmtpClient.SendCommands

open MailTypes Queues

inductive Command
  | helo
  | mailfrom (mail : ℕ)
  | rcptto (mail rcpt : ℕ)
  | data
  | datastr (mail : ℕ)
  | quit
deriving DecidableEq, Repr

structure Sent where
  command : Command
  text : Bytes
deriving DecidableEq, Repr

/-- What one connection can touch while its state machine runs. -/
structure Session where
  conn : MxConn
  wasSent : ℕ → Bool
  sent : List Sent

namespace Session

def send (s : Session) (command : Command) (text : Bytes) : Session :=
  { s with sent := s.sent ++ [⟨command, text⟩] }

def setM (s : Session) (m : Option ℕ) : Session := { s with conn := { s.conn with m := m } }

def setR (s : Session) (r : Option (ℕ × ℕ)) : Session := { s with conn := { s.conn with r := r } }

def setState (s : Session) (state : FsmState) : Session :=
  { s with conn := { s.conn with state := state } }

def markSent (s : Session) (i : ℕ) : Session :=
  { s with wasSent := Function.update s.wasSent i true }

end Session

def msgHelo : Bytes := bytes "HELO quint.nope\r\n"

def msgData : Bytes := bytes "DATA\r\n"

def msgQuit : Bytes := bytes "QUIT\r\n"

/-- The text that send_rcptto prints for one recipient name. -/
def msgRcptto (name : Bytes) : Bytes := bytes "RCPT TO: <" ++ name ++ bytes ">\r\n"

def sendHello (s : Session) : Session := s.send .helo msgHelo

def sendMailfrom (mails : List Mail) (s : Session) : Option Session := do
  let i ← s.conn.m
  let m ← mails[i]?
  return s.send (.mailfrom i) m.fromLine

/-- Skip to a recipient of the connection's domain, send its command and step
the pointer behind it; false when there is none left. -/
def sendRcptto (mails : List Mail) (s : Session) : Option (Bool × Session) :=
  match s.conn.r with
  | none => some (false, s)
  | some (i, j) => do
    let m ← mails[i]?
    match seek (fun r => rcptIsFromDomain r s.conn.dom) j (m.rcpts.drop j) with
    | none => return (false, s.setR none)
    | some k =>
      let r ← m.rcpts[k]?
      return (true, (s.send (.rcptto i k) (msgRcptto r.name)).setR
        ((next m.rcpts k).map fun l => (i, l)))

def sendData (s : Session) : Session := s.send .data msgData

def sendDatastr (mails : List Mail) (s : Session) : Option Session := do
  let i ← s.conn.m
  let m ← mails[i]?
  return s.send (.datastr i) m.msg

def sendQuit (s : Session) : Session := s.send .quit msgQuit

end SmtpClient.SendCommands
