import Mathlib.Data.List.Basic
import Mathlib.Data.Int.Notation
import Mathlib.Logic.Function.Basic

/-!
The data of the client: mails with their recipients, domains, and the
connection of one MX server. Strings are byte lists without their terminator.
A pointer into the mail queue or into a recipient list is a position, and none
is the null pointer. The was_sent flag, the only field of a queued mail that
changes while mail is transferred, is kept beside the queue, by position.
-/
namespace SmtpClient.MailTypes

abbrev Bytes := List UInt8

/-- The bytes of an ASCII literal of the source. -/
def bytes (s : String) : Bytes := s.toList.map fun c => UInt8.ofNat c.toNat

structure Rcpt where
  name : Bytes
  domain : Bytes
deriving DecidableEq, Repr

/-- The first field is called from in the source. -/
structure Mail where
  fromLine : Bytes
  rcpts : List Rcpt
  msg : Bytes
  filename : Bytes
deriving DecidableEq, Repr

structure Domain where
  name : Bytes
deriving DecidableEq, Repr

inductive FsmState
  | init | helo | mailfrom | rcptto | data | datastr | quit | invalid | done
deriving DecidableEq, Repr

/-- The states DONE and INVALID, which the source tests by their order. -/
def FsmState.terminal : FsmState → Bool
  | .invalid | .done => true
  | _ => false

inductive FsmEvent
  | r220 | r250 | r354 | r221 | noRcpt | noMail | timeout | invalid
deriving DecidableEq, Repr

/-- The events that a reply of a server can raise. -/
def FsmEvent.isReply : FsmEvent → Bool
  | .r220 | .r221 | .r250 | .r354 | .invalid => true
  | .noRcpt | .noMail | .timeout => false

/-- The reply that lets a session go on from each state. -/
def FsmState.awaitedReply : FsmState → FsmEvent
  | .init => .r220
  | .helo | .mailfrom | .rcptto | .datastr => .r250
  | .data => .r354
  | .quit => .r221
  | .invalid | .done => .invalid

/-- The recipient pointer names the mail that owns the list and the place in it. -/
structure MxConn where
  sock : ℤ
  state : FsmState
  m : Option ℕ
  r : Option (ℕ × ℕ)
  dom : Domain
  timeOfLastResponse : ℤ
deriving DecidableEq, Repr

def rcptIsFromDomain (r : Rcpt) (d : Domain) : Bool := decide (r.domain = d.name)

def mailHasRcptsFromDomain (m : Mail) (d : Domain) : Bool :=
  m.rcpts.any fun r => rcptIsFromDomain r d

end SmtpClient.MailTypes
