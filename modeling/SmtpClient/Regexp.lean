import SmtpClient.MailTypes
import SmtpClient.Backtracking

/-!
The patterns of the client and the functions that match them. All patterns are
caseless; a dot matches every byte but LF, and the space class is that of the
C locale. A captured text is cut at its first NUL where it is used as a string,
which the callers exclude by measuring the subject with strlen.
-/
namespace SmtpClient.Regexp

open MailTypes Backtracking

inductive SmtpReName
  | r220 | r221 | r250 | r354 | reData | reMailFrom | reRcptTo | reRcptDomain
  | reMxDns | reMxDnsPrio
deriving DecidableEq, Repr

def toLower (x : UInt8) : UInt8 := if 65 ≤ x ∧ x ≤ 90 then x + 32 else x

def isSpace (x : UInt8) : Bool := x = 32 ∨ 9 ≤ x ∧ x ≤ 13

def isDigit (x : UInt8) : Bool := 48 ≤ x ∧ x ≤ 57

def isDot (x : UInt8) : Bool := x ≠ 10

/-- One literal byte of a caseless pattern. -/
def lit (c : UInt8) : Pattern UInt8 := .one fun x => toLower x = toLower c

def word (s : String) : Pattern UInt8 := chain ((bytes s).map lit)

/-- The optional text of a reply line: blanks and something behind them. -/
def replyText : Pattern UInt8 := .opt (chain [plus isSpace, plus isDot])

/-- ^220(?:\s+.+)?\r\n and the like -/
def replyPattern (code : String) : Pattern UInt8 :=
  chain [word code, replyText, word "\r\n"]

/-- Whether the pattern begins with ^, and the pattern behind it. -/
def patterns : SmtpReName → Bool × Pattern UInt8
  | .r220 => (true, replyPattern "220")
  | .r221 => (true, replyPattern "221")
  | .r250 => (true, replyPattern "250")
  | .r354 => (true, replyPattern "354")
  -- ^DATA\r\n
  | .reData => (true, word "DATA\r\n")
  -- ^MAIL FROM:\s*<.+>\r\n
  | .reMailFrom => (true, chain [word "MAIL FROM:", .many isSpace, lit 60, plus isDot,
      word ">\r\n"])
  -- ^RCPT TO:\s*<(.+@.+)>\r\n
  | .reRcptTo => (true, chain [word "RCPT TO:", .many isSpace, lit 60,
      .group (chain [plus isDot, lit 64, plus isDot]), word ">\r\n"])
  -- ^RCPT TO:\s*<.+@(.+)>\r\n
  | .reRcptDomain => (true, chain [word "RCPT TO:", .many isSpace, lit 60, plus isDot, lit 64,
      .group (plus isDot), word ">\r\n"])
  -- MX\s+\d+\s*(.+)\.$
  | .reMxDns => (false, chain [word "MX", plus isSpace, plus isDigit, .many isSpace,
      .group (plus isDot), lit 46, .atEnd fun x => x = 10])
  -- MX\s+(\d+)\s*.+\.$
  | .reMxDnsPrio => (false, chain [word "MX", plus isSpace, .group (plus isDigit),
      .many isSpace, plus isDot, lit 46, .atEnd fun x => x = 10])

/-- The order of the enumeration, in which all patterns are tried. -/
def smtpReNames : List SmtpReName :=
  [.r220, .r221, .r250, .r354, .reData, .reMailFrom, .reRcptTo, .reRcptDomain, .reMxDns,
    .reMxDnsPrio]

def pcreExec (reName : SmtpReName) (str : Bytes) : Option (Match UInt8) :=
  if (patterns reName).1 then execAt (patterns reName).2 str
  else search (patterns reName).2 str

def reMatch (reName : SmtpReName) (str : Bytes) : Bool := (pcreExec reName str).isSome

/-- Without a match the buffer keeps what it held. -/
def reMatchAndFillSubstring (reName : SmtpReName) (str substr : Bytes) : Bool × Bytes :=
  match pcreExec reName str with
  | none => (false, substr)
  | some m => (true, m.captured.getD [])

/-- The first pattern that matches; none stands for the result -1. -/
def reMatchAny (str : Bytes) : Option SmtpReName := smtpReNames.find? fun reName => reMatch reName str

end SmtpClient.Regexp
