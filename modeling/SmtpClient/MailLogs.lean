import SmtpClient.LoggedReplies
import SmtpClient.MailPaths
import SmtpClient.Processes
import Mathlib.Data.Nat.Digits.Defs

/-!
The messages about mail files that a pass of the client leaves in the log, in the order
in which they are written. Each call for a file is announced, and a call that fails is
followed by a message that names it. The messages tell what became of every file, and
their length depends on the root of the directories.
-/
namespace SmtpClient.MailLogs

open MailTypes Maildir LineReading Regexp KeyedSteps MailStore MxLookup Connections EventLoop Setup
open MailCycle LocalFiltering MailFate MailPaths LogFraming Decimals LoggedReplies Processes

def yellow : Bytes := 27 :: bytes "[33;1m"

/-- The calls of LOG, ELOG and DLOG with their arguments. -/
inductive MailLog
  | found (filename : Bytes)
  | cantOpen
  | cantRead (filename : Bytes)
  | badFrom (filename : Bytes)
  | badTo (filename : Bytes)
  | noText (filename : Bytes)
  | badSyntax (filename : Bytes)
  | noneRead (total : ℕ)
  | someRead (success total : ℕ)
  | aborted
  | filtering
  | localRcpt (name : Bytes)
  | localOnly (filename : Bytes)
  | hasLocal (filename : Bytes)
  | wasSent (filename : Bytes)
  | notSent (filename : Bytes)
  | cant (a : FileAction)
  | finished
deriving DecidableEq

/-- A text with one string in it. -/
def about (symbol : UInt8) (before str after : Bytes) : Bytes :=
  logImp symbol (before ++ cstr str ++ after)

/-- The messages as they are printed. -/
def MailLog.text (root : Bytes) : MailLog → Bytes
  | .found f => about stdoutSymbol (yellow ++ bytes "Found mail file: '") f (bytes "'.")
  | .cantOpen => logImp stderrSymbol (bytes "Can't open mail file.")
  | .cantRead f => about stderrSymbol (bytes "Can't read from mail file '") f (bytes "'.")
  | .badFrom f =>
    about stderrSymbol (bytes "Incorrect mail format (can't read MAIL FROM) of file '") f (bytes "'.")
  | .badTo f =>
    about stderrSymbol (bytes "Incorrect mail format (can't read RCPT TO) of file '") f (bytes "'.")
  | .noText f => about stderrSymbol (bytes "Empty message in file '") f (bytes "'.")
  | .badSyntax f => about stderrSymbol (bytes "Incorrect syntax of mail in file '") f (bytes "'.")
  | .noneRead total =>
    logImp stderrSymbol (bytes "None of " ++ decimal total ++ bytes " mail files were read.")
  | .someRead success total =>
    logImp stdoutSymbol (yellow ++ bytes "Successfully read " ++ decimal success ++ bytes "/" ++
      decimal total ++ bytes " mail files.")
  | .aborted => logImp stderrSymbol (bytes "Can't read mail, aborting mail transfer.")
  | .filtering => logImp stdoutSymbol (yellow ++ bytes "Filtering mail list...")
  | .localRcpt name => about debugSymbol (yellow ++ bytes "Found local recipient '") name (bytes "'.")
  | .localOnly f =>
    about stdoutSymbol (green ++ bytes "Mail '") f (bytes "' is local only, moving to 'cur' dir.")
  | .hasLocal f =>
    about stdoutSymbol (green ++ bytes "Mail '") f
      (bytes "' has local recipient, copying to 'cur' dir.")
  | .wasSent f =>
    about stdoutSymbol (bytes "Mail '") f
      (bytes "' was successfully sent. Deleting file from NEW directory.")
  | .notSent f =>
    about stderrSymbol (bytes "Mail '") f (bytes "' was not sent. Moving it to NOT_SENT directory.")
  | .cant (.moveMail f d e) =>
    about stderrSymbol (bytes "Can't move mail '") f (bytes "' from '" ++ maildirPath root d ++
      bytes "' to '" ++ maildirPath root e ++ bytes "'.")
  | .cant (.copyMail f d e) =>
    about stderrSymbol (bytes "Can't copy mail '") f (bytes "' from '" ++ maildirPath root d ++
      bytes "' to '" ++ maildirPath root e ++ bytes "'.")
  | .cant (.deleteMail f d) =>
    about stderrSymbol (bytes "Can't delete mail '") f (bytes "' from '" ++ maildirPath root d ++
      bytes "' dir.")
  | .finished =>
    logImp stdoutSymbol (green ++ bytes "All connections were finished. Waiting for another mail...")

section Definitions

variable (sys : System)

/-- The messages of read_mail_from. -/
def fromLogs (filename f : Bytes) : List MailLog :=
  match fgets newline 500 f with
  | none => [.cantRead filename]
  | some (buf, _) => if reMatch .reMailFrom (cstr buf) then [] else [.badFrom filename]

/-- The messages of read_mail_to; the number bounds the lines. -/
def toLogsN (filename : Bytes) : ℕ → Bytes → List MailLog
  | 0, _ => []
  | n + 1, f =>
    match fgets newline 500 f with
    | none => [.cantRead filename]
    | some (buf, rest) =>
      if reMatch .reData (cstr buf) then []
      else if reMatch .reRcptTo (cstr buf) then toLogsN filename n rest
      else [.badTo filename]

/-- The messages of read_mail_file, but for the one of a move that fails. -/
def fileLogs (filename : Bytes) (content : Option Bytes) : List MailLog :=
  match content with
  | none => [.cantOpen]
  | some f =>
    let start := readMailFrom f
    let header := readMailTo start.2
    fromLogs filename f ++ toLogsN filename (start.2.length + 1) start.2 ++
      (if (readMailData header.2.2).isSome then [] else [.noText filename]) ++
      if (readMailFile filename content).1.isSome then [] else [.badSyntax filename]

/-- A call fails when the system refuses it, when there is no such file, and link also
when the other name is taken. -/
def callFails (e : Entries) (a : FileAction) : Bool :=
  !sys.grants a || match a with
    | .moveMail _ fromDir _ => (e fromDir).isNone
    | .copyMail _ fromDir toDir => (e fromDir).isNone || (e toDir).isSome
    | .deleteMail _ dir => (e dir).isNone

/-- The message of move_mail, copy_mail or delete_mail. -/
def callLogs (s : Store) (a : FileAction) : List MailLog :=
  if callFails sys (s a.filename) a then [.cant a] else []

/-- The messages of some calls, each with its announcement. -/
def announced (announce : FileAction → MailLog) : Store → List FileAction → List MailLog
  | _, [] => []
  | s, a :: acts => announce a :: callLogs sys s a ++ announced announce (perform sys s a) acts

/-- The messages of read_all_mail about each file. -/
def readLogs : Store → List Bytes → List MailLog
  | _, [] => []
  | s, f :: names =>
    let acts := (fileOf sys s f).2
    .found f :: fileLogs f (contentOf sys s f) ++ acts.flatMap (callLogs sys s) ++
      readLogs (acts.foldl (perform sys) s) names

/-- How filter_my_mail announces its calls. -/
def filterLog : FileAction → MailLog
  | .moveMail f _ _ => .localOnly f
  | .copyMail f _ _ => .hasLocal f
  | .deleteMail f _ => .wasSent f

/-- How the last loop of conn_loop announces its calls. -/
def finishLog : FileAction → MailLog
  | .deleteMail f _ => .wasSent f
  | .moveMail f _ _ | .copyMail f _ _ => .notSent f

/-- The messages of filter_my_mail about each mail. -/
def filterLogs (myDomain : Bytes) : Store → List Mail → List MailLog
  | _, [] => []
  | s, m :: mails =>
    let acts := (filterMail myDomain m).2
    (m.rcpts.filter (isLocal myDomain)).map (fun r => .localRcpt r.name) ++
      announced sys filterLog s acts ++ filterLogs myDomain (acts.foldl (perform sys) s) mails

/-- The messages of a pass, without those of its connections. -/
def cycleLogs (myDomain : Bytes) (net : Net) (timeout : ℤ) (inps : List PassInput) (s : Store) :
    Option (List MailLog) :=
  let start := readMails sys s sys.names
  let total := sys.names.length
  if start.1 = [] then some (readLogs sys s sys.names ++ [.noneRead total, .aborted])
  else do
    let filtered := filterMyMail myDomain start.1
    let w ← transfer myDomain net filtered.1 timeout inps
    if w.connections = [] then
      some (readLogs sys s sys.names ++ [.someRead start.1.length total, .filtering] ++
        filterLogs sys myDomain start.2.2 start.1 ++
        announced sys finishLog (filtered.2.foldl (perform sys) start.2.2) (finishMail w) ++
        [.finished])
    else none

end Definitions

/-- The call that a message announces. -/
def MailLog.told : MailLog → Option FileAction
  | .badSyntax f | .notSent f => some (.moveMail f .new .notSent)
  | .localOnly f => some (.moveMail f .new .cur)
  | .hasLocal f => some (.copyMail f .new .cur)
  | .wasSent f => some (.deleteMail f .new)
  | _ => none

/-- What stands between two texts. -/
def between (before after text : Bytes) : Option Bytes :=
  (text.dropPrefix? before).bind fun rest => rest.dropSuffix? after

/-- The words around the name of a file, and the call they announce for it. -/
structure Announcement where
  before : Bytes
  after : Bytes
  call : Bytes → FileAction

/-- What a reader of the log takes for an announcement. The number 1 marks a message for
stdout, and 2 one for stderr. -/
def announcements : List Announcement :=
  [⟨2 :: bytes "Incorrect syntax of mail in file '", bytes "'.", fun f => .moveMail f .new .notSent⟩,
    ⟨2 :: bytes "Mail '", bytes "' was not sent. Moving it to NOT_SENT directory.",
      fun f => .moveMail f .new .notSent⟩,
    ⟨1 :: 27 :: bytes "[32;1mMail '", bytes "' is local only, moving to 'cur' dir.",
      fun f => .moveMail f .new .cur⟩,
    ⟨1 :: 27 :: bytes "[32;1mMail '", bytes "' has local recipient, copying to 'cur' dir.",
      fun f => .copyMail f .new .cur⟩,
    ⟨1 :: bytes "Mail '", bytes "' was successfully sent. Deleting file from NEW directory.",
      fun f => .deleteMail f .new⟩]

/-- How the messages begin that a reader takes for failures. -/
def failures : List Bytes :=
  [2 :: bytes "Can't move mail '", 2 :: bytes "Can't copy mail '", 2 :: bytes "Can't delete mail '"]

/-- The call that a printed message announces. -/
def toldIn (text : Bytes) : Option FileAction :=
  announcements.findSome? fun p => (between p.before p.after text).map p.call

def failureIn (text : Bytes) : Bool := failures.any fun before => before.isPrefixOf text

/-- What a reader of the log knows: the files before the call that was announced last,
and that call, unless it has failed. -/
structure Account where
  store : Store
  pending : Option FileAction

def Account.settled (a : Account) : Store :=
  match a.pending with
  | none => a.store
  | some act => stepAtKey FileAction.filename callOn a.store act

/-- A message about a failure belongs to the call announced before it. -/
def Account.read (a : Account) (text : Bytes) : Account :=
  if failureIn text then ⟨a.store, none⟩ else ⟨a.settled, toldIn text⟩

/-- The files as the printed messages tell, when they were known before. -/
def account (s : Store) (texts : List Bytes) : Store := (texts.foldl Account.read ⟨s, none⟩).settled

section Reader

variable {before after text str lit rest root : Bytes}

theorem between_eq_some_iff :
    between before after text = some str ↔ text = before ++ str ++ after := by
  unfold between
  simp only [Option.bind_eq_some_iff, List.dropPrefix?_eq_some_iff, List.dropSuffix?_eq_some_iff,
    beq_iff_eq]
  constructor
  · rintro ⟨_, ⟨_, rfl, rfl⟩, _, rfl, rfl⟩
    rw [List.append_assoc]
  · rintro rfl
    exact ⟨str ++ after, ⟨before, List.append_assoc before str after, rfl⟩, after, rfl, rfl⟩

/-- Neither text begins with the other one. -/
def Apart (x y : Bytes) : Prop := ¬ x <+: y ∧ ¬ y <+: x

instance (x y : Bytes) : Decidable (Apart x y) := inferInstanceAs (Decidable (_ ∧ _))

theorem between_apart (h : Apart lit before) : between before after (lit ++ rest) = none := by
  refine Option.eq_none_iff_forall_ne_some.mpr fun str hstr => ?_
  have htext := between_eq_some_iff.mp hstr
  rw [List.append_assoc] at htext
  have hlit : lit <+: before ++ (str ++ after) := htext ▸ List.prefix_append lit rest
  rcases List.prefix_or_prefix_of_prefix hlit (List.prefix_append before _) with hpre | hpre
  · exact h.1 hpre
  · exact h.2 hpre

/-- The words behind the name tell two announcements apart as well. -/
theorem between_apart_reverse (h : Apart lit.reverse after.reverse) :
    between before after (rest ++ lit) = none := by
  refine Option.eq_none_iff_forall_ne_some.mpr fun str hstr => ?_
  have htext := between_eq_some_iff.mp hstr
  have hlit : lit <:+ before ++ str ++ after := htext ▸ List.suffix_append rest lit
  rcases List.suffix_or_suffix_of_suffix hlit (List.suffix_append _ after) with hsuf | hsuf
  · exact h.1 (List.reverse_prefix.mpr hsuf)
  · exact h.2 (List.reverse_prefix.mpr hsuf)

/-- No two announcements can be taken for each other. -/
theorem announcements_apart : announcements.Pairwise fun p q =>
    Apart q.before p.before ∨ Apart q.after.reverse p.after.reverse := by
  decide

theorem toldIn_eq (p : Announcement) (hp : p ∈ announcements) (f : Bytes) :
    toldIn (p.before ++ f ++ p.after) = some (p.call f) := by
  obtain ⟨earlier, later, hsplit⟩ := List.append_of_mem hp
  have hapart := announcements_apart
  rw [hsplit, List.pairwise_append] at hapart
  unfold toldIn
  rw [hsplit, List.findSome?_eq_some_iff]
  refine ⟨earlier, p, later, rfl, ?_, fun q hq => ?_⟩
  · rw [between_eq_some_iff.mpr rfl]
    rfl
  · rw [Option.map_eq_none_iff]
    rcases hapart.2.2 q hq p List.mem_cons_self with h | h
    · rw [List.append_assoc]
      exact between_apart h
    · exact between_apart_reverse h

/-- A message that begins so is none of those about calls. -/
def Quiet (lit : Bytes) : Prop :=
  (∀ p ∈ announcements, Apart lit p.before) ∧ ∀ b ∈ failures, Apart lit b

instance (lit : Bytes) : Decidable (Quiet lit) := inferInstanceAs (Decidable (_ ∧ _))

theorem toldIn_quiet (h : ∀ p ∈ announcements, Apart lit p.before) : toldIn (lit ++ rest) = none := by
  unfold toldIn
  rw [List.findSome?_eq_none_iff]
  intro p hp
  rw [between_apart (h p hp)]
  rfl

theorem failureIn_eq_false (h : ∀ b ∈ failures, Apart lit b) : failureIn (lit ++ rest) = false := by
  unfold failureIn
  rw [List.any_eq_false]
  intro b hb hpre
  rcases List.prefix_or_prefix_of_prefix (List.isPrefixOf_iff_prefix.mp hpre)
    (List.prefix_append lit rest) with hb' | hb'
  · exact (h b hb).2 hb'
  · exact (h b hb).1 hb'

/-- The reader sees the call that is announced for a file whose name is a string. -/
theorem read_told (a : Account) (l : MailLog) (act : FileAction) (htold : l.told = some act)
    (hname : 0 ∉ act.filename) : a.read (l.text root) = ⟨a.settled, some act⟩ := by
  have hshape : ∀ p ∈ announcements, ∀ f, p.call f = act → 0 ∉ f →
      l.text root = p.before ++ cstr f ++ p.after → (∀ b ∈ failures, Apart p.before b) →
      a.read (l.text root) = ⟨a.settled, some act⟩ := by
    intro p hp f hact hf htext hfail
    rw [cstr_eq_self f hf] at htext
    unfold Account.read
    rw [htext, toldIn_eq p hp f, List.append_assoc, failureIn_eq_false hfail, hact]
    rfl
  cases l with
  | badSyntax f =>
    obtain rfl := Option.some.inj htold
    exact hshape _ (.head _) f rfl hname rfl (by decide)
  | notSent f =>
    obtain rfl := Option.some.inj htold
    exact hshape _ (.tail _ (.head _)) f rfl hname rfl (by decide)
  | localOnly f =>
    obtain rfl := Option.some.inj htold
    exact hshape _ (.tail _ (.tail _ (.head _))) f rfl hname rfl (by decide)
  | hasLocal f =>
    obtain rfl := Option.some.inj htold
    exact hshape _ (.tail _ (.tail _ (.tail _ (.head _)))) f rfl hname rfl (by decide)
  | wasSent f =>
    obtain rfl := Option.some.inj htold
    exact hshape _ (.tail _ (.tail _ (.tail _ (.tail _ (.head _))))) f rfl hname rfl (by decide)
  | _ => cases htold

/-- The reader sees that a call has failed. -/
theorem read_cant (a : Account) (act : FileAction) :
    a.read ((MailLog.cant act).text root) = ⟨a.store, none⟩ := by
  have hfail : ∀ b ∈ failures, ∀ rest, failureIn (b ++ rest) = true := fun b hb rest =>
    List.any_eq_true.mpr ⟨b, hb, List.isPrefixOf_iff_prefix.mpr (List.prefix_append b rest)⟩
  have hshape : ∀ b ∈ failures, ∀ rest, (MailLog.cant act).text root = b ++ rest →
      a.read ((MailLog.cant act).text root) = ⟨a.store, none⟩ := by
    intro b hb rest htext
    unfold Account.read
    rw [htext, hfail b hb rest]
    rfl
  cases act with
  | moveMail f d e => exact hshape _ (.head _) _ (congrArg _ (List.append_assoc _ _ _))
  | copyMail f d e => exact hshape _ (.tail _ (.head _)) _ (congrArg _ (List.append_assoc _ _ _))
  | deleteMail f d =>
    exact hshape _ (.tail _ (.tail _ (.head _))) _ (congrArg _ (List.append_assoc _ _ _))

/-- Any other message changes nothing. -/
theorem read_quiet (a : Account) (l : MailLog) (hcant : ∀ b, l ≠ .cant b) (htold : l.told = none) :
    a.read (l.text root) = ⟨a.settled, none⟩ := by
  have hshape : ∀ lit rest, l.text root = lit ++ rest → Quiet lit →
      a.read (l.text root) = ⟨a.settled, none⟩ := by
    intro lit rest htext hquiet
    unfold Account.read
    rw [htext, toldIn_quiet hquiet.1, failureIn_eq_false hquiet.2]
    rfl
  cases l with
  | found f => exact hshape (1 :: (yellow ++ bytes "Found mail file: '")) (cstr f ++ _) rfl (by decide)
  | cantOpen => exact hshape (2 :: bytes "Can't open mail file.") [] rfl (by decide)
  | cantRead f => exact hshape (2 :: bytes "Can't read from mail file '") (cstr f ++ _) rfl (by decide)
  | badFrom f =>
    exact hshape (2 :: bytes "Incorrect mail format (can't read MAIL FROM) of file '") (cstr f ++ _)
      rfl (by decide)
  | badTo f =>
    exact hshape (2 :: bytes "Incorrect mail format (can't read RCPT TO) of file '") (cstr f ++ _)
      rfl (by decide)
  | noText f => exact hshape (2 :: bytes "Empty message in file '") (cstr f ++ _) rfl (by decide)
  | noneRead total => exact hshape (2 :: bytes "None of ") (decimal total ++ _) rfl (by decide)
  | someRead success total =>
    refine hshape (1 :: (yellow ++ bytes "Successfully read "))
      (decimal success ++ (bytes "/" ++ (decimal total ++ bytes " mail files."))) ?_ (by decide)
    simp only [MailLog.text, logImp, List.append_assoc]
    rfl
  | aborted => exact hshape (2 :: bytes "Can't read mail, aborting mail transfer.") [] rfl (by decide)
  | filtering => exact hshape (1 :: (yellow ++ bytes "Filtering mail list...")) [] rfl (by decide)
  | localRcpt name =>
    exact hshape (3 :: (yellow ++ bytes "Found local recipient '")) (cstr name ++ _) rfl (by decide)
  | finished =>
    exact hshape (1 :: (green ++ bytes "All connections were finished. Waiting for another mail...")) []
      rfl (by decide)
  | cant b => exact absurd rfl (hcant b)
  | badSyntax f | localOnly f | hasLocal f | wasSent f | notSent f => cases htold

end Reader

section Told

variable {sys : System} {s s' s'' : Store} {root : Bytes} {logs logs' : List MailLog}

/-- The printed messages tell how the files have changed. -/
def Tells (root : Bytes) (logs : List MailLog) (s s' : Store) : Prop :=
  ∀ a : Account, a.settled = s → ((logs.map (MailLog.text root)).foldl Account.read a).settled = s'

theorem Tells.append (h : Tells root logs s s') (h' : Tells root logs' s' s'') :
    Tells root (logs ++ logs') s s'' := by
  intro a ha
  rw [List.map_append, List.foldl_append]
  exact h' _ (h a ha)

theorem tells_nil : Tells root [] s s := fun _ ha => ha

/-- Most messages are not about a call. -/
theorem tells_quiet (logs : List MailLog)
    (h : ∀ l ∈ logs, (∀ a, l ≠ .cant a) ∧ l.told = none) : Tells root logs s s := by
  induction logs with
  | nil => exact tells_nil
  | cons l logs ih =>
    rw [List.forall_mem_cons] at h
    intro a ha
    refine ih h.2 (a.read (l.text root)) ?_
    rw [read_quiet a l h.1.1 h.1.2]
    exact ha

/-- A call that fails changes nothing, and one that does not fail is granted. -/
theorem answered_eq (e : Entries) (a : FileAction) :
    answered sys e a = if callFails sys e a then e else callOn e a := by
  unfold answered callFails
  cases sys.grants a with
  | false => rfl
  | true =>
    cases a with
    | moveMail f fromDir toDir => cases h : e fromDir <;> simp [callOn, rename, h]
    | copyMail f fromDir toDir =>
      cases h : e fromDir <;> cases h' : e toDir <;> simp [callOn, link, h, h']
    | deleteMail f dir =>
      cases h : e dir
      · have hsame : Function.update e dir none = e := h ▸ Function.update_eq_self dir e
        simp [callOn, unlink, hsame]
      · simp [h]

theorem perform_eq (s : Store) (a : FileAction) : perform sys s a =
    if callFails sys (s a.filename) a then s else stepAtKey FileAction.filename callOn s a := by
  unfold perform stepAtKey
  rw [answered_eq]
  split
  · exact Function.update_eq_self _ _
  · rfl

/-- A call with its announcement and, when it fails, the message about that. -/
theorem tells_call (l : MailLog) (a : FileAction) (htold : l.told = some a)
    (hname : 0 ∉ a.filename) : Tells root (l :: callLogs sys s a) s (perform sys s a) := by
  intro acc hacc
  rw [List.map_cons, List.foldl_cons, read_told acc l a htold hname, hacc, perform_eq, callLogs]
  split
  · change (Account.read _ ((MailLog.cant a).text root)).settled = s
    rw [read_cant]
    rfl
  · rfl

/-- Calls whose announcements say what they do. -/
theorem tells_announced (announce : FileAction → MailLog) (acts : List FileAction)
    (h : ∀ a ∈ acts, (announce a).told = some a ∧ 0 ∉ a.filename) :
    Tells root (announced sys announce s acts) s (acts.foldl (perform sys) s) := by
  induction acts generalizing s with
  | nil => exact tells_nil
  | cons a acts ih =>
    rw [List.forall_mem_cons] at h
    exact (tells_call (announce a) a h.1.1 h.1.2).append (ih h.2)

theorem fromLogs_quiet (filename f : Bytes) :
    ∀ l ∈ fromLogs filename f, (∀ a, l ≠ .cant a) ∧ l.told = none := by
  unfold fromLogs
  split
  · simp [MailLog.told]
  · split <;> simp [MailLog.told]

theorem toLogsN_quiet (filename : Bytes) (n : ℕ) (f : Bytes) :
    ∀ l ∈ toLogsN filename n f, (∀ a, l ≠ .cant a) ∧ l.told = none := by
  induction n generalizing f with
  | zero => exact fun l hl => absurd hl List.not_mem_nil
  | succ n ih =>
    unfold toLogsN
    split
    · simp [MailLog.told]
    · split
      · exact fun l hl => absurd hl List.not_mem_nil
      · split
        · exact ih _
        · simp [MailLog.told]

/-- A file with wrong syntax is moved, and no other one is touched. -/
theorem readMailFile_acts (filename f : Bytes) : (readMailFile filename (some f)).2 =
    if (readMailFile filename (some f)).1.isSome then [] else [.moveMail filename .new .notSent] := by
  unfold readMailFile
  cases hline : (readMailFrom f).1 with
  | none => simp [hline]
  | some fromLine =>
    cases hdata : readMailData (readMailTo (readMailFrom f).2).2.2 with
    | none => simp [hline, hdata]
    | some msg => by_cases hcount : (readMailTo (readMailFrom f).2).1 = 0 <;> simp [hline, hdata, hcount]

theorem tells_file (f : Bytes) (hf : 0 ∉ f) : Tells root
    (.found f :: fileLogs f (contentOf sys s f) ++ (fileOf sys s f).2.flatMap (callLogs sys s)) s
    ((fileOf sys s f).2.foldl (perform sys) s) := by
  unfold fileOf
  cases contentOf sys s f with
  | none =>
    change Tells root [.found f, .cantOpen] s s
    apply tells_quiet
    simp [MailLog.told]
  | some c =>
    rw [readMailFile_acts, fileLogs, ← List.cons_append, List.append_assoc (MailLog.found f :: _)]
    have hquiet : Tells root (.found f :: (fromLogs f c ++
        toLogsN f ((readMailFrom c).2.length + 1) (readMailFrom c).2 ++
        if (readMailData (readMailTo (readMailFrom c).2).2.2).isSome then [] else [.noText f])) s s := by
      apply tells_quiet
      intro l hl
      rw [List.mem_cons, List.mem_append, List.mem_append] at hl
      rcases hl with rfl | (hl | hl) | hl
      · simp [MailLog.told]
      · exact fromLogs_quiet f c l hl
      · exact toLogsN_quiet f _ _ l hl
      · split at hl
        · cases hl
        · rw [List.mem_singleton.mp hl]
          simp [MailLog.told]
    refine hquiet.append ?_
    split
    · exact tells_nil
    · have hcall : Tells root (.badSyntax f :: callLogs sys s (.moveMail f .new .notSent)) s
          (perform sys s (.moveMail f .new .notSent)) :=
        tells_call (.badSyntax f) (.moveMail f .new .notSent) rfl hf
      simpa using hcall

theorem tells_read (names : List Bytes) (hnames : ∀ f ∈ names, 0 ∉ f) :
    Tells root (readLogs sys s names) s (readMails sys s names).2.2 := by
  induction names generalizing s with
  | nil => exact tells_nil
  | cons f names ih =>
    rw [List.forall_mem_cons] at hnames
    exact (tells_file f hnames.1).append (ih hnames.2)

/-- filter_my_mail moves and copies files to CUR. -/
theorem filterMail_acts (myDomain : Bytes) (m : Mail) (a : FileAction)
    (ha : a ∈ (filterMail myDomain m).2) :
    a = .moveMail m.filename .new .cur ∨ a = .copyMail m.filename .new .cur := by
  rw [filterMail_eq] at ha
  change a ∈ localActions myDomain m at ha
  unfold localActions at ha
  split at ha
  · exact Or.inl (List.mem_singleton.mp ha)
  · split at ha
    · exact Or.inr (List.mem_singleton.mp ha)
    · cases ha

theorem tells_filter (myDomain : Bytes) (mails : List Mail) (hmails : ∀ m ∈ mails, 0 ∉ m.filename) :
    Tells root (filterLogs sys myDomain s mails) s
      ((filterMyMail myDomain mails).2.foldl (perform sys) s) := by
  induction mails generalizing s with
  | nil => exact tells_nil
  | cons m mails ih =>
    rw [List.forall_mem_cons] at hmails
    obtain ⟨hname, hmails⟩ := hmails
    have hcalls : (filterMyMail myDomain (m :: mails)).2 =
        (filterMail myDomain m).2 ++ (filterMyMail myDomain mails).2 := by
      rw [filterMyMail, filterMyMail, List.flatMap_cons]
    rw [hcalls, List.foldl_append, filterLogs]
    refine Tells.append (Tells.append (tells_quiet _ ?_) (tells_announced filterLog _ ?_))
      (ih hmails)
    · intro l hl
      obtain ⟨r, -, rfl⟩ := List.mem_map.mp hl
      simp [MailLog.told]
    · intro a ha
      rcases filterMail_acts myDomain m a ha with rfl | rfl
      · exact ⟨rfl, hname⟩
      · exact ⟨rfl, hname⟩

theorem tells_finish (w : World) (hmails : ∀ m ∈ w.mails, 0 ∉ m.filename) :
    Tells root (announced sys finishLog s (finishMail w)) s ((finishMail w).foldl (perform sys) s) := by
  apply tells_announced
  intro a ha
  obtain ⟨⟨m, i⟩, hm, rfl⟩ := List.mem_map.mp ha
  have hqueued : m ∈ w.mails := (List.mem_zipIdx hm).2.2 ▸ List.getElem_mem _
  cases h : w.wasSent i
  · simp only [h]
    exact ⟨rfl, hmails m hqueued⟩
  · simp only [h]
    exact ⟨rfl, hmails m hqueued⟩

theorem filename_mem (names : List Bytes) (m : Mail) (hm : m ∈ (readMails sys s names).1) :
    m.filename ∈ names := by
  induction names generalizing s with
  | nil => cases hm
  | cons f names ih =>
    rw [readMails, List.mem_append] at hm
    rcases hm with hm | hm
    · rcases readMailFile_cases f (contentOf sys s f) with ⟨m', c, -, hfile, hname⟩ | ⟨acts, hfile, -⟩
      · rw [fileOf, hfile] at hm
        obtain rfl := List.mem_singleton.mp hm
        rw [hname]
        exact List.mem_cons_self
      · rw [fileOf, hfile] at hm
        cases hm
    · exact List.mem_cons_of_mem f (ih hm)

/-- The queue of a transfer holds files that were read. -/
theorem queued_mem (myDomain : Bytes) (net : Net) (timeout : ℤ) (inps : List PassInput) (w : World)
    (hw : transfer myDomain net (filterMyMail myDomain (readMails sys s sys.names).1).1 timeout inps =
      some w) (m : Mail) (hm : m ∈ w.mails) :
    ∃ m' ∈ (readMails sys s sys.names).1, m.filename = m'.filename := by
  obtain ⟨-, hqueue, -⟩ := transfer_sound myDomain net _ timeout inps w hw
  rw [hqueue, filterMyMail_eq] at hm
  obtain ⟨m', hm', rfl⟩ := List.mem_map.mp hm
  exact ⟨m', List.mem_of_mem_filter hm', rfl⟩

/-- From the printed messages of a pass one can tell what it has done to the files, whatever
calls the system refused. -/
theorem files_told (root myDomain : Bytes) (net : Net) (timeout : ℤ) (inps : List PassInput) (s : Store)
    (hnames : ∀ f ∈ sys.names, 0 ∉ f) :
    Option.Rel (fun logs r => account s (logs.map (MailLog.text root)) = r.store)
      (cycleLogs sys myDomain net timeout inps s) (cycle sys myDomain net timeout inps s) := by
  have hread : Tells root (readLogs sys s sys.names) s (readMails sys s sys.names).2.2 :=
    tells_read sys.names hnames
  have hmails : ∀ m ∈ (readMails sys s sys.names).1, 0 ∉ m.filename :=
    fun m hm => hnames _ (filename_mem sys.names m hm)
  have hqueued : ∀ w, transfer myDomain net
      (filterMyMail myDomain (readMails sys s sys.names).1).1 timeout inps = some w →
      ∀ m ∈ w.mails, 0 ∉ m.filename := by
    intro w hw m hm
    obtain ⟨m', hm', hname⟩ := queued_mem myDomain net timeout inps w hw m hm
    exact hname ▸ hmails m' hm'
  rw [cycle_eq]
  unfold cycleLogs
  generalize readMails sys s sys.names = start at hread hmails hqueued ⊢
  dsimp only
  split
  · have hend : Tells root [.noneRead sys.names.length, .aborted] start.2.2 start.2.2 :=
      tells_quiet _ (by simp [MailLog.told])
    exact .some (hread.append hend ⟨s, none⟩ rfl)
  · cases hw : transfer myDomain net (filterMyMail myDomain start.1).1 timeout inps with
    | none => exact .none
    | some w =>
      simp only [Option.bind_eq_bind, Option.bind_some]
      split
      · have hstart : Tells root [.someRead start.1.length sys.names.length, .filtering]
            start.2.2 start.2.2 := tells_quiet _ (by simp [MailLog.told])
        have hfilter : Tells root (filterLogs sys myDomain start.2.2 start.1) start.2.2
            ((filterMyMail myDomain start.1).2.foldl (perform sys) start.2.2) :=
          tells_filter myDomain start.1 hmails
        have hend : Tells root [.finished] ((finishMail w).foldl (perform sys)
            ((filterMyMail myDomain start.1).2.foldl (perform sys) start.2.2))
            ((finishMail w).foldl (perform sys)
              ((filterMyMail myDomain start.1).2.foldl (perform sys) start.2.2)) :=
          tells_quiet _ (by simp [MailLog.told])
        have hfinish : Tells root (announced sys finishLog ((filterMyMail myDomain start.1).2.foldl
            (perform sys) start.2.2) (finishMail w)) _ _ := tells_finish w (hqueued w hw)
        have hall := (((hread.append hstart).append hfilter).append hfinish).append hend
        rw [List.foldl_append]
        exact .some (hall ⟨s, none⟩ rfl)
      · exact .none

end Told

section Example

/-- No file is moved on this system, whose NEW holds a mail with a local recipient. -/
def stuck : System :=
  { Conservation.willing with grants := fun
    | .moveMail _ _ _ => false
    | _ => true }

def mailInNew (f : Bytes) (dir : MaildirDir) : Option Inode :=
  if f = bytes "1" ∧ dir = .new then some 1 else none

theorem cycle_stuck :
    (cycle stuck (bytes "b") (netReaching fun _ => none) 60 [] mailInNew).map (fun r =>
      (r.store (bytes "1") .new, r.store (bytes "1") .cur, r.store (bytes "1") .notSent)) =
    some (some 1, some 1, none) := by
  decide +kernel

/-- The mail is copied to CUR, and the messages tell that the move to NOT_SENT has failed. -/
theorem files_told_stuck : ∃ logs, cycleLogs stuck (bytes "b") (netReaching fun _ => none) 60 []
      mailInNew = some logs ∧
    let files := account mailInNew (logs.map (MailLog.text (bytes "../maildir"))) (bytes "1")
    files .new = some 1 ∧ files .cur = some 1 ∧ files .notSent = none := by
  obtain ⟨r, hr, hobs⟩ := Option.map_eq_some_iff.mp cycle_stuck
  obtain ⟨hnew, hobs⟩ := Prod.mk.inj hobs
  obtain ⟨hcur, hnotSent⟩ := Prod.mk.inj hobs
  have htold := @files_told stuck (bytes "../maildir") (bytes "b") (netReaching fun _ => none) 60 []
    mailInNew (by decide)
  rw [hr] at htold
  generalize cycleLogs stuck (bytes "b") (netReaching fun _ => none) 60 [] mailInNew = result at htold ⊢
  cases htold with
  | some hlogs =>
    rw [← hlogs] at hnew hcur hnotSent
    exact ⟨_, rfl, hnew, hcur, hnotSent⟩

end Example

/-- Names of files have at most 255 bytes, a name that fits its array has at most 199, and
an int has at most ten digits. -/
inductive MailLog.Short : MailLog → Prop
  | found (f : Bytes) (hf : f.length ≤ 255) : Short (.found f)
  | cantOpen : Short .cantOpen
  | cantRead (f : Bytes) (hf : f.length ≤ 255) : Short (.cantRead f)
  | badFrom (f : Bytes) (hf : f.length ≤ 255) : Short (.badFrom f)
  | badTo (f : Bytes) (hf : f.length ≤ 255) : Short (.badTo f)
  | noText (f : Bytes) (hf : f.length ≤ 255) : Short (.noText f)
  | badSyntax (f : Bytes) (hf : f.length ≤ 255) : Short (.badSyntax f)
  | noneRead (total : ℕ) (ht : total < 10 ^ 10) : Short (.noneRead total)
  | someRead (success total : ℕ) (hs : success < 10 ^ 10) (ht : total < 10 ^ 10) :
    Short (.someRead success total)
  | aborted : Short .aborted
  | filtering : Short .filtering
  | localRcpt (name : Bytes) (hname : name.length ≤ 199) : Short (.localRcpt name)
  | localOnly (f : Bytes) (hf : f.length ≤ 255) : Short (.localOnly f)
  | hasLocal (f : Bytes) (hf : f.length ≤ 255) : Short (.hasLocal f)
  | wasSent (f : Bytes) (hf : f.length ≤ 255) : Short (.wasSent f)
  | notSent (f : Bytes) (hf : f.length ≤ 255) : Short (.notSent f)
  | cant (f : Bytes) (a : FileAction) (ha : FromNew f a) (hf : f.length ≤ 255) : Short (.cant a)
  | finished : Short .finished

section Text

variable {root : Bytes}

theorem length_about_le (symbol : UInt8) (before str after : Bytes) (k : ℕ) (hstr : str.length ≤ 255)
    (hk : before.length + after.length ≤ k) (hsum : k ≤ 243) :
    (about symbol before str after).length ≤ 499 := by
  have hlen := cstr_length_le str
  unfold about logImp
  rw [List.length_cons, List.length_append, List.length_append]
  omega

theorem length_decimal_le (n : ℕ) (hn : n < 10 ^ 10) : (decimal n).length ≤ 10 := by
  rw [decimal_eq, List.length_map]
  exact Nat.toDigits_length 10 n 10 (by decide) hn

/-- The longest messages are about a file that cannot be moved to NOT_SENT. -/
theorem length_text_le (hroot : root.length ≤ 98) (l : MailLog) (h : l.Short) :
    (l.text root).length ≤ 499 := by
  have hpath : ∀ dir, (maildirPath root dir).length = root.length + (dirSuffix dir).length :=
    fun dir => List.length_append
  have hnew : (dirSuffix .new).length = 4 := by decide
  have hcur : (dirSuffix .cur).length = 4 := by decide
  have hnotSent : (dirSuffix .notSent).length = 9 := by decide
  cases h with
  | found f hf | cantRead f hf | badFrom f hf | badTo f hf | noText f hf | badSyntax f hf
  | localOnly f hf | hasLocal f hf | wasSent f hf | notSent f hf =>
    exact length_about_le _ _ f _ 243 hf (by decide) (Nat.le_refl _)
  | localRcpt name hname =>
    exact length_about_le _ _ name _ 243 (hname.trans (by decide)) (by decide) (Nat.le_refl _)
  | cantOpen | aborted | filtering | finished => exact of_decide_eq_true rfl
  | noneRead total ht =>
    have hlen := length_decimal_le total ht
    have hbefore : (bytes "None of ").length = 8 := by decide
    have hafter : (bytes " mail files were read.").length = 22 := by decide
    simp only [MailLog.text, logImp, List.length_cons, List.length_append]
    omega
  | someRead success total hs ht =>
    have hlen := length_decimal_le success hs
    have hlen' := length_decimal_le total ht
    have hbefore : (yellow ++ bytes "Successfully read ").length = 25 := by decide
    have hslash : (bytes "/").length = 1 := by decide
    have hafter : (bytes " mail files.").length = 12 := by decide
    rw [List.length_append] at hbefore
    simp only [MailLog.text, logImp, List.length_cons, List.length_append]
    omega
  | cant f a ha hf =>
    have hfrom : (bytes "' from '").length = 8 := by decide
    have hto : (bytes "' to '").length = 6 := by decide
    have hend : (bytes "'.").length = 2 := by decide
    have hdir : (bytes "' dir.").length = 6 := by decide
    cases ha with
    | toCur | toNotSent | copy =>
      refine length_about_le _ _ f _ 243 hf ?_ (Nat.le_refl _)
      have hbefore : (bytes "Can't move mail '").length = 17 := by decide
      have hbefore' : (bytes "Can't copy mail '").length = 17 := by decide
      simp only [List.length_append, hpath]
      omega
    | delete =>
      refine length_about_le _ _ f _ 243 hf ?_ (Nat.le_refl _)
      have hbefore : (bytes "Can't delete mail '").length = 19 := by decide
      simp only [List.length_append, hpath]
      omega

theorem zero_not_mem_about {symbol : UInt8} {before after : Bytes} (str : Bytes)
    (hconst : 0 ∉ symbol :: (before ++ after)) : 0 ∉ about symbol before str after := by
  have hstr := zero_not_mem_cstr str
  unfold about logImp
  simp only [List.mem_cons, List.mem_append, not_or] at hconst ⊢
  exact ⟨hconst.1, ⟨hconst.2.1, hstr⟩, hconst.2.2⟩

theorem zero_not_mem_decimal (n : ℕ) : 0 ∉ decimal n := not_mem_decimal n 0 (by decide)

/-- The messages are strings. -/
theorem zero_not_mem_text (hroot : 0 ∉ root) (l : MailLog) : 0 ∉ l.text root := by
  have hpath : ∀ dir, 0 ∉ maildirPath root dir := by
    intro dir hmem
    rcases List.mem_append.mp hmem with hmem | hmem
    · exact hroot hmem
    · cases dir <;> exact absurd hmem (by decide)
  cases l with
  | found f | cantRead f | badFrom f | badTo f | noText f | badSyntax f | localOnly f | hasLocal f
  | wasSent f | notSent f | localRcpt f =>
    exact zero_not_mem_about f (by decide)
  | cantOpen | aborted | filtering | finished => exact of_decide_eq_true rfl
  | noneRead total =>
    have hbefore : 0 ∉ stderrSymbol :: bytes "None of " := by decide
    have hafter : 0 ∉ bytes " mail files were read." := by decide
    have hnum := zero_not_mem_decimal total
    simp only [MailLog.text, logImp, List.mem_cons, List.mem_append, not_or] at hbefore ⊢
    exact ⟨hbefore.1, ⟨hbefore.2, hnum⟩, hafter⟩
  | someRead success total =>
    have hbefore : 0 ∉ stdoutSymbol :: (yellow ++ bytes "Successfully read ") := by decide
    have hslash : 0 ∉ bytes "/" := by decide
    have hafter : 0 ∉ bytes " mail files." := by decide
    have hnum := zero_not_mem_decimal success
    have hnum' := zero_not_mem_decimal total
    simp only [MailLog.text, logImp, List.mem_cons, List.mem_append, not_or] at hbefore ⊢
    exact ⟨hbefore.1, ⟨⟨⟨hbefore.2, hnum⟩, hslash⟩, hnum'⟩, hafter⟩
  | cant a =>
    have hfrom : 0 ∉ bytes "' from '" := by decide
    have hto : 0 ∉ bytes "' to '" := by decide
    have hend : 0 ∉ bytes "'." := by decide
    have hdir : 0 ∉ bytes "' dir." := by decide
    cases a with
    | moveMail f d e =>
      have hbefore : 0 ∉ stderrSymbol :: bytes "Can't move mail '" := by decide
      refine zero_not_mem_about f ?_
      simp only [List.mem_cons, List.mem_append, not_or] at hbefore ⊢
      exact ⟨hbefore.1, hbefore.2, ⟨⟨⟨hfrom, hpath d⟩, hto⟩, hpath e⟩, hend⟩
    | copyMail f d e =>
      have hbefore : 0 ∉ stderrSymbol :: bytes "Can't copy mail '" := by decide
      refine zero_not_mem_about f ?_
      simp only [List.mem_cons, List.mem_append, not_or] at hbefore ⊢
      exact ⟨hbefore.1, hbefore.2, ⟨⟨⟨hfrom, hpath d⟩, hto⟩, hpath e⟩, hend⟩
    | deleteMail f d =>
      have hbefore : 0 ∉ stderrSymbol :: bytes "Can't delete mail '" := by decide
      refine zero_not_mem_about f ?_
      simp only [List.mem_cons, List.mem_append, not_or] at hbefore ⊢
      exact ⟨hbefore.1, hbefore.2, ⟨hfrom, hpath d⟩, hdir⟩

theorem text_ne_nil (l : MailLog) : l.text root ≠ [] := by
  cases l with
  | cant a => cases a <;> exact List.cons_ne_nil _ _
  | _ => exact List.cons_ne_nil _ _

end Text

section Names

variable {sys : System}

theorem fileLogs_short (filename : Bytes) (hf : filename.length ≤ 255) (content : Option Bytes) :
    ∀ l ∈ fileLogs filename content, l.Short := by
  have hto : ∀ n f, ∀ l ∈ toLogsN filename n f, l.Short := by
    intro n
    induction n with
    | zero => exact fun f l hl => absurd hl List.not_mem_nil
    | succ n ih =>
      intro f
      unfold toLogsN
      split
      · exact List.forall_mem_singleton.mpr (.cantRead filename hf)
      · split
        · exact fun l hl => absurd hl List.not_mem_nil
        · split
          · exact ih _
          · exact List.forall_mem_singleton.mpr (.badTo filename hf)
  have hfrom : ∀ f, ∀ l ∈ fromLogs filename f, l.Short := by
    intro f
    unfold fromLogs
    split
    · exact List.forall_mem_singleton.mpr (.cantRead filename hf)
    · split
      · exact fun l hl => absurd hl List.not_mem_nil
      · exact List.forall_mem_singleton.mpr (.badFrom filename hf)
  intro l hl
  unfold fileLogs at hl
  split at hl
  · rw [List.mem_singleton.mp hl]
    exact .cantOpen
  · rw [List.mem_append, List.mem_append, List.mem_append] at hl
    rcases hl with ((hl | hl) | hl) | hl
    · exact hfrom _ l hl
    · exact hto _ _ l hl
    · split at hl
      · cases hl
      · rw [List.mem_singleton.mp hl]
        exact .noText filename hf
    · split at hl
      · cases hl
      · rw [List.mem_singleton.mp hl]
        exact .badSyntax filename hf

variable {s : Store}

theorem callLogs_short {f : Bytes} {a : FileAction} (ha : FromNew f a) (hf : f.length ≤ 255) :
    ∀ l ∈ callLogs sys s a, l.Short := by
  unfold callLogs
  split
  · exact List.forall_mem_singleton.mpr (.cant f a ha hf)
  · exact fun l hl => absurd hl List.not_mem_nil

theorem announced_short (announce : FileAction → MailLog) (acts : List FileAction)
    (h : ∀ a ∈ acts, ∃ f, FromNew f a ∧ f.length ≤ 255 ∧ (announce a).Short) :
    ∀ l ∈ announced sys announce s acts, l.Short := by
  induction acts generalizing s with
  | nil => exact fun l hl => absurd hl List.not_mem_nil
  | cons a acts ih =>
    rw [List.forall_mem_cons] at h
    obtain ⟨⟨f, ha, hf, hannounce⟩, hacts⟩ := h
    intro l hl
    rw [announced, List.mem_append, List.mem_cons] at hl
    rcases hl with (rfl | hl) | hl
    · exact hannounce
    · exact callLogs_short ha hf l hl
    · exact ih hacts l hl

theorem readLogs_short (names : List Bytes) (hnames : ∀ f ∈ names, f.length ≤ 255) :
    ∀ l ∈ readLogs sys s names, l.Short := by
  induction names generalizing s with
  | nil => exact fun l hl => absurd hl List.not_mem_nil
  | cons f names ih =>
    rw [List.forall_mem_cons] at hnames
    obtain ⟨hf, hnames⟩ := hnames
    intro l hl
    rw [readLogs, List.mem_append, List.mem_append, List.mem_cons] at hl
    rcases hl with ((rfl | hl) | hl) | hl
    · exact .found f hf
    · exact fileLogs_short f hf _ l hl
    · obtain ⟨a, ha, hl⟩ := List.mem_flatMap.mp hl
      have hmove : a = .moveMail f .new .notSent := by
        rcases readMailFile_cases f (contentOf sys s f) with ⟨m, c, -, hfile, -⟩ | ⟨acts, hfile, hacts⟩
        · rw [fileOf, hfile] at ha
          cases ha
        · rw [fileOf, hfile] at ha
          rcases hacts with rfl | rfl
          · cases ha
          · exact List.mem_singleton.mp ha
      subst hmove
      exact callLogs_short .toNotSent hf l hl
    · exact ih hnames l hl

theorem filterLogs_short (myDomain : Bytes) (mails : List Mail)
    (hmails : ∀ m ∈ mails, m.filename.length ≤ 255 ∧
      ∀ r ∈ m.rcpts, r.domain = myDomain → r.name.length ≤ 199) :
    ∀ l ∈ filterLogs sys myDomain s mails, l.Short := by
  induction mails generalizing s with
  | nil => exact fun l hl => absurd hl List.not_mem_nil
  | cons m mails ih =>
    rw [List.forall_mem_cons] at hmails
    obtain ⟨⟨hf, hrcpts⟩, hmails⟩ := hmails
    intro l hl
    rw [filterLogs, List.mem_append, List.mem_append] at hl
    rcases hl with (hl | hl) | hl
    · obtain ⟨r, hr, rfl⟩ := List.mem_map.mp hl
      obtain ⟨hr, hlocal⟩ := List.mem_filter.mp hr
      exact .localRcpt _ (hrcpts r hr (of_decide_eq_true hlocal))
    · refine announced_short filterLog _ ?_ l hl
      intro a ha
      rcases filterMail_acts myDomain m a ha with rfl | rfl
      · exact ⟨_, .toCur, hf, .localOnly _ hf⟩
      · exact ⟨_, .copy, hf, .hasLocal _ hf⟩
    · exact ih hmails l hl

/-- No message of a pass has a longer argument than its kind allows. -/
theorem cycleLogs_short (myDomain : Bytes) (net : Net) (timeout : ℤ) (inps : List PassInput)
    (logs : List MailLog) (hnames : ∀ f ∈ sys.names, f.length ≤ 255)
    (hcount : sys.names.length < 2 ^ 31)
    (hrcpts : ∀ m ∈ (readMails sys s sys.names).1, ∀ r ∈ m.rcpts, r.domain = myDomain →
      r.name.length ≤ 199)
    (h : cycleLogs sys myDomain net timeout inps s = some logs) : ∀ l ∈ logs, l.Short := by
  have htotal : sys.names.length < 10 ^ 10 := hcount.trans (by decide)
  have hread : ∀ l ∈ readLogs sys s sys.names, l.Short := readLogs_short sys.names hnames
  have hmails : ∀ m ∈ (readMails sys s sys.names).1, m.filename.length ≤ 255 ∧
      ∀ r ∈ m.rcpts, r.domain = myDomain → r.name.length ≤ 199 :=
    fun m hm => ⟨hnames _ (filename_mem sys.names m hm), hrcpts m hm⟩
  have hsuccess : (readMails sys s sys.names).1.length < 10 ^ 10 := by
    rw [readMails_eq sys s sys.names sys.nodup]
    exact (List.length_filterMap_le _ _).trans_lt htotal
  unfold cycleLogs at h
  dsimp only at h
  split at h
  · obtain rfl := Option.some.inj h
    intro l hl
    rw [List.mem_append, List.mem_cons, List.mem_singleton] at hl
    rcases hl with hl | rfl | rfl
    · exact hread l hl
    · exact .noneRead _ htotal
    · exact .aborted
  · obtain ⟨w, hw, h⟩ := Option.bind_eq_some_iff.mp h
    split at h
    · obtain rfl := Option.some.inj h
      intro l hl
      simp only [List.mem_append, List.mem_cons, List.not_mem_nil, or_false] at hl
      rcases hl with (((hl | rfl | rfl) | hl) | hl) | rfl
      · exact hread l hl
      · exact .someRead _ _ hsuccess htotal
      · exact .filtering
      · exact filterLogs_short myDomain _ hmails l hl
      · refine announced_short finishLog _ ?_ l hl
        intro a ha
        obtain ⟨⟨m, i⟩, hm, rfl⟩ := List.mem_map.mp ha
        have hqueued : m ∈ w.mails := (List.mem_zipIdx hm).2.2 ▸ List.getElem_mem _
        obtain ⟨m', hm', hname⟩ := queued_mem myDomain net timeout inps w hw m hqueued
        have hf : m.filename.length ≤ 255 := hname ▸ (hmails m' hm').1
        refine ⟨m.filename, ?_, hf, ?_⟩
        · cases hsent : w.wasSent i <;> simp only [hsent]
          · exact .toNotSent
          · exact .delete
        · cases hsent : w.wasSent i <;> simp only [hsent]
          · exact .notSent _ hf
          · exact .wasSent _ hf
      · exact .finished
    · cases h

end Names

section Root

theorem logs_longName : ∃ logs, cycleLogs longNameSystem [] (netReaching fun _ => none) 0 []
    (fun _ _ => some 0) = some logs ∧ .cant (.moveMail longName .new .notSent) ∈ logs := by
  refine ⟨readLogs longNameSystem (fun _ _ => some 0) [longName] ++ [.noneRead 1, .aborted], rfl, ?_⟩
  have hcall : callLogs longNameSystem (fun _ _ => some 0) (.moveMail longName .new .notSent) =
      [.cant (.moveMail longName .new .notSent)] := rfl
  have hfile : (fileOf longNameSystem (fun _ _ => some 0) longName).2 =
      [.moveMail longName .new .notSent] := rfl
  rw [readLogs, hfile, List.flatMap_singleton, hcall]
  simp

/-- All messages about mail files fit the arrays of the client and of the log process,
whatever files are in the directories and whatever calls fail, exactly when the root is
at most 98 bytes long. -/
theorem mail_logs_fit_iff (root : Bytes) (hroot : 0 ∉ root) :
    (∀ (sys : System) (myDomain : Bytes) (net : Net) (timeout : ℤ) (inps : List PassInput)
      (s : Store) (logs : List MailLog), (∀ f ∈ sys.names, f.length ≤ 255) →
        sys.names.length < 2 ^ 31 →
        (∀ m ∈ (readMails sys s sys.names).1, ∀ r ∈ m.rcpts, r.domain = myDomain →
          r.name.length ≤ 199) →
        cycleLogs sys myDomain net timeout inps s = some logs →
        LogFits (logs.map (MailLog.text root))) ↔
      root.length ≤ 98 := by
  have hstrings : ∀ logs : List MailLog, ∀ msg ∈ logs.map (MailLog.text root),
      msg ≠ [] ∧ 0 ∉ msg := by
    intro logs msg hmsg
    obtain ⟨l, -, rfl⟩ := List.mem_map.mp hmsg
    exact ⟨text_ne_nil l, zero_not_mem_text hroot l⟩
  constructor
  · intro hfit
    obtain ⟨logs, hlogs, hcant⟩ := logs_longName
    have hnone : ∀ m ∈ (readMails longNameSystem (fun _ _ => some 0) longNameSystem.names).1,
        ∀ r ∈ m.rcpts, r.domain = [] → r.name.length ≤ 199 := fun m hm => absurd hm List.not_mem_nil
    have hfits := hfit longNameSystem [] _ 0 [] _ logs longNameSystem_names (by decide) hnone hlogs
    rw [logFits_iff _ (hstrings logs), List.forall_mem_map] at hfits
    have hlong := hfits _ hcant
    have hname : cstr longName = longName := by
      refine cstr_eq_self _ fun hmem => ?_
      exact absurd (List.eq_of_mem_replicate hmem) (by decide)
    have hlen : longName.length = 255 := List.length_replicate
    have hbefore : (bytes "Can't move mail '").length = 17 := by decide
    have hfrom : (bytes "' from '").length = 8 := by decide
    have hto : (bytes "' to '").length = 6 := by decide
    have hend : (bytes "'.").length = 2 := by decide
    have hnew : (dirSuffix .new).length = 4 := by decide
    have hnotSent : (dirSuffix .notSent).length = 9 := by decide
    simp only [MailLog.text, about, logImp, hname, maildirPath, List.length_cons,
      List.length_append] at hlong
    omega
  · intro hlen sys myDomain net timeout inps s logs hnames hcount hrcpts hlogs
    rw [logFits_iff _ (hstrings logs), List.forall_mem_map]
    intro l hl
    exact length_text_le hlen l
      (cycleLogs_short myDomain net timeout inps logs hnames hcount hrcpts hlogs l hl)

/-- With the root of the default configuration every message fits. -/
theorem mail_logs_fit_iff_maildir : ∃ logs, cycleLogs longNameSystem [] (netReaching fun _ => none) 0 []
      (fun _ _ => some 0) = some logs ∧
    .cant (.moveMail longName .new .notSent) ∈ logs ∧
    LogFits (logs.map (MailLog.text (bytes "../maildir"))) := by
  obtain ⟨logs, hlogs, hcant⟩ := logs_longName
  refine ⟨logs, hlogs, hcant, ?_⟩
  exact (mail_logs_fit_iff (bytes "../maildir") (by decide)).mpr (by decide) longNameSystem [] _ 0 [] _
    logs longNameSystem_names (by decide) (fun m hm => absurd hm List.not_mem_nil) hlogs

end Root

end SmtpClient.MailLogs
