import SmtpClient.LocalFiltering
import SmtpClient.MailCycle

/-!
Conservation of files over a whole cycle. Files are lost in two ways: a rename
replaces a file of another content, or the file of a mail with a local recipient
is taken out of NEW although no copy of it was made. A cycle without such calls
keeps all files, and only such a cycle does. Which calls are made for a name depends
on its file and on the servers, so that the directories before the cycle decide.
-/
namespace SmtpClient.Conservation

open MailTypes Maildir KeyedSteps MailStore MailCycle MxLookup Connections EventLoop
open TransferInvariant Setup Acceptance LocalFiltering

variable (sys : System)

/-- A mail with a local recipient was read under this name. -/
def HasLocalRcpt (myDomain : Bytes) (r : Cycle) (f : Bytes) : Prop :=
  ∃ m ∈ r.read, m.filename = f ∧ ∃ rcpt ∈ m.rcpts, rcpt.domain = myDomain

/-- What a cycle that started with this store has kept. -/
structure Conserved (myDomain : Bytes) (s : Store) (r : Cycle) : Prop where
  dirs : ∀ f dir content, dir = .cur ∨ dir = .notSent → Holds sys (s f) dir content →
    Holds sys (r.store f) dir content
  local_mail : ∀ m ∈ r.read, (∃ rcpt ∈ m.rcpts, rcpt.domain = myDomain) →
    ∃ i, s m.filename .new = some i ∧
      (Holds sys (r.store m.filename) .cur (sys.contents i) ∨
        r.store m.filename .new = some i)
  remote_mail : ∀ (k : ℕ) (m : Mail), r.world.mails[k]? = some m →
    (∀ p, ¬ AcceptedBy r.world p k) →
    ∃ i, s m.filename .new = some i ∧
      (Holds sys (r.store m.filename) .notSent (sys.contents i) ∨
        r.store m.filename .new = some i)

section Cycle

variable (myDomain : Bytes) (net : Net) (timeout : ℤ) (inps : List PassInput) (s : Store)
  (r : Cycle)

/-- A remote mail that no server accepted is never lost. -/
theorem unaccepted_kept (h : CycleFrom sys myDomain net timeout inps s r) (k : ℕ) (m : Mail)
    (hm : r.world.mails[k]? = some m) (hacc : ∀ p, ¬ AcceptedBy r.world p k) :
    ∃ i, s m.filename .new = some i ∧
      (Holds sys (r.store m.filename) .notSent (sys.contents i) ∨
        r.store m.filename .new = some i) := by
  obtain ⟨⟨hsound, -⟩, -, -⟩ := transfer_sound myDomain net _ timeout inps r.world h.world
  have hsent : r.world.wasSent k = false := by
    rw [← Bool.not_eq_true]
    intro hsent
    obtain ⟨p, hp⟩ := (hsound.marks k).mp hsent
    exact hacc p hp
  obtain ⟨⟨i, hi⟩, copy, hcopy, hcalls⟩ :=
    calls_of_queued sys myDomain net timeout inps s r h k m hm
  refine ⟨i, hi, ?_⟩
  rw [h.store, foldl_perform, hcalls, hsent, List.foldl_append]
  apply finalCall_unsent
  rcases hcopy with rfl | rfl
  · exact hi
  · exact (answered_copyMail sys _ _ .new (Or.inl (by decide))).trans hi

/-- Conservation can be checked name by name. -/
theorem conserved_iff_kept (h : CycleFrom sys myDomain net timeout inps s r) :
    Conserved sys myDomain s r ↔
      ∀ f, Kept sys (HasLocalRcpt myDomain r f) (s f) (r.store f) := by
  constructor
  · intro hcons f
    constructor
    · exact hcons.dirs f
    · intro hlocal i hi
      obtain ⟨m, hm, rfl, hrcpt⟩ := hlocal
      obtain ⟨j, hj, hkept⟩ := hcons.local_mail m hm hrcpt
      obtain rfl := Option.some.inj (hi.symm.trans hj)
      exact hkept
  · intro hkept
    constructor
    · intro f
      exact (hkept f).dirs
    · intro m hm hrcpt
      obtain ⟨⟨i, hi⟩, -⟩ := mem_read sys myDomain net timeout inps s r h m hm
      exact ⟨i, hi, (hkept m.filename).new ⟨m, hm, rfl, hrcpt⟩ i hi⟩
    · exact unaccepted_kept sys myDomain net timeout inps s r h

/-- A cycle conserves files exactly when all its calls are safe. -/
theorem conserved_iff_along (h : CycleFrom sys myDomain net timeout inps s r) :
    Conserved sys myDomain s r ↔ ∀ f, Along (answered sys)
      (Safe sys (HasLocalRcpt myDomain r f)) (s f) (ofKey FileAction.filename f r.calls) := by
  rw [conserved_iff_kept sys myDomain net timeout inps s r h]
  refine forall_congr' fun f => ?_
  have hshape := calls_shape sys myDomain net timeout inps s r h f
  rw [along_safe_iff sys _ (s f) f _ hshape, h.store, foldl_perform]

end Cycle

section Names

/-- The queue that is transferred, when the cycle starts with this store. -/
def queueOf (myDomain : Bytes) (s : Store) : List Mail :=
  (filterMyMail myDomain (sys.names.filterMap fun f => (fileOf sys s f).1)).1

/-- Some server accepts the text of the queued mail of this name. -/
def ServerAccepts (myDomain : Bytes) (net : Net) (timeout : ℤ) (inps : List PassInput) (s : Store)
    (f : Bytes) : Prop :=
  ∃ w k m p, transfer myDomain net (queueOf sys myDomain s) timeout inps = some w ∧
    (queueOf sys myDomain s)[k]? = some m ∧ m.filename = f ∧ AcceptedBy w p k

variable (e : Entries) (f : Bytes) (i : Inode)

/-- Moving the file i out of NEW replaces no file of another content. -/
def MoveKeeps (toDir : MaildirDir) : Prop :=
  sys.grants (.moveMail f .new toDir) = true →
    ∀ j, e toDir = some j → sys.contents j = sys.contents i

/-- CUR has the content of the file i once the copy was tried. -/
def CopyStands : Prop :=
  (sys.grants (.copyMail f .new .cur) = true ∧ e .cur = none) ∨
    Holds sys e .cur (sys.contents i)

/-- The last call takes the file i out of NEW. -/
def TakenOut (accepted : Prop) : Prop :=
  (accepted ∧ sys.grants (.deleteMail f .new) = true) ∨
    (¬ accepted ∧ sys.grants (.moveMail f .new .notSent) = true ∧ e .notSent ≠ some i)

/-- The condition for one name, with the file i in NEW. A file that is no mail goes to
NOT_SENT, a mail for local recipients only to CUR, and a mail for remote and local
recipients has to be in CUR when the last call takes its file away. -/
def NameKept (myDomain : Bytes) (accepted : Prop) : Prop :=
  match (readMailFile f (some (sys.contents i))).1 with
  | none => MoveKeeps sys e f i .notSent
  | some m =>
    if ∀ rcpt ∈ m.rcpts, rcpt.domain = myDomain then MoveKeeps sys e f i .cur
    else (¬ accepted → MoveKeeps sys e f i .notSent) ∧
      ((∃ rcpt ∈ m.rcpts, rcpt.domain = myDomain) → TakenOut sys e f i accepted →
        CopyStands sys e f i)

variable {e f i}

theorem along_move_iff {localRcpt : Prop} (hi : e .new = some i) (toDir : MaildirDir)
    (hlocal : toDir = .cur ∨ ¬ localRcpt) :
    Along (answered sys) (Safe sys localRcpt) e [.moveMail f .new toDir] ↔
      MoveKeeps sys e f i toDir := by
  simp only [Along, and_true, Safe, MoveKeeps, hi, Option.some.injEq, forall_eq']
  refine forall_congr' fun _ => ?_
  rw [and_iff_left_iff_imp]
  rintro - hrcpt hcur
  rcases hlocal with hlocal | hlocal
  · exact absurd hlocal hcur
  · exact absurd hrcpt hlocal

/-- The last call alone, for a mail without local recipients. -/
theorem along_final_iff {localRcpt : Prop} (hi : e .new = some i) (wasSent : Bool)
    (hlocal : ¬ localRcpt) :
    Along (answered sys) (Safe sys localRcpt) e [finalCall wasSent f] ↔
      (¬ wasSent = true → MoveKeeps sys e f i .notSent) := by
  cases wasSent with
  | true =>
    constructor
    · intro _ hsent
      exact absurd rfl hsent
    · intro _
      exact ⟨fun _ hrcpt => absurd hrcpt hlocal, trivial⟩
  | false =>
    rw [finalCall, if_neg Bool.false_ne_true, along_move_iff sys hi .notSent (Or.inr hlocal)]
    constructor
    · intro hkeeps _
      exact hkeeps
    · intro hkeeps
      exact hkeeps Bool.false_ne_true

/-- The copy puts the file into CUR when CUR is free, and leaves an entry alone. -/
theorem holds_copied_iff (hi : e .new = some i) :
    Holds sys (answered sys e (.copyMail f .new .cur)) .cur (sys.contents i) ↔
      CopyStands sys e f i := by
  unfold CopyStands
  cases hcur : e .cur with
  | some j =>
    have hsame : answered sys e (.copyMail f .new .cur) .cur = e .cur := by
      apply answered_copyMail
      exact Or.inr (by simp [hcur])
    simp [Holds, hsame, hcur]
  | none =>
    unfold answered
    cases hgrant : sys.grants (.copyMail f .new .cur) with
    | true => simp [Holds, callOn, link, hi, hcur]
    | false => simp [Holds, hcur]

/-- The copy and the last call, for a mail with local and remote recipients. -/
theorem along_copied_iff {localRcpt : Prop} (hi : e .new = some i) (wasSent : Bool)
    (hlocal : localRcpt) :
    Along (answered sys) (Safe sys localRcpt) e [.copyMail f .new .cur, finalCall wasSent f] ↔
      (¬ wasSent = true → MoveKeeps sys e f i .notSent) ∧
        (TakenOut sys e f i (wasSent = true) → CopyStands sys e f i) := by
  have hcopy : Safe sys localRcpt e (.copyMail f .new .cur) := fun _ => trivial
  have hnew := (answered_copyMail sys e f .new (Or.inl (by decide))).trans hi
  have hnotSent := answered_copyMail sys e f .notSent (Or.inl (by decide))
  simp only [Along, hcopy, true_and, and_true]
  rw [← holds_copied_iff sys hi]
  cases wasSent with
  | true =>
    simp [Safe, finalCall, TakenOut, hnew, hlocal]
  | false =>
    simp only [Safe, finalCall, TakenOut, MoveKeeps, hnew, hnotSent, hlocal, Bool.false_eq_true,
      if_false, not_false_eq_true, forall_const, false_and, true_and, false_or,
      Option.some.injEq, forall_eq', ne_eq, reduceCtorEq]
    tauto

end Names

section Conditions

variable (myDomain : Bytes) (net : Net) (timeout : ℤ) (inps : List PassInput) (s : Store)
  (r : Cycle)

/-- A queued mail is marked as sent exactly when some server accepts it. -/
theorem serverAccepts_iff (h : CycleFrom sys myDomain net timeout inps s r) (k : ℕ) (m : Mail)
    (hm : r.world.mails[k]? = some m) :
    ServerAccepts sys myDomain net timeout inps s m.filename ↔ r.world.wasSent k = true := by
  have hqueue : queueOf sys myDomain s = (filterMyMail myDomain r.read).1 := by
    rw [queueOf, h.read]
  obtain ⟨⟨hsound, -⟩, -, -⟩ := transfer_sound myDomain net _ timeout inps r.world h.world
  rw [hsound.marks k]
  constructor
  · rintro ⟨w, l, m', p, hw, hm', hname, hacc⟩
    rw [hqueue, h.world] at hw
    obtain rfl := Option.some.inj hw
    rw [hqueue, ← h.mails] at hm'
    have hnodup := nodup_queue sys myDomain net timeout inps s r h
    have hlt : l < (r.world.mails.map Mail.filename).length := by
      rw [List.length_map]
      exact (List.getElem?_eq_some_iff.mp hm').1
    obtain rfl : l = k := by
      apply (List.getElem?_inj hlt hnodup).mp
      rw [List.getElem?_map, List.getElem?_map, hm, hm', Option.map_some, Option.map_some, hname]
    exact ⟨p, hacc⟩
  · rintro ⟨p, hacc⟩
    refine ⟨r.world, k, m, p, ?_, ?_, rfl, hacc⟩
    · rw [hqueue]
      exact h.world
    · rw [hqueue, ← h.mails]
      exact hm

theorem fileOf_of_new (f : Bytes) (i : Inode) (hopen : sys.opens f = true)
    (hi : s f .new = some i) : fileOf sys s f = readMailFile f (some (sys.contents i)) := by
  rw [fileOf, contentOf, if_pos hopen, hi, Option.map_some]

/-- No call is made for a name without a file in NEW that can be opened. -/
theorem calls_nil (h : CycleFrom sys myDomain net timeout inps s r) (f : Bytes)
    (hno : f ∈ sys.names → sys.opens f = true → s f .new = none) :
    ofKey FileAction.filename f r.calls = [] := by
  by_cases hf : f ∈ sys.names
  · have hfile : fileOf sys s f = (none, []) := by
      rw [fileOf, contentOf]
      split
      · rename_i hopen
        rw [hno hf hopen]
        rfl
      · rfl
    rw [calls_of_unread sys myDomain net timeout inps s r h f hf (by rw [hfile]), hfile]
  · exact calls_of_unlisted sys myDomain net timeout inps s r h f hf

theorem hasLocalRcpt_iff (h : CycleFrom sys myDomain net timeout inps s r) (m : Mail)
    (hm : m ∈ r.read) :
    HasLocalRcpt myDomain r m.filename ↔ ∃ rcpt ∈ m.rcpts, rcpt.domain = myDomain := by
  constructor
  · rintro ⟨m', hm', hname, hrcpt⟩
    have hfile := (fileOf_of_read sys myDomain net timeout inps s r h m' hm').2
    rw [hname, (fileOf_of_read sys myDomain net timeout inps s r h m hm).2] at hfile
    obtain rfl := Option.some.inj hfile
    exact hrcpt
  · intro hrcpt
    exact ⟨m, hm, rfl, hrcpt⟩

/-- The calls for a mail that stays queued are safe under the condition of its name. -/
theorem along_queued_iff (h : CycleFrom sys myDomain net timeout inps s r) (m : Mail)
    (hm : m ∈ r.read) (i : Inode) (hi : s m.filename .new = some i)
    (hremote : ¬ ∀ rcpt ∈ m.rcpts, rcpt.domain = myDomain) :
    Along (answered sys) (Safe sys (HasLocalRcpt myDomain r m.filename)) (s m.filename)
        (ofKey FileAction.filename m.filename r.calls) ↔
      (¬ ServerAccepts sys myDomain net timeout inps s m.filename →
        MoveKeeps sys (s m.filename) m.filename i .notSent) ∧
      ((∃ rcpt ∈ m.rcpts, rcpt.domain = myDomain) →
        TakenOut sys (s m.filename) m.filename i
          (ServerAccepts sys myDomain net timeout inps s m.filename) →
        CopyStands sys (s m.filename) m.filename i) := by
  have hnot : hasRemoteRcpt myDomain m = true := by
    simpa [hasRemoteRcpt, isLocal] using hremote
  have hall : m.rcpts.all (isLocal myDomain) = false := by
    rw [← Bool.not_eq_true, all_isLocal_iff, hnot]
    decide
  have hfilter : filterMail myDomain m =
      (some (keepRemote myDomain m), localActions myDomain m) := by
    rw [filterMail_eq, hnot]
    rfl
  have hmem : keepRemote myDomain m ∈ r.world.mails := by
    rw [h.mails]
    exact List.mem_filterMap.mpr ⟨m, hm, by rw [hfilter]⟩
  obtain ⟨k, hk⟩ := List.mem_iff_getElem?.mp hmem
  have hcalls := calls_of_filtered sys myDomain net timeout inps s r h k m _ hm
    (by rw [hfilter]) hk
  have haccepts : ServerAccepts sys myDomain net timeout inps s m.filename ↔
      r.world.wasSent k = true :=
    serverAccepts_iff sys myDomain net timeout inps s r h k (keepRemote myDomain m) hk
  rw [hcalls, hfilter, haccepts]
  have hlocal := hasLocalRcpt_iff sys myDomain net timeout inps s r h m hm
  by_cases hrcpt : ∃ rcpt ∈ m.rcpts, rcpt.domain = myDomain
  · have hany : m.rcpts.any (isLocal myDomain) = true := by
      simpa [isLocal] using hrcpt
    have hacts : localActions myDomain m = [.copyMail m.filename .new .cur] := by
      rw [localActions, hall, hany]
      rfl
    rw [hacts]
    exact (along_copied_iff sys hi _ (hlocal.mpr hrcpt)).trans
      (and_congr_right' ⟨fun hcopy _ => hcopy, fun hcopy => hcopy hrcpt⟩)
  · have hany : m.rcpts.any (isLocal myDomain) = false := by
      rw [← Bool.not_eq_true]
      simpa [isLocal] using hrcpt
    have hacts : localActions myDomain m = [] := by
      rw [localActions, hall, hany]
      rfl
    rw [hacts]
    exact (along_final_iff sys hi _ (hlocal.not.mpr hrcpt)).trans
      (and_iff_left fun hlocal => absurd hlocal hrcpt).symm

/-- The calls for a name are safe exactly under its condition. -/
theorem along_name_iff (h : CycleFrom sys myDomain net timeout inps s r) (f : Bytes)
    (hf : f ∈ sys.names) (hopen : sys.opens f = true) (i : Inode) (hi : s f .new = some i) :
    Along (answered sys) (Safe sys (HasLocalRcpt myDomain r f)) (s f)
        (ofKey FileAction.filename f r.calls) ↔
      NameKept sys (s f) f i myDomain (ServerAccepts sys myDomain net timeout inps s f) := by
  have hfile := fileOf_of_new sys s f i hopen hi
  unfold NameKept
  cases hread : (readMailFile f (some (sys.contents i))).1 with
  | none =>
    have hnone : (fileOf sys s f).1 = none := by rw [hfile, hread]
    have hlocal : ¬ HasLocalRcpt myDomain r f := by
      rintro ⟨m, hm, rfl, -⟩
      have hsome := (fileOf_of_read sys myDomain net timeout inps s r h m hm).2
      rw [hnone] at hsome
      cases hsome
    rw [calls_of_unread sys myDomain net timeout inps s r h f hf hnone, hfile,
      readMailFile_malformed f _ hread]
    exact along_move_iff sys hi .notSent (Or.inr hlocal)
  | some m =>
    have hsome : (fileOf sys s f).1 = some m := by rw [hfile, hread]
    obtain rfl := fileOf_filename sys s f m hsome
    have hm : m ∈ r.read := by
      rw [h.read]
      exact List.mem_filterMap.mpr ⟨m.filename, hf, hsome⟩
    by_cases hown : ∀ rcpt ∈ m.rcpts, rcpt.domain = myDomain
    · simp only [if_pos hown]
      have hall : m.rcpts.all (isLocal myDomain) = true := by
        simpa [isLocal] using hown
      have hfilter : filterMail myDomain m = (none, [.moveMail m.filename .new .cur]) := by
        rw [filterMail_eq, (all_isLocal_iff myDomain m).mp hall, localActions, hall]
        rfl
      rw [calls_of_own sys myDomain net timeout inps s r h m hm (by rw [hfilter]), hfilter]
      exact along_move_iff sys hi .cur (Or.inl rfl)
    · simp only [if_neg hown]
      exact along_queued_iff sys myDomain net timeout inps s r h m hm i hi hown

/-- A cycle conserves all files exactly when every name that has a file in NEW meets
its condition in the store before the cycle. -/
theorem conserved_iff_namesKept (h : cycle sys myDomain net timeout inps s = some r) :
    Conserved sys myDomain s r ↔
      ∀ f ∈ sys.names, sys.opens f = true → ∀ i, s f .new = some i →
        NameKept sys (s f) f i myDomain (ServerAccepts sys myDomain net timeout inps s f) := by
  have hspec := cycle_spec sys myDomain net timeout inps s r h
  rw [conserved_iff_along sys myDomain net timeout inps s r hspec]
  constructor
  · intro halong f hf hopen i hi
    exact (along_name_iff sys myDomain net timeout inps s r hspec f hf hopen i hi).mp (halong f)
  · intro hnames f
    by_cases hno : f ∈ sys.names → sys.opens f = true → s f .new = none
    · rw [calls_nil sys myDomain net timeout inps s r hspec f hno]
      exact trivial
    · push Not at hno
      obtain ⟨hf, hopen, hnew⟩ := hno
      obtain ⟨i, hi⟩ := Option.ne_none_iff_exists'.mp hnew
      exact (along_name_iff sys myDomain net timeout inps s r hspec f hf hopen i hi).mpr
        (hnames f hf hopen i hi)

end Conditions

section Example

/-- A mail for a recipient in the domain d and one in the domain b. -/
def mixedFile : Bytes :=
  bytes "MAIL FROM: <a@b>\r\nRCPT TO: <c@d>\r\nRCPT TO: <e@b>\r\nDATA\r\n.\r\n"

/-- A system on which every call succeeds, with the mail in inode 1. -/
def willing : System :=
  ⟨[bytes "1"], by decide, fun i => if i = 1 then mixedFile else [], fun _ => true, fun _ => true⟩

/-- The mail stands in NEW, and CUR has another file of its name. -/
def occupied (f : Bytes) (dir : MaildirDir) : Option Inode :=
  if f = bytes "1" then
    match dir with
    | .new => some 1
    | .cur => some 2
    | _ => none
  else none

theorem cycle_occupied :
    (cycle willing (bytes "b") (netReaching fun _ => none) 60 [] occupied).map
      (fun r => (r.read.map fun m => (m.filename, m.rcpts.map Rcpt.domain),
        r.store (bytes "1") .new, r.store (bytes "1") .cur)) =
    some ([(bytes "1", [bytes "d", bytes "b"])], none, some 2) := by
  decide +kernel

/-- The mail stands in NEW, and NOT_SENT has another file of its name. -/
def vacant (f : Bytes) (dir : MaildirDir) : Option Inode :=
  if f = bytes "1" then
    match dir with
    | .new => some 1
    | .notSent => some 2
    | _ => none
  else none

theorem cycle_vacant :
    (cycle willing (bytes "b") (netReaching fun _ => some 4) 60 acceptingInputs vacant).map
      (fun r => (r.world.mails.map Mail.filename, r.world.wasSent 0)) =
    some ([bytes "1"], true) := by
  decide +kernel

/-- The file is deleted because the server accepts the mail, so that the other file stays
in NOT_SENT, and the copy stands in CUR. -/
theorem conserved_iff_namesKept_vacant :
    ∃ r, cycle willing (bytes "b") (netReaching fun _ => some 4) 60 acceptingInputs vacant =
      some r ∧ Conserved willing (bytes "b") vacant r := by
  obtain ⟨r, hr, hobs⟩ := Option.map_eq_some_iff.mp cycle_vacant
  obtain ⟨hmails, hsent⟩ := Prod.mk.inj hobs
  have haccepts : ServerAccepts willing (bytes "b") (netReaching fun _ => some 4) 60
      acceptingInputs vacant (bytes "1") := by
    obtain ⟨m, hm, hname⟩ := List.map_eq_singleton_iff.mp hmails
    have hspec := cycle_spec willing _ _ _ _ _ r hr
    rw [← hname, serverAccepts_iff willing _ _ _ _ _ r hspec 0 m (by rw [hm]; rfl)]
    exact hsent
  refine ⟨r, hr, ?_⟩
  rw [conserved_iff_namesKept willing _ _ _ _ _ r hr]
  intro f hf _ i hi
  obtain rfl : f = bytes "1" := List.mem_singleton.mp hf
  obtain rfl : 1 = i := Option.some.inj hi
  have hmixed : (readMailFile (bytes "1") (some mixedFile)).1 = some ⟨
      bytes "MAIL FROM: <a@b>\r\n", [⟨bytes "c@d", bytes "d"⟩, ⟨bytes "e@b", bytes "b"⟩],
      bytes ".\r\n", bytes "1"⟩ := by
    decide +kernel
  have hcopy : CopyStands willing (vacant (bytes "1")) (bytes "1") 1 := Or.inl ⟨rfl, rfl⟩
  have hremote : ¬ ∀ rcpt ∈ [(⟨bytes "c@d", bytes "d"⟩ : Rcpt), ⟨bytes "e@b", bytes "b"⟩],
      rcpt.domain = bytes "b" := by
    decide
  unfold NameKept
  rw [show willing.contents 1 = mixedFile from rfl, hmixed]
  simp only [if_neg hremote]
  exact ⟨fun hno => absurd haccepts hno, fun _ _ => hcopy⟩

/-- The copy fails, and the file is moved to NOT_SENT all the same. -/
theorem local_mail_lost :
    ¬ ∀ (sys : System) (myDomain : Bytes) (net : Net) (timeout : ℤ) (inps : List PassInput)
        (s : Store) (r : Cycle), cycle sys myDomain net timeout inps s = some r →
        Conserved sys myDomain s r := by
  intro hall
  obtain ⟨r, hr, hobs⟩ := Option.map_eq_some_iff.mp cycle_occupied
  obtain ⟨hread, hobs⟩ := Prod.mk.inj hobs
  obtain ⟨hnew, hcur⟩ := Prod.mk.inj hobs
  have hcons := hall _ _ _ _ _ _ r hr
  obtain ⟨m, hm, hmail⟩ := List.mem_map.mp (hread ▸ List.mem_singleton_self _)
  obtain ⟨hname, hdomains⟩ := Prod.mk.inj hmail
  have hdomain : bytes "b" ∈ m.rcpts.map Rcpt.domain := by
    rw [hdomains]
    decide
  obtain ⟨i, hi, hkept⟩ := hcons.local_mail m hm (List.mem_map.mp hdomain)
  rw [hname] at hi hkept
  obtain rfl := Option.some.inj hi
  rcases hkept with hholds | hstill
  · obtain ⟨j, hj, hcontent⟩ := hholds
    rw [hcur] at hj
    obtain rfl := Option.some.inj hj
    exact absurd hcontent (by decide)
  · rw [hnew] at hstill
    cases hstill

end Example

end SmtpClient.Conservation
