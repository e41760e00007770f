import SmtpClient.Maildir
import SmtpClient.KeyedSteps

/-!
The directories of the mail store. An entry of a directory is the inode of a
file, and the contents of files do not change. A call can fail for any reason
and then changes nothing. What a call does to the entries of its name is what
counts: a call is safe exactly when no file is lost from CUR and NOT_SENT, and
none with a local recipient that is neither in NEW nor in CUR.
-/
namespace SmtpClient.MailStore

open MailTypes Maildir KeyedSteps

abbrev Inode := ℕ

/-- The entries with one name, by directory. -/
abbrev Entries := MaildirDir → Option Inode

abbrev Store := Bytes → Entries

/-- An existing entry is replaced, but nothing is done when it is the same file. -/
def rename (fromDir toDir : MaildirDir) (e : Entries) : Entries :=
  match e fromDir with
  | none => e
  | some i =>
    if e toDir = some i then e
    else Function.update (Function.update e toDir (some i)) fromDir none

/-- An existing entry makes the call fail. -/
def link (fromDir toDir : MaildirDir) (e : Entries) : Entries :=
  match e fromDir, e toDir with
  | some i, none => Function.update e toDir (some i)
  | _, _ => e

def unlink (dir : MaildirDir) (e : Entries) : Entries := Function.update e dir none

/-- What move_mail, copy_mail and delete_mail do to the entries of their name. -/
def callOn (e : Entries) : FileAction → Entries
  | .moveMail _ fromDir toDir => rename fromDir toDir e
  | .copyMail _ fromDir toDir => link fromDir toDir e
  | .deleteMail _ dir => unlink dir e

/-- What the system answers while mail is read, transferred and put away: the
names that readdir reports, the contents of files, which files can be opened,
and which calls it lets through. The calls for a name are those of a Shape, none
of them twice, so an answer need not depend on the time. -/
structure System where
  names : List Bytes
  nodup : names.Nodup
  contents : Inode → Bytes
  opens : Bytes → Bool
  grants : FileAction → Bool

variable (sys : System)

def answered (e : Entries) (a : FileAction) : Entries :=
  if sys.grants a then callOn e a else e

def perform (s : Store) (a : FileAction) : Store :=
  stepAtKey FileAction.filename (answered sys) s a

/-- A file of that content has the name in a directory. -/
def Holds (e : Entries) (dir : MaildirDir) (content : Bytes) : Prop :=
  ∃ i, e dir = some i ∧ sys.contents i = content

/-- Nothing that was in CUR or NOT_SENT is lost, and the file of a mail with a
local recipient is in CUR or still in NEW. -/
structure Kept (localRcpt : Prop) (e e' : Entries) : Prop where
  dirs : ∀ dir content, dir = .cur ∨ dir = .notSent → Holds sys e dir content →
    Holds sys e' dir content
  new : localRcpt → ∀ i, e .new = some i →
    Holds sys e' .cur (sys.contents i) ∨ e' .new = some i

/-- A rename may replace a file of the same content only. A call that takes the
file of a mail with a local recipient out of NEW must put it into CUR or find
its content there. -/
def Safe (localRcpt : Prop) (e : Entries) (a : FileAction) : Prop :=
  sys.grants a = true → match a with
    | .moveMail _ fromDir toDir => ∀ i, e fromDir = some i →
      (∀ j, e toDir = some j → sys.contents j = sys.contents i) ∧
      (localRcpt → toDir ≠ .cur → e toDir ≠ some i → Holds sys e .cur (sys.contents i))
    | .copyMail _ _ _ => True
    | .deleteMail _ dir =>
      localRcpt → ∀ i, e dir = some i → Holds sys e .cur (sys.contents i)

theorem kept_refl (localRcpt : Prop) (e : Entries) : Kept sys localRcpt e e := by
  constructor
  · intro dir content _ h
    exact h
  · intro _ i hi
    exact Or.inr hi

theorem rename_of_none (fromDir toDir : MaildirDir) (e : Entries) (h : e fromDir = none) :
    rename fromDir toDir e = e := by
  simp only [rename, h]

theorem rename_of_same (fromDir toDir : MaildirDir) (e : Entries) (i : Inode)
    (h : e fromDir = some i) (hto : e toDir = some i) : rename fromDir toDir e = e := by
  simp only [rename, h, hto, if_true]

theorem rename_of_other (fromDir toDir : MaildirDir) (e : Entries) (i : Inode)
    (h : e fromDir = some i) (hto : e toDir ≠ some i) :
    rename fromDir toDir e =
      Function.update (Function.update e toDir (some i)) fromDir none := by
  simp only [rename, h, if_neg hto]

theorem rename_target (toDir : MaildirDir) (e : Entries) (i : Inode)
    (hne : toDir ≠ .new) (h : e .new = some i) : rename .new toDir e toDir = some i := by
  by_cases hto : e toDir = some i
  · rw [rename_of_same .new toDir e i h hto]
    exact hto
  · rw [rename_of_other .new toDir e i h hto, Function.update_of_ne hne, Function.update_self]

theorem rename_elsewhere (dir toDir : MaildirDir) (e : Entries)
    (hnew : dir ≠ .new) (hdir : dir ≠ toDir) : rename .new toDir e dir = e dir := by
  cases h : e .new with
  | none => rw [rename_of_none .new toDir e h]
  | some i =>
    by_cases hto : e toDir = some i
    · rw [rename_of_same .new toDir e i h hto]
    · rw [rename_of_other .new toDir e i h hto, Function.update_of_ne hnew,
        Function.update_of_ne hdir]

/-- A call that fails is safe and keeps all files. -/
theorem safe_iff_of_denied (localRcpt : Prop) (e : Entries) (a : FileAction)
    (hgrant : ¬ sys.grants a = true) :
    Safe sys localRcpt e a ↔ Kept sys localRcpt e (answered sys e a) := by
  unfold answered
  rw [if_neg hgrant]
  constructor
  · intro _
    exact kept_refl sys localRcpt e
  · intro _ hgranted
    exact absurd hgranted hgrant

/-- A rename out of NEW loses no file of CUR and NOT_SENT exactly when the file it
replaces has the same content. -/
theorem rename_dirs_iff (e : Entries) (toDir : MaildirDir) (hto : toDir = .cur ∨ toDir = .notSent) :
    (∀ dir content, dir = .cur ∨ dir = .notSent → Holds sys e dir content →
      Holds sys (rename .new toDir e) dir content) ↔
    ∀ i, e .new = some i → ∀ j, e toDir = some j → sys.contents j = sys.contents i := by
  have hne : toDir ≠ .new := by
    rcases hto with rfl | rfl <;> decide
  constructor
  · intro hdirs i hi j hj
    obtain ⟨k, hk, hcontent⟩ := hdirs toDir (sys.contents j) hto ⟨j, hj, rfl⟩
    rw [rename_target toDir e i hne hi] at hk
    rw [← hcontent, Option.some.inj hk]
  · intro hsame dir content hdir hholds
    by_cases hd : dir = toDir
    · subst hd
      cases hnew : e .new with
      | none => rwa [rename_of_none _ _ _ hnew]
      | some i =>
        obtain ⟨j, hj, hcontent⟩ := hholds
        refine ⟨i, rename_target dir e i hne hnew, ?_⟩
        rw [← hcontent, hsame i hnew j hj]
    · have hnew : dir ≠ .new := by
        rcases hdir with rfl | rfl <;> decide
      obtain ⟨j, hj, hcontent⟩ := hholds
      exact ⟨j, (rename_elsewhere dir toDir e hnew hd).trans hj, hcontent⟩

/-- The file is in CUR or still in NEW after it exactly when the rename goes to CUR
or does nothing, or when its content is in CUR before. -/
theorem rename_new_iff (e : Entries) (toDir : MaildirDir) (hne : toDir ≠ .new) :
    (∀ i, e .new = some i →
      Holds sys (rename .new toDir e) .cur (sys.contents i) ∨ rename .new toDir e .new = some i) ↔
    ∀ i, e .new = some i → toDir ≠ .cur → e toDir ≠ some i →
      Holds sys e .cur (sys.contents i) := by
  constructor
  · intro hkept i hi hcur hsame
    rcases hkept i hi with hholds | hnew
    · obtain ⟨j, hj, hcontent⟩ := hholds
      rw [rename_elsewhere .cur toDir e (by decide) (Ne.symm hcur)] at hj
      exact ⟨j, hj, hcontent⟩
    · rw [rename_of_other _ _ _ i hi hsame, Function.update_self] at hnew
      cases hnew
  · intro hsafe i hi
    by_cases hcur : toDir = .cur
    · subst hcur
      exact Or.inl ⟨i, rename_target .cur e i hne hi, rfl⟩
    · by_cases hsame : e toDir = some i
      · rw [rename_of_same _ _ _ i hi hsame]
        exact Or.inr hi
      · obtain ⟨j, hj, hcontent⟩ := hsafe i hi hcur hsame
        refine Or.inl ⟨j, ?_, hcontent⟩
        rw [rename_elsewhere .cur toDir e (by decide) (Ne.symm hcur)]
        exact hj

/-- A rename out of NEW is safe exactly when it keeps all files. -/
theorem safe_moveMail_iff (localRcpt : Prop) (e : Entries) (f : Bytes) (toDir : MaildirDir)
    (hto : toDir = .cur ∨ toDir = .notSent) :
    Safe sys localRcpt e (.moveMail f .new toDir) ↔
      Kept sys localRcpt e (answered sys e (.moveMail f .new toDir)) := by
  have hne : toDir ≠ .new := by
    rcases hto with rfl | rfl <;> decide
  have hdirs := rename_dirs_iff sys e toDir hto
  have hnew := rename_new_iff sys e toDir hne
  by_cases hgrant : sys.grants (.moveMail f .new toDir) = true
  · unfold Safe answered callOn
    simp only [hgrant, if_true, forall_const]
    constructor
    · intro hsafe
      constructor
      · exact hdirs.mpr fun i hi => (hsafe i hi).1
      · intro hlocal
        exact hnew.mpr fun i hi => (hsafe i hi).2 hlocal
    · intro hkept i hi
      constructor
      · exact hdirs.mp hkept.dirs i hi
      · intro hlocal
        exact hnew.mp (hkept.new hlocal) i hi
  · exact safe_iff_of_denied sys localRcpt e _ hgrant

/-- Deleting a file in NEW is safe exactly when it keeps all files. -/
theorem safe_deleteMail_iff (localRcpt : Prop) (e : Entries) (f : Bytes) :
    Safe sys localRcpt e (.deleteMail f .new) ↔
      Kept sys localRcpt e (answered sys e (.deleteMail f .new)) := by
  by_cases hgrant : sys.grants (.deleteMail f .new) = true
  · unfold Safe answered callOn unlink
    simp only [hgrant, if_true, forall_const]
    have hother : ∀ dir, dir ≠ .new → Function.update e .new none dir = e dir := by
      intro dir hdir
      exact Function.update_of_ne hdir none e
    constructor
    · intro hsafe
      constructor
      · intro dir content hdir hholds
        obtain ⟨j, hj, hcontent⟩ := hholds
        refine ⟨j, ?_, hcontent⟩
        rw [hother dir (by rcases hdir with rfl | rfl <;> decide)]
        exact hj
      · intro hlocal i hi
        obtain ⟨j, hj, hcontent⟩ := hsafe hlocal i hi
        exact Or.inl ⟨j, (hother .cur (by decide)).trans hj, hcontent⟩
    · intro hkept hlocal i hi
      rcases hkept.new hlocal i hi with hholds | hnew
      · obtain ⟨j, hj, hcontent⟩ := hholds
        exact ⟨j, (hother .cur (by decide)).symm.trans hj, hcontent⟩
      · rw [Function.update_self] at hnew
        cases hnew
  · exact safe_iff_of_denied sys localRcpt e _ hgrant

/-- A link makes an entry where there is none, and changes nothing else. -/
theorem link_of_ne (fromDir toDir dir : MaildirDir) (e : Entries)
    (h : dir ≠ toDir ∨ e toDir ≠ none) : link fromDir toDir e dir = e dir := by
  cases hfrom : e fromDir with
  | none => simp only [link, hfrom]
  | some i =>
    cases hto : e toDir with
    | some j => simp only [link, hfrom, hto]
    | none =>
      simp only [link, hfrom, hto]
      apply Function.update_of_ne
      intro hdir
      rcases h with h | h
      · exact h hdir
      · exact h hto

theorem answered_copyMail (e : Entries) (f : Bytes) (dir : MaildirDir)
    (h : dir ≠ .cur ∨ e .cur ≠ none) : answered sys e (.copyMail f .new .cur) dir = e dir := by
  unfold answered
  split
  · exact link_of_ne .new .cur dir e h
  · rfl

/-- The call that conn_loop ends with for a mail. -/
def finalCall (wasSent : Bool) (f : Bytes) : FileAction :=
  if wasSent then .deleteMail f .new else .moveMail f .new .notSent

theorem answered_finalCall_cur (wasSent : Bool) (e : Entries) (f : Bytes) :
    answered sys e (finalCall wasSent f) .cur = e .cur := by
  unfold answered finalCall
  cases wasSent with
  | true =>
    simp only [if_true]
    split
    · change Function.update e .new none .cur = e .cur
      rw [Function.update_of_ne (by decide)]
    · rfl
  | false =>
    simp only [Bool.false_eq_true, if_false]
    split
    · exact rename_elsewhere .cur .notSent e (by decide) (by decide)
    · rfl

theorem safe_finalCall_iff (localRcpt : Prop) (wasSent : Bool) (e : Entries) (f : Bytes) :
    Safe sys localRcpt e (finalCall wasSent f) ↔
      Kept sys localRcpt e (answered sys e (finalCall wasSent f)) := by
  cases wasSent with
  | true => exact safe_deleteMail_iff sys localRcpt e f
  | false => exact safe_moveMail_iff sys localRcpt e f .notSent (Or.inr rfl)

/-- A copy made before the final call does not change what has to be kept. -/
theorem kept_copyMail_iff (localRcpt : Prop) (wasSent : Bool) (e e₁ : Entries) (f : Bytes)
    (he : e₁ = answered sys e (.copyMail f .new .cur)) :
    Kept sys localRcpt e₁ (answered sys e₁ (finalCall wasSent f)) ↔
      Kept sys localRcpt e (answered sys e₁ (finalCall wasSent f)) := by
  have hnew : e₁ .new = e .new :=
    he ▸ answered_copyMail sys e f .new (Or.inl (by decide))
  have hnotSent : e₁ .notSent = e .notSent :=
    he ▸ answered_copyMail sys e f .notSent (Or.inl (by decide))
  constructor
  · intro hkept
    constructor
    · intro dir content hdir hholds
      apply hkept.dirs dir content hdir
      obtain ⟨j, hj, hcontent⟩ := hholds
      rcases hdir with rfl | rfl
      · refine ⟨j, ?_, hcontent⟩
        rw [he, answered_copyMail sys e f .cur (Or.inr (by simp [hj]))]
        exact hj
      · exact ⟨j, hnotSent.trans hj, hcontent⟩
    · intro hlocal i hi
      exact hkept.new hlocal i (hnew.trans hi)
  · intro hkept
    constructor
    · intro dir content hdir hholds
      rcases hdir with rfl | rfl
      · obtain ⟨j, hj, hcontent⟩ := hholds
        exact ⟨j, (answered_finalCall_cur sys wasSent e₁ f).trans hj, hcontent⟩
      · apply hkept.dirs .notSent content (Or.inr rfl)
        obtain ⟨j, hj, hcontent⟩ := hholds
        exact ⟨j, hnotSent.symm.trans hj, hcontent⟩
    · intro hlocal i hi
      exact hkept.new hlocal i (hnew.symm.trans hi)

/-- The calls of one cycle for one name. -/
inductive Shape (f : Bytes) : List FileAction → Prop
  | nothing : Shape f []
  | ownMail : Shape f [.moveMail f .new .cur]
  | final (wasSent : Bool) : Shape f [finalCall wasSent f]
  | copied (wasSent : Bool) : Shape f [.copyMail f .new .cur, finalCall wasSent f]

/-- All calls for a name are safe exactly when its files are kept. -/
theorem along_safe_iff (localRcpt : Prop) (e : Entries) (f : Bytes) (calls : List FileAction)
    (h : Shape f calls) :
    Along (answered sys) (Safe sys localRcpt) e calls ↔
      Kept sys localRcpt e (calls.foldl (answered sys) e) := by
  cases h with
  | nothing =>
    constructor
    · intro _
      exact kept_refl sys localRcpt e
    · intro _
      exact trivial
  | ownMail =>
    simp only [Along, and_true, List.foldl_cons, List.foldl_nil]
    exact safe_moveMail_iff sys localRcpt e f .cur (Or.inl rfl)
  | final wasSent =>
    simp only [Along, and_true, List.foldl_cons, List.foldl_nil]
    exact safe_finalCall_iff sys localRcpt wasSent e f
  | copied wasSent =>
    have hcopy : Safe sys localRcpt e (.copyMail f .new .cur) := fun _ => trivial
    simp only [Along, hcopy, true_and, and_true, List.foldl_cons, List.foldl_nil]
    rw [safe_finalCall_iff]
    exact kept_copyMail_iff sys localRcpt wasSent e _ f rfl

/-- A mail that is not deleted in the end is in NOT_SENT or still in NEW. -/
theorem finalCall_unsent (e : Entries) (f : Bytes) (i : Inode) (h : e .new = some i) :
    Holds sys (answered sys e (finalCall false f)) .notSent (sys.contents i) ∨
      answered sys e (finalCall false f) .new = some i := by
  unfold answered finalCall
  simp only [Bool.false_eq_true, if_false]
  split
  · exact Or.inl ⟨i, rename_target .notSent e i (by decide) h, rfl⟩
  · exact Or.inr h

end SmtpClient.MailStore
