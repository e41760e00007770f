import SmtpClient.ClientLoop
import SmtpClient.QueueCursors

/-!
The paths of mail files. The source prints the path of a file out of the path of its
directory and its name, and the system looks the path up. Names without a slash have
different paths in the directories, so that a cycle does to the files under these paths
what it does to the entries of the mail store, and touches no other file.
-/
namespace SmtpClient.MailPaths

open MailTypes Maildir KeyedSteps MailStore MailCycle MailFate MxLookup Connections EventLoop
open Passes TransferInvariant Setup Conservation Runs ClientLoop QueueCursors

def slash : UInt8 := 47

/-- The end of each path that maildir_init prints behind the root. -/
def dirSuffix : MaildirDir → Bytes
  | .root => []
  | .new => bytes "/new"
  | .cur => bytes "/cur"
  | .notSent => bytes "/not_sent"

variable (root : Bytes)

def maildirPath (dir : MaildirDir) : Bytes := root ++ dirSuffix dir

/-- The size of the block that maildir_init allocates for a path. -/
def maildirPathSize (dir : MaildirDir) : ℕ := root.length + 1 + (dirSuffix dir).length

def filePath (dir : MaildirDir) (filename : Bytes) : Bytes :=
  maildirPath root dir ++ slash :: filename

/-- The arrays that the paths of files are printed to. -/
def fileSize : ℕ := 500

/-- The file that each path names. -/
abbrev Files := Bytes → Option Inode

def sysRename (old new : Bytes) (fs : Files) : Files :=
  match fs old with
  | none => fs
  | some i =>
    if fs new = some i then fs
    else Function.update (Function.update fs new (some i)) old none

def sysLink (old new : Bytes) (fs : Files) : Files :=
  match fs old, fs new with
  | some i, none => Function.update fs new (some i)
  | _, _ => fs

def sysUnlink (path : Bytes) (fs : Files) : Files := Function.update fs path none

/-- The calls move_mail, copy_mail and delete_mail. -/
def callAt (fs : Files) : FileAction → Files
  | .moveMail f fromDir toDir => sysRename (filePath root fromDir f) (filePath root toDir f) fs
  | .copyMail f fromDir toDir => sysLink (filePath root fromDir f) (filePath root toDir f) fs
  | .deleteMail f dir => sysUnlink (filePath root dir f) fs

/-- The paths that these functions print. -/
def printed : FileAction → List Bytes
  | .moveMail f fromDir toDir | .copyMail f fromDir toDir =>
    [filePath root fromDir f, filePath root toDir f]
  | .deleteMail f dir => [filePath root dir f]

variable (sys : System)

def performAt (fs : Files) (a : FileAction) : Files :=
  if sys.grants a then callAt root fs a else fs

/-- read_mail_file on the path of a name in NEW. -/
def fileAt (fs : Files) (f : Bytes) : Option Mail × List FileAction :=
  readMailFile f (if sys.opens f then (fs (filePath root .new f)).map sys.contents else none)

/-- The loop of read_all_mail over files. -/
def readMailsAt : Files → List Bytes → List Mail × List FileAction × Files
  | fs, [] => ([], [], fs)
  | fs, f :: names =>
    let file := fileAt root sys fs f
    let rest := readMailsAt (file.2.foldl (performAt root sys) fs) names
    (file.1.toList ++ rest.1, file.2 ++ rest.2.1, rest.2.2)

structure CycleAt where
  read : List Mail
  calls : List FileAction
  files : Files
  world : World

/-- A cycle over files. -/
def cycleAt (myDomain : Bytes) (net : Net) (timeout : ℤ) (inps : List PassInput) (fs : Files) :
    Option CycleAt :=
  let start := readMailsAt root sys fs sys.names
  if start.1 = [] then some ⟨[], start.2.1, start.2.2, emptyWorld⟩
  else do
    let filtered := filterMyMail myDomain start.1
    let w ← transfer myDomain net filtered.1 timeout inps
    if w.connections = [] then
      some ⟨start.1, start.2.1 ++ filtered.2 ++ finishMail w,
        (filtered.2 ++ finishMail w).foldl (performAt root sys) start.2.2, w⟩
    else none

/-- The files of the store are those under the paths of its names. -/
def Matches (s : Store) (fs : Files) : Prop :=
  ∀ f, slash ∉ f → ∀ dir, fs (filePath root dir f) = s f dir

section Paths

/-- The path of a file is printed to the end of its block, and no further. -/
theorem maildirPath_fits (dir : MaildirDir) :
    (maildirPath root dir).length + 1 = maildirPathSize root dir := by
  rw [maildirPath, List.length_append, maildirPathSize]
  omega

theorem dirSuffix_injective : Function.Injective dirSuffix := by
  intro d e h
  cases d <;> cases e <;> first | rfl | exact absurd h (by decide)

/-- What stands behind the last slash. -/
theorem last_slash (a b f g : Bytes) (hf : slash ∉ f) (hg : slash ∉ g)
    (h : a ++ slash :: f = b ++ slash :: g) : a = b ∧ f = g := by
  rcases List.append_eq_append_iff.mp h with ⟨c, rfl, hc⟩ | ⟨c, rfl, hc⟩
  · cases c with
    | nil => exact ⟨(List.append_nil a).symm, (List.cons.inj hc).2⟩
    | cons x c =>
      refine absurd ?_ hf
      rw [(List.cons.inj hc).2]
      exact List.mem_append_right c List.mem_cons_self
  · cases c with
    | nil => exact ⟨List.append_nil b, (List.cons.inj hc).2.symm⟩
    | cons x c =>
      refine absurd ?_ hg
      rw [(List.cons.inj hc).2]
      exact List.mem_append_right c List.mem_cons_self

theorem filePath_inj (d e : MaildirDir) (f g : Bytes) (hf : slash ∉ f) (hg : slash ∉ g)
    (h : filePath root d f = filePath root e g) : d = e ∧ f = g := by
  obtain ⟨hdir, hname⟩ := last_slash _ _ f g hf hg h
  exact ⟨dirSuffix_injective (List.append_cancel_left hdir), hname⟩

end Paths

section Calls

variable {root} {s : Store} {fs : Files}

/-- Under different paths the calls do what they do to entries. -/
theorem sysRename_comp (path : MaildirDir → Bytes) (hpath : path.Injective) (d e : MaildirDir) :
    sysRename (path d) (path e) fs ∘ path = rename d e (fs ∘ path) := by
  unfold sysRename rename
  rw [Function.comp_apply, Function.comp_apply]
  cases fs (path d) with
  | none => rfl
  | some i =>
    simp only
    split
    · rfl
    · rw [Function.update_comp_eq_of_injective _ hpath, Function.update_comp_eq_of_injective _ hpath]

theorem sysLink_comp (path : MaildirDir → Bytes) (hpath : path.Injective) (d e : MaildirDir) :
    sysLink (path d) (path e) fs ∘ path = link d e (fs ∘ path) := by
  unfold sysLink link
  rw [Function.comp_apply, Function.comp_apply]
  cases fs (path d) with
  | none => rfl
  | some i =>
    cases fs (path e) with
    | none => exact Function.update_comp_eq_of_injective _ hpath _ _
    | some j => rfl

theorem callAt_comp (root : Bytes) (fs : Files) (a : FileAction) (hname : slash ∉ a.filename) :
    (callAt root fs a ∘ fun dir => filePath root dir a.filename) =
      callOn (fs ∘ fun dir => filePath root dir a.filename) a := by
  have hpath : Function.Injective fun dir => filePath root dir a.filename := by
    intro d e h
    exact (filePath_inj root d e _ _ hname hname h).1
  cases a with
  | moveMail f d e => exact sysRename_comp _ hpath d e
  | copyMail f d e => exact sysLink_comp _ hpath d e
  | deleteMail f d => exact Function.update_comp_eq_of_injective _ hpath _ _

theorem sysRename_of_ne (old new path : Bytes) (hold : path ≠ old) (hnew : path ≠ new) :
    sysRename old new fs path = fs path := by
  cases h : fs old with
  | none => simp only [sysRename, h]
  | some i =>
    by_cases hsame : fs new = some i
    · simp only [sysRename, h, if_pos hsame]
    · simp only [sysRename, h, if_neg hsame, Function.update_of_ne hold, Function.update_of_ne hnew]

theorem sysLink_of_ne (old new path : Bytes) (hnew : path ≠ new) :
    sysLink old new fs path = fs path := by
  cases h : fs old with
  | none => simp only [sysLink, h]
  | some i =>
    cases h' : fs new with
    | none => simp only [sysLink, h, h', Function.update_of_ne hnew]
    | some j => simp only [sysLink, h, h']

/-- A call changes the files under the paths that it prints only. -/
theorem performAt_elsewhere (a : FileAction) (path : Bytes) (hpath : path ∉ printed root a) :
    performAt root sys fs a path = fs path := by
  unfold performAt
  split
  · cases a with
    | moveMail f d e =>
      simp only [printed, List.mem_cons, List.not_mem_nil, or_false, not_or] at hpath
      exact sysRename_of_ne _ _ path hpath.1 hpath.2
    | copyMail f d e =>
      simp only [printed, List.mem_cons, List.not_mem_nil, or_false, not_or] at hpath
      exact sysLink_of_ne _ _ path hpath.2
    | deleteMail f d =>
      simp only [printed, List.mem_singleton] at hpath
      exact Function.update_of_ne hpath _ _
  · rfl

theorem printed_of_mem (a : FileAction) (path : Bytes) (h : path ∈ printed root a) :
    ∃ dir, path = filePath root dir a.filename := by
  cases a with
  | moveMail f d e | copyMail f d e =>
    simp only [printed, List.mem_cons, List.not_mem_nil, or_false] at h
    rcases h with rfl | rfl
    · exact ⟨d, rfl⟩
    · exact ⟨e, rfl⟩
  | deleteMail f d => exact ⟨d, List.mem_singleton.mp h⟩

theorem Matches.perform (h : Matches root s fs) (a : FileAction) (hname : slash ∉ a.filename) :
    Matches root (perform sys s a) (performAt root sys fs a) := by
  intro f hf dir
  by_cases hfa : f = a.filename
  · subst hfa
    have hentries : (fs ∘ fun dir => filePath root dir a.filename) = s a.filename :=
      funext fun d => h a.filename hname d
    have hcall := congrFun (callAt_comp root fs a hname) dir
    rw [MailStore.perform, stepAtKey, Function.update_self, answered, performAt]
    split
    · rw [← hentries]
      exact hcall
    · exact h a.filename hname dir
  · rw [MailStore.perform, stepAtKey, Function.update_of_ne hfa, performAt_elsewhere]
    · exact h f hf dir
    · intro hmem
      obtain ⟨e, hpath⟩ := printed_of_mem a _ hmem
      exact hfa (filePath_inj root dir e f _ hf hname hpath).2

theorem Matches.foldl (h : Matches root s fs) (calls : List FileAction)
    (hcalls : ∀ a ∈ calls, slash ∉ a.filename) :
    Matches root (calls.foldl (MailStore.perform sys) s) (calls.foldl (performAt root sys) fs) := by
  induction calls generalizing s fs with
  | nil => exact h
  | cons a calls ih =>
    rw [List.forall_mem_cons] at hcalls
    exact ih (h.perform sys a hcalls.1) hcalls.2

theorem foldl_elsewhere (calls : List FileAction) (path : Bytes)
    (hpath : ∀ a ∈ calls, path ∉ printed root a) :
    calls.foldl (performAt root sys) fs path = fs path := by
  induction calls generalizing fs with
  | nil => rfl
  | cons a calls ih =>
    rw [List.forall_mem_cons] at hpath
    rw [List.foldl_cons, ih hpath.2, performAt_elsewhere sys a path hpath.1]

end Calls

section Cycles

variable {root} {s : Store} {fs : Files} {myDomain : Bytes} {net : Net} {timeout : ℤ}
  {inps : List PassInput}

theorem fileAt_eq (h : Matches root s fs) (f : Bytes) (hf : slash ∉ f) :
    fileAt root sys fs f = fileOf sys s f := by
  rw [fileAt, h f hf, fileOf, contentOf]

/-- Reading over files finds the same mails and makes the same calls. -/
theorem readMailsAt_spec (h : Matches root s fs) (names : List Bytes)
    (hnames : ∀ f ∈ names, slash ∉ f) :
    (readMailsAt root sys fs names).1 = (readMails sys s names).1 ∧
      (readMailsAt root sys fs names).2.1 = (readMails sys s names).2.1 ∧
      Matches root (readMails sys s names).2.2 (readMailsAt root sys fs names).2.2 ∧
      (readMailsAt root sys fs names).2.2 =
        (readMailsAt root sys fs names).2.1.foldl (performAt root sys) fs := by
  induction names generalizing s fs with
  | nil => exact ⟨rfl, rfl, h, rfl⟩
  | cons f names ih =>
    rw [List.forall_mem_cons] at hnames
    have hafter := h.foldl sys (fileOf sys s f).2 fun a ha => by
      rw [readMailFile_filename f _ a ha]
      exact hnames.1
    obtain ⟨hmails, hcalls, hmatch, hfiles⟩ := ih hafter hnames.2
    have hfile := fileAt_eq sys h f hnames.1
    simp only [readMailsAt, readMails, hfile, hmails, hcalls, List.foldl_append]
    refine ⟨trivial, trivial, hmatch, ?_⟩
    rw [hfiles, hcalls]

/-- The calls of a cycle are about names that were found in NEW. -/
theorem mem_names_of_call (s : Store) (r : Cycle) (h : CycleFrom sys myDomain net timeout inps s r)
    (a : FileAction) (ha : a ∈ r.calls) : a.filename ∈ sys.names := by
  have hread : ∀ m ∈ r.read, m.filename ∈ sys.names := by
    intro m hm
    rw [h.read] at hm
    obtain ⟨f, hf, hm⟩ := List.mem_filterMap.mp hm
    rcases readMailFile_cases f (contentOf sys s f) with ⟨m', c, -, hfile, hname⟩ | ⟨acts, hfile, -⟩
    · rw [fileOf, hfile] at hm
      rw [← Option.some.inj hm, hname]
      exact hf
    · rw [fileOf, hfile] at hm
      cases hm
  rw [h.calls, List.mem_append, List.mem_append] at ha
  rcases ha with (hreading | hfiltering) | hfinishing
  · obtain ⟨f, hf, ha⟩ := List.mem_flatMap.mp hreading
    rw [readMailFile_filename f _ a ha]
    exact hf
  · obtain ⟨m, hm, ha⟩ := List.mem_flatMap.mp hfiltering
    rw [(filterMail_filename myDomain m).2 a ha]
    exact hread m hm
  · obtain ⟨k, m, hm, rfl⟩ := finishMail_calls r.world a hfinishing
    have hmem := List.mem_of_getElem? hm
    rw [h.mails] at hmem
    obtain ⟨m₀, hm₀, hfilter⟩ := List.mem_filterMap.mp hmem
    rw [finalCall_filename, (filterMail_filename myDomain m₀).1 m hfilter]
    exact hread m₀ hm₀

/-- A cycle over files: it reads, calls and transfers what the cycle over the store does,
leaves the same files, and touches no path but those of names that were in NEW. -/
structure Simulates (root : Bytes) (sys : System) (fs : Files) (r : Cycle) (x : CycleAt) :
    Prop where
  read : x.read = r.read
  calls : x.calls = r.calls
  world : x.world = r.world
  files : Matches root r.store x.files
  elsewhere : ∀ path, (∀ f ∈ sys.names, ∀ dir, path ≠ filePath root dir f) → x.files path = fs path

/-- The calls of a cycle change the files of their names. -/
theorem elsewhere_of_cycle (root : Bytes) (fs : Files) (r : Cycle)
    (h : cycle sys myDomain net timeout inps s = some r)
    (path : Bytes) (hpath : ∀ f ∈ sys.names, ∀ dir, path ≠ filePath root dir f) :
    r.calls.foldl (performAt root sys) fs path = fs path := by
  apply foldl_elsewhere sys
  intro a ha hmem
  obtain ⟨dir, hdir⟩ := printed_of_mem a path hmem
  exact hpath _ (mem_names_of_call sys s r (cycle_spec _ _ _ _ _ _ r h) a ha) dir hdir

/-- On files a cycle does what it does on the entries of the store, and on no other
files. -/
theorem cycleAt_simulates (h : Matches root s fs) (hnames : ∀ f ∈ sys.names, slash ∉ f) :
    Option.Rel (Simulates root sys fs) (cycle sys myDomain net timeout inps s)
      (cycleAt root sys myDomain net timeout inps fs) := by
  obtain ⟨hmails, hcalls, hmatch, hfiles⟩ := readMailsAt_spec sys h sys.names hnames
  by_cases hnone : (readMails sys s sys.names).1 = []
  · have hstore : cycle sys myDomain net timeout inps s =
        some ⟨[], (readMails sys s sys.names).2.1, (readMails sys s sys.names).2.2, emptyWorld⟩ := by
      rw [cycle_eq]
      exact if_pos hnone
    have hat : cycleAt root sys myDomain net timeout inps fs = some ⟨[],
        (readMails sys s sys.names).2.1, (readMailsAt root sys fs sys.names).2.2, emptyWorld⟩ := by
      simp only [cycleAt, hmails, hcalls, if_pos hnone]
    have hframe := elsewhere_of_cycle sys root fs _ hstore
    rw [hstore, hat]
    refine .some ⟨rfl, rfl, rfl, hmatch, ?_⟩
    intro path hpath
    change (readMailsAt root sys fs sys.names).2.2 path = _
    rw [hfiles, hcalls]
    exact hframe path hpath
  · simp only [cycleAt, hmails, hcalls, if_neg hnone]
    cases hw : transfer myDomain net (filterMyMail myDomain (readMails sys s sys.names).1).1 timeout
        inps with
    | none =>
      simp only [cycle_eq, if_neg hnone, hw, Option.bind_eq_bind, Option.bind_none]
      exact .none
    | some w =>
      by_cases hopen : w.connections = []
      · have hstore : cycle sys myDomain net timeout inps s = some ⟨(readMails sys s sys.names).1,
            (readMails sys s sys.names).2.1 ++
              (filterMyMail myDomain (readMails sys s sys.names).1).2 ++ finishMail w,
            ((filterMyMail myDomain (readMails sys s sys.names).1).2 ++ finishMail w).foldl
              (MailStore.perform sys) (readMails sys s sys.names).2.2, w⟩ := by
          simp only [cycle_eq, if_neg hnone, hw, Option.bind_some, if_pos hopen]
        have hcall := mem_names_of_call sys s _ (cycle_spec _ _ _ _ _ _ _ hstore)
        have hframe := elsewhere_of_cycle sys root fs _ hstore
        rw [hstore]
        simp only [Option.bind_eq_bind, Option.bind_some, if_pos hopen]
        refine .some ⟨rfl, rfl, rfl, ?_, ?_⟩
        · refine hmatch.foldl sys _ fun a ha => hnames _ (hcall a ?_)
          rw [List.append_assoc]
          exact List.mem_append_right _ ha
        · intro path hpath
          have hall := hframe path hpath
          rw [List.append_assoc, List.foldl_append, ← hcalls, ← hfiles] at hall
          exact hall
      · simp only [cycle_eq, if_neg hnone, hw, Option.bind_eq_bind, Option.bind_some, if_neg hopen]
        exact .none

/-- A name that no file system gives a longer one than. -/
def longName : Bytes := List.replicate 255 97

/-- One file in NEW with the longest name and nothing in it. -/
def longNameSystem : System where
  names := [longName]
  nodup := List.nodup_singleton _
  contents _ := []
  opens _ := true
  grants _ := false

theorem longNameSystem_names : ∀ f ∈ longNameSystem.names, f.length ≤ 255 := by
  intro f hf
  rw [List.mem_singleton.mp hf]
  exact Nat.le_of_eq List.length_replicate

theorem cycle_longName : ∃ r, cycle longNameSystem [] (netReaching fun _ => none) 0 []
    (fun _ _ => some 0) = some r ∧ .moveMail longName .new .notSent ∈ r.calls := by
  refine ⟨_, rfl, ?_⟩
  exact List.mem_singleton_self _

/-- All paths of mail files fit the arrays that they are printed to, whatever files are in
the directories, exactly when the root is at most 234 bytes long. -/
theorem paths_fit_iff (root : Bytes) :
    (∀ (sys : System) (myDomain : Bytes) (net : Net) (timeout : ℤ) (inps : List PassInput)
      (s : Store) (r : Cycle), (∀ f ∈ sys.names, f.length ≤ 255) →
        cycle sys myDomain net timeout inps s = some r →
        (∀ f ∈ sys.names, (filePath root .new f).length + 1 ≤ fileSize) ∧
          ∀ a ∈ r.calls, ∀ path ∈ printed root a, path.length + 1 ≤ fileSize) ↔
      root.length ≤ 234 := by
  have hlen : ∀ dir f, (filePath root dir f).length =
      root.length + (dirSuffix dir).length + f.length + 1 := by
    intro dir f
    rw [filePath, maildirPath, List.length_append, List.length_append, List.length_cons]
    omega
  have hsuffix : ∀ dir, (dirSuffix dir).length ≤ 9 := by
    intro dir
    cases dir <;> decide
  constructor
  · intro hfit
    obtain ⟨r, hr, hcall⟩ := cycle_longName
    obtain ⟨-, hcalls⟩ := hfit _ _ _ _ _ _ r longNameSystem_names hr
    have hpath := hcalls _ hcall (filePath root .notSent longName)
      (List.mem_cons_of_mem _ (List.mem_singleton_self _))
    have hlong : longName.length = 255 := List.length_replicate
    have hnine : (dirSuffix .notSent).length = 9 := by decide
    rw [hlen, hlong, hnine, fileSize] at hpath
    omega
  · intro hroot sys myDomain net timeout inps s r hnames hr
    have hfile : ∀ f ∈ sys.names, ∀ dir, (filePath root dir f).length + 1 ≤ fileSize := by
      intro f hf dir
      have hname := hnames f hf
      have hdir := hsuffix dir
      rw [hlen, fileSize]
      omega
    refine ⟨fun f hf => hfile f hf .new, ?_⟩
    intro a ha path hpath
    obtain ⟨dir, rfl⟩ := printed_of_mem a path hpath
    exact hfile _ (mem_names_of_call sys s r (cycle_spec _ _ _ _ _ _ r hr) a ha) dir

end Cycles

section Runs

/-- The client over files, between two passes. -/
structure ClientAt where
  files : Files
  nextInode : Inode
  openDirs : ℕ
  history : List CycleAt
  stopped : Bool

variable (root : Bytes) (myDomain : Bytes) (timeout : ℤ) (limit : ℕ) (contents : Inode → Bytes)

def newMailExistAt (c : ClientAt) (p : LoopInput) : ℕ :=
  if c.openDirs < limit then (p.counted.getD []).length else 0

def transferMailAt (c : ClientAt) (p : LoopInput) : Option ClientAt :=
  if c.openDirs < limit ∧ p.opensNew = true then do
    let sys := { p.sys with contents := contents }
    let x ← cycleAt root sys myDomain p.net timeout p.inps c.files
    return { c with
      files := x.files
      openDirs := if x.read = [] then c.openDirs + 1 else c.openDirs
      history := c.history ++ [x] }
  else some c

def smtpClientLoopPassAt (c : ClientAt) (p : LoopInput) : Option ClientAt :=
  if p.quitKey then some { c with stopped := true }
  else if newMailExistAt limit c p = 0 then some c
  else transferMailAt root myDomain timeout limit contents c p

/-- Whoever delivers a file links it to its path in NEW, which must be free. -/
def ClientAt.arrive (c : ClientAt) (f : Bytes) : ClientAt :=
  if c.files (filePath root .new f) = none then
    { c with
      files := Function.update c.files (filePath root .new f) (some c.nextInode)
      nextInode := c.nextInode + 1 }
  else c

def clientStepAt (c : ClientAt) : Event → Option ClientAt
  | .arrive f => some (c.arrive root f)
  | .pass p =>
    if c.stopped then some c else smtpClientLoopPassAt root myDomain timeout limit contents c p

/-- readdir and those who deliver use names without a slash. -/
def WellNamed : Event → Prop
  | .arrive f => slash ∉ f
  | .pass p => ∀ f ∈ p.sys.names, slash ∉ f

/-- The client over files stands where the client over the store stands, and nothing is
changed outside of the directories of mail. -/
structure Follows (fs : Files) (c : Client) (x : ClientAt) : Prop where
  files : Matches root c.store x.files
  nextInode : x.nextInode = c.nextInode
  openDirs : x.openDirs = c.openDirs
  stopped : x.stopped = c.stopped
  history : List.Forall₂ (fun d y => y.read = d.cycle.read ∧ y.calls = d.cycle.calls ∧
    y.world = d.cycle.world) c.history x.history
  elsewhere : ∀ path, (∀ f dir, slash ∉ f → path ≠ filePath root dir f) → x.files path = fs path

variable {root myDomain timeout limit contents} {fs : Files} {c : Client} {x : ClientAt}

theorem Follows.arrive (h : Follows root fs c x) (f : Bytes) (hf : slash ∉ f) :
    Follows root fs (c.arrive f) (x.arrive root f) := by
  unfold Client.arrive ClientAt.arrive
  rw [h.files f hf]
  split
  · refine ⟨?_, by rw [h.nextInode], h.openDirs, h.stopped, h.history, ?_⟩
    · intro g hg dir
      change Function.update x.files _ _ _ = Function.update c.store f _ g dir
      rw [h.nextInode]
      by_cases hgf : g = f
      · subst hgf
        rw [Function.update_self]
        by_cases hdir : dir = .new
        · subst hdir
          rw [Function.update_self, Function.update_self]
        · rw [Function.update_of_ne hdir, Function.update_of_ne]
          · exact h.files g hg dir
          · intro hpath
            exact hdir (filePath_inj root dir .new g g hg hg hpath).1
      · rw [Function.update_of_ne hgf, Function.update_of_ne]
        · exact h.files g hg dir
        · intro hpath
          exact hgf (filePath_inj root dir .new g f hg hf hpath).2
    · intro path hpath
      change Function.update x.files _ _ path = _
      rw [Function.update_of_ne (hpath f .new hf)]
      exact h.elsewhere path hpath
  · exact h

theorem Follows.transferMail (h : Follows root fs c x) (p : LoopInput)
    (hp : ∀ f ∈ p.sys.names, slash ∉ f) :
    Option.Rel (Follows root fs) (transferMail myDomain timeout limit contents c p)
      (transferMailAt root myDomain timeout limit contents x p) := by
  unfold ClientLoop.transferMail transferMailAt
  rw [h.openDirs]
  split
  · refine rel_bind (cycleAt_simulates { p.sys with contents := contents } h.files hp) ?_
    intro r y hsim
    refine .some ⟨hsim.files, h.nextInode, ?_, h.stopped, ?_, ?_⟩
    · change (if y.read = [] then _ else _) = if r.read = [] then _ else _
      rw [hsim.read]
    · exact List.rel_append h.history (.cons ⟨hsim.read, hsim.calls, hsim.world⟩ .nil)
    · intro path hpath
      rw [← h.elsewhere path hpath]
      exact hsim.elsewhere path fun f hf dir => hpath f dir (hp f hf)
  · exact .some h

theorem Follows.step (h : Follows root fs c x) (e : Event) (he : WellNamed e) :
    Option.Rel (Follows root fs) (clientStep myDomain timeout limit contents c e)
      (clientStepAt root myDomain timeout limit contents x e) := by
  cases e with
  | arrive f => exact .some (h.arrive f he)
  | pass p =>
    have hcount : newMailExistAt limit x p = newMailExist limit c p := by
      rw [newMailExistAt, newMailExist, h.openDirs]
    simp only [clientStep, clientStepAt, smtpClientLoopPass, smtpClientLoopPassAt, h.stopped, hcount]
    split
    · exact .some h
    · split
      · exact .some ⟨h.files, h.nextInode, h.openDirs, rfl, h.history, h.elsewhere⟩
      · split
        · exact .some h
        · exact h.transferMail p he

theorem Follows.run (events : List Event) (hevents : ∀ e ∈ events, WellNamed e)
    (h : Follows root fs c x) :
    Option.Rel (Follows root fs) (clientRun myDomain timeout limit contents c events)
      (Runs.run (clientStepAt root myDomain timeout limit contents) x events) := by
  induction events generalizing c x with
  | nil => exact .some h
  | cons e events ih =>
    rw [List.forall_mem_cons] at hevents
    exact rel_bind (h.step e hevents.1) fun _ _ hnext => ih hevents.2 hnext

variable (root myDomain timeout limit contents fs)

/-- In every run the client does to the files under the paths that it prints what it does
to the entries of the store, cycle for cycle, and it changes no other file. -/
theorem runs_agree (s : Store) (n : Inode) (hfiles : Matches root s fs) (events : List Event)
    (hevents : ∀ e ∈ events, WellNamed e) :
    Option.Rel (Follows root fs)
      (clientRun myDomain timeout limit contents (.start s n) events)
      (Runs.run (clientStepAt root myDomain timeout limit contents) ⟨fs, n, 0, [], false⟩ events) :=
  Follows.run events hevents ⟨hfiles, rfl, rfl, rfl, .nil, fun _ _ => rfl⟩

end Runs

section Example

theorem mixedRun_notSent :
    mixedRun.map (fun c => c.store (bytes "1") .notSent) = some (some 0) := by
  decide +kernel

/-- The file that no server took lies in the directory of mails that were not sent. -/
theorem runs_agree_mixedFile :
    ∃ x, run (clientStepAt (bytes "m") (bytes "b") 60 8 fun _ => mixedFile)
        ⟨fun _ => none, 0, 0, [], false⟩ [.arrive (bytes "1"), .pass noMx] = some x ∧
      x.files (bytes "m/not_sent/1") = some 0 := by
  obtain ⟨c, hc, hstore⟩ := Option.map_eq_some_iff.mp mixedRun_notSent
  have hagree := runs_agree (bytes "m") (bytes "b") 60 8 (fun _ => mixedFile) (fun _ => none)
    (fun _ _ => none) 0 (fun _ _ _ => rfl) [.arrive (bytes "1"), .pass noMx]
    (List.forall_mem_cons.mpr ⟨by change slash ∉ _; decide,
      List.forall_mem_singleton.mpr (by change ∀ f ∈ [bytes "1"], slash ∉ f; decide)⟩)
  have hrun : clientRun (bytes "b") 60 8 (fun _ => mixedFile) (.start (fun _ _ => none) 0)
      [.arrive (bytes "1"), .pass noMx] = some c := hc
  rw [hrun] at hagree
  generalize run _ _ _ = y at hagree ⊢
  cases hagree with
  | some h =>
    refine ⟨_, rfl, ?_⟩
    rw [← hstore]
    exact h.files (bytes "1") (by decide) .notSent

end Example

end SmtpClient.MailPaths
