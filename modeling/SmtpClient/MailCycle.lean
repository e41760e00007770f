import SmtpClient.Acceptance
import SmtpClient.MailStore

/-!
One cycle of the client: read_all_mail on the directory NEW, the transfer of the
queue, and the last calls for its mails. The calls of a cycle are recorded in
their order. Each name has few of them, and they come in four shapes.
-/
namespace SmtpClient.MailCycle

open MailTypes Maildir KeyedSteps MailStore MxLookup Connections EventLoop Passes TransferInvariant
open Setup Acceptance

variable (sys : System)

/-- The content that read_mail_file finds under a name in NEW. -/
def contentOf (s : Store) (f : Bytes) : Option Bytes :=
  if sys.opens f then (s f .new).map sys.contents else none

/-- read_mail_file on a name in NEW. -/
def fileOf (s : Store) (f : Bytes) : Option Mail × List FileAction :=
  readMailFile f (contentOf sys s f)

/-- The loop of read_all_mail: the mails, the calls, and the store behind them. -/
def readMails : Store → List Bytes → List Mail × List FileAction × Store
  | s, [] => ([], [], s)
  | s, f :: fs =>
    let file := fileOf sys s f
    let rest := readMails (file.2.foldl (perform sys) s) fs
    (file.1.toList ++ rest.1, file.2 ++ rest.2.1, rest.2.2)

structure Cycle where
  read : List Mail
  calls : List FileAction
  store : Store
  world : World

/-- The lists that conn_init starts with. -/
def emptyWorld : World := ⟨[], [], [], [], 0, fun _ => false, []⟩

/-- The outer none is the use of a null pointer, the inner one a conn_loop that is not
over after the given passes. Without a mail read, conn_init gives up. -/
def cycleOutcome (myDomain : Bytes) (net : Net) (timeout : ℤ) (inps : List PassInput) (s : Store) :
    Option (Option Cycle) :=
  let start := readMails sys s sys.names
  if start.1 = [] then some (some ⟨[], start.2.1, start.2.2, emptyWorld⟩)
  else do
    let filtered := filterMyMail myDomain start.1
    let w ← transfer myDomain net filtered.1 timeout inps
    if w.connections = [] then
      return some ⟨start.1, start.2.1 ++ filtered.2 ++ finishMail w,
        (filtered.2 ++ finishMail w).foldl (perform sys) start.2.2, w⟩
    else return none

/-- A cycle in which conn_loop ends after the given passes, if it does. -/
def cycle (myDomain : Bytes) (net : Net) (timeout : ℤ) (inps : List PassInput) (s : Store) :
    Option Cycle :=
  (cycleOutcome sys myDomain net timeout inps s).join

theorem cycle_eq (myDomain : Bytes) (net : Net) (timeout : ℤ) (inps : List PassInput) (s : Store) :
    cycle sys myDomain net timeout inps s =
      let start := readMails sys s sys.names
      if start.1 = [] then some ⟨[], start.2.1, start.2.2, emptyWorld⟩
      else
        let filtered := filterMyMail myDomain start.1
        (transfer myDomain net filtered.1 timeout inps).bind fun w =>
          if w.connections = [] then
            some ⟨start.1, start.2.1 ++ filtered.2 ++ finishMail w,
              (filtered.2 ++ finishMail w).foldl (perform sys) start.2.2, w⟩
          else none := by
  unfold cycle cycleOutcome
  dsimp only
  split
  · rfl
  · cases transfer myDomain net (filterMyMail myDomain (readMails sys s sys.names).1).1 timeout
        inps with
    | none => rfl
    | some w =>
      simp only [Option.bind_eq_bind, Option.bind_some]
      split <;> rfl

theorem foldl_perform (s : Store) (calls : List FileAction) (f : Bytes) :
    calls.foldl (perform sys) s f =
      (ofKey FileAction.filename f calls).foldl (answered sys) (s f) :=
  foldl_stepAtKey FileAction.filename (answered sys) s calls f

/-- A file is read as a mail, moved away, or left alone. -/
theorem readMailFile_cases (f : Bytes) (content : Option Bytes) :
    (∃ m c, content = some c ∧ readMailFile f content = (some m, []) ∧ m.filename = f) ∨
      ∃ acts, readMailFile f content = (none, acts) ∧
        (acts = [] ∨ acts = [.moveMail f .new .notSent]) := by
  unfold readMailFile
  cases content with
  | none => exact Or.inr ⟨[], rfl, Or.inl rfl⟩
  | some c =>
    simp only
    split
    · split
      · exact Or.inr ⟨_, rfl, Or.inr rfl⟩
      · exact Or.inl ⟨_, c, rfl, rfl, rfl⟩
    · exact Or.inr ⟨_, rfl, Or.inr rfl⟩

theorem readMailFile_malformed (f content : Bytes)
    (h : (readMailFile f (some content)).1 = none) :
    (readMailFile f (some content)).2 = [.moveMail f .new .notSent] := by
  unfold readMailFile at h ⊢
  simp only at h ⊢
  split
  · rename_i hfrom hdata
    rw [hfrom, hdata] at h
    simp only at h
    split
    · rfl
    · rename_i hcount
      rw [if_neg hcount] at h
      cases h
  · rfl

theorem readMailFile_filename (f : Bytes) (content : Option Bytes) :
    ∀ a ∈ (readMailFile f content).2, a.filename = f := by
  intro a ha
  rcases readMailFile_cases f content with ⟨m, c, -, hread, -⟩ | ⟨acts, hread, hacts⟩
  · rw [hread] at ha
    exact absurd ha List.not_mem_nil
  · rw [hread] at ha
    rcases hacts with rfl | rfl
    · exact absurd ha List.not_mem_nil
    · rw [List.mem_singleton.mp ha]
      rfl

theorem fileOf_filename (s : Store) (f : Bytes) (m : Mail) (h : (fileOf sys s f).1 = some m) :
    m.filename = f := by
  rcases readMailFile_cases f (contentOf sys s f) with ⟨m', c, -, hread, hname⟩ | ⟨acts, hread, -⟩
  · rw [fileOf, hread] at h
    rw [← Option.some.inj h, hname]
  · rw [fileOf, hread] at h
    cases h

theorem fileOf_congr (s s' : Store) (f : Bytes) (h : s f = s' f) :
    fileOf sys s f = fileOf sys s' f := by
  unfold fileOf contentOf
  rw [h]

/-- Every name is read as it was found at the start. -/
theorem readMails_eq (s : Store) (fs : List Bytes) (hfs : fs.Nodup) :
    readMails sys s fs =
      (fs.filterMap fun f => (fileOf sys s f).1, fs.flatMap fun f => (fileOf sys s f).2,
        (fs.flatMap fun f => (fileOf sys s f).2).foldl (perform sys) s) := by
  induction fs generalizing s with
  | nil => rfl
  | cons f fs ih =>
    rw [List.nodup_cons] at hfs
    have hsame : ∀ g ∈ fs,
        fileOf sys ((fileOf sys s f).2.foldl (perform sys) s) g = fileOf sys s g := by
      intro g hg
      have hentries : (fileOf sys s f).2.foldl (perform sys) s g = s g := by
        rw [foldl_perform, ofKey_eq_nil]
        · rfl
        · intro a ha hname
          apply hfs.1
          rw [← readMailFile_filename f _ a ha, hname]
          exact hg
      exact fileOf_congr sys _ s g hentries
    have hmails : fs.filterMap (fun g =>
        (fileOf sys ((fileOf sys s f).2.foldl (perform sys) s) g).1) =
        fs.filterMap fun g => (fileOf sys s g).1 := by
      apply List.filterMap_congr
      intro g hg
      rw [hsame g hg]
    have hcalls : fs.flatMap (fun g =>
        (fileOf sys ((fileOf sys s f).2.foldl (perform sys) s) g).2) =
        fs.flatMap fun g => (fileOf sys s g).2 := by
      apply List.flatMap_congr
      intro g hg
      rw [hsame g hg]
    rw [readMails, ih _ hfs.2, hmails, hcalls, List.filterMap_cons, List.flatMap_cons,
      List.foldl_append]
    cases (fileOf sys s f).1 with
    | none => rfl
    | some m => rfl

/-- What a cycle reads, calls and leaves, in terms of the store before it. -/
structure CycleFrom (myDomain : Bytes) (net : Net) (timeout : ℤ) (inps : List PassInput)
    (s : Store) (r : Cycle) : Prop where
  read : r.read = sys.names.filterMap fun f => (fileOf sys s f).1
  calls : r.calls = (sys.names.flatMap fun f => (fileOf sys s f).2) ++
    (filterMyMail myDomain r.read).2 ++ finishMail r.world
  store : r.store = r.calls.foldl (perform sys) s
  mails : r.world.mails = (filterMyMail myDomain r.read).1
  world : transfer myDomain net (filterMyMail myDomain r.read).1 timeout inps = some r.world

theorem transfer_nil (myDomain : Bytes) (net : Net) (timeout : ℤ) (inps : List PassInput) :
    transfer myDomain net [] timeout inps = some emptyWorld := by
  have hinit : connInit myDomain net [] = some emptyWorld := rfl
  unfold transfer
  rw [hinit]
  change connLoop timeout emptyWorld inps = some emptyWorld
  cases inps with
  | nil => rfl
  | cons inp inps => exact if_pos rfl

theorem cycle_spec (myDomain : Bytes) (net : Net) (timeout : ℤ) (inps : List PassInput)
    (s : Store) (r : Cycle) (h : cycle sys myDomain net timeout inps s = some r) :
    CycleFrom sys myDomain net timeout inps s r := by
  rw [cycle_eq] at h
  simp only [readMails_eq sys s sys.names sys.nodup] at h
  by_cases hnone : (sys.names.filterMap fun f => (fileOf sys s f).1) = []
  · rw [if_pos hnone] at h
    obtain rfl := Option.some.inj h
    refine ⟨hnone.symm, ?_, rfl, rfl, transfer_nil myDomain net timeout inps⟩
    change _ = _ ++ [] ++ []
    rw [List.append_nil, List.append_nil]
  · rw [if_neg hnone] at h
    obtain ⟨w, hw, h⟩ := Option.bind_eq_some_iff.mp h
    split at h
    · obtain rfl := Option.some.inj h
      obtain ⟨-, hmails, -⟩ := transfer_sound myDomain net _ timeout inps w hw
      refine ⟨rfl, rfl, ?_, hmails, hw⟩
      simp only [List.foldl_append]
    · cases h

/-- What filter_my_mail does with one mail: to CUR with it, or into the queue, with
or without a copy. -/
theorem filterMail_cases (myDomain : Bytes) (m : Mail) :
    filterMail myDomain m = (none, [.moveMail m.filename .new .cur]) ∨
      ∃ m' copy, filterMail myDomain m = (some m', copy) ∧ m'.filename = m.filename ∧
        (copy = [] ∨ copy = [.copyMail m.filename .new .cur]) := by
  unfold filterMail
  simp only
  split
  · exact Or.inl rfl
  · right
    split
    · exact ⟨_, _, rfl, rfl, Or.inr rfl⟩
    · exact ⟨_, _, rfl, rfl, Or.inl rfl⟩

theorem filterMail_filename (myDomain : Bytes) (m : Mail) :
    (∀ m', (filterMail myDomain m).1 = some m' → m'.filename = m.filename) ∧
      ∀ a ∈ (filterMail myDomain m).2, a.filename = m.filename := by
  rcases filterMail_cases myDomain m with h | ⟨m', copy, h, hname, hcopy⟩
  · rw [h]
    constructor
    · intro m' hm'
      cases hm'
    · intro a ha
      rw [List.mem_singleton.mp ha]
      rfl
  · rw [h]
    constructor
    · intro m'' hm'
      obtain rfl := Option.some.inj hm'
      exact hname
    · intro a ha
      rcases hcopy with rfl | rfl
      · exact absurd ha List.not_mem_nil
      · rw [List.mem_singleton.mp ha]
        rfl

section Shapes

variable (myDomain : Bytes) (net : Net) (timeout : ℤ) (inps : List PassInput) (s : Store)
  (r : Cycle)

theorem nodup_read (h : CycleFrom sys myDomain net timeout inps s r) :
    (r.read.map Mail.filename).Nodup := by
  rw [h.read]
  apply nodup_filterMap id
  · intro f m hm
    exact fileOf_filename sys s f m hm
  · rw [List.map_id]
    exact sys.nodup

theorem nodup_queue (h : CycleFrom sys myDomain net timeout inps s r) :
    (r.world.mails.map Mail.filename).Nodup := by
  rw [h.mails]
  apply nodup_filterMap Mail.filename
  · intro m m' hm'
    exact (filterMail_filename myDomain m).1 m' hm'
  · exact nodup_read sys myDomain net timeout inps s r h

theorem calls_reading (f : Bytes) (hf : f ∈ sys.names) :
    ofKey FileAction.filename f (sys.names.flatMap fun g => (fileOf sys s g).2) =
      (fileOf sys s f).2 := by
  have hnodup : (sys.names.map id).Nodup := by
    rw [List.map_id]
    exact sys.nodup
  have hkey : ∀ g ∈ sys.names, ∀ a ∈ (fileOf sys s g).2, a.filename = id g := by
    intro g _ a ha
    exact readMailFile_filename g _ a ha
  exact ofKey_flatMap FileAction.filename id _ _ hkey hnodup f hf

/-- A mail that was read has a file in NEW, and reading it makes no call. -/
theorem mem_read (h : CycleFrom sys myDomain net timeout inps s r) (m : Mail) (hm : m ∈ r.read) :
    (∃ i, s m.filename .new = some i) ∧
      ofKey FileAction.filename m.filename (sys.names.flatMap fun f => (fileOf sys s f).2) = [] := by
  rw [h.read] at hm
  obtain ⟨f, hf, hm⟩ := List.mem_filterMap.mp hm
  rcases readMailFile_cases f (contentOf sys s f) with ⟨m', c, hc, hread, hname⟩ | ⟨acts, hread, -⟩
  · rw [fileOf, hread] at hm
    obtain rfl := Option.some.inj hm
    constructor
    · unfold contentOf at hc
      split at hc
      · obtain ⟨i, hi, -⟩ := Option.map_eq_some_iff.mp hc
        exact ⟨i, hname ▸ hi⟩
      · cases hc
    · rw [hname, calls_reading sys s f hf, fileOf, hread]
  · rw [fileOf, hread] at hm
    cases hm

theorem calls_filtering (h : CycleFrom sys myDomain net timeout inps s r) (m : Mail)
    (hm : m ∈ r.read) : ofKey FileAction.filename m.filename (filterMyMail myDomain r.read).2 =
      (filterMail myDomain m).2 :=
  ofKey_flatMap FileAction.filename Mail.filename _ _
    (fun m _ => (filterMail_filename myDomain m).2)
    (nodup_read sys myDomain net timeout inps s r h) m hm

theorem finishMail_eq_flatMap (w : World) :
    finishMail w = w.mails.zipIdx.flatMap fun x => [finalCall (w.wasSent x.2) x.1.filename] :=
  List.map_eq_flatMap

theorem finalCall_filename (wasSent : Bool) (f : Bytes) : (finalCall wasSent f).filename = f := by
  cases wasSent <;> rfl

theorem calls_finishing (h : CycleFrom sys myDomain net timeout inps s r) (k : ℕ) (m : Mail)
    (hm : r.world.mails[k]? = some m) :
    ofKey FileAction.filename m.filename (finishMail r.world) =
      [finalCall (r.world.wasSent k) m.filename] := by
  rw [finishMail_eq_flatMap]
  apply ofKey_flatMap FileAction.filename (fun x : Mail × ℕ => x.1.filename) _ _ ?_ ?_ (m, k)
  · exact List.mk_mem_zipIdx_iff_getElem?.mpr hm
  · intro x _ a ha
    rw [List.mem_singleton.mp ha]
    exact finalCall_filename _ _
  · have hmap : r.world.mails.zipIdx.map (fun x : Mail × ℕ => x.1.filename) =
        r.world.mails.map Mail.filename := by
      rw [← List.zipIdx_map_fst 0 r.world.mails, List.map_map, List.zipIdx_map_fst]
      rfl
    rw [hmap]
    exact nodup_queue sys myDomain net timeout inps s r h

theorem calls_finishing_nil (f : Bytes) (hf : ∀ m ∈ r.world.mails, m.filename ≠ f) :
    ofKey FileAction.filename f (finishMail r.world) = [] := by
  apply ofKey_eq_nil
  intro a ha hname
  obtain ⟨x, hx, rfl⟩ := List.mem_map.mp ha
  apply hf x.1 (List.fst_mem_of_mem_zipIdx hx)
  rw [← hname]
  exact (finalCall_filename (r.world.wasSent x.2) x.1.filename).symm

theorem ofKey_calls (h : CycleFrom sys myDomain net timeout inps s r) (f : Bytes) :
    ofKey FileAction.filename f r.calls =
      ofKey FileAction.filename f (sys.names.flatMap fun g => (fileOf sys s g).2) ++
        ofKey FileAction.filename f (filterMyMail myDomain r.read).2 ++
        ofKey FileAction.filename f (finishMail r.world) := by
  rw [h.calls, ofKey_append, ofKey_append]

/-- The mail that was read under a name is what read_mail_file makes of its file. -/
theorem fileOf_of_read (h : CycleFrom sys myDomain net timeout inps s r) (m : Mail)
    (hm : m ∈ r.read) : m.filename ∈ sys.names ∧ (fileOf sys s m.filename).1 = some m := by
  rw [h.read] at hm
  obtain ⟨f, hf, hm⟩ := List.mem_filterMap.mp hm
  obtain rfl := fileOf_filename sys s f m hm
  exact ⟨hf, hm⟩

theorem read_of_queued (h : CycleFrom sys myDomain net timeout inps s r) (m : Mail)
    (hm : m ∈ r.world.mails) :
    ∃ m₀ ∈ r.read, (filterMail myDomain m₀).1 = some m ∧ m.filename = m₀.filename := by
  rw [h.mails] at hm
  obtain ⟨m₀, hm₀, hfilter⟩ := List.mem_filterMap.mp hm
  exact ⟨m₀, hm₀, hfilter, (filterMail_filename myDomain m₀).1 m hfilter⟩

theorem calls_filtering_nil (f : Bytes) (hread : ∀ m ∈ r.read, m.filename ≠ f) :
    ofKey FileAction.filename f (filterMyMail myDomain r.read).2 = [] := by
  apply ofKey_flatMap_nil FileAction.filename Mail.filename
  · intro m _
    exact (filterMail_filename myDomain m).2
  · exact hread

theorem calls_finishing_unread (h : CycleFrom sys myDomain net timeout inps s r) (f : Bytes)
    (hread : ∀ m ∈ r.read, m.filename ≠ f) :
    ofKey FileAction.filename f (finishMail r.world) = [] := by
  apply calls_finishing_nil
  intro m hm
  obtain ⟨m₀, hm₀, -, hname⟩ := read_of_queued sys myDomain net timeout inps s r h m hm
  rw [hname]
  exact hread m₀ hm₀

theorem calls_of_unlisted (h : CycleFrom sys myDomain net timeout inps s r) (f : Bytes)
    (hf : f ∉ sys.names) : ofKey FileAction.filename f r.calls = [] := by
  have hread : ∀ m ∈ r.read, m.filename ≠ f := by
    rintro m hm rfl
    exact hf (fileOf_of_read sys myDomain net timeout inps s r h m hm).1
  have hreading : ofKey FileAction.filename f
      (sys.names.flatMap fun g => (fileOf sys s g).2) = [] := by
    apply ofKey_flatMap_nil FileAction.filename id
    · intro g _ a ha
      exact readMailFile_filename g _ a ha
    · rintro g hg rfl
      exact hf hg
  rw [ofKey_calls sys myDomain net timeout inps s r h, hreading,
    calls_filtering_nil myDomain r f hread,
    calls_finishing_unread sys myDomain net timeout inps s r h f hread]
  rfl

/-- A file that is no mail has the calls of reading it only. -/
theorem calls_of_unread (h : CycleFrom sys myDomain net timeout inps s r) (f : Bytes)
    (hf : f ∈ sys.names) (hnone : (fileOf sys s f).1 = none) :
    ofKey FileAction.filename f r.calls = (fileOf sys s f).2 := by
  have hread : ∀ m ∈ r.read, m.filename ≠ f := by
    rintro m hm rfl
    have hfile := (fileOf_of_read sys myDomain net timeout inps s r h m hm).2
    rw [hnone] at hfile
    cases hfile
  rw [ofKey_calls sys myDomain net timeout inps s r h,
    calls_filtering_nil myDomain r f hread,
    calls_finishing_unread sys myDomain net timeout inps s r h f hread, List.append_nil,
    List.append_nil, calls_reading sys s f hf]

/-- A mail that does not stay queued has the call of filter_my_mail only. -/
theorem calls_of_own (h : CycleFrom sys myDomain net timeout inps s r) (m : Mail)
    (hm : m ∈ r.read) (hown : (filterMail myDomain m).1 = none) :
    ofKey FileAction.filename m.filename r.calls = (filterMail myDomain m).2 := by
  have hfinish : ofKey FileAction.filename m.filename (finishMail r.world) = [] := by
    apply calls_finishing_nil
    intro m' hm' hname
    obtain ⟨m₀, hm₀, hfilter, hname₀⟩ := read_of_queued sys myDomain net timeout inps s r h m' hm'
    have hfile := (fileOf_of_read sys myDomain net timeout inps s r h m hm).2
    rw [← hname, hname₀, (fileOf_of_read sys myDomain net timeout inps s r h m₀ hm₀).2] at hfile
    obtain rfl := Option.some.inj hfile
    rw [hown] at hfilter
    cases hfilter
  rw [ofKey_calls sys myDomain net timeout inps s r h, hfinish, List.append_nil,
    (mem_read sys myDomain net timeout inps s r h m hm).2,
    calls_filtering sys myDomain net timeout inps s r h m hm]
  rfl

/-- A queued mail has the calls of filter_my_mail, and its final call then. -/
theorem calls_of_filtered (h : CycleFrom sys myDomain net timeout inps s r) (k : ℕ) (m₀ m : Mail)
    (hm₀ : m₀ ∈ r.read) (hfilter : (filterMail myDomain m₀).1 = some m)
    (hm : r.world.mails[k]? = some m) :
    ofKey FileAction.filename m₀.filename r.calls =
      (filterMail myDomain m₀).2 ++ [finalCall (r.world.wasSent k) m₀.filename] := by
  have hname := (filterMail_filename myDomain m₀).1 m hfilter
  have hfinish := calls_finishing sys myDomain net timeout inps s r h k m hm
  rw [hname] at hfinish
  rw [ofKey_calls sys myDomain net timeout inps s r h, hfinish,
    (mem_read sys myDomain net timeout inps s r h m₀ hm₀).2,
    calls_filtering sys myDomain net timeout inps s r h m₀ hm₀]
  rfl

/-- A queued mail is copied to CUR or not, and has its final call then. -/
theorem calls_of_queued (h : CycleFrom sys myDomain net timeout inps s r) (k : ℕ) (m : Mail)
    (hm : r.world.mails[k]? = some m) :
    (∃ i, s m.filename .new = some i) ∧
      ∃ copy, (copy = [] ∨ copy = [.copyMail m.filename .new .cur]) ∧
        ofKey FileAction.filename m.filename r.calls =
          copy ++ [finalCall (r.world.wasSent k) m.filename] := by
  obtain ⟨m₀, hm₀, hfilter, hname⟩ :=
    read_of_queued sys myDomain net timeout inps s r h m (List.mem_of_getElem? hm)
  rw [hname]
  refine ⟨(mem_read sys myDomain net timeout inps s r h m₀ hm₀).1, (filterMail myDomain m₀).2, ?_,
    calls_of_filtered sys myDomain net timeout inps s r h k m₀ m hm₀ hfilter hm⟩
  rcases filterMail_cases myDomain m₀ with hown | ⟨m', copy, hqueued, -, hcopy⟩
  · rw [hown] at hfilter
    cases hfilter
  · rw [hqueued]
    exact hcopy

theorem calls_shape (h : CycleFrom sys myDomain net timeout inps s r) (f : Bytes) :
    Shape f (ofKey FileAction.filename f r.calls) := by
  by_cases hf : f ∈ sys.names
  · cases hfile : (fileOf sys s f).1 with
    | none =>
      rw [calls_of_unread sys myDomain net timeout inps s r h f hf hfile]
      rcases readMailFile_cases f (contentOf sys s f) with
        ⟨m, c, -, hread, -⟩ | ⟨acts, hread, hacts⟩
      · rw [fileOf, hread] at hfile
        cases hfile
      · rw [fileOf, hread]
        rcases hacts with rfl | rfl
        · exact .nothing
        · exact .final false
    | some m =>
      have hm : m ∈ r.read := by
        rw [h.read]
        exact List.mem_filterMap.mpr ⟨f, hf, hfile⟩
      obtain rfl : m.filename = f := fileOf_filename sys s f m hfile
      rcases filterMail_cases myDomain m with hown | ⟨m', copy, hqueued, hname, hcopy⟩
      · rw [calls_of_own sys myDomain net timeout inps s r h m hm (by rw [hown]), hown]
        exact .ownMail
      · have hmem : m' ∈ r.world.mails := by
          rw [h.mails]
          exact List.mem_filterMap.mpr ⟨m, hm, by rw [hqueued]⟩
        obtain ⟨k, hk⟩ := List.mem_iff_getElem?.mp hmem
        rw [calls_of_filtered sys myDomain net timeout inps s r h k m m' hm (by rw [hqueued]) hk,
          hqueued]
        rcases hcopy with rfl | rfl
        · exact .final _
        · exact .copied _
  · rw [calls_of_unlisted sys myDomain net timeout inps s r h f hf]
    exact .nothing

end Shapes

end SmtpClient.MailCycle
