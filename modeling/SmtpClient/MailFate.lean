import SmtpClient.LocalFiltering
import SmtpClient.MailCycle

/-!
What a cycle makes of one file, as long as names are not used twice: while a file is in
NEW, no other file has its name. Then nothing that is in CUR or NOT_SENT is ever replaced,
and a file leaves NEW for one of them, unless a server has accepted the mail and the file
is deleted. It leaves NEW exactly when the call that takes it out is granted.
-/
namespace SmtpClient.MailFate

open MailTypes Maildir KeyedSteps MailStore MailCycle MxLookup Connections EventLoop
open TransferInvariant Setup Acceptance LocalFiltering

variable (sys : System)

/-- The calls that the source makes for a name. -/
inductive FromNew (f : Bytes) : FileAction → Prop
  | toCur : FromNew f (.moveMail f .new .cur)
  | toNotSent : FromNew f (.moveMail f .new .notSent)
  | copy : FromNew f (.copyMail f .new .cur)
  | delete : FromNew f (.deleteMail f .new)

theorem fromNew_of_shape (f : Bytes) (calls : List FileAction) (h : Shape f calls) :
    ∀ a ∈ calls, FromNew f a := by
  have hfinal : ∀ wasSent, FromNew f (finalCall wasSent f) := by
    intro wasSent
    cases wasSent with
    | true => exact .delete
    | false => exact .toNotSent
  cases h with
  | nothing =>
    intro a ha
    exact absurd ha List.not_mem_nil
  | ownMail => exact List.forall_mem_singleton.mpr .toCur
  | final wasSent => exact List.forall_mem_singleton.mpr (hfinal wasSent)
  | copied wasSent =>
    exact List.forall_mem_cons.mpr ⟨.copy, List.forall_mem_singleton.mpr (hfinal wasSent)⟩

/-- A file in NEW has its name to itself, but for a link in CUR that was made for a
local recipient of a mail that is for others too. -/
structure Settled (remote : Inode → Prop) (e : Entries) : Prop where
  notSent : ∀ i, e .new = some i → e .notSent = none
  cur : ∀ i, e .new = some i → e .cur = none ∨ (e .cur = some i ∧ remote i)

/-- What becomes of the entries with one name. -/
structure Fate (deleted : Prop) (e e' : Entries) : Prop where
  cur : ∀ i, e .cur = some i → e' .cur = some i
  notSent : ∀ i, e .notSent = some i → e' .notSent = some i
  new : ∀ i, e .new = some i →
    e' .new = some i ∨ e' .cur = some i ∨ e' .notSent = some i ∨ deleted
  nothing_new : e' .new = none ∨ e' .new = e .new

section Calls

variable {deleted : Prop} {remote : Inode → Prop} {e e' e'' : Entries}

theorem Fate.refl (deleted : Prop) (e : Entries) : Fate deleted e e :=
  ⟨fun _ h => h, fun _ h => h, fun _ h => Or.inl h, Or.inr rfl⟩

theorem Fate.trans (h : Fate deleted e e') (h' : Fate deleted e' e'') : Fate deleted e e'' := by
  refine ⟨fun i hi => h'.cur i (h.cur i hi), fun i hi => h'.notSent i (h.notSent i hi), ?_, ?_⟩
  · intro i hi
    rcases h.new i hi with hnew | hcur | hnotSent | hdeleted
    · exact h'.new i hnew
    · exact Or.inr (Or.inl (h'.cur i hcur))
    · exact Or.inr (Or.inr (Or.inl (h'.notSent i hnotSent)))
    · exact Or.inr (Or.inr (Or.inr hdeleted))
  · rcases h'.nothing_new with hnone | hsame
    · exact Or.inl hnone
    · rw [hsame]
      exact h.nothing_new

theorem Fate.mono {deleted' : Prop} (h : Fate deleted e e') (hd : deleted → deleted') :
    Fate deleted' e e' := by
  refine ⟨h.cur, h.notSent, ?_, h.nothing_new⟩
  intro i hi
  rcases h.new i hi with hnew | hcur | hnotSent | hdeleted
  · exact Or.inl hnew
  · exact Or.inr (Or.inl hcur)
  · exact Or.inr (Or.inr (Or.inl hnotSent))
  · exact Or.inr (Or.inr (Or.inr (hd hdeleted)))

theorem settled_of_none (h : e .new = none) : Settled remote e := by
  constructor <;> intro i hi <;> rw [h] at hi <;> cases hi

theorem rename_takesOut (toDir : MaildirDir) (i : Inode) (hnew : e .new = some i)
    (hfree : e toDir = none) : rename .new toDir e .new = none := by
  rw [rename_of_other .new toDir e i hnew (by simp [hfree]), Function.update_self]

/-- A rename to a free name moves the file. -/
theorem rename_fate (toDir : MaildirDir) (i : Inode) (hto : toDir = .cur ∨ toDir = .notSent)
    (hnew : e .new = some i) (hfree : e toDir = none) :
    Fate deleted e (rename .new toDir e) := by
  have hne : toDir ≠ .new := by
    rcases hto with rfl | rfl <;> decide
  have htarget := rename_target toDir e i hne hnew
  have hkept : ∀ dir j, dir ≠ .new → e dir = some j → rename .new toDir e dir = some j := by
    intro dir j hdir hj
    rw [rename_elsewhere dir toDir e hdir]
    · exact hj
    · rintro rfl
      rw [hfree] at hj
      cases hj
  refine ⟨fun j hj => hkept .cur j (by decide) hj,
    fun j hj => hkept .notSent j (by decide) hj, ?_,
    Or.inl (rename_takesOut toDir i hnew hfree)⟩
  intro j hj
  obtain rfl := Option.some.inj (hnew.symm.trans hj)
  rcases hto with rfl | rfl
  · exact Or.inr (Or.inl htarget)
  · exact Or.inr (Or.inr (Or.inl htarget))

theorem unlink_fate : Fate True e (unlink .new e) := by
  have hother : ∀ dir, dir ≠ .new → unlink .new e dir = e dir := by
    intro dir hdir
    exact Function.update_of_ne hdir none e
  refine ⟨?_, ?_, fun i _ => Or.inr (Or.inr (Or.inr trivial)), Or.inl (Function.update_self ..)⟩
  · intro i hi
    rw [hother .cur (by decide)]
    exact hi
  · intro i hi
    rw [hother .notSent (by decide)]
    exact hi

/-- A link to CUR makes the file stand there, and changes nothing else. -/
theorem link_fate (h : Settled remote e) (hremote : ∀ i, e .new = some i → remote i) :
    Settled remote (link .new .cur e) ∧ Fate deleted e (link .new .cur e) ∧
      link .new .cur e .new = e .new ∧
      ∀ i, e .new = some i → link .new .cur e .cur = some i := by
  have hnew : link .new .cur e .new = e .new := link_of_ne _ _ _ e (Or.inl (by decide))
  have hnotSent : link .new .cur e .notSent = e .notSent :=
    link_of_ne _ _ _ e (Or.inl (by decide))
  have hcur : ∀ i, e .new = some i → link .new .cur e .cur = some i := by
    intro i hi
    rcases h.cur i hi with hfree | ⟨hsame, -⟩
    · simp only [link, hi, hfree, Function.update_self]
    · simp only [link, hi, hsame]
  refine ⟨⟨?_, ?_⟩, ⟨?_, ?_, ?_, Or.inr hnew⟩, hnew, hcur⟩
  · intro i hi
    rw [hnotSent]
    exact h.notSent i (hnew ▸ hi)
  · intro i hi
    rw [hnew] at hi
    exact Or.inr ⟨hcur i hi, hremote i hi⟩
  · intro i hi
    rw [link_of_ne _ _ _ e (Or.inr (by simp [hi]))]
    exact hi
  · intro i hi
    rw [hnotSent]
    exact hi
  · intro i hi
    exact Or.inl (hnew.trans hi)

/-- What one call does to settled entries. -/
theorem answered_fate (f : Bytes) (a : FileAction) (ha : FromNew f a) (h : Settled remote e)
    (hremote : a = .copyMail f .new .cur → ∀ i, e .new = some i → remote i) :
    Settled remote (answered sys e a) ∧
      Fate (a = .deleteMail f .new) e (answered sys e a) := by
  unfold answered
  split
  · have hrename : ∀ toDir, toDir = .cur ∨ toDir = .notSent →
        (∀ i, e .new = some i → e toDir = none ∨ e toDir = some i) →
        Settled remote (rename .new toDir e) ∧ Fate (a = .deleteMail f .new) e
          (rename .new toDir e) := by
      intro toDir hto hfree
      cases hnew : e .new with
      | none =>
        rw [rename_of_none _ _ e hnew]
        exact ⟨h, .refl _ e⟩
      | some i =>
        rcases hfree i hnew with hnone | hsame
        · have hgone := rename_takesOut toDir i hnew hnone
          exact ⟨settled_of_none hgone, rename_fate toDir i hto hnew hnone⟩
        · rw [rename_of_same _ _ e i hnew hsame]
          exact ⟨h, .refl _ e⟩
    cases ha with
    | toCur =>
      apply hrename .cur (Or.inl rfl)
      intro i hi
      exact (h.cur i hi).imp id And.left
    | toNotSent =>
      apply hrename .notSent (Or.inr rfl)
      intro i hi
      exact Or.inl (h.notSent i hi)
    | copy =>
      obtain ⟨hsettled, hfate, -, -⟩ := link_fate h (hremote rfl)
      exact ⟨hsettled, hfate⟩
    | delete =>
      have hgone : unlink .new e .new = none := by rw [unlink, Function.update_self]
      exact ⟨settled_of_none hgone, unlink_fate.mono fun _ => rfl⟩
  · exact ⟨h, .refl _ e⟩

/-- What several calls for one name do to settled entries. -/
theorem foldl_fate (f : Bytes) (calls : List FileAction) (hcalls : ∀ a ∈ calls, FromNew f a)
    (h : Settled remote e)
    (hremote : .copyMail f .new .cur ∈ calls → ∀ i, e .new = some i → remote i) :
    Settled remote (calls.foldl (answered sys) e) ∧
      Fate (.deleteMail f .new ∈ calls) e (calls.foldl (answered sys) e) := by
  induction calls generalizing e with
  | nil => exact ⟨h, .refl _ e⟩
  | cons a calls ih =>
    rw [List.forall_mem_cons] at hcalls
    obtain ⟨hsettled, hfate⟩ := answered_fate sys f a hcalls.1 h
      (fun hcopy => hremote (hcopy ▸ List.mem_cons_self))
    have hrest : .copyMail f .new .cur ∈ calls →
        ∀ i, answered sys e a .new = some i → remote i := by
      intro hcopy i hi
      apply hremote (List.mem_cons_of_mem a hcopy)
      rcases hfate.nothing_new with hnone | hsame
      · rw [hnone] at hi
        cases hi
      · exact hsame ▸ hi
    obtain ⟨hsettled', hfate'⟩ := ih hcalls.2 hsettled hrest
    refine ⟨hsettled', (hfate.mono ?_).trans (hfate'.mono (List.mem_cons_of_mem a))⟩
    intro hdelete
    exact hdelete ▸ List.mem_cons_self

end Calls

/-- The call takes a file out of NEW. -/
def TakesOut (f : Bytes) (a : FileAction) : Prop :=
  a = .deleteMail f .new ∨ a = .moveMail f .new .cur ∨ a = .moveMail f .new .notSent

/-- A mail of this content would be read and queued for recipients of other domains. -/
def Remote (myDomain f content : Bytes) : Prop :=
  ∃ m m', (readMailFile f (some content)).1 = some m ∧ (filterMail myDomain m).1 = some m'

section Cycles

variable (myDomain : Bytes) (net : Net) (timeout : ℤ) (inps : List PassInput) (s : Store)
  (r : Cycle) (f : Bytes)

/-- The store before a cycle: every file in NEW has its name to itself. -/
def AllSettled (contents : Inode → Bytes) : Prop :=
  ∀ f, Settled (fun i => Remote myDomain f (contents i)) (s f)

theorem readMailFile_moves (content : Option Bytes) :
    ∀ a ∈ (readMailFile f content).2, a = .moveMail f .new .notSent := by
  intro a ha
  rcases readMailFile_cases f content with ⟨m, c, -, hread, -⟩ | ⟨acts, hread, rfl | rfl⟩
  · rw [hread] at ha
    exact absurd ha List.not_mem_nil
  · rw [hread] at ha
    exact absurd ha List.not_mem_nil
  · rw [hread] at ha
    exact List.mem_singleton.mp ha

theorem finishMail_calls (w : World) (a : FileAction) (ha : a ∈ finishMail w) :
    ∃ k m, w.mails[k]? = some m ∧ a = finalCall (w.wasSent k) m.filename := by
  obtain ⟨⟨m, k⟩, hx, rfl⟩ := List.mem_map.mp ha
  exact ⟨k, m, List.mk_mem_zipIdx_iff_getElem?.mp hx, rfl⟩

/-- A mail that was read was read from the file of its name in NEW. -/
theorem content_of_read (h : CycleFrom sys myDomain net timeout inps s r) (m : Mail)
    (hm : m ∈ r.read) :
    ∃ i, s m.filename .new = some i ∧
      (readMailFile m.filename (some (sys.contents i))).1 = some m := by
  rw [h.read] at hm
  obtain ⟨g, hg, hm⟩ := List.mem_filterMap.mp hm
  rcases readMailFile_cases g (contentOf sys s g) with ⟨m', c, hc, hread, hname⟩ | ⟨acts, hread, -⟩
  · rw [fileOf, hread] at hm
    obtain rfl := Option.some.inj hm
    have hcontent := hc
    unfold contentOf at hc
    split at hc
    · obtain ⟨i, hi, rfl⟩ := Option.map_eq_some_iff.mp hc
      rw [hcontent] at hread
      exact ⟨i, hname ▸ hi, by rw [hname, hread]⟩
    · cases hc
  · rw [fileOf, hread] at hm
    cases hm

/-- Where a call of a cycle comes from. -/
theorem calls_cases (h : CycleFrom sys myDomain net timeout inps s r) (a : FileAction)
    (ha : a ∈ r.calls) :
    (∃ g, a = .moveMail g .new .notSent) ∨
      (∃ m ∈ r.read, (filterMail myDomain m).1 = none ∧ a = .moveMail m.filename .new .cur) ∨
      (∃ m ∈ r.read, (∃ m', (filterMail myDomain m).1 = some m') ∧
        a = .copyMail m.filename .new .cur) ∨
      ∃ k m, r.world.mails[k]? = some m ∧ a = finalCall (r.world.wasSent k) m.filename := by
  rw [h.calls, List.mem_append, List.mem_append] at ha
  rcases ha with (hread | hfilter) | hfinish
  · obtain ⟨g, -, hg⟩ := List.mem_flatMap.mp hread
    exact Or.inl ⟨g, readMailFile_moves g _ a hg⟩
  · obtain ⟨m, hm, hacts⟩ := List.mem_flatMap.mp hfilter
    rcases filterMail_cases myDomain m with hown | ⟨m', copy, hqueued, -, rfl | rfl⟩
    · rw [hown] at hacts
      exact Or.inr (Or.inl ⟨m, hm, by rw [hown], List.mem_singleton.mp hacts⟩)
    · rw [hqueued] at hacts
      exact absurd hacts List.not_mem_nil
    · rw [hqueued] at hacts
      refine Or.inr (Or.inr (Or.inl ⟨m, hm, ⟨m', by rw [hqueued]⟩, ?_⟩))
      exact List.mem_singleton.mp hacts
  · exact Or.inr (Or.inr (Or.inr (finishMail_calls r.world a hfinish)))

/-- A file is deleted only when a server has accepted the mail. -/
theorem deleted_accepted (h : CycleFrom sys myDomain net timeout inps s r)
    (ha : .deleteMail f .new ∈ r.calls) :
    ∃ k m p, r.world.mails[k]? = some m ∧ m.filename = f ∧ AcceptedBy r.world p k := by
  rcases calls_cases sys myDomain net timeout inps s r h _ ha with
    ⟨g, hg⟩ | ⟨m, -, -, hm⟩ | ⟨m, -, -, hm⟩ | ⟨k, m, hm, hcall⟩
  · cases hg
  · cases hm
  · cases hm
  · obtain ⟨⟨hsound, -⟩, -, -⟩ := transfer_sound myDomain net _ timeout inps r.world h.world
    cases hsent : r.world.wasSent k with
    | true =>
      rw [hsent] at hcall
      obtain ⟨rfl, -⟩ := FileAction.deleteMail.inj hcall
      obtain ⟨p, hp⟩ := (hsound.marks k).mp hsent
      exact ⟨k, m, p, hm, rfl, hp⟩
    | false =>
      rw [hsent] at hcall
      cases hcall

theorem copied_remote (h : CycleFrom sys myDomain net timeout inps s r)
    (ha : .copyMail f .new .cur ∈ r.calls) (i : Inode) (hi : s f .new = some i) :
    Remote myDomain f (sys.contents i) := by
  rcases calls_cases sys myDomain net timeout inps s r h _ ha with
    ⟨g, hg⟩ | ⟨m, -, -, hm⟩ | ⟨m, hm, ⟨m', hm'⟩, hcall⟩ | ⟨k, m, -, hcall⟩
  · cases hg
  · cases hm
  · obtain ⟨rfl, -⟩ := FileAction.copyMail.inj hcall
    obtain ⟨j, hj, hread⟩ := content_of_read sys myDomain net timeout inps s r h m hm
    obtain rfl := Option.some.inj (hi.symm.trans hj)
    exact ⟨m, m', hread, hm'⟩
  · cases hsent : r.world.wasSent k <;> rw [hsent] at hcall <;> cases hcall

theorem own_not_remote (h : CycleFrom sys myDomain net timeout inps s r)
    (ha : .moveMail f .new .cur ∈ r.calls) (i : Inode) (hi : s f .new = some i) :
    ¬ Remote myDomain f (sys.contents i) := by
  rcases calls_cases sys myDomain net timeout inps s r h _ ha with
    ⟨g, hg⟩ | ⟨m, hm, hown, hcall⟩ | ⟨m, -, -, hm⟩ | ⟨k, m, -, hcall⟩
  · cases hg
  · obtain ⟨rfl, -⟩ := FileAction.moveMail.inj hcall
    obtain ⟨j, hj, hread⟩ := content_of_read sys myDomain net timeout inps s r h m hm
    obtain rfl := Option.some.inj (hi.symm.trans hj)
    rintro ⟨m₁, m₂, hread', hqueued⟩
    obtain rfl := Option.some.inj (hread.symm.trans hread')
    rw [hown] at hqueued
    cases hqueued
  · cases hm
  · cases hsent : r.world.wasSent k <;> rw [hsent] at hcall <;> cases hcall

/-- What a cycle does to every name. -/
theorem cycle_fate (h : CycleFrom sys myDomain net timeout inps s r)
    (hs : AllSettled myDomain s sys.contents) :
    AllSettled myDomain r.store sys.contents ∧ ∀ f,
      Fate (∃ k m p, r.world.mails[k]? = some m ∧ m.filename = f ∧ AcceptedBy r.world p k)
        (s f) (r.store f) := by
  have hall : ∀ f, Settled (fun i => Remote myDomain f (sys.contents i)) (r.store f) ∧
      Fate (∃ k m p, r.world.mails[k]? = some m ∧ m.filename = f ∧ AcceptedBy r.world p k)
        (s f) (r.store f) := by
    intro f
    have hshape := calls_shape sys myDomain net timeout inps s r h f
    have hmem : ∀ a ∈ ofKey FileAction.filename f r.calls, a ∈ r.calls :=
      fun a ha => List.mem_of_mem_filter ha
    obtain ⟨hsettled, hfate⟩ := foldl_fate sys f _ (fromNew_of_shape f _ hshape) (hs f)
      (fun hcopy i hi => copied_remote sys myDomain net timeout inps s r f h (hmem _ hcopy) i hi)
    rw [h.store, foldl_perform]
    exact ⟨hsettled, hfate.mono fun hdelete =>
      deleted_accepted sys myDomain net timeout inps s r f h (hmem _ hdelete)⟩
  exact ⟨fun f => (hall f).1, fun f => (hall f).2⟩

/-- The last call of a name takes its file out of NEW when it is granted. -/
theorem finalCall_takesOut (e : Entries) (wasSent : Bool) (i : Inode) (hi : e .new = some i)
    (hfree : e .notSent = none) :
    answered sys e (finalCall wasSent f) .new = none ↔
      sys.grants (finalCall wasSent f) = true := by
  unfold answered
  cases hgrant : sys.grants (finalCall wasSent f) with
  | true =>
    rw [if_pos rfl]
    cases wasSent with
    | true => simp [callOn, finalCall, unlink]
    | false =>
      simp [callOn, finalCall, rename_takesOut .notSent i hi hfree]
  | false => simp [hi]

theorem takesOut_finalCall (wasSent : Bool) : TakesOut f (finalCall wasSent f) := by
  cases wasSent with
  | true => exact Or.inl rfl
  | false => exact Or.inr (Or.inr rfl)

theorem not_takesOut_copy : ¬ TakesOut f (.copyMail f .new .cur) := by
  rintro (h | h | h) <;> cases h

/-- The calls for a name take its file out of NEW exactly when the one that is to do so
is granted. -/
theorem shape_takesOut {remote : Inode → Prop} {e : Entries} (calls : List FileAction)
    (hshape : Shape f calls) (h : Settled remote e) (i : Inode) (hi : e .new = some i)
    (hown : .moveMail f .new .cur ∈ calls → ¬ remote i) :
    calls.foldl (answered sys) e .new = none ↔
      ∃ a ∈ calls, TakesOut f a ∧ sys.grants a = true := by
  cases hshape with
  | nothing => simp [hi]
  | ownMail =>
    have hfree : e .cur = none := by
      rcases h.cur i hi with hfree | ⟨-, hremote⟩
      · exact hfree
      · exact absurd hremote (hown (List.mem_singleton_self _))
    have htakes : TakesOut f (.moveMail f .new .cur) := Or.inr (Or.inl rfl)
    have hmoved := rename_takesOut .cur i hi hfree
    cases hgrant : sys.grants (.moveMail f .new .cur) with
    | true => simp [answered, hgrant, callOn, hmoved, htakes]
    | false => simp [answered, hgrant, hi]
  | final wasSent =>
    simp [finalCall_takesOut sys f e wasSent i hi (h.notSent i hi), takesOut_finalCall]
  | copied wasSent =>
    have hcopied := fun dir hdir => answered_copyMail sys e f dir (Or.inl hdir)
    have hnew := (hcopied .new (by decide)).trans hi
    have hfree := (hcopied .notSent (by decide)).trans (h.notSent i hi)
    simp [finalCall_takesOut sys f _ wasSent i hnew hfree, takesOut_finalCall, not_takesOut_copy]

/-- A file that is in NEW leaves it in a cycle exactly when the call that takes it out is
granted. -/
theorem cycle_takesOut (h : CycleFrom sys myDomain net timeout inps s r)
    (hs : AllSettled myDomain s sys.contents) (i : Inode) (hi : s f .new = some i) :
    r.store f .new = none ↔ ∃ a ∈ r.calls, TakesOut f a ∧ sys.grants a = true := by
  have hshape := calls_shape sys myDomain net timeout inps s r h f
  rw [h.store, foldl_perform, shape_takesOut sys f _ hshape (hs f) i hi]
  · constructor
    · rintro ⟨a, ha, htakes⟩
      exact ⟨a, List.mem_of_mem_filter ha, htakes⟩
    · rintro ⟨a, ha, htakes, hgrant⟩
      refine ⟨a, List.mem_filter.mpr ⟨ha, decide_eq_true ?_⟩, htakes, hgrant⟩
      rcases htakes with rfl | rfl | rfl <;> rfl
  · intro hown
    exact own_not_remote sys myDomain net timeout inps s r f h (List.mem_of_mem_filter hown) i hi

/-- The call for a mail with a local recipient. -/
theorem localActions_cases (m : Mail) (h : ∃ rcpt ∈ m.rcpts, rcpt.domain = myDomain) :
    localActions myDomain m = [.moveMail m.filename .new .cur] ∨
      localActions myDomain m = [.copyMail m.filename .new .cur] := by
  obtain ⟨rcpt, hmem, hdomain⟩ := h
  have hany : m.rcpts.any (isLocal myDomain) = true :=
    List.any_eq_true.mpr ⟨rcpt, hmem, decide_eq_true hdomain⟩
  unfold localActions
  rw [hany]
  split
  · exact Or.inl rfl
  · exact Or.inr rfl

/-- The calls for a name bring its file to CUR when the one that is to do so is granted. -/
theorem shape_toCur {remote : Inode → Prop} {e : Entries} (calls : List FileAction)
    (hshape : Shape f calls) (h : Settled remote e) (i : Inode) (hi : e .new = some i)
    (a : FileAction) (ha : a ∈ calls)
    (hcur : a = .moveMail f .new .cur ∨ a = .copyMail f .new .cur)
    (hgrant : sys.grants a = true) : calls.foldl (answered sys) e .cur = some i := by
  have hnot : ∀ wasSent, a ≠ finalCall wasSent f := by
    rintro wasSent rfl
    cases wasSent <;> rcases hcur with hcur | hcur <;> cases hcur
  cases hshape with
  | nothing => exact absurd ha List.not_mem_nil
  | ownMail =>
    obtain rfl := List.mem_singleton.mp ha
    change answered sys e _ .cur = some i
    unfold answered
    rw [if_pos hgrant]
    exact rename_target .cur e i (by decide) hi
  | final wasSent => exact absurd (List.mem_singleton.mp ha) (hnot wasSent)
  | copied wasSent =>
    obtain rfl : a = .copyMail f .new .cur := by
      rcases List.mem_cons.mp ha with rfl | ha
      · rfl
      · exact absurd (List.mem_singleton.mp ha) (hnot wasSent)
    change answered sys (answered sys e _) (finalCall wasSent f) .cur = some i
    rw [answered_finalCall_cur]
    unfold answered
    rw [if_pos hgrant]
    rcases h.cur i hi with hfree | ⟨hsame, -⟩
    · simp only [callOn, link, hi, hfree, Function.update_self]
    · simp only [callOn, link, hi, hsame]

/-- A mail with a local recipient is in CUR after the cycle if the call that brings it
there is granted. -/
theorem cycle_local (h : CycleFrom sys myDomain net timeout inps s r)
    (hs : AllSettled myDomain s sys.contents) (m : Mail) (hm : m ∈ r.read)
    (hlocal : ∃ rcpt ∈ m.rcpts, rcpt.domain = myDomain)
    (hgrant : ∀ a ∈ localActions myDomain m, sys.grants a = true) :
    ∃ i, s m.filename .new = some i ∧ r.store m.filename .cur = some i := by
  obtain ⟨⟨i, hi⟩, -⟩ := mem_read sys myDomain net timeout inps s r h m hm
  have hshape := calls_shape sys myDomain net timeout inps s r h m.filename
  have hcalls : ∀ a ∈ localActions myDomain m, a ∈ r.calls := by
    intro a ha
    rw [h.calls, List.mem_append, List.mem_append]
    refine Or.inl (Or.inr (List.mem_flatMap.mpr ⟨m, hm, ?_⟩))
    rw [filterMail_eq]
    exact ha
  refine ⟨i, hi, ?_⟩
  rw [h.store, foldl_perform]
  rcases localActions_cases myDomain m hlocal with hown | hcopy
  · rw [hown, List.forall_mem_singleton] at hcalls hgrant
    exact shape_toCur sys _ _ hshape (hs m.filename) i hi _
      (List.mem_filter.mpr ⟨hcalls, decide_eq_true rfl⟩) (Or.inl rfl) hgrant
  · rw [hcopy, List.forall_mem_singleton] at hcalls hgrant
    exact shape_toCur sys _ _ hshape (hs m.filename) i hi _
      (List.mem_filter.mpr ⟨hcalls, decide_eq_true rfl⟩) (Or.inr rfl) hgrant

end Cycles

end SmtpClient.MailFate
