import SmtpClient.Conservation
import SmtpClient.MailFate
import SmtpClient.Runs

/-!
The loop of the client. Between its passes files arrive in NEW; a pass looks for the
quit key, counts the files in NEW and, when there are any, runs a cycle. The history
keeps every cycle with the store that it found and the answers that it was given.
-/
namespace SmtpClient.ClientLoop

open MailTypes Maildir MailStore MailCycle MailFate MxLookup Connections EventLoop Runs
open TransferInvariant Setup Acceptance LocalFiltering Conservation

/-- A cycle, the store that it found and the answers that it was given. -/
structure Done where
  store : Store
  sys : System
  cycle : Cycle

/-- The client between two passes. Files are numbered in the order of their arrival. -/
structure Client where
  store : Store
  nextInode : Inode
  openDirs : ℕ
  history : List Done
  stopped : Bool

def Client.start (s : Store) (n : Inode) : Client := ⟨s, n, 0, [], false⟩

/-- What the system answers in one pass: whether the listener has reported the quit key,
the files that new_mail_exist counts if opendir succeeds, and what a cycle meets. -/
structure LoopInput where
  quitKey : Bool
  counted : Option (List Bytes)
  opensNew : Bool
  sys : System
  net : Net
  inps : List PassInput

inductive Event
  | arrive (f : Bytes)
  | pass (p : LoopInput)

variable (myDomain : Bytes) (timeout : ℤ) (limit : ℕ) (contents : Inode → Bytes)

/-- opendir fails when no handle is left. -/
def newMailExist (c : Client) (p : LoopInput) : ℕ :=
  if c.openDirs < limit then (p.counted.getD []).length else 0

/-- conn_init, conn_loop and conn_final. When no mail can be read, read_all_mail returns
without closing its directory. -/
def transferMail (c : Client) (p : LoopInput) : Option Client :=
  if c.openDirs < limit ∧ p.opensNew = true then do
    let sys := { p.sys with contents := contents }
    let r ← cycle sys myDomain p.net timeout p.inps c.store
    return { c with
      store := r.store
      openDirs := if r.read = [] then c.openDirs + 1 else c.openDirs
      history := c.history ++ [⟨c.store, sys, r⟩] }
  else some c

def smtpClientLoopPass (c : Client) (p : LoopInput) : Option Client :=
  if p.quitKey then some { c with stopped := true }
  else if newMailExist limit c p = 0 then some c
  else transferMail myDomain timeout limit contents c p

/-- A file comes into NEW. Whoever delivers it links it to its name, and link fails when
NEW has the name. -/
def Client.arrive (c : Client) (f : Bytes) : Client :=
  if c.store f .new = none then
    { c with
      store := Function.update c.store f (Function.update (c.store f) .new (some c.nextInode))
      nextInode := c.nextInode + 1 }
  else c

def clientStep (c : Client) : Event → Option Client
  | .arrive f => some (c.arrive f)
  | .pass p =>
    if c.stopped then some c else smtpClientLoopPass myDomain timeout limit contents c p

/-- A cycle of the history as a cycle that began with its store. -/
def Done.From (d : Done) : Prop :=
  d.sys.contents = contents ∧
    ∃ net inps, CycleFrom d.sys myDomain net timeout inps d.store d.cycle

/-- A step of the client ends it, changes nothing, lets a file arrive, or runs a cycle. -/
theorem clientStep_cases (c c' : Client) (e : Event)
    (h : clientStep myDomain timeout limit contents c e = some c') :
    c' = c ∨ c' = { c with stopped := true } ∨ (∃ f, e = .arrive f ∧ c' = c.arrive f) ∨
      ∃ d : Done, c.openDirs < limit ∧ d.store = c.store ∧ d.From myDomain timeout contents ∧
        c' = { c with
          store := d.cycle.store
          openDirs := if d.cycle.read = [] then c.openDirs + 1 else c.openDirs
          history := c.history ++ [d] } := by
  cases e with
  | arrive f => exact Or.inr (Or.inr (Or.inl ⟨f, rfl, (Option.some.inj h).symm⟩))
  | pass p =>
    simp only [clientStep, smtpClientLoopPass] at h
    split at h
    · exact Or.inl (Option.some.inj h).symm
    · split at h
      · exact Or.inr (Or.inl (Option.some.inj h).symm)
      · split at h
        · exact Or.inl (Option.some.inj h).symm
        · unfold transferMail at h
          split at h
          · rename_i hopen
            obtain ⟨r, hr, h⟩ := Option.bind_eq_some_iff.mp h
            obtain rfl := Option.some.inj h
            exact Or.inr (Or.inr (Or.inr ⟨⟨c.store, _, r⟩, hopen.1, rfl,
              ⟨rfl, p.net, p.inps, cycle_spec _ _ _ _ _ _ r hr⟩, rfl⟩))
          · exact Or.inl (Option.some.inj h).symm

section Files

/-- The granted calls of the cycle take file i out of NEW. -/
def Done.TakenOut (d : Done) (f : Bytes) (i : Inode) : Prop :=
  d.store f .new = some i ∧ ∃ a ∈ d.cycle.calls, TakesOut f a ∧ d.sys.grants a = true

/-- A server has accepted the mail that the cycle read from file i. -/
def Done.Accepted (d : Done) (f : Bytes) (i : Inode) : Prop :=
  d.store f .new = some i ∧
    ∃ k m p, d.cycle.world.mails[k]? = some m ∧ m.filename = f ∧ AcceptedBy d.cycle.world p k

/-- The state of the directories and of the history between two passes. -/
structure Orderly (c : Client) : Prop where
  settled : AllSettled myDomain c.store contents
  numbered : ∀ f i, c.store f .new = some i → i < c.nextInode
  known : ∀ d ∈ c.history, ∀ f i, d.store f .new = some i → i < c.nextInode
  gone : ∀ d ∈ c.history, ∀ f i, d.TakenOut f i → c.store f .new ≠ some i
  once : c.history.Pairwise fun d e => ∀ f i, d.TakenOut f i → e.store f .new ≠ some i
  local_mail : ∀ d ∈ c.history, ∀ m ∈ d.cycle.read, (∃ rcpt ∈ m.rcpts, rcpt.domain = myDomain) →
    (∀ a ∈ localActions myDomain m, d.sys.grants a = true) →
    ∃ i, d.store m.filename .new = some i ∧ c.store m.filename .cur = some i

theorem orderly_start (s : Store) (n : Inode)
    (h : ∀ f i, s f .new = some i → i < n ∧ s f .cur = none ∧ s f .notSent = none) :
    Orderly myDomain contents (.start s n) := by
  refine ⟨?_, fun f i hi => (h f i hi).1, ?_, ?_, List.Pairwise.nil, ?_⟩
  · intro f
    exact ⟨fun i hi => (h f i hi).2.2, fun i hi => Or.inl (h f i hi).2.1⟩
  all_goals
    intro d hd
    exact absurd hd List.not_mem_nil

/-- What an arrival does to the entries. -/
theorem arrive_cases (c : Client) (f : Bytes) :
    c.arrive f = c ∨ (c.store f .new = none ∧ (c.arrive f).nextInode = c.nextInode + 1 ∧
      (c.arrive f).history = c.history ∧
      (∀ g dir, ¬ (g = f ∧ dir = .new) → (c.arrive f).store g dir = c.store g dir) ∧
      (c.arrive f).store f .new = some c.nextInode) := by
  unfold Client.arrive
  split
  · rename_i hfree
    refine Or.inr ⟨hfree, rfl, rfl, ?_, ?_⟩
    · intro g dir hne
      by_cases hg : g = f
      · subst hg
        have hdir : dir ≠ .new := fun hdir => hne ⟨rfl, hdir⟩
        change Function.update c.store g _ g dir = _
        rw [Function.update_self, Function.update_of_ne hdir]
      · change Function.update c.store f _ g dir = _
        rw [Function.update_of_ne hg]
    · change Function.update c.store f _ f .new = _
      rw [Function.update_self, Function.update_self]
  · exact Or.inl rfl

/-- A file that arrives has a name that is neither in CUR nor in NOT_SENT. -/
def FreshName (c : Client) : Event → Prop
  | .arrive f => c.store f .cur = none ∧ c.store f .notSent = none
  | .pass _ => True

theorem orderly_arrive (c : Client) (f : Bytes) (h : Orderly myDomain contents c)
    (hfresh : FreshName c (.arrive f)) : Orderly myDomain contents (c.arrive f) := by
  obtain ⟨hcur, hnotSent⟩ := hfresh
  rcases arrive_cases c f with hsame | ⟨-, hnext, hhistory, hother, hnew⟩
  · rw [hsame]
    exact h
  · have hnumber : ∀ g i, (c.arrive f).store g .new = some i →
        c.store g .new = some i ∨ (g = f ∧ i = c.nextInode) := by
      intro g i hi
      by_cases hg : g = f
      · subst hg
        exact Or.inr ⟨rfl, Option.some.inj (hi.symm.trans hnew)⟩
      · rw [hother g .new fun hgf => hg hgf.1] at hi
        exact Or.inl hi
    refine ⟨?_, ?_, ?_, ?_, hhistory ▸ h.once, ?_⟩
    · intro g
      by_cases hg : g = f
      · subst hg
        refine ⟨fun i _ => ?_, fun i _ => Or.inl ?_⟩
        · rw [hother g .notSent fun hgf => by cases hgf.2]
          exact hnotSent
        · rw [hother g .cur fun hgf => by cases hgf.2]
          exact hcur
      · have hsame : (c.arrive f).store g = c.store g :=
          funext fun dir => hother g dir fun hgf => hg hgf.1
        rw [hsame]
        exact h.settled g
    · intro g i hi
      rw [hnext]
      rcases hnumber g i hi with hold | ⟨-, rfl⟩
      · exact Nat.lt_succ_of_lt (h.numbered g i hold)
      · exact Nat.lt_succ_self _
    · intro d hd g i hi
      rw [hnext]
      exact Nat.lt_succ_of_lt (h.known d (hhistory ▸ hd) g i hi)
    · intro d hd g i htaken hi
      rw [hhistory] at hd
      rcases hnumber g i hi with hold | ⟨-, rfl⟩
      · exact h.gone d hd g i htaken hold
      · exact Nat.lt_irrefl _ (h.known d hd g _ htaken.1)
    · intro d hd m hm hlocal hgrant
      obtain ⟨i, hi, hkept⟩ := h.local_mail d (hhistory ▸ hd) m hm hlocal hgrant
      rw [← hother m.filename .cur fun hgf => by cases hgf.2] at hkept
      exact ⟨i, hi, hkept⟩

/-- The state behind a cycle. -/
theorem orderly_cycle (c : Client) (d : Done) (n : ℕ) (h : Orderly myDomain contents c)
    (hstore : d.store = c.store) (hd : d.From myDomain timeout contents) :
    Orderly myDomain contents
      { c with store := d.cycle.store, openDirs := n, history := c.history ++ [d] } := by
  obtain ⟨hcontents, net, inps, hcycle⟩ := hd
  have hs : AllSettled myDomain d.store d.sys.contents := by
    rw [hstore, hcontents]
    exact h.settled
  obtain ⟨hsettled, hfate⟩ := cycle_fate d.sys myDomain net timeout inps d.store d.cycle hcycle hs
  have hkept : ∀ f i, d.cycle.store f .new = some i → c.store f .new = some i := by
    intro f i hi
    rcases (hfate f).nothing_new with hnone | hsame
    · rw [hnone] at hi
      cases hi
    · rw [← hstore, ← hsame]
      exact hi
  refine ⟨hcontents ▸ hsettled, fun f i hi => h.numbered f i (hkept f i hi), ?_, ?_, ?_, ?_⟩
  · intro e he f i hi
    rcases List.mem_append.mp he with he | he
    · exact h.known e he f i hi
    · obtain rfl := List.mem_singleton.mp he
      exact h.numbered f i (hstore ▸ hi)
  · intro e he f i htaken hi
    rcases List.mem_append.mp he with he | he
    · exact h.gone e he f i htaken (hkept f i hi)
    · obtain rfl := List.mem_singleton.mp he
      have hnone := (cycle_takesOut e.sys myDomain net timeout inps e.store e.cycle f hcycle hs i
        htaken.1).mpr htaken.2
      cases hnone.symm.trans hi
  · refine List.pairwise_append.mpr ⟨h.once, List.pairwise_singleton _ _, ?_⟩
    intro e he d' hd' f i htaken
    obtain rfl := List.mem_singleton.mp hd'
    rw [hstore]
    exact h.gone e he f i htaken
  · intro e he m hm hlocal hgrant
    rcases List.mem_append.mp he with he | he
    · obtain ⟨i, hi, hcur⟩ := h.local_mail e he m hm hlocal hgrant
      rw [← hstore] at hcur
      exact ⟨i, hi, (hfate m.filename).cur i hcur⟩
    · obtain rfl := List.mem_singleton.mp he
      exact cycle_local e.sys myDomain net timeout inps e.store e.cycle hcycle hs m hm hlocal hgrant

/-- What has become of the files from one state of a run to a later one. -/
structure Fates (c c' : Client) : Prop where
  cur : ∀ f i, c.store f .cur = some i → c'.store f .cur = some i
  notSent : ∀ f i, c.store f .notSent = some i → c'.store f .notSent = some i
  new : ∀ f i, c.store f .new = some i → c'.store f .new = some i ∨
    c'.store f .cur = some i ∨ c'.store f .notSent = some i ∨ ∃ d ∈ c'.history, d.Accepted f i
  history : c.history <+: c'.history

theorem Fates.refl (c : Client) : Fates c c :=
  ⟨fun _ _ h => h, fun _ _ h => h, fun _ _ h => Or.inl h, List.prefix_rfl⟩

theorem Fates.trans {a b c : Client} (h : Fates a b) (h' : Fates b c) : Fates a c := by
  refine ⟨fun f i hi => h'.cur f i (h.cur f i hi),
    fun f i hi => h'.notSent f i (h.notSent f i hi), ?_, h.history.trans h'.history⟩
  intro f i hi
  rcases h.new f i hi with hnew | hcur | hnotSent | ⟨d, hd, hacc⟩
  · exact h'.new f i hnew
  · exact Or.inr (Or.inl (h'.cur f i hcur))
  · exact Or.inr (Or.inr (Or.inl (h'.notSent f i hnotSent)))
  · exact Or.inr (Or.inr (Or.inr ⟨d, h'.history.subset hd, hacc⟩))

/-- An arrival changes no entry. -/
theorem arrive_kept (c : Client) (f g : Bytes) (dir : MaildirDir) (i : Inode)
    (hi : c.store g dir = some i) : (c.arrive f).store g dir = some i := by
  rcases arrive_cases c f with hsame | ⟨hnone, -, -, hother, -⟩
  · rw [hsame]
    exact hi
  · rw [hother g dir]
    · exact hi
    · rintro ⟨rfl, rfl⟩
      rw [hnone] at hi
      cases hi

theorem arrive_same (c : Client) (f : Bytes) :
    (c.arrive f).history = c.history ∧ (c.arrive f).openDirs = c.openDirs := by
  unfold Client.arrive
  split <;> exact ⟨rfl, rfl⟩

theorem fates_arrive (c : Client) (f : Bytes) : Fates c (c.arrive f) :=
  ⟨fun g => arrive_kept c f g .cur, fun g => arrive_kept c f g .notSent,
    fun g i hi => Or.inl (arrive_kept c f g .new i hi), (arrive_same c f).1 ▸ List.prefix_rfl⟩

theorem fates_cycle (c : Client) (d : Done) (n : ℕ) (h : Orderly myDomain contents c)
    (hstore : d.store = c.store) (hd : d.From myDomain timeout contents) :
    Fates c { c with store := d.cycle.store, openDirs := n, history := c.history ++ [d] } := by
  obtain ⟨hcontents, net, inps, hcycle⟩ := hd
  have hs : AllSettled myDomain d.store d.sys.contents := by
    rw [hstore, hcontents]
    exact h.settled
  obtain ⟨-, hfate⟩ := cycle_fate d.sys myDomain net timeout inps d.store d.cycle hcycle hs
  rw [hstore] at hfate
  refine ⟨fun f => (hfate f).cur, fun f => (hfate f).notSent, ?_, List.prefix_append _ _⟩
  intro f i hi
  rcases (hfate f).new i hi with hnew | hcur | hnotSent | hacc
  · exact Or.inl hnew
  · exact Or.inr (Or.inl hcur)
  · exact Or.inr (Or.inr (Or.inl hnotSent))
  · refine Or.inr (Or.inr (Or.inr ⟨d, ?_, hstore ▸ hi, hacc⟩))
    exact List.mem_append_right _ (List.mem_singleton_self d)

/-- Every step keeps the directories orderly and loses no file. -/
theorem clientStep_orderly (c c' : Client) (e : Event) (h : Orderly myDomain contents c)
    (hfresh : FreshName c e) (hstep : clientStep myDomain timeout limit contents c e = some c') :
    Orderly myDomain contents c' ∧ Fates c c' := by
  rcases clientStep_cases myDomain timeout limit contents c c' e hstep with
    rfl | rfl | ⟨f, rfl, rfl⟩ | ⟨d, -, hstore, hd, rfl⟩
  · exact ⟨h, .refl _⟩
  · exact ⟨⟨h.settled, h.numbered, h.known, h.gone, h.once, h.local_mail⟩,
      ⟨fun _ _ hi => hi, fun _ _ hi => hi, fun _ _ hi => Or.inl hi, List.prefix_rfl⟩⟩
  · exact ⟨orderly_arrive myDomain contents c f h hfresh, fates_arrive c f⟩
  · exact ⟨orderly_cycle myDomain timeout contents c d _ h hstore hd,
      fates_cycle myDomain timeout contents c d _ h hstore hd⟩

end Files

/-- A run of the client. -/
def clientRun : Client → List Event → Option Client :=
  run (clientStep myDomain timeout limit contents)

/-- All files of a run arrive under names that are neither in CUR nor in NOT_SENT then. -/
def FreshNames : Client → List Event → Prop :=
  RunAlong (clientStep myDomain timeout limit contents) FreshName

section Runs

variable (s : Store) (n : Inode) (before after : List Event) (c c' : Client)

/-- Fresh names keep the directories orderly, and no file is lost. -/
theorem orderly_run (events : List Event) (h : Orderly myDomain contents c)
    (hfresh : FreshNames myDomain timeout limit contents c events)
    (hc : clientRun myDomain timeout limit contents c events = some c') :
    Orderly myDomain contents c' ∧ Fates c c' :=
  run_relation_along Fates (Orderly myDomain contents) FreshName .refl (fun _ _ _ => Fates.trans)
    (fun a e b => clientStep_orderly myDomain timeout limit contents a b e) events c' h hfresh hc

/-- Over every run of the client no file gets lost, as long as files arrive under fresh
names and the files in NEW had their names to themselves at the start. What is in CUR or
NOT_SENT stays there, and a file that has come into NEW is in NEW, CUR or NOT_SENT, or some
cycle has read its mail and a server has accepted it. -/
theorem mail_fate
    (hstart : ∀ f i, s f .new = some i → i < n ∧ s f .cur = none ∧ s f .notSent = none)
    (hfresh : FreshNames myDomain timeout limit contents (.start s n) (before ++ after))
    (hc : clientRun myDomain timeout limit contents (.start s n) before = some c)
    (hc' : clientRun myDomain timeout limit contents c after = some c') (f : Bytes) (i : Inode) :
    (c.store f .cur = some i → c'.store f .cur = some i) ∧
    (c.store f .notSent = some i → c'.store f .notSent = some i) ∧
    (c.store f .new = some i → c'.store f .new = some i ∨ c'.store f .cur = some i ∨
      c'.store f .notSent = some i ∨ ∃ d ∈ c'.history, d.Accepted f i) := by
  obtain ⟨hbefore, hafter⟩ := runAlong_append _ _ FreshName before after hfresh
  obtain ⟨horderly, -⟩ := orderly_run myDomain timeout limit contents _ c before
    (orderly_start myDomain contents s n hstart) hbefore hc
  obtain ⟨-, hfates⟩ := orderly_run myDomain timeout limit contents c c' after horderly
    (hafter c hc) hc'
  exact ⟨hfates.cur f i, hfates.notSent f i, hfates.new f i⟩

/-- A file is transferred in one cycle only, unless the call that takes it out of NEW is
refused: once that call was granted, neither a later cycle nor the present state has the
file in NEW. -/
theorem transferred_once
    (hstart : ∀ f i, s f .new = some i → i < n ∧ s f .cur = none ∧ s f .notSent = none)
    (hfresh : FreshNames myDomain timeout limit contents (.start s n) before)
    (hc : clientRun myDomain timeout limit contents (.start s n) before = some c)
    (earlier later : List Done) (d : Done) (hd : c.history = earlier ++ d :: later)
    (f : Bytes) (i : Inode) (htaken : d.TakenOut f i) :
    (∀ e ∈ later, e.store f .new ≠ some i) ∧ c.store f .new ≠ some i := by
  obtain ⟨horderly, -⟩ := orderly_run myDomain timeout limit contents _ c before
    (orderly_start myDomain contents s n hstart) hfresh hc
  have honce := horderly.once
  rw [hd] at honce
  constructor
  · intro e he
    exact (List.pairwise_cons.mp (List.pairwise_append.mp honce).2.1).1 e he f i htaken
  · exact horderly.gone d (by rw [hd]; simp) f i htaken

/-- Mail for local recipients is kept: when the call that brings it to CUR is granted in
the cycle that reads it, its file is in CUR ever after. -/
theorem local_mail_kept
    (hstart : ∀ f i, s f .new = some i → i < n ∧ s f .cur = none ∧ s f .notSent = none)
    (hfresh : FreshNames myDomain timeout limit contents (.start s n) before)
    (hc : clientRun myDomain timeout limit contents (.start s n) before = some c)
    (d : Done) (hd : d ∈ c.history) (m : Mail) (hm : m ∈ d.cycle.read)
    (hlocal : ∃ rcpt ∈ m.rcpts, rcpt.domain = myDomain)
    (hgrant : ∀ a ∈ localActions myDomain m, d.sys.grants a = true) :
    ∃ i, d.store m.filename .new = some i ∧ c.store m.filename .cur = some i := by
  obtain ⟨horderly, -⟩ := orderly_run myDomain timeout limit contents _ c before
    (orderly_start myDomain contents s n hstart) hfresh hc
  exact horderly.local_mail d hd m hm hlocal hgrant

end Runs

section Handles

/-- The cycle has read no mail. -/
def Done.unread (d : Done) : Bool := d.cycle.read.isEmpty

/-- What has become of the directory handles from one state of a run to a later one. -/
def HandlesLost (c c' : Client) : Prop :=
  ∃ more, c'.history = c.history ++ more ∧
    c'.openDirs = c.openDirs + more.countP Done.unread ∧
    (c.openDirs ≤ limit → c'.openDirs ≤ limit) ∧ (limit ≤ c.openDirs → more = [])

theorem HandlesLost.refl (c : Client) : HandlesLost limit c c :=
  ⟨[], (List.append_nil _).symm, rfl, id, fun _ => rfl⟩

theorem HandlesLost.trans {a b c : Client} (h : HandlesLost limit a b)
    (h' : HandlesLost limit b c) : HandlesLost limit a c := by
  obtain ⟨more, hhistory, hopen, hle, hfull⟩ := h
  obtain ⟨more', hhistory', hopen', hle', hfull'⟩ := h'
  refine ⟨more ++ more', ?_, ?_, fun hlimit => hle' (hle hlimit), ?_⟩
  · rw [hhistory', hhistory, List.append_assoc]
  · rw [hopen', hopen, List.countP_append, Nat.add_assoc]
  · intro hlimit
    rw [hfull hlimit, List.nil_append]
    apply hfull'
    omega

theorem clientStep_handlesLost (c c' : Client) (e : Event)
    (h : clientStep myDomain timeout limit contents c e = some c') : HandlesLost limit c c' := by
  rcases clientStep_cases myDomain timeout limit contents c c' e h with
    rfl | rfl | ⟨f, -, rfl⟩ | ⟨d, hopen, -, -, rfl⟩
  · exact .refl limit c'
  · exact ⟨[], (List.append_nil _).symm, rfl, id, fun _ => rfl⟩
  · obtain ⟨hhistory, hopen⟩ := arrive_same c f
    exact ⟨[], by rw [hhistory, List.append_nil], hopen, fun hle => hopen ▸ hle, fun _ => rfl⟩
  · refine ⟨[d], rfl, ?_, ?_, fun hfull => absurd hopen (Nat.not_lt.mpr hfull)⟩
    · rw [List.countP_singleton]
      cases hread : d.cycle.read <;> simp [Done.unread, hread]
    · intro _
      dsimp only
      split <;> omega

/-- Every cycle that reads no mail leaves a directory open for good, and when no handle
is left the client never runs a cycle again, whatever arrives. -/
theorem handles_lost (c c' : Client) (events : List Event)
    (h : clientRun myDomain timeout limit contents c events = some c') :
    HandlesLost limit c c' := by
  refine run_relation (HandlesLost limit) (fun _ => True) (.refl limit)
    (fun a b d => HandlesLost.trans limit) ?_ events c' trivial h
  intro a e b _ hstep
  exact ⟨trivial, clientStep_handlesLost myDomain timeout limit contents a b e hstep⟩

/-- A pass that finds files in NEW and can open none of them. -/
structure Unreadable (p : LoopInput) : Prop where
  quitKey : p.quitKey = false
  counted : ∃ f fs, p.counted = some (f :: fs)
  opensNew : p.opensNew = true
  opens : ∀ f ∈ p.sys.names, p.sys.opens f = false

theorem readMails_of_unopened (sys : System) (s : Store) (fs : List Bytes)
    (h : ∀ f ∈ fs, sys.opens f = false) : readMails sys s fs = ([], [], s) := by
  induction fs with
  | nil => rfl
  | cons f fs ih =>
    rw [List.forall_mem_cons] at h
    have hfile : fileOf sys s f = (none, []) := by
      unfold fileOf contentOf
      rw [h.1]
      rfl
    rw [readMails, hfile]
    change (_ ++ (readMails sys s fs).1, _ ++ (readMails sys s fs).2.1, (readMails sys s fs).2.2) = _
    rw [ih h.2]
    rfl

/-- Such a pass costs a handle, and does nothing else. -/
theorem clientStep_unreadable (c : Client) (p : LoopInput) (hp : Unreadable p)
    (hc : c.stopped = false) :
    ∃ c', clientStep myDomain timeout limit contents c (.pass p) = some c' ∧
      c'.store = c.store ∧ c'.stopped = false ∧
      c'.openDirs = if c.openDirs < limit then c.openDirs + 1 else c.openDirs := by
  obtain ⟨f, fs, hcounted⟩ := hp.counted
  simp only [clientStep, hc, Bool.false_eq_true, if_false, smtpClientLoopPass, hp.quitKey,
    newMailExist, hcounted, Option.getD_some, transferMail, hp.opensNew, and_true]
  by_cases hopen : c.openDirs < limit
  · have hcycle : cycle { p.sys with contents := contents } myDomain p.net timeout p.inps c.store =
        some ⟨[], [], c.store, emptyWorld⟩ := by
      rw [cycle_eq]
      simp only [readMails_of_unopened { p.sys with contents := contents } c.store p.sys.names
        hp.opens, if_true]
    simp [hopen, hcycle]
  · simp [hopen, hc]

/-- Without a handle the client runs no cycle and takes no file out of NEW. -/
theorem full_stays (c c' : Client) (events : List Event) (hfull : limit ≤ c.openDirs)
    (h : clientRun myDomain timeout limit contents c events = some c') :
    c'.history = c.history ∧ ∀ f i, c.store f .new = some i → c'.store f .new = some i := by
  have hstays : limit ≤ c'.openDirs ∧ c'.history = c.history ∧
      ∀ f i, c.store f .new = some i → c'.store f .new = some i := by
    apply run_invariant (fun b : Client => limit ≤ b.openDirs ∧ b.history = c.history ∧
      ∀ f i, c.store f .new = some i → b.store f .new = some i) _ events c'
      ⟨hfull, rfl, fun _ _ hi => hi⟩ h
    intro a e b ha hstep
    rcases clientStep_cases myDomain timeout limit contents a b e hstep with
      rfl | rfl | ⟨f, -, rfl⟩ | ⟨d, hopen, -⟩
    · exact ha
    · exact ha
    · obtain ⟨hhistory, hopen⟩ := arrive_same a f
      exact ⟨hopen ▸ ha.1, hhistory.trans ha.2.1,
        fun g i hi => arrive_kept a f g .new i (ha.2.2 g i hi)⟩
    · exact absurd hopen (Nat.not_lt.mpr ha.1)
  exact hstays.2

/-- A file in NEW that cannot be opened uses up one handle in each pass until none is
left. From then on the client does nothing: it runs no cycle, and every file of NEW
stays where it is. -/
theorem unreadable_stops (c : Client) (passes : List LoopInput)
    (hpasses : ∀ p ∈ passes, Unreadable p) (hc : c.stopped = false) (hle : c.openDirs ≤ limit) :
    ∃ c', clientRun myDomain timeout limit contents c (passes.map .pass) = some c' ∧
      c'.store = c.store ∧ c'.openDirs = min limit (c.openDirs + passes.length) ∧
      (limit ≤ c.openDirs + passes.length → ∀ events c'',
        clientRun myDomain timeout limit contents c' events = some c'' →
        c''.history = c'.history ∧
          ∀ f i, c'.store f .new = some i → c''.store f .new = some i) := by
  have hrun : ∃ c', clientRun myDomain timeout limit contents c (passes.map .pass) = some c' ∧
      c'.store = c.store ∧ c'.openDirs = min limit (c.openDirs + passes.length) := by
    induction passes generalizing c with
    | nil => exact ⟨c, rfl, rfl, (min_eq_right hle).symm⟩
    | cons p passes ih =>
      rw [List.forall_mem_cons] at hpasses
      obtain ⟨c₁, hstep, hstore, hgoes, hopen⟩ :=
        clientStep_unreadable myDomain timeout limit contents c p hpasses.1 hc
      have hle₁ : c₁.openDirs ≤ limit := by
        rw [hopen]
        split <;> omega
      obtain ⟨c', hrun, hstore', hopen'⟩ := ih c₁ hpasses.2 hgoes hle₁
      refine ⟨c', ?_, hstore'.trans hstore, ?_⟩
      · rw [List.map_cons, clientRun, run_cons, hstep]
        exact hrun
      · rw [hopen', hopen, List.length_cons]
        split <;> omega
  obtain ⟨c', hrun, hstore, hopen⟩ := hrun
  refine ⟨c', hrun, hstore, hopen, ?_⟩
  intro hfull events c'' hc''
  apply full_stays myDomain timeout limit contents c' c'' events _ hc''
  omega

end Handles

section Example

/-- A pass that finds one file on a system where every call succeeds and no MX is reached. -/
def noMx : LoopInput := ⟨false, some [bytes "1"], true, willing, netReaching fun _ => none, []⟩

/-- A pass that finds the same file and cannot open it. -/
def noFile : LoopInput :=
  ⟨false, some [bytes "1"], true, { willing with opens := fun _ => false },
    netReaching fun _ => none, []⟩

def emptyClient : Client := .start (fun _ _ => none) 0

/-- A mail for the local domain and another one arrives, and no server takes it. -/
def mixedRun : Option Client :=
  clientRun (bytes "b") 60 8 (fun _ => mixedFile) emptyClient [.arrive (bytes "1"), .pass noMx]

theorem mixedRun_calls :
    mixedRun.map (fun c => c.history.map fun d =>
      (d.store (bytes "1") .new, d.cycle.calls, d.cycle.calls.map d.sys.grants)) =
    some [(some 0, [.copyMail (bytes "1") .new .cur, .moveMail (bytes "1") .new .notSent],
      [true, true])] := by
  decide +kernel

theorem mixedRun_read :
    mixedRun.map (fun c => c.history.map fun d => d.cycle.read.map fun m =>
      m.rcpts.any (isLocal (bytes "b")) && (localActions (bytes "b") m).all d.sys.grants) =
    some [[true]] := by
  decide +kernel

theorem emptyClient_orderly (f : Bytes) (i : Inode)
    (h : (fun _ _ => none : Store) f .new = some i) :
    i < 0 ∧ (fun _ _ => none : Store) f .cur = none ∧
      (fun _ _ => none : Store) f .notSent = none := by
  cases h

theorem emptyClient_fresh (f : Bytes) (p : LoopInput) :
    FreshNames (bytes "b") 60 8 (fun _ => mixedFile) emptyClient [.arrive f, .pass p] :=
  ⟨⟨rfl, rfl⟩, fun _ _ => ⟨trivial, fun _ _ => trivial⟩⟩

theorem mail_fate_mixedFile :
    ∃ c c', clientRun (bytes "b") 60 8 (fun _ => mixedFile) emptyClient [.arrive (bytes "1")] =
        some c ∧
      clientRun (bytes "b") 60 8 (fun _ => mixedFile) c [.pass noMx] = some c' ∧
      (c'.store (bytes "1") .new = some 0 ∨ c'.store (bytes "1") .cur = some 0 ∨
        c'.store (bytes "1") .notSent = some 0 ∨ ∃ d ∈ c'.history, d.Accepted (bytes "1") 0) := by
  obtain ⟨c', hc', -⟩ := Option.map_eq_some_iff.mp mixedRun_calls
  obtain ⟨c, hc, hafter⟩ := exists_run_of_append (clientStep (bytes "b") 60 8 fun _ => mixedFile)
    emptyClient [.arrive (bytes "1")] [.pass noMx] c' hc'
  obtain ⟨-, -, hnew⟩ := mail_fate (bytes "b") 60 8 (fun _ => mixedFile) _ _
    [.arrive (bytes "1")] [.pass noMx] c c' emptyClient_orderly (emptyClient_fresh (bytes "1") noMx)
    hc hafter (bytes "1") 0
  refine ⟨c, c', hc, hafter, hnew ?_⟩
  obtain rfl := Option.some.inj hc
  rfl

theorem transferred_once_mixedFile :
    ∃ c, mixedRun = some c ∧ c.store (bytes "1") .new ≠ some 0 := by
  obtain ⟨c, hc, hobs⟩ := Option.map_eq_some_iff.mp mixedRun_calls
  obtain ⟨d, later, hd, hfirst, hlater⟩ := List.map_eq_cons_iff.mp hobs
  obtain ⟨hstore, hcalls⟩ := Prod.mk.inj hfirst
  obtain ⟨hcalls, hgrants⟩ := Prod.mk.inj hcalls
  have htaken : d.TakenOut (bytes "1") 0 := by
    refine ⟨hstore, .moveMail (bytes "1") .new .notSent, ?_, Or.inr (Or.inr rfl), ?_⟩
    · rw [hcalls]
      decide
    · rw [hcalls] at hgrants
      exact (List.cons.inj (List.cons.inj hgrants).2).1
  obtain ⟨-, hgone⟩ := transferred_once (bytes "b") 60 8 (fun _ => mixedFile) _ _ _ c
    emptyClient_orderly (emptyClient_fresh (bytes "1") noMx) hc [] later d hd (bytes "1") 0 htaken
  exact ⟨c, hc, hgone⟩

theorem local_mail_kept_mixedFile :
    ∃ c d m i, mixedRun = some c ∧ d ∈ c.history ∧ m ∈ d.cycle.read ∧
      c.store m.filename .cur = some i := by
  obtain ⟨c, hc, hobs⟩ := Option.map_eq_some_iff.mp mixedRun_read
  obtain ⟨d, later, hd, hfirst, -⟩ := List.map_eq_cons_iff.mp hobs
  obtain ⟨m, rest, hm, htrue, -⟩ := List.map_eq_cons_iff.mp hfirst
  obtain ⟨hlocal, hgrants⟩ := Bool.and_eq_true_iff.mp htrue
  have hdmem : d ∈ c.history := hd ▸ List.mem_cons_self
  have hmmem : m ∈ d.cycle.read := hm ▸ List.mem_cons_self
  obtain ⟨rcpt, hmem, hrcpt⟩ := List.any_eq_true.mp hlocal
  obtain ⟨i, -, hi⟩ := local_mail_kept (bytes "b") 60 8 (fun _ => mixedFile) _ _ _ c
    emptyClient_orderly (emptyClient_fresh (bytes "1") noMx) hc d hdmem m hmmem
    ⟨rcpt, hmem, of_decide_eq_true hrcpt⟩ (List.all_eq_true.mp hgrants)
  exact ⟨c, d, m, i, hc, hdmem, hmmem, hi⟩

/-- A file arrives that the first pass cannot open and the second one reads. -/
def latelyRead : Option Client :=
  clientRun (bytes "b") 60 8 (fun _ => mixedFile) emptyClient
    [.arrive (bytes "1"), .pass noFile, .pass noMx]

theorem latelyRead_openDirs :
    latelyRead.map (fun c => (c.openDirs, c.history.map Done.unread)) = some (1, [true, false]) := by
  decide +kernel

/-- The first of the two cycles has cost a handle. -/
theorem handles_lost_latelyRead :
    ∃ c, latelyRead = some c ∧ c.openDirs = 1 ∧ HandlesLost 8 emptyClient c := by
  obtain ⟨c, hc, hobs⟩ := Option.map_eq_some_iff.mp latelyRead_openDirs
  exact ⟨c, hc, (Prod.mk.inj hobs).1,
    handles_lost (bytes "b") 60 8 (fun _ => mixedFile) emptyClient c _ hc⟩

theorem unreadable_stops_noFile :
    ∃ c', clientRun (bytes "b") 60 1 (fun _ => mixedFile) emptyClient [.pass noFile] = some c' ∧
      c'.openDirs = 1 := by
  have hpasses : ∀ p ∈ [noFile], Unreadable p := by
    refine List.forall_mem_singleton.mpr ⟨rfl, ⟨_, _, rfl⟩, rfl, ?_⟩
    intro f _
    rfl
  obtain ⟨c', hc', -, hopen, -⟩ := unreadable_stops (bytes "b") 60 1 (fun _ => mixedFile)
    emptyClient [noFile] hpasses rfl (Nat.zero_le 1)
  exact ⟨c', hc', hopen⟩

end Example

end SmtpClient.ClientLoop
