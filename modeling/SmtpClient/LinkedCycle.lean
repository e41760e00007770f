import SmtpClient.ClientLoop
import SmtpClient.LinkedCleanup

/-!
Whole runs of the client in memory. read_all_mail builds the queue of mails element by
element and frees what it has built of a file with wrong syntax, and the transfer of the
queue and conn_final follow. Each pass of the client does on the structures in memory
what it does on lists, and leaves none of them behind.
-/
namespace SmtpClient.LinkedCycle

open MailTypes Maildir LineReading TailQueues QueueCursors LocalFiltering Regexp KeyedSteps
open MailStore MxLookup Connections EventLoop MailCycle ClientLoop LinkedTransfer LinkedRefinement
open LinkedCleanup Conservation

/-- The loop of read_mail_to: the count, the structures allocated so far, the queue of
recipients and the rest of the file. -/
structure ToLoop where
  count : ℕ
  mallocs : ℕ
  rcpts : TailQueue ℕ Rcpt
  rest : Bytes

/-- What read_mail_file returns and does, with what free_mail leaves of the recipients. -/
structure FileLoop where
  mail : Option (ℕ × MailNode)
  mallocs : ℕ
  actions : List FileAction
  rests : List (TailQueue ℕ Rcpt)

/-- The loop of read_all_mail. -/
structure Reading where
  ml : TailQueue ℕ MailNode
  success : ℕ
  mallocs : ℕ
  actions : List FileAction
  store : Store
  rests : List (TailQueue ℕ Rcpt)

section Definitions

variable (sys : System) (n : ℕ) (alloc : ℕ → ℕ)

/-- read_mail_to along the lines of the file; the number bounds the lines. -/
def readMailToQueueN : ℕ → ToLoop → Option ToLoop
  | 0, a => some { a with count := 0 }
  | passes + 1, a =>
    match fgets newline 500 a.rest with
    | none => some { a with count := 0 }
    | some (buf, rest) =>
      if reMatch .reData (cstr buf) then some { a with rest := rest }
      else if reMatch .reRcptTo (cstr buf) then
        (a.rcpts.insertTail (alloc a.mallocs) (rcptOfLine buf)).bind fun rcpts =>
          readMailToQueueN passes ⟨a.count + 1, a.mallocs + 1, rcpts, rest⟩
      else some { a with count := 0, rest := rest }

/-- The mail is allocated first. What was not read is empty. -/
def readMailNode (filename : Bytes) (content : Option Bytes) (mallocs : ℕ) : Option FileLoop :=
  match content with
  | none => some ⟨none, mallocs, [], []⟩
  | some f => do
    let start := readMailFrom f
    let a ← readMailToQueueN alloc (start.2.length + 1) ⟨0, mallocs + 1, .init, start.2⟩
    let data := readMailData a.rest
    let node : MailNode := ⟨start.1.getD [], a.rcpts, (data.map cstr).getD [], filename⟩
    if start.1.isSome ∧ a.count ≠ 0 ∧ data.isSome then
      return ⟨some (alloc mallocs, node), a.mallocs, [], []⟩
    else
      let rest ← freeMail n node
      return ⟨none, a.mallocs, [.moveMail filename .new .notSent], [rest]⟩

def Reading.visit (a : Reading) (filename : Bytes) : Option Reading := do
  let r ← readMailNode n alloc filename (contentOf sys a.store filename) a.mallocs
  let a : Reading := { a with
    mallocs := r.mallocs
    actions := a.actions ++ r.actions
    store := r.actions.foldl (perform sys) a.store
    rests := a.rests ++ r.rests }
  match r.mail with
  | none => return a
  | some (m, node) =>
    let ml ← a.ml.insertTail m node
    return { a with ml := ml, success := a.success + 1 }

/-- The loop of read_all_mail over the names that readdir reports. -/
def readAllMail (s : Store) : Option Reading :=
  sys.names.foldlM (Reading.visit sys n alloc) ⟨.init, 0, 0, [], s, []⟩

end Definitions

/-- The bytes of the files with these names. -/
def bytesIn (sys : System) (s : Store) (names : List Bytes) : ℕ :=
  (names.flatMap fun f => (contentOf sys s f).getD []).length

/-- As many passes are enough for every loop of a cycle. -/
def loopBound (sys : System) (s : Store) : ℕ := sys.names.length + bytesIn sys s sys.names

section Reading

variable {sys : System} {n k : ℕ} {alloc : ℕ → ℕ}

/-- All these elements lie at addresses that were allocated before. -/
def Before {E : Type*} (alloc : ℕ → ℕ) (k : ℕ) (l : List (ℕ × E)) : Prop :=
  ∀ a ∈ l.map Prod.fst, ∃ i < k, alloc i = a

theorem Before.fresh {E : Type*} {l : List (ℕ × E)} (h : Before alloc k l)
    (hinj : alloc.Injective) : alloc k ∉ l.map Prod.fst := by
  intro hk
  obtain ⟨i, hi, heq⟩ := h _ hk
  exact absurd (hinj heq) (Nat.ne_of_lt hi)

theorem Before.mono {E : Type*} {l : List (ℕ × E)} {k' : ℕ} (h : Before alloc k l) (hk : k ≤ k') :
    Before alloc k' l := by
  intro a ha
  obtain ⟨i, hi, heq⟩ := h a ha
  exact ⟨i, hi.trans_le hk, heq⟩

theorem Before.concat {E : Type*} {l : List (ℕ × E)} {k' : ℕ} (h : Before alloc k l)
    (hk : k < k') (x : E) : Before alloc k' (l ++ [(alloc k, x)]) := by
  intro a ha
  rw [List.map_append, List.mem_append] at ha
  rcases ha with ha | ha
  · exact h.mono (Nat.le_of_lt hk) a ha
  · exact ⟨k, hk, (List.mem_singleton.mp ha).symm⟩

theorem fgets_rest_lt {f buf rest : Bytes} (h : fgets newline 500 f = some (buf, rest)) :
    rest.length < f.length := by
  unfold fgets at h
  split at h
  · cases h
  · rename_i hne
    obtain ⟨-, rfl⟩ := Prod.mk.inj (Option.some.inj h)
    exact takeLine_snd_length newline _ f (by decide) hne

/-- The recipients are stored in the order of their lines. -/
theorem readMailToQueueN_spec (hinj : alloc.Injective) (passes : ℕ) (a : ToLoop)
    (l : List (ℕ × Rcpt)) (h : Owns a.rcpts l) (hbefore : Before alloc a.mallocs l)
    (hcount : a.count = l.length) :
    ∃ a' l', readMailToQueueN alloc passes a = some a' ∧ Owns a'.rcpts l' ∧
      a.mallocs ≤ a'.mallocs ∧ l'.length + a'.rest.length ≤ l.length + a.rest.length ∧
      readMailToN passes a.rest (l.map Prod.snd) = (a'.count, l'.map Prod.snd, a'.rest) := by
  induction passes generalizing a l with
  | zero => exact ⟨_, l, rfl, h, Nat.le_refl _, Nat.le_refl _, rfl⟩
  | succ passes ih =>
    rw [readMailToQueueN, readMailToN]
    cases hget : fgets newline 500 a.rest with
    | none => exact ⟨_, l, rfl, h, Nat.le_refl _, Nat.le_refl _, rfl⟩
    | some line =>
      obtain ⟨buf, rest⟩ := line
      have hlt := fgets_rest_lt hget
      dsimp only
      by_cases hdata : reMatch .reData (cstr buf) = true
      · rw [if_pos hdata, if_pos hdata]
        refine ⟨_, l, rfl, h, Nat.le_refl _, ?_, ?_⟩
        · dsimp only
          omega
        · rw [List.length_map, hcount]
      · rw [if_neg hdata, if_neg hdata]
        by_cases hto : reMatch .reRcptTo (cstr buf) = true
        · rw [if_pos hto, if_pos hto]
          obtain ⟨rcpts, hinsert, hrcpts⟩ :=
            h.insertTail (alloc a.mallocs) (rcptOfLine buf) (hbefore.fresh hinj)
          obtain ⟨a', l', hread, hl', hmallocs, hlen, hlist⟩ := ih
            ⟨a.count + 1, a.mallocs + 1, rcpts, rest⟩ _ hrcpts (hbefore.concat (Nat.lt_succ_self _) _)
            (by rw [List.length_append, List.length_singleton, hcount])
          rw [List.map_append, List.map_singleton] at hlist
          rw [hinsert, Option.bind_some]
          refine ⟨a', l', hread, hl', (Nat.le_succ _).trans hmallocs, ?_, hlist⟩
          rw [List.length_append, List.length_singleton] at hlen
          dsimp only at hlen
          omega
        · rw [if_neg hto, if_neg hto]
          refine ⟨_, l, rfl, h, Nat.le_refl _, ?_, rfl⟩
          dsimp only
          omega

theorem length_readMailFrom_le (f : Bytes) : (readMailFrom f).2.length ≤ f.length := by
  unfold readMailFrom
  cases hget : fgets newline 500 f with
  | none => exact Nat.le_refl _
  | some line =>
    obtain ⟨buf, rest⟩ := line
    have hlt := fgets_rest_lt hget
    dsimp only
    split <;> exact Nat.le_of_lt hlt

/-- What read_mail_file has built: a mail at the address that was allocated first, whose
file has a byte for every recipient at least. -/
structure Built (alloc : ℕ → ℕ) (mallocs : ℕ) (content : Option Bytes) (r : FileLoop)
    (x : MailAt) : Prop where
  ptr : x.ptr = alloc mallocs
  mallocs : mallocs < r.mallocs
  rcpts : x.rcpts.length ≤ (content.getD []).length

/-- A mail is built as on lists. Nothing is left of one with wrong syntax. -/
theorem readMailNode_spec (hinj : alloc.Injective) (filename : Bytes) (content : Option Bytes)
    (mallocs : ℕ) (hn : (content.getD []).length ≤ n) :
    ∃ (r : FileLoop) (built : Option MailAt), readMailNode n alloc filename content mallocs = some r ∧
      r.mail = built.map MailAt.cell ∧
      readMailFile filename content = (built.map MailAt.mail, r.actions) ∧
      mallocs ≤ r.mallocs ∧ (∀ x ∈ built, Built alloc mallocs content r x) ∧
      ∀ q ∈ r.rests, ∀ a, q.cells a = none := by
  cases content with
  | none =>
    refine ⟨_, none, rfl, rfl, rfl, Nat.le_refl _, ?_, ?_⟩
    · intro x hx
      cases hx
    · intro q hq
      cases hq
  | some f =>
    obtain ⟨a, l, hread, hrcpts, hmallocs, hlen, hlist⟩ := readMailToQueueN_spec hinj
      ((readMailFrom f).2.length + 1) ⟨0, mallocs + 1, .init, (readMailFrom f).2⟩ [] owns_init
      (fun _ ha => absurd ha List.not_mem_nil) rfl
    have hfrom := length_readMailFrom_le f
    rw [List.length_nil] at hlen
    dsimp only [Option.getD_some] at hn hlen hmallocs
    let x : MailAt := ⟨alloc mallocs, ⟨(readMailFrom f).1.getD [], a.rcpts,
      ((readMailData a.rest).map cstr).getD [], filename⟩, l, hrcpts⟩
    obtain ⟨rest, hfree, hempty⟩ := freeMail_spec (n := n) x (by dsimp only [x]; omega)
    have hheader : readMailTo (readMailFrom f).2 = (a.count, l.map Prod.snd, a.rest) := hlist
    by_cases hgood : (readMailFrom f).1.isSome ∧ a.count ≠ 0 ∧ (readMailData a.rest).isSome
    · refine ⟨⟨some (alloc mallocs, x.node), a.mallocs, [], []⟩, some x, ?_, rfl, ?_,
        by dsimp only; omega, ?_, ?_⟩
      · unfold readMailNode
        simp only [hread, Option.bind_eq_bind, Option.bind_some, if_pos hgood]
        rfl
      · obtain ⟨hline, hcount, hdata⟩ := hgood
        obtain ⟨fromLine, hline⟩ := Option.isSome_iff_exists.mp hline
        obtain ⟨msg, hdata⟩ := Option.isSome_iff_exists.mp hdata
        unfold readMailFile
        simp only [hheader, hline, hdata, if_neg hcount]
        simp [x, MailAt.mail, hline, hdata]
      · intro y hy
        obtain rfl := Option.some.inj hy
        exact ⟨rfl, by dsimp only; omega, by dsimp only [x, Option.getD_some]; omega⟩
      · intro q hq
        cases hq
    · refine ⟨⟨none, a.mallocs, [.moveMail filename .new .notSent], [rest]⟩, none, ?_, rfl, ?_,
        by dsimp only; omega, ?_, ?_⟩
      · have hfree' : freeMail n ⟨(readMailFrom f).1.getD [], a.rcpts,
            ((readMailData a.rest).map cstr).getD [], filename⟩ = some rest := hfree
        unfold readMailNode
        simp only [hread, hfree', Option.bind_eq_bind, Option.bind_some, if_neg hgood]
        rfl
      · unfold readMailFile
        simp only [hheader]
        split
        · rename_i fromLine msg hline hdata
          have hcount : a.count = 0 := by
            by_contra hcount
            exact hgood ⟨Option.isSome_of_eq_some hline, hcount, Option.isSome_of_eq_some hdata⟩
          rw [if_pos hcount]
          rfl
        · rfl
      · intro y hy
        cases hy
      · intro q hq
        obtain rfl := List.mem_singleton.mp hq
        exact hempty

/-- The queue while read_all_mail reads. -/
structure Collected (alloc : ℕ → ℕ) (xs : List MailAt) (a : Reading) : Prop where
  mails : Owns a.ml (xs.map MailAt.cell)
  success : a.success = xs.length
  before : Before alloc a.mallocs (xs.map MailAt.cell)
  rests : ∀ q ∈ a.rests, ∀ b, q.cells b = none

theorem visit_spec {xs : List MailAt} {a : Reading} (hinj : alloc.Injective)
    (h : Collected alloc xs a) (filename : Bytes)
    (hn : ((contentOf sys a.store filename).getD []).length ≤ n) :
    ∃ (a' : Reading) (built : Option MailAt), a.visit sys n alloc filename = some a' ∧
      Collected alloc (xs ++ built.toList) a' ∧
      built.map MailAt.mail = (fileOf sys a.store filename).1 ∧
      a'.actions = a.actions ++ (fileOf sys a.store filename).2 ∧
      a'.store = (fileOf sys a.store filename).2.foldl (perform sys) a.store ∧
      ∀ x ∈ built, x.rcpts.length ≤ ((contentOf sys a.store filename).getD []).length := by
  obtain ⟨r, built, hread, hmail, hfile, hmallocs, hbuilt, hrests⟩ :=
    readMailNode_spec hinj filename (contentOf sys a.store filename) a.mallocs hn
  have hleft : ∀ q ∈ a.rests ++ r.rests, ∀ b, q.cells b = none := by
    intro q hq
    rcases List.mem_append.mp hq with hq | hq
    · exact h.rests q hq
    · exact hrests q hq
  unfold Reading.visit fileOf
  rw [hread, hfile]
  cases built with
  | none =>
    simp only [Option.bind_eq_bind, Option.bind_some, hmail, Option.map_none]
    refine ⟨_, none, rfl, ⟨?_, ?_, ?_, hleft⟩, rfl, rfl, rfl, ?_⟩
    · simpa using h.mails
    · simpa using h.success
    · simpa using h.before.mono hmallocs
    · intro x hx
      cases hx
  | some x =>
    have hx := hbuilt x rfl
    have hcell : x.cell = (alloc a.mallocs, x.node) := by rw [MailAt.cell, hx.ptr]
    obtain ⟨ml, hinsert, hml⟩ :=
      h.mails.insertTail (alloc a.mallocs) x.node (h.before.fresh hinj)
    simp only [Option.bind_eq_bind, Option.bind_some, hmail, Option.map_some, hcell, hinsert]
    refine ⟨_, some x, rfl, ⟨?_, ?_, ?_, hleft⟩, rfl, rfl, rfl, ?_⟩
    · rw [List.map_append, Option.toList_some, List.map_singleton, hcell]
      exact hml
    · rw [List.length_append, Option.toList_some, List.length_singleton, ← h.success]
    · rw [List.map_append, Option.toList_some, List.map_singleton, hcell]
      exact h.before.concat hx.mallocs x.node
    · intro y hy
      obtain rfl := Option.some.inj hy
      exact hx.rcpts

/-- What is done for one file does not change another one. -/
theorem contentOf_behind (s : Store) (f g : Bytes) (hne : f ≠ g) :
    contentOf sys ((fileOf sys s f).2.foldl (perform sys) s) g = contentOf sys s g := by
  have hentries : (fileOf sys s f).2.foldl (perform sys) s g = s g := by
    rw [foldl_perform, ofKey_eq_nil]
    · rfl
    · intro a ha hname
      exact hne ((readMailFile_filename f _ a ha).symm.trans hname)
  unfold contentOf
  rw [hentries]

theorem bytesIn_behind (s : Store) (f : Bytes) (names : List Bytes) (hf : f ∉ names) :
    bytesIn sys ((fileOf sys s f).2.foldl (perform sys) s) names = bytesIn sys s names := by
  unfold bytesIn
  congr 1
  apply List.flatMap_congr
  intro g hg
  have hne : f ≠ g := by
    rintro rfl
    exact hf hg
  rw [contentOf_behind s f g hne]

/-- The queue is built as the list of mails is. -/
theorem readNames_spec (hinj : alloc.Injective) (names : List Bytes) (hnodup : names.Nodup)
    (xs : List MailAt) (a : Reading) (h : Collected alloc xs a)
    (hn : bytesIn sys a.store names ≤ n) :
    ∃ a' ys acts, names.foldlM (Reading.visit sys n alloc) a = some a' ∧
      Collected alloc (xs ++ ys) a' ∧
      readMails sys a.store names = (ys.map MailAt.mail, acts, a'.store) ∧
      a'.actions = a.actions ++ acts ∧ ys.length ≤ names.length ∧
      (ys.flatMap MailAt.rcpts).length ≤ bytesIn sys a.store names := by
  induction names generalizing xs a with
  | nil =>
    refine ⟨a, [], [], rfl, ?_, rfl, (List.append_nil _).symm, Nat.le_refl _, Nat.zero_le _⟩
    rw [List.append_nil]
    exact h
  | cons f names ih =>
    rw [List.nodup_cons] at hnodup
    have hsum : bytesIn sys a.store (f :: names) =
        ((contentOf sys a.store f).getD []).length + bytesIn sys a.store names := by
      rw [bytesIn, List.flatMap_cons, List.length_append]
      rfl
    rw [hsum] at hn
    have hfile : ((contentOf sys a.store f).getD []).length ≤ n := by omega
    obtain ⟨b, built, hvisit, hb, hmail, hactions, hstore, hrcpts⟩ := visit_spec hinj h f hfile
    have hrest : bytesIn sys b.store names = bytesIn sys a.store names := by
      rw [hstore, bytesIn_behind a.store f names hnodup.1]
    obtain ⟨a', ys, acts, hloop, hcollected, hread, hacts, hlen, hbytes⟩ :=
      ih hnodup.2 (xs ++ built.toList) b hb (by omega)
    refine ⟨a', built.toList ++ ys, (fileOf sys a.store f).2 ++ acts, ?_, ?_, ?_, ?_, ?_, ?_⟩
    · rw [List.foldlM_cons, hvisit]
      exact hloop
    · rw [← List.append_assoc]
      exact hcollected
    · rw [readMails, ← hstore, hread, ← hmail, List.map_append]
      cases built <;> rfl
    · rw [hacts, hactions, List.append_assoc]
    · have hone : built.toList.length ≤ 1 := by cases built <;> simp
      rw [List.length_append, List.length_cons]
      omega
    · rw [hsum, List.flatMap_append, List.length_append, ← hrest]
      cases built with
      | none =>
        rw [Option.toList_none, List.flatMap_nil, List.length_nil]
        omega
      | some x =>
        have hx := hrcpts x rfl
        rw [Option.toList_some, List.flatMap_singleton]
        omega

theorem readAllMail_spec (hinj : alloc.Injective) (s : Store) (hn : loopBound sys s ≤ n) :
    ∃ a xs, readAllMail sys n alloc s = some a ∧ Collected alloc xs a ∧
      readMails sys s sys.names = (xs.map MailAt.mail, a.actions, a.store) ∧ Enough n xs := by
  unfold loopBound at hn
  have hall : bytesIn sys s sys.names ≤ n := by omega
  obtain ⟨a, xs, acts, hloop, hcollected, hread, hacts, hlen, hbytes⟩ :=
    readNames_spec hinj sys.names sys.nodup [] ⟨.init, 0, 0, [], s, []⟩
      ⟨owns_init, rfl, fun _ ha => absurd ha List.not_mem_nil, fun _ hq => absurd hq List.not_mem_nil⟩
      hall
  refine ⟨a, xs, hloop, hcollected, ?_, by omega, by dsimp only at hbytes; omega⟩
  rw [hacts, List.nil_append]
  exact hread

end Reading

/-- What a pass leaves in memory, with what is left of the recipients of the mails that
were freed, and what it has done to the files. -/
structure MemoryCycle where
  success : ℕ
  memory : Memory
  rests : List (TailQueue ℕ Rcpt)
  actions : List FileAction
  store : Store

/-- A pass in memory. The outer none is the use of a null pointer or of freed memory, the
inner one a conn_loop that is not over after the given passes. When no mail was read,
conn_init gives up, and conn_final does not run. -/
def memoryCycle (sys : System) (n : ℕ) (alloc : ℕ → ℕ) (myDomain : Bytes) (net : Net) (timeout : ℤ)
    (inps : List PassInput) (s : Store) : Option (Option MemoryCycle) := do
  let a ← readAllMail sys n alloc s
  if a.success = 0 then
    return some ⟨0, ⟨a.ml, fun _ => false, .init, .init, 0, 0, []⟩, a.rests, a.actions, a.store⟩
  else
    let filtered ← filterMailQueue n myDomain a.ml
    let mem ← linkedTransfer n (fun i => alloc (a.mallocs + i)) myDomain net filtered.ml timeout inps
    if mem.connections.first = none then
      let last ← mem.finishMail n
      let (mem, rcpts) ← mem.connFinal n
      return some ⟨a.success, mem, a.rests ++ filtered.rests ++ rcpts,
        a.actions ++ filtered.actions ++ last,
        (filtered.actions ++ last).foldl (perform sys) a.store⟩
    else return none

/-- A pass in memory and one on lists, seen from outside. Behind the one in memory no
structure is left, and each socket that was connected was closed once. -/
structure SameCycle (x : MemoryCycle) (r : Cycle) : Prop where
  success : x.success = r.read.length
  calls : x.memory.calls = r.world.trace.map (sockCall r.world.conns)
  actions : x.actions = r.calls
  store : x.store = r.store
  released : Released x.memory x.rests
  closed : (x.memory.calls.filterMap SockCall.closed).Perm (r.world.conns.map MxConn.sock)

section Cycles

variable (sys : System) {n : ℕ} {alloc : ℕ → ℕ}

/-- A pass uses a null pointer or freed memory when the functions on lists fail. Otherwise
conn_loop is over on both sides or on none, and the pass does the same on both. The places
of the connections tell which clock readings belong to which of them. -/
theorem memoryCycle_rel (hinj : alloc.Injective) (myDomain : Bytes) (net : Net) (timeout : ℤ)
    (s : Store) (hn : loopBound sys s ≤ n) :
    ∃ addr : ℕ → ℕ, addr.Injective ∧ ∀ inps, Option.Rel (Option.Rel SameCycle)
      (memoryCycle sys n alloc myDomain net timeout inps s)
      (cycleOutcome sys myDomain net timeout (inps.map (atPositions addr)) s) := by
  obtain ⟨a, xs, hread, hcollected, hmails, henough⟩ := readAllMail_spec hinj s hn
  let behind : ℕ → ℕ := fun i => alloc (a.mallocs + i)
  have hbehind : behind.Injective := fun i j hij => Nat.add_left_cancel (hinj hij)
  refine ⟨connAddr behind myDomain (xs.map MailAt.mail), ?_, ?_⟩
  · intro i j hij
    exact Nat.add_left_cancel (hbehind hij)
  intro inps
  unfold memoryCycle cycleOutcome
  simp only [hread, hmails, Option.bind_eq_bind, Option.bind_some, hcollected.success]
  cases hxs : xs with
  | nil =>
    subst hxs
    refine .some (.some ⟨rfl, rfl, rfl, rfl,
      ⟨?_, fun _ => rfl, fun _ => rfl, hcollected.rests⟩, .refl _⟩)
    exact hcollected.mails.empty
  | cons x rest =>
    rw [← hxs]
    have hne : xs.map MailAt.mail ≠ [] := by simp [hxs]
    have hlen : xs.length ≠ 0 := by simp [hxs]
    obtain ⟨filtered, ys, hfilter, hys, hleft, hactions, hrests⟩ := filter_owned myDomain a.ml
      hcollected.mails henough.mails fun x hx => henough.rcpts_of_mem hx
    rw [← remoteMails_eq] at hleft
    have hfew := enough_remote myDomain henough hleft
    have hrel := linkedTransfer_rel myDomain net filtered.ml hys hfew hbehind timeout inps
    simp only [if_neg hne, if_neg hlen, hfilter, Option.bind_some]
    unfold connAddr
    rw [← hleft]
    have hsame : (filterMyMail myDomain (xs.map MailAt.mail)).1 = ys.map MailAt.mail := hleft.symm
    rw [hsame]
    refine rel_bind hrel ?_
    rintro mem w ⟨cs, h⟩
    by_cases hw : w.connections = []
    · rw [if_pos hw, if_pos ((first_eq_none_iff h).mpr hw), finishMail_eq h]
      obtain ⟨mem', rcpts, hfinal, hreleased, hcalls, hclosed⟩ :=
        connFinal_spec h (length_placed_le behind myDomain hfew)
      -- no connection is left for conn_final to close
      rw [hw] at hcalls
      rw [← hactions]
      simp only [Option.bind_some, hfinal]
      refine .some (.some ⟨(List.length_map _).symm, hcalls, rfl, rfl, ?_, hclosed⟩)
      refine ⟨hreleased.mails, hreleased.domains, hreleased.connections, ?_⟩
      exact List.forall_mem_append.mpr
        ⟨List.forall_mem_append.mpr ⟨hcollected.rests, hrests⟩, hreleased.rcpts⟩
    · have hopen : ¬mem.connections.first = none := fun hnone => hw ((first_eq_none_iff h).mp hnone)
      rw [if_neg hw, if_neg hopen]
      exact .some .none

end Cycles

section Runs

/-- The client between two passes, with the passes as they were in memory. -/
structure LinkedClient where
  store : Store
  nextInode : Inode
  openDirs : ℕ
  history : List MemoryCycle
  stopped : Bool

def LinkedClient.start (s : Store) (i : Inode) : LinkedClient := ⟨s, i, 0, [], false⟩

variable (alloc : ℕ → ℕ) (myDomain : Bytes) (timeout : ℤ) (limit : ℕ) (contents : Inode → Bytes)

def LinkedClient.newMailExist (x : LinkedClient) (p : LoopInput) : ℕ :=
  if x.openDirs < limit then (p.counted.getD []).length else 0

/-- A pass may be given the addresses of the one before, whose structures are freed. -/
def LinkedClient.passOutcome (x : LinkedClient) (p : LoopInput) : Option (Option MemoryCycle) :=
  let sys := { p.sys with contents := contents }
  memoryCycle sys (loopBound sys x.store) alloc myDomain p.net timeout p.inps x.store

def LinkedClient.transferMail (x : LinkedClient) (p : LoopInput) : Option LinkedClient :=
  if x.openDirs < limit ∧ p.opensNew = true then do
    let r ← (x.passOutcome alloc myDomain timeout contents p).join
    return { x with
      store := r.store
      openDirs := if r.success = 0 then x.openDirs + 1 else x.openDirs
      history := x.history ++ [r] }
  else some x

def LinkedClient.loopPass (x : LinkedClient) (p : LoopInput) : Option LinkedClient :=
  if p.quitKey then some { x with stopped := true }
  else if x.newMailExist limit p = 0 then some x
  else x.transferMail alloc myDomain timeout limit contents p

def LinkedClient.arrive (x : LinkedClient) (f : Bytes) : LinkedClient :=
  if x.store f .new = none then
    { x with
      store := Function.update x.store f (Function.update (x.store f) .new (some x.nextInode))
      nextInode := x.nextInode + 1 }
  else x

def LinkedClient.step (x : LinkedClient) : Event → Option LinkedClient
  | .arrive f => some (x.arrive f)
  | .pass p =>
    if x.stopped then some x else x.loopPass alloc myDomain timeout limit contents p

/-- The same event for the lists: a clock reading that belongs to a place in memory
belongs to a position there. -/
inductive Retimed : Event → Event → Prop
  | arrive (f : Bytes) : Retimed (.arrive f) (.arrive f)
  | pass (p : LoopInput) (addr : ℕ → ℕ) (hinj : addr.Injective) :
    Retimed (.pass p) (.pass { p with inps := p.inps.map (atPositions addr) })

/-- The client in memory stands where the one over lists stands. -/
structure Mirrors (x : LinkedClient) (c : Client) : Prop where
  store : x.store = c.store
  nextInode : x.nextInode = c.nextInode
  openDirs : x.openDirs = c.openDirs
  history : List.Forall₂ (fun y d => SameCycle y d.cycle) x.history c.history
  stopped : x.stopped = c.stopped

variable {alloc} {x : LinkedClient} {c : Client}

theorem Mirrors.arrive (h : Mirrors x c) (f : Bytes) : Mirrors (x.arrive f) (c.arrive f) := by
  unfold LinkedClient.arrive Client.arrive
  rw [h.store, h.nextInode]
  split
  · exact ⟨rfl, rfl, h.openDirs, h.history, h.stopped⟩
  · exact h

/-- A pass uses a null pointer or freed memory on both sides or on none. Otherwise its
conn_loop is over on both sides or on none, and it does the same on both. -/
theorem Mirrors.passOutcome (hinj : alloc.Injective) (h : Mirrors x c) (p : LoopInput) :
    ∃ addr : ℕ → ℕ, addr.Injective ∧ Option.Rel (Option.Rel SameCycle)
      (x.passOutcome alloc myDomain timeout contents p)
      (cycleOutcome { p.sys with contents := contents } myDomain p.net timeout
        (p.inps.map (atPositions addr)) c.store) := by
  unfold LinkedClient.passOutcome
  rw [h.store]
  obtain ⟨addr, haddr, hrel⟩ := memoryCycle_rel { p.sys with contents := contents } hinj
    myDomain p.net timeout c.store (Nat.le_refl _)
  exact ⟨addr, haddr, hrel p.inps⟩

theorem Mirrors.transferMail (hinj : alloc.Injective) (h : Mirrors x c) (p : LoopInput) :
    ∃ addr : ℕ → ℕ, addr.Injective ∧ Option.Rel Mirrors
      (x.transferMail alloc myDomain timeout limit contents p)
      (transferMail myDomain timeout limit contents c
        { p with inps := p.inps.map (atPositions addr) }) := by
  obtain ⟨addr, haddr, hrel⟩ := h.passOutcome myDomain timeout contents hinj p
  refine ⟨addr, haddr, ?_⟩
  unfold LinkedClient.transferMail ClientLoop.transferMail
  rw [h.openDirs]
  by_cases hopen : c.openDirs < limit ∧ p.opensNew = true
  · rw [if_pos hopen, if_pos hopen]
    refine rel_bind (rel_join hrel) ?_
    intro y r hsame
    refine .some ⟨hsame.store, h.nextInode, ?_, ?_, h.stopped⟩
    · change (if y.success = 0 then _ else _) = if r.read = [] then _ else _
      simp only [hsame.success, List.length_eq_zero_iff]
    · exact List.rel_append h.history (.cons hsame .nil)
  · rw [if_neg hopen, if_neg hopen]
    exact .some h

theorem Mirrors.step (hinj : alloc.Injective) (h : Mirrors x c) (e : Event) :
    ∃ e', Retimed e e' ∧ Option.Rel Mirrors (x.step alloc myDomain timeout limit contents e)
      (clientStep myDomain timeout limit contents c e') := by
  cases e with
  | arrive f => exact ⟨_, .arrive f, .some (h.arrive f)⟩
  | pass p =>
    obtain ⟨addr, haddr, hrel⟩ := h.transferMail myDomain timeout limit contents hinj p
    refine ⟨_, .pass p addr haddr, ?_⟩
    have hcount : x.newMailExist limit p = newMailExist limit c
        { p with inps := p.inps.map (atPositions addr) } := by
      rw [LinkedClient.newMailExist, newMailExist, h.openDirs]
    simp only [LinkedClient.step, clientStep, LinkedClient.loopPass, smtpClientLoopPass, h.stopped,
      hcount]
    split
    · exact .some h
    · split
      · exact .some ⟨h.store, h.nextInode, h.openDirs, h.history, rfl⟩
      · split
        · exact .some h
        · exact hrel

theorem exists_retimed (events : List Event) : ∃ events', List.Forall₂ Retimed events events' := by
  induction events with
  | nil => exact ⟨[], .nil⟩
  | cons e events ih =>
    obtain ⟨events', h⟩ := ih
    cases e with
    | arrive f => exact ⟨_, .cons (.arrive f) h⟩
    | pass p => exact ⟨_, .cons (.pass p id Function.injective_id) h⟩

theorem Mirrors.run (hinj : alloc.Injective) (events : List Event) (h : Mirrors x c) :
    ∃ events', List.Forall₂ Retimed events events' ∧ Option.Rel Mirrors
      (Runs.run (LinkedClient.step alloc myDomain timeout limit contents) x events)
      (clientRun myDomain timeout limit contents c events') := by
  induction events generalizing x c with
  | nil => exact ⟨[], .nil, .some h⟩
  | cons e events ih =>
    obtain ⟨e', he, hstep⟩ := h.step myDomain timeout limit contents hinj e
    simp only [Runs.run, clientRun, List.foldlM_cons] at ih ⊢
    generalize x.step alloc myDomain timeout limit contents e = y at hstep
    cases hd : clientStep myDomain timeout limit contents c e' with
    | none =>
      rw [hd] at hstep
      obtain ⟨events', hevents⟩ := exists_retimed events
      cases hstep
      exact ⟨e' :: events', .cons he hevents, by rw [List.foldlM_cons, hd]; exact .none⟩
    | some d =>
      rw [hd] at hstep
      cases hstep with
      | some hnext =>
        obtain ⟨events', hevents, hrest⟩ := ih hnext
        exact ⟨e' :: events', .cons he hevents, by rw [List.foldlM_cons, hd]; exact hrest⟩

variable (alloc)

/-- In every run the client over the structures in memory fails when the one over lists
fails. Otherwise each of its passes makes the same calls for files and sockets, and leaves
no mail, recipient, domain or connection in memory. Whatever pass comes next, it uses a
null pointer or freed memory on both sides or on none. -/
theorem memory_runs_agree (hinj : alloc.Injective) (s : Store) (i : Inode) (events : List Event) :
    ∃ events', List.Forall₂ Retimed events events' ∧ Option.Rel
      (fun x c => Mirrors x c ∧ ∀ p : LoopInput, ∃ addr : ℕ → ℕ, addr.Injective ∧
        Option.Rel (Option.Rel SameCycle) (x.passOutcome alloc myDomain timeout contents p)
          (cycleOutcome { p.sys with contents := contents } myDomain p.net timeout
            (p.inps.map (atPositions addr)) c.store))
      (Runs.run (LinkedClient.step alloc myDomain timeout limit contents) (.start s i) events)
      (clientRun myDomain timeout limit contents (.start s i) events') := by
  have hstart : Mirrors (.start s i) (.start s i) := ⟨rfl, rfl, rfl, .nil, rfl⟩
  obtain ⟨events', hevents, hrel⟩ := hstart.run myDomain timeout limit contents hinj events
  refine ⟨events', hevents, rel_mono hrel ?_⟩
  intro x c h
  exact ⟨h, h.passOutcome myDomain timeout contents hinj⟩

end Runs

section Example

/-- A mail for the local domain and another one is copied and moved, and its memory is
free again. -/
theorem memory_runs_agree_mixedFile :
    ∃ x y, Runs.run (LinkedClient.step id (bytes "b") 60 8 fun _ => mixedFile)
        (.start (fun _ _ => none) 0) [.arrive (bytes "1"), .pass noMx] = some x ∧
      x.history = [y] ∧ Released y.memory y.rests ∧
      y.actions = [.copyMail (bytes "1") .new .cur, .moveMail (bytes "1") .new .notSent] := by
  obtain ⟨c, hc, hcalls⟩ := Option.map_eq_some_iff.mp mixedRun_calls
  obtain ⟨events', hevents, hrel⟩ := memory_runs_agree id (bytes "b") 60 8 (fun _ => mixedFile)
    Function.injective_id (fun _ _ => none) 0 [.arrive (bytes "1"), .pass noMx]
  have hsame : events' = [.arrive (bytes "1"), .pass noMx] := by
    obtain _ | ⟨harrive, _ | ⟨hpass, _ | _⟩⟩ := hevents
    cases harrive
    cases hpass
    rfl
  have hrun : clientRun (bytes "b") 60 8 (fun _ => mixedFile) (.start (fun _ _ => none) 0)
      [.arrive (bytes "1"), .pass noMx] = some c := hc
  rw [hsame, hrun] at hrel
  generalize Runs.run _ _ _ = run at hrel ⊢
  cases hrel with
  | some hboth =>
    obtain ⟨h, -⟩ := hboth
    obtain ⟨d, rest, hhistory, hd, hrest⟩ := List.map_eq_cons_iff.mp hcalls
    obtain rfl := List.map_eq_nil_iff.mp hrest
    have hall := h.history
    rw [hhistory] at hall
    obtain ⟨y, ys, hy, hys, hx⟩ := List.forall₂_cons_right_iff.mp hall
    obtain rfl := List.forall₂_nil_right_iff.mp hys
    refine ⟨_, y, rfl, hx, hy.released, ?_⟩
    rw [hy.actions]
    exact (Prod.mk.inj (Prod.mk.inj hd).2).1

end Example

end SmtpClient.LinkedCycle
