import SmtpClient.Choices
import SmtpClient.Decimals
import SmtpClient.HeaderLines
import Mathlib.Data.List.Induction

/-!
Which MX host is taken. The preference and the host of an answer are captured by
two patterns that match the same place of its text, so both buffers are filled
from the same answer, and the running minimum is the first smallest preference.
How the resolver library prints answers is assumed.
-/
namespace SmtpClient.MxSelection

open MailTypes Backtracking Regexp HeaderLines MxLookup Decimals Choices

/-- check_dns with its result and what it leaves in the output buffer. -/
def checkDnsOutput (junk outputAddress : Bytes) (answers : Option (List Bytes)) : ℕ × Bytes :=
  match answers with
  | none => (0, outputAddress)
  | some texts =>
    let a := texts.foldl DnsScan.visit ⟨junk, junk, junk, 999999⟩
    if a.prioBest < 999999 then (1, a.dnsAddrBest) else (0, [])

theorem checkDns_eq (junk outputAddress : Bytes) (answers : Option (List Bytes)) :
    checkDns junk answers =
      if (checkDnsOutput junk outputAddress answers).1 = 1 then
        some (checkDnsOutput junk outputAddress answers).2
      else none := by
  unfold checkDns checkDnsOutput
  cases answers with
  | none => rfl
  | some texts =>
    simp only
    split <;> rfl

/-- The text of an MX answer with its preference and host. In the part before MX no
letters mx stand before a blank. -/
structure MxText (n : ℕ) (host text : Bytes) : Prop where
  preference : n ≤ 65535
  printed : ∃ owner blanks,
    text = owner ++ (bytes "MX" ++ (blanks ++ (decimal n ++ 32 :: (host ++ [46])))) ∧
    blanks ≠ [] ∧ (∀ x ∈ blanks, isSpace x = true) ∧
    ∀ b x y z c, owner = b ++ x :: y :: z :: c → toLower x = toLower 77 →
      toLower y = toLower 88 → isSpace z = false
  host_ne : host ≠ []
  host_word : ∀ x ∈ host, isSpace x = false

/-- How an answer is printed, by its preference and host if it is an MX answer. -/
def Renders (mx : Option (ℕ × Bytes)) (text : Bytes) : Prop :=
  match mx with
  | some (n, host) => MxText n host text
  | none => reMatch .reMxDns text = false ∧ reMatch .reMxDnsPrio text = false

theorem execAt_mx (r : Bytes) : execAt (word "MX") (bytes "MX" ++ r) = some ⟨bytes "MX", r, none⟩ :=
  rfl

/-- No match begins in the part before MX. -/
theorem execAt_owner (owner rest b c : Bytes) (pats : List (Pattern UInt8))
    (howner : ∀ b x y z c, owner = b ++ x :: y :: z :: c → toLower x = toLower 77 →
      toLower y = toLower 88 → isSpace z = false)
    (hsplit : owner = b ++ c) (hc : c ≠ []) :
    execAt (chain (word "MX" :: plus isSpace :: pats)) (c ++ (bytes "MX" ++ rest)) = none := by
  by_contra hmatch
  obtain ⟨m, hm⟩ := Option.ne_none_iff_exists'.mp hmatch
  obtain ⟨w, r, k, hw, hword, hk, -⟩ := execAt_cons_groupFree _ _ _ m (groupFree_word _) hm
  obtain ⟨sp, r', -, rfl, hsp, -, -⟩ := execAt_cons_groupFree _ _ r k rfl hk
  obtain ⟨hspne, hspace⟩ := (reads_plus _ _ _).mp hsp
  obtain ⟨z, sp, rfl⟩ := List.exists_cons_of_ne_nil hspne
  have hz := hspace z List.mem_cons_self
  have hword : w.map toLower = [toLower 77, toLower 88] := (reads_word_toLower _ _ _).mp hword
  obtain ⟨x, w, rfl, hx, hword⟩ := List.map_eq_cons_iff.mp hword
  obtain ⟨y, w, rfl, hy, hword⟩ := List.map_eq_cons_iff.mp hword
  obtain rfl := List.map_eq_nil_iff.mp hword
  have hw : c ++ (77 :: 88 :: rest) = x :: y :: z :: (sp ++ r') := hw
  -- the place of the match lies in front of MX by one, two or more bytes
  match c, hc with
  | [_], _ =>
    simp only [List.cons_append, List.nil_append, List.cons.injEq] at hw
    obtain ⟨-, rfl, -⟩ := hw
    exact absurd hy (by decide)
  | [_, _], _ =>
    simp only [List.cons_append, List.nil_append, List.cons.injEq] at hw
    obtain ⟨-, -, rfl, -⟩ := hw
    exact absurd hz (by decide)
  | _ :: _ :: _ :: c, _ =>
    simp only [List.cons_append, List.cons.injEq] at hw
    obtain ⟨rfl, rfl, rfl, -⟩ := hw
    rw [howner b _ _ _ c hsplit hx hy] at hz
    cases hz

/-- The end of both patterns matches a host and the final dot. -/
theorem execAt_host (a : Pattern UInt8) (host : Bytes) (ha : Reads a host [46]) :
    ∃ m, execAt (chain [a, lit 46, .atEnd fun x => x = 10]) (host ++ [46]) = some m := by
  apply Option.isSome_iff_exists.mp
  rw [execAt_isSome_iff]
  refine ⟨host ++ [46], [], by simp, ?_⟩
  simp only [reads_chain_cons, reads_chain_nil, reads_atEnd]
  exact ⟨host, [46], rfl, ha, [46], [], rfl, (ReplyLines.reads_lit 46 (by decide) _ _).mpr rfl,
    [], [], rfl, ⟨rfl, Or.inl rfl⟩, rfl⟩

/-- The end of both patterns reads the host and nothing else. -/
theorem host_of_execAt (t r host : Bytes) (k : Match UInt8) (hsplit : host ++ [46] = t ++ r)
    (h : execAt (chain [lit 46, .atEnd fun x => x = 10]) r = some k) :
    t = host ∧ k.captured = none := by
  have hnone := execAt_captured_none _ r k (by decide) h
  obtain ⟨dot, r₁, k₁, rfl, hdot, hk₁, -⟩ := execAt_cons_groupFree _ _ r k rfl h
  obtain ⟨t₂, r₂, -, rfl, hend, -, -⟩ := execAt_cons_groupFree _ _ r₁ k₁ rfl hk₁
  rw [ReplyLines.reads_lit 46 (by decide)] at hdot
  subst hdot
  obtain ⟨rfl, hrest⟩ := (reads_atEnd _ _ _).mp hend
  refine ⟨?_, hnone⟩
  rcases hrest with rfl | ⟨x, rfl, hx⟩
  · exact (List.append_inj' hsplit rfl).1.symm
  · have hx : x = 10 := of_decide_eq_true hx
    have hsplit : host ++ [46] = (t ++ [46]) ++ [x] := by simpa using hsplit
    obtain ⟨-, hlast⟩ := List.append_inj' hsplit rfl
    rw [hx] at hlast
    cases hlast

section Matches

variable {n : ℕ} {host text : Bytes}

theorem isDot_of_not_isSpace (x : UInt8) (h : isSpace x = false) : isDot x = true := by
  refine decide_eq_true ?_
  intro hlf
  rw [hlf] at h
  cases h

theorem MxText.reads_host (h : MxText n host text) : Reads (plus isDot) host [46] :=
  (reads_plus _ _ _).mpr ⟨h.host_ne, fun x hx => isDot_of_not_isSpace x (h.host_word x hx)⟩

/-- A part that captures nothing hands over what the rest captures. -/
theorem execAt_skip (a : Pattern UInt8) (l : List (Pattern UInt8)) (s t r : Bytes) (k : Match UInt8)
    (h : execAt a s = some ⟨t, r, none⟩) (hk : execAt (chain l) r = some k) :
    ∃ m, execAt (chain (a :: l)) s = some m ∧ m.captured = k.captured :=
  ⟨_, execAt_cons_of_execAt a l s _ k h hk, Option.or_none⟩

/-- The one space behind the preference is skipped. -/
theorem MxText.execAt_space (h : MxText n host text) (l : List (Pattern UInt8)) (k : Match UInt8)
    (hk : execAt (chain l) (host ++ [46]) = some k) :
    ∃ m, execAt (chain (.many isSpace :: l)) (32 :: (host ++ [46])) = some m ∧
      m.captured = k.captured := by
  apply execAt_skip (.many isSpace) l (32 :: (host ++ [46])) [32] (host ++ [46]) k _ hk
  refine execAt_many_eq isSpace [32] (host ++ [46]) (List.forall_mem_singleton.mpr rfl) ?_
  intro x hx
  apply h.host_word x
  cases hhost : host with
  | nil => exact absurd hhost h.host_ne
  | cons y host =>
    rw [hhost] at hx
    obtain rfl := Option.some.inj hx
    exact List.mem_cons_self

theorem execAt_decimal (n : ℕ) (rest : Bytes) :
    execAt (plus isDigit) (decimal n ++ 32 :: rest) = some ⟨decimal n, 32 :: rest, none⟩ := by
  apply execAt_plus_eq isDigit (decimal n) (32 :: rest) (decimal_ne_nil n) (isDigit_decimal n)
  intro x hx
  obtain rfl := Option.some.inj hx
  rfl

/-- Both patterns match at MX, and capture what their part behind the blanks does. -/
theorem MxText.search_eq (h : MxText n host text) (l : List (Pattern UInt8)) (k : Match UInt8)
    (hk : execAt (chain l) (decimal n ++ 32 :: (host ++ [46])) = some k) :
    ∃ m, search (chain (word "MX" :: plus isSpace :: l)) text = some m ∧
      m.captured = k.captured := by
  obtain ⟨owner, blanks, rfl, hne, hblanks, howner⟩ := h.printed
  have hdigit : ∀ x, (decimal n ++ 32 :: (host ++ [46])).head? = some x → isSpace x = false := by
    intro x hx
    obtain ⟨y, digits, hdigits⟩ := List.exists_cons_of_ne_nil (decimal_ne_nil n)
    rw [hdigits] at hx
    obtain rfl := Option.some.inj hx
    apply isSpace_of_isDigit
    apply isDigit_decimal n
    rw [hdigits]
    exact List.mem_cons_self
  obtain ⟨m₁, hm₁, hcap₁⟩ := execAt_skip (plus isSpace) l _ blanks _ k
    (execAt_plus_eq isSpace blanks _ hne hblanks hdigit) hk
  obtain ⟨m, hm, hcap⟩ := execAt_skip (word "MX") (plus isSpace :: l) _ _ _ m₁ (execAt_mx _) hm₁
  refine ⟨m, search_append _ owner _ m ?_ hm, hcap.trans hcap₁⟩
  intro b c hsplit hc
  exact execAt_owner owner _ b c l howner hsplit hc

/-- RE_mx_dns captures the host. -/
theorem MxText.fill_host (h : MxText n host text) (buf : Bytes) :
    reMatchAndFillSubstring .reMxDns text buf = (true, host) := by
  have hreads : Reads (.group (plus isDot)) host [46] := (reads_group _ _ _).mpr h.reads_host
  obtain ⟨k, hk⟩ := execAt_host (.group (plus isDot)) host hreads
  obtain ⟨t, r, k', hsplit, -, hk', hcap⟩ := execAt_cons_group _ _ _ k hk
  obtain ⟨rfl, hnone⟩ := host_of_execAt t r host k' hsplit hk'
  obtain ⟨k₁, hk₁, hcap₁⟩ := h.execAt_space _ k hk
  obtain ⟨k₂, hk₂, hcap₂⟩ := execAt_skip (plus isDigit) _ _ _ _ k₁ (execAt_decimal n _) hk₁
  obtain ⟨m, hm, hcapm⟩ := h.search_eq _ k₂ hk₂
  have hexec : pcreExec .reMxDns text = some m := hm
  unfold reMatchAndFillSubstring
  rw [hexec]
  simp only
  rw [hcapm, hcap₂, hcap₁, hcap, hnone]
  rfl

/-- RE_mx_dns_prio captures the preference. -/
theorem MxText.fill_prio (h : MxText n host text) (buf : Bytes) :
    reMatchAndFillSubstring .reMxDnsPrio text buf = (true, decimal n) := by
  obtain ⟨k, hk⟩ := execAt_host (plus isDot) host h.reads_host
  have hnone := execAt_captured_none _ _ k (by decide) hk
  obtain ⟨k₁, hk₁, hcap₁⟩ := h.execAt_space _ k hk
  have hgroup : execAt (.group (plus isDigit)) (decimal n ++ 32 :: (host ++ [46])) =
      some ⟨decimal n, 32 :: (host ++ [46]), some (decimal n)⟩ := by
    rw [execAt_group, execAt_decimal]
    rfl
  have hk₂ := execAt_cons_of_execAt _ _ _ _ k₁ hgroup hk₁
  obtain ⟨m, hm, hcapm⟩ := h.search_eq _ _ hk₂
  have hexec : pcreExec .reMxDnsPrio text = some m := hm
  unfold reMatchAndFillSubstring
  rw [hexec]
  simp only
  rw [hcapm, Match.followedBy, hcap₁, hnone]
  rfl

end Matches

/-- The variables of check_dns before its loop. -/
def scanStart (junk : Bytes) : DnsScan := ⟨junk, junk, junk, 999999⟩

theorem prio_decimal (n : ℕ) (hn : n ≤ 65535) : toInt (strtol (decimal n)) = n := by
  rw [strtol_decimal n (by omega), toInt, Int.bmod_def]
  omega

/-- An MX answer is compared with its own preference, and its own host is kept. -/
theorem visit_mx {n : ℕ} {host text : Bytes} (h : MxText n host text) (a : DnsScan) :
    a.visit text =
      if (n : ℤ) < a.prioBest then ⟨host, decimal n, host, n⟩
      else ⟨host, decimal n, a.dnsAddrBest, a.prioBest⟩ := by
  unfold DnsScan.visit
  simp only [h.fill_host, h.fill_prio, prio_decimal n h.preference, Bool.or_self, if_true]

theorem visit_other (text : Bytes) (h : Renders none text) (a : DnsScan) : a.visit text = a := by
  obtain ⟨hdns, hprio⟩ := h
  have hnone : ∀ name, reMatch name text = false → pcreExec name text = none := by
    intro name hname
    exact Option.not_isSome_iff_eq_none.mp (Bool.eq_false_iff.mp hname)
  unfold DnsScan.visit reMatchAndFillSubstring
  rw [hnone _ hdns, hnone _ hprio]
  rfl

/-- What the loop has found among the MX answers so far. -/
def Scanned (mxs : List (ℕ × Bytes)) (a : DnsScan) : Prop :=
  (mxs = [] ∧ a.prioBest = 999999) ∨
    ∃ n host, n ≤ 65535 ∧ IsFirstMin Prod.fst mxs (n, host) ∧ a.prioBest = n ∧ a.dnsAddrBest = host

/-- One MX answer more keeps the description. -/
theorem Scanned.visit {mxs : List (ℕ × Bytes)} {a : DnsScan} (hscan : Scanned mxs a) {n : ℕ}
    {host text : Bytes} (h : MxText n host text) :
    Scanned (mxs ++ [(n, host)]) (a.visit text) := by
  have hpref := h.preference
  rw [visit_mx h]
  rcases hscan with ⟨rfl, hbest⟩ | ⟨n₀, host₀, hn₀, hmin, hprio, haddr⟩
  · rw [hbest, if_pos (by omega)]
    exact Or.inr ⟨n, host, hpref, isFirstMin_singleton Prod.fst (n, host), rfl, rfl⟩
  · by_cases hlt : n < n₀
    · rw [hprio, if_pos (by omega)]
      exact Or.inr ⟨n, host, hpref, hmin.concat_of_lt hlt, rfl, rfl⟩
    · rw [hprio, if_neg (by omega)]
      exact Or.inr ⟨n₀, host₀, hn₀, hmin.concat_of_le (Nat.le_of_not_lt hlt), rfl, haddr⟩

section Answers

variable {Rr : Type*} (mxOf : Rr → Option (ℕ × Bytes)) (nsSprintrr : Rr → Bytes) (junk : Bytes)

/-- The loop over the answers. -/
def scan (answers : List Rr) : DnsScan :=
  (answers.map nsSprintrr).foldl DnsScan.visit (scanStart junk)

theorem scan_concat (answers : List Rr) (rr : Rr) :
    scan nsSprintrr junk (answers ++ [rr]) = (scan nsSprintrr junk answers).visit (nsSprintrr rr) := by
  unfold scan
  rw [List.map_append, List.foldl_append]
  rfl

theorem scan_scanned (answers : List Rr) (h : ∀ rr ∈ answers, Renders (mxOf rr) (nsSprintrr rr)) :
    Scanned (answers.filterMap mxOf) (scan nsSprintrr junk answers) := by
  induction answers using List.reverseRecOn with
  | nil => exact Or.inl ⟨rfl, rfl⟩
  | append_singleton answers rr ih =>
    have hbefore := ih fun x hx => h x (List.mem_append_left _ hx)
    have hrr := h rr (List.mem_append_right _ (List.mem_singleton_self rr))
    rw [List.filterMap_append, scan_concat]
    cases hmx : mxOf rr with
    | none =>
      rw [hmx] at hrr
      rw [visit_other _ hrr, List.filterMap_cons_none hmx, List.filterMap_nil, List.append_nil]
      exact hbefore
    | some x =>
      rw [hmx] at hrr
      rw [List.filterMap_cons_some hmx, List.filterMap_nil]
      exact hbefore.visit hrr

/-- The result is 1 exactly when there is an MX answer, and the output the host of the
first answer with the smallest preference. The preference that is compared and the
host that is kept are those of the answer that is looked at. -/
theorem mx_selected (outputAddress : Bytes) (answers : List Rr)
    (h : ∀ rr ∈ answers, Renders (mxOf rr) (nsSprintrr rr)) :
    (((∀ rr ∈ answers, mxOf rr = none) ∧
        checkDnsOutput junk outputAddress (some (answers.map nsSprintrr)) = (0, [])) ∨
      ∃ n host, IsFirstMin Prod.fst (answers.filterMap mxOf) (n, host) ∧
        checkDnsOutput junk outputAddress (some (answers.map nsSprintrr)) = (1, host)) ∧
    ∀ read rr rest n host, answers = read ++ rr :: rest → mxOf rr = some (n, host) →
      scan nsSprintrr junk (read ++ [rr]) =
        if (n : ℤ) < (scan nsSprintrr junk read).prioBest then ⟨host, decimal n, host, n⟩
        else ⟨host, decimal n, (scan nsSprintrr junk read).dnsAddrBest,
          (scan nsSprintrr junk read).prioBest⟩ := by
  have houtput : checkDnsOutput junk outputAddress (some (answers.map nsSprintrr)) =
      if (scan nsSprintrr junk answers).prioBest < 999999 then
        (1, (scan nsSprintrr junk answers).dnsAddrBest) else (0, []) := rfl
  constructor
  · rw [houtput]
    rcases scan_scanned mxOf nsSprintrr junk answers h with
      ⟨hnone, hbest⟩ | ⟨n, host, hn, hmin, hprio, haddr⟩
    · left
      refine ⟨List.filterMap_eq_nil_iff.mp hnone, ?_⟩
      rw [hbest]
      rfl
    · right
      refine ⟨n, host, hmin, ?_⟩
      rw [hprio, if_pos (by omega), haddr]
  · intro read rr rest n host hsplit hmx
    have hrr := h rr (by rw [hsplit]; exact List.mem_append_right _ List.mem_cons_self)
    rw [hmx] at hrr
    rw [scan_concat, visit_mx hrr]

end Answers

section Example

/-- The texts of MX answers and of one of another type, in the format of the library. -/
def sprintRr : Option (ℕ × Bytes) → Bytes
  | some (n, host) =>
    bytes "d.\t\t5M IN " ++ (bytes "MX" ++ (bytes "\t" ++ (decimal n ++ 32 :: (host ++ [46]))))
  | none => bytes "d.\t\t5M IN CNAME\tc.d."

theorem mxText_sprintRr (n : ℕ) (host : Bytes) (hn : n ≤ 65535) (hne : host ≠ [])
    (hword : (host.all fun x => !isSpace x) = true) :
    MxText n host (sprintRr (some (n, host))) := by
  refine ⟨hn, ⟨bytes "d.\t\t5M IN ", bytes "\t", rfl, List.cons_ne_nil _ _,
    List.forall_mem_singleton.mpr rfl, ?_⟩, hne, ?_⟩
  · intro b x y z c howner _ hy
    have hnone : ((bytes "d.\t\t5M IN ").all fun y => decide (toLower y ≠ toLower 88)) = true := by
      decide
    have hy' : y ∈ bytes "d.\t\t5M IN " := by
      rw [howner]
      simp
    exact absurd hy (of_decide_eq_true (List.all_eq_true.mp hnone y hy'))
  · intro x hx
    exact (Bool.not_eq_true' _).mp (List.all_eq_true.mp hword x hx)

/-- The second MX answer has the smaller preference. -/
theorem mx_selected_second :
    checkDnsOutput [] [] (some ([some (20, bytes "a.d"), none, some (10, bytes "b.d")].map sprintRr)) =
      (1, bytes "b.d") := by
  have hrenders : ∀ rr ∈ [some (20, bytes "a.d"), none, some (10, bytes "b.d")],
      Renders (id rr) (sprintRr rr) := by
    intro rr hrr
    have hrr : rr = some (20, bytes "a.d") ∨ rr = none ∨ rr = some (10, bytes "b.d") := by
      simpa using hrr
    rcases hrr with rfl | rfl | rfl
    · exact mxText_sprintRr 20 (bytes "a.d") (by decide) (by decide) (by decide)
    · exact ⟨by decide +kernel, by decide +kernel⟩
    · exact mxText_sprintRr 10 (bytes "b.d") (by decide) (by decide) (by decide)
  obtain ⟨hresult, -⟩ := mx_selected id sprintRr [] [] _ hrenders
  rcases hresult with ⟨hnone, -⟩ | ⟨n, host, hmin, houtput⟩
  · exact absurd (hnone _ List.mem_cons_self) (by decide)
  · have hle : n ≤ 10 := hmin.le (y := (10, bytes "b.d")) (by decide)
    have hmem : (n, host) ∈ [(20, bytes "a.d"), (10, bytes "b.d")] := hmin.mem
    rw [List.mem_cons, List.mem_singleton] at hmem
    rcases hmem with hfirst | hsecond
    · obtain ⟨rfl, -⟩ := Prod.mk.inj hfirst
      exact absurd hle (by decide)
    · rw [houtput, (Prod.mk.inj hsecond).2]

end Example

end SmtpClient.MxSelection
