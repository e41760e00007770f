import Mathlib.Data.List.Basic

/-!
Backtracking pattern matching. The ways of a pattern on a subject are all the
matches of a prefix, in the order in which a backtracking matcher tries them,
so the first one is its answer. Repetition is greedy and of single symbols.
The relation Reads describes the same language without the order.
-/
namespace SmtpClient.Backtracking

variable {α : Type*}

inductive Pattern (α : Type*)
  | empty
  | one (p : α → Bool)
  | many (p : α → Bool)
  | seq (a b : Pattern α)
  | opt (a : Pattern α)
  | group (a : Pattern α)
  | atEnd (p : α → Bool)

/-- The text read, what is left of the subject, and the last captured group. -/
structure Match (α : Type*) where
  text : List α
  rest : List α
  captured : Option (List α)
deriving DecidableEq

namespace Match

def cons (x : α) (m : Match α) : Match α := { m with text := x :: m.text }

def followedBy (m n : Match α) : Match α :=
  ⟨m.text ++ n.text, n.rest, n.captured.or m.captured⟩

def capture (m : Match α) : Match α := { m with captured := some m.text }

end Match

/-- The longest repetition comes first. -/
def manyWays (p : α → Bool) : List α → List (Match α)
  | [] => [⟨[], [], none⟩]
  | x :: rest =>
    if p x then (manyWays p rest).map (Match.cons x) ++ [⟨[], x :: rest, none⟩]
    else [⟨[], x :: rest, none⟩]

def oneWays (p : α → Bool) : List α → List (Match α)
  | [] => []
  | x :: rest => if p x then [⟨[x], rest, none⟩] else []

/-- The end of the subject, or the place before a single last symbol of the class. -/
def endWays (p : α → Bool) : List α → List (Match α)
  | [] => [⟨[], [], none⟩]
  | [x] => if p x then [⟨[], [x], none⟩] else []
  | _ :: _ :: _ => []

def ways : Pattern α → List α → List (Match α)
  | .empty, s => [⟨[], s, none⟩]
  | .one p, s => oneWays p s
  | .many p, s => manyWays p s
  | .seq a b, s => (ways a s).flatMap fun m => (ways b m.rest).map m.followedBy
  | .opt a, s => ways a s ++ [⟨[], s, none⟩]
  | .group a, s => (ways a s).map Match.capture
  | .atEnd p, s => endWays p s

/-- The answer of the matcher at the beginning of the subject. -/
def execAt (a : Pattern α) (s : List α) : Option (Match α) := (ways a s).head?

/-- The answer of the matcher at the first place of the subject where it has one. -/
def search (a : Pattern α) : List α → Option (Match α)
  | [] => execAt a []
  | x :: rest => (execAt a (x :: rest)).or (search a rest)

def chain (l : List (Pattern α)) : Pattern α := l.foldr .seq .empty

def plus (p : α → Bool) : Pattern α := .seq (.one p) (.many p)

/-- The pattern can read the text t when r follows it. -/
def Reads (a : Pattern α) (t r : List α) : Prop :=
  ∃ m ∈ ways a (t ++ r), m.text = t

/-- Single symbols, repetitions and the end of the subject split the subject and
capture nothing. -/
theorem of_mem_oneWays (p : α → Bool) (s : List α) (m : Match α) (h : m ∈ oneWays p s) :
    s = m.text ++ m.rest ∧ m.captured = none := by
  cases s with
  | nil => exact absurd h List.not_mem_nil
  | cons x rest =>
    simp only [oneWays] at h
    split at h
    · obtain rfl := List.mem_singleton.mp h
      exact ⟨rfl, rfl⟩
    · exact absurd h List.not_mem_nil

theorem of_mem_manyWays (p : α → Bool) (s : List α) (m : Match α) (h : m ∈ manyWays p s) :
    s = m.text ++ m.rest ∧ m.captured = none := by
  induction s generalizing m with
  | nil =>
    obtain rfl := List.mem_singleton.mp h
    exact ⟨rfl, rfl⟩
  | cons x rest ih =>
    simp only [manyWays] at h
    split at h
    · rcases List.mem_append.mp h with h | h
      · obtain ⟨n, hn, rfl⟩ := List.mem_map.mp h
        obtain ⟨happ, hnone⟩ := ih n hn
        exact ⟨congrArg (List.cons x) happ, hnone⟩
      · obtain rfl := List.mem_singleton.mp h
        exact ⟨rfl, rfl⟩
    · obtain rfl := List.mem_singleton.mp h
      exact ⟨rfl, rfl⟩

theorem of_mem_endWays (p : α → Bool) (s : List α) (m : Match α) (h : m ∈ endWays p s) :
    s = m.text ++ m.rest ∧ m.captured = none := by
  match s with
  | [] =>
    obtain rfl := List.mem_singleton.mp h
    exact ⟨rfl, rfl⟩
  | [x] =>
    simp only [endWays] at h
    split at h
    · obtain rfl := List.mem_singleton.mp h
      exact ⟨rfl, rfl⟩
    · exact absurd h List.not_mem_nil
  | _ :: _ :: _ => exact absurd h List.not_mem_nil

theorem ways_append (a : Pattern α) (s : List α) (m : Match α) (h : m ∈ ways a s) :
    s = m.text ++ m.rest := by
  induction a generalizing s m with
  | empty =>
    obtain rfl := List.mem_singleton.mp h
    rfl
  | one p => exact (of_mem_oneWays p s m h).1
  | many p => exact (of_mem_manyWays p s m h).1
  | seq a b iha ihb =>
    obtain ⟨n, hn, h⟩ := List.mem_flatMap.mp h
    obtain ⟨k, hk, rfl⟩ := List.mem_map.mp h
    have ha := iha s n hn
    have hb := ihb n.rest k hk
    rw [ha, hb, Match.followedBy, List.append_assoc]
  | opt a iha =>
    rcases List.mem_append.mp h with h | h
    · exact iha s m h
    · obtain rfl := List.mem_singleton.mp h
      rfl
  | group a iha =>
    obtain ⟨n, hn, rfl⟩ := List.mem_map.mp h
    exact iha s n hn
  | atEnd p => exact (of_mem_endWays p s m h).1

/-- A captured group stands in the text that was read. -/
theorem ways_captured_subset (a : Pattern α) (s : List α) (m : Match α) (h : m ∈ ways a s)
    (g : List α) (hg : m.captured = some g) : ∀ x ∈ g, x ∈ m.text := by
  induction a generalizing s m with
  | empty =>
    obtain rfl := List.mem_singleton.mp h
    cases hg
  | one p =>
    rw [(of_mem_oneWays p s m h).2] at hg
    cases hg
  | many p =>
    rw [(of_mem_manyWays p s m h).2] at hg
    cases hg
  | seq a b iha ihb =>
    obtain ⟨n, hn, h⟩ := List.mem_flatMap.mp h
    obtain ⟨k, hk, rfl⟩ := List.mem_map.mp h
    intro x hx
    rcases Option.or_eq_some_iff.mp hg with hk' | ⟨-, hn'⟩
    · exact List.mem_append_right _ (ihb n.rest k hk hk' x hx)
    · exact List.mem_append_left _ (iha s n hn hn' x hx)
  | opt a iha =>
    rcases List.mem_append.mp h with h | h
    · exact iha s m h hg
    · obtain rfl := List.mem_singleton.mp h
      cases hg
  | group a iha =>
    obtain ⟨n, hn, rfl⟩ := List.mem_map.mp h
    obtain rfl := Option.some.inj hg
    intro x hx
    exact hx
  | atEnd p =>
    rw [(of_mem_endWays p s m h).2] at hg
    cases hg

/-- The pattern captures nothing. -/
def groupFree : Pattern α → Bool
  | .empty | .one _ | .many _ | .atEnd _ => true
  | .seq a b => groupFree a && groupFree b
  | .opt a => groupFree a
  | .group _ => false

theorem groupFree_chain (l : List (Pattern α)) (h : ∀ a ∈ l, groupFree a = true) :
    groupFree (chain l) = true := by
  induction l with
  | nil => rfl
  | cons a l ih =>
    have hl := ih fun b hb => h b (List.mem_cons_of_mem a hb)
    change (groupFree a && groupFree (chain l)) = true
    rw [h a List.mem_cons_self, hl]
    rfl

theorem ways_captured_none (a : Pattern α) (s : List α) (m : Match α) (ha : groupFree a = true)
    (h : m ∈ ways a s) : m.captured = none := by
  induction a generalizing s m with
  | empty =>
    obtain rfl := List.mem_singleton.mp h
    rfl
  | one p => exact (of_mem_oneWays p s m h).2
  | many p => exact (of_mem_manyWays p s m h).2
  | seq a b iha ihb =>
    obtain ⟨ha, hb⟩ := (Bool.and_eq_true _ _).mp ha
    obtain ⟨n, hn, h⟩ := List.mem_flatMap.mp h
    obtain ⟨k, hk, rfl⟩ := List.mem_map.mp h
    rw [Match.followedBy, iha s n ha hn, ihb n.rest k hb hk]
    rfl
  | opt a iha =>
    rcases List.mem_append.mp h with h | h
    · exact iha s m ha h
    · obtain rfl := List.mem_singleton.mp h
      rfl
  | group a iha => cases ha
  | atEnd p => exact (of_mem_endWays p s m h).2

/-- The matcher takes the first way of the first part from which the rest matches. -/
theorem execAt_chain_cons (a : Pattern α) (l : List (Pattern α)) (s : List α) :
    execAt (chain (a :: l)) s =
      (ways a s).findSome? fun n => (execAt (chain l) n.rest).map n.followedBy := by
  change ((ways a s).flatMap _).head? = _
  rw [List.head?_flatMap]
  simp only [List.head?_map]
  rfl

/-- One part of a chain reads a text, and the rest of the chain is matched behind it. -/
theorem execAt_cons (a : Pattern α) (l : List (Pattern α)) (s : List α) (m : Match α)
    (h : execAt (chain (a :: l)) s = some m) :
    ∃ n ∈ ways a s, ∃ k, execAt (chain l) n.rest = some k ∧ n.followedBy k = m := by
  rw [execAt_chain_cons] at h
  obtain ⟨n, hn, hmatch⟩ := List.exists_of_findSome?_eq_some h
  obtain ⟨k, hk, hm⟩ := Option.map_eq_some_iff.mp hmatch
  exact ⟨n, hn, k, hk, hm⟩

theorem execAt_cons_groupFree (a : Pattern α) (l : List (Pattern α)) (s : List α) (m : Match α)
    (ha : groupFree a = true) (h : execAt (chain (a :: l)) s = some m) :
    ∃ t r k, s = t ++ r ∧ Reads a t r ∧ execAt (chain l) r = some k ∧
      m.captured = k.captured := by
  obtain ⟨n, hn, k, hk, rfl⟩ := execAt_cons a l s m h
  have happ := ways_append a s n hn
  refine ⟨n.text, n.rest, k, happ, ⟨n, happ ▸ hn, rfl⟩, hk, ?_⟩
  rw [Match.followedBy, ways_captured_none a s n ha hn, Option.or_none]

theorem execAt_cons_group (a : Pattern α) (l : List (Pattern α)) (s : List α) (m : Match α)
    (h : execAt (chain (.group a :: l)) s = some m) :
    ∃ t r k, s = t ++ r ∧ Reads a t r ∧ execAt (chain l) r = some k ∧
      m.captured = k.captured.or (some t) := by
  obtain ⟨_, hmem, k, hk, rfl⟩ := execAt_cons (.group a) l s m h
  obtain ⟨n, hn, rfl⟩ := List.mem_map.mp hmem
  have happ := ways_append a s n hn
  exact ⟨n.text, n.rest, k, happ, ⟨n, happ ▸ hn, rfl⟩, hk, rfl⟩

theorem execAt_captured_none (a : Pattern α) (s : List α) (m : Match α) (ha : groupFree a = true)
    (h : execAt a s = some m) : m.captured = none :=
  ways_captured_none a s m ha (List.mem_of_head? h)

theorem manyWays_decreasing (p : α → Bool) (s : List α) :
    (manyWays p s).Pairwise fun m n => n.text.length < m.text.length := by
  induction s with
  | nil => exact List.pairwise_singleton _ _
  | cons x rest ih =>
    simp only [manyWays]
    split
    · rw [List.pairwise_append]
      refine ⟨?_, List.pairwise_singleton _ _, ?_⟩
      · rw [List.pairwise_map]
        refine ih.imp ?_
        intro m n hlt
        exact Nat.succ_lt_succ hlt
      · intro m hm n hn
        obtain ⟨k, -, rfl⟩ := List.mem_map.mp hm
        obtain rfl := List.mem_singleton.mp hn
        exact Nat.succ_pos _
    · exact List.pairwise_singleton _ _

/-- Greedy repetition tries the longer texts first. -/
theorem plus_decreasing (p : α → Bool) (s : List α) :
    (ways (plus p) s).Pairwise fun m n => n.text.length < m.text.length := by
  cases s with
  | nil => exact List.Pairwise.nil
  | cons x rest =>
    by_cases hp : p x = true
    · have hways : ways (plus p) (x :: rest) =
          (manyWays p rest).map (Match.followedBy ⟨[x], rest, none⟩) := by
        simp [plus, ways, oneWays, hp]
      rw [hways, List.pairwise_map]
      refine (manyWays_decreasing p rest).imp ?_
      intro m n hlt
      exact Nat.succ_lt_succ hlt
    · have hways : ways (plus p) (x :: rest) = [] := by
        simp [plus, ways, oneWays, hp]
      rw [hways]
      exact List.Pairwise.nil

/-- A greedy repetition takes the longest text from which the rest matches. -/
theorem execAt_plus (p : α → Bool) (l : List (Pattern α)) (s : List α) (m : Match α)
    (h : execAt (chain (plus p :: l)) s = some m) :
    ∃ n ∈ ways (plus p) s, ∃ k, execAt (chain l) n.rest = some k ∧ n.followedBy k = m ∧
      ∀ n' ∈ ways (plus p) s, n.text.length < n'.text.length →
        execAt (chain l) n'.rest = none := by
  rw [execAt_chain_cons, List.findSome?_eq_some_iff] at h
  obtain ⟨longer, n, shorter, hways, hn, hfail⟩ := h
  obtain ⟨k, hk, hm⟩ := Option.map_eq_some_iff.mp hn
  have hsorted := plus_decreasing p s
  rw [hways, List.pairwise_append] at hsorted
  obtain ⟨-, hrest, -⟩ := hsorted
  refine ⟨n, by rw [hways]; simp, k, hk, hm, ?_⟩
  intro n' hn' hlt
  rw [hways, List.mem_append, List.mem_cons] at hn'
  rcases hn' with hn' | rfl | hn'
  · simpa using hfail n' hn'
  · omega
  · have hshort := (List.pairwise_cons.mp hrest).1 n' hn'
    omega

theorem mem_ways_rest (a : Pattern α) (t r : List α) (m : Match α) (h : m ∈ ways a (t ++ r))
    (ht : m.text = t) : m.rest = r := by
  have happ := ways_append a (t ++ r) m h
  rw [ht] at happ
  exact (List.append_cancel_left happ).symm

/-- The matcher answers exactly on the subjects with a readable prefix. -/
theorem execAt_isSome_iff (a : Pattern α) (s : List α) :
    (execAt a s).isSome = true ↔ ∃ t r, s = t ++ r ∧ Reads a t r := by
  unfold execAt
  rw [List.isSome_head?]
  constructor
  · intro hne
    obtain ⟨m, hm⟩ := List.exists_mem_of_ne_nil _ hne
    have happ := ways_append a s m hm
    exact ⟨m.text, m.rest, happ, m, happ ▸ hm, rfl⟩
  · rintro ⟨t, r, rfl, m, hm, -⟩
    exact List.ne_nil_of_mem hm

theorem execAt_cons_of_execAt (a : Pattern α) (l : List (Pattern α)) (s : List α) (n k : Match α)
    (h : execAt a s = some n) (hk : execAt (chain l) n.rest = some k) :
    execAt (chain (a :: l)) s = some (n.followedBy k) := by
  obtain ⟨rest, hways⟩ := List.head?_eq_some_iff.mp h
  rw [execAt_chain_cons, hways, List.findSome?_cons, hk]
  rfl

/-- A repetition takes all symbols of its class, if the rest of the pattern lets it. -/
theorem execAt_many_eq (p : α → Bool) (t r : List α) (ht : ∀ x ∈ t, p x = true)
    (hr : ∀ x, r.head? = some x → p x = false) :
    execAt (.many p) (t ++ r) = some ⟨t, r, none⟩ := by
  change (manyWays p (t ++ r)).head? = _
  induction t with
  | nil =>
    cases r with
    | nil => rfl
    | cons x r => simp [manyWays, hr x rfl]
  | cons x t ih =>
    rw [List.forall_mem_cons] at ht
    rw [List.cons_append, manyWays, if_pos ht.1, List.head?_append, List.head?_map, ih ht.2]
    rfl

theorem execAt_plus_eq (p : α → Bool) (t r : List α) (hne : t ≠ []) (ht : ∀ x ∈ t, p x = true)
    (hr : ∀ x, r.head? = some x → p x = false) :
    execAt (plus p) (t ++ r) = some ⟨t, r, none⟩ := by
  obtain ⟨x, t, rfl⟩ := List.exists_cons_of_ne_nil hne
  rw [List.forall_mem_cons] at ht
  have hways : ways (plus p) (x :: (t ++ r)) =
      (manyWays p (t ++ r)).map (Match.followedBy ⟨[x], t ++ r, none⟩) := by
    simp [plus, ways, oneWays, ht.1]
  have hmany : (manyWays p (t ++ r)).head? = some ⟨t, r, none⟩ := execAt_many_eq p t r ht.2 hr
  rw [execAt, List.cons_append, hways, List.head?_map, hmany]
  rfl

theorem execAt_group (a : Pattern α) (s : List α) :
    execAt (.group a) s = (execAt a s).map Match.capture := List.head?_map

/-- The search goes on to the first place where the pattern matches. -/
theorem search_append (a : Pattern α) (front s : List α) (m : Match α)
    (hfront : ∀ b c, front = b ++ c → c ≠ [] → execAt a (c ++ s) = none)
    (hm : execAt a s = some m) : search a (front ++ s) = some m := by
  induction front with
  | nil =>
    cases s with
    | nil => exact hm
    | cons x s => rw [List.nil_append, search, hm]; rfl
  | cons x front ih =>
    have hx := hfront [] (x :: front) rfl (List.cons_ne_nil x front)
    rw [List.cons_append] at hx
    rw [List.cons_append, search, hx, Option.none_or]
    apply ih
    intro b c hbc hne
    exact hfront (x :: b) c (congrArg (List.cons x) hbc) hne

@[simp] theorem reads_empty (t r : List α) : Reads .empty t r ↔ t = [] := by
  simp [Reads, ways, eq_comm]

@[simp] theorem reads_one (p : α → Bool) (t r : List α) :
    Reads (.one p) t r ↔ ∃ x, t = [x] ∧ p x = true := by
  constructor
  · rintro ⟨m, hm, rfl⟩
    cases hs : m.text ++ r with
    | nil =>
      rw [hs] at hm
      exact absurd hm List.not_mem_nil
    | cons x rest =>
      rw [hs] at hm
      simp only [ways, oneWays] at hm
      split at hm
      · rename_i hp
        obtain rfl := List.mem_singleton.mp hm
        exact ⟨x, rfl, hp⟩
      · exact absurd hm List.not_mem_nil
  · rintro ⟨x, rfl, hp⟩
    exact ⟨⟨[x], r, none⟩, by simp [ways, oneWays, hp], rfl⟩

theorem reads_many_mem (p : α → Bool) (s : List α) (m : Match α) (h : m ∈ manyWays p s) :
    ∀ x ∈ m.text, p x = true := by
  induction s generalizing m with
  | nil =>
    obtain rfl := List.mem_singleton.mp h
    simp
  | cons x rest ih =>
    simp only [manyWays] at h
    split at h
    · rename_i hp
      rcases List.mem_append.mp h with h | h
      · obtain ⟨n, hn, rfl⟩ := List.mem_map.mp h
        intro y hy
        rcases List.mem_cons.mp hy with rfl | hy
        · exact hp
        · exact ih n hn y hy
      · obtain rfl := List.mem_singleton.mp h
        simp
    · obtain rfl := List.mem_singleton.mp h
      simp

@[simp] theorem reads_many (p : α → Bool) (t r : List α) :
    Reads (.many p) t r ↔ ∀ x ∈ t, p x = true := by
  constructor
  · rintro ⟨m, hm, rfl⟩
    exact reads_many_mem p _ m hm
  · intro h
    refine ⟨⟨t, r, none⟩, ?_, rfl⟩
    simp only [ways]
    induction t with
    | nil =>
      cases r with
      | nil => exact List.mem_singleton.mpr rfl
      | cons y r =>
        simp only [List.nil_append, manyWays]
        split <;> simp
    | cons x t ih =>
      have hmem := ih fun y hy => h y (List.mem_cons_of_mem x hy)
      have hx := h x List.mem_cons_self
      simp only [List.cons_append, manyWays, hx, if_true]
      exact List.mem_append_left _ (List.mem_map.mpr ⟨_, hmem, rfl⟩)

@[simp] theorem reads_seq (a b : Pattern α) (t r : List α) :
    Reads (.seq a b) t r ↔ ∃ t₁ t₂, t = t₁ ++ t₂ ∧ Reads a t₁ (t₂ ++ r) ∧ Reads b t₂ r := by
  constructor
  · rintro ⟨m, hm, rfl⟩
    obtain ⟨n, hn, hm⟩ := List.mem_flatMap.mp hm
    obtain ⟨k, hk, rfl⟩ := List.mem_map.mp hm
    have hrest : n.rest = k.text ++ r := by
      apply mem_ways_rest a n.text (k.text ++ r) n _ rfl
      simpa only [Match.followedBy, List.append_assoc] using hn
    refine ⟨n.text, k.text, rfl, ⟨n, ?_, rfl⟩, ⟨k, ?_, rfl⟩⟩
    · simpa only [Match.followedBy, List.append_assoc] using hn
    · rw [← hrest]
      exact hk
  · rintro ⟨t₁, t₂, rfl, ⟨n, hn, rfl⟩, ⟨k, hk, rfl⟩⟩
    have hrest := mem_ways_rest a n.text (k.text ++ r) n hn rfl
    refine ⟨n.followedBy k, ?_, rfl⟩
    rw [List.append_assoc]
    refine List.mem_flatMap.mpr ⟨n, hn, List.mem_map.mpr ⟨k, ?_, rfl⟩⟩
    rw [hrest]
    exact hk

@[simp] theorem reads_opt (a : Pattern α) (t r : List α) :
    Reads (.opt a) t r ↔ Reads a t r ∨ t = [] := by
  constructor
  · rintro ⟨m, hm, rfl⟩
    rcases List.mem_append.mp hm with hm | hm
    · exact Or.inl ⟨m, hm, rfl⟩
    · exact Or.inr (congrArg Match.text (List.mem_singleton.mp hm))
  · rintro (⟨m, hm, rfl⟩ | rfl)
    · exact ⟨m, List.mem_append_left _ hm, rfl⟩
    · exact ⟨⟨[], r, none⟩, List.mem_append_right _ (List.mem_singleton.mpr rfl), rfl⟩

@[simp] theorem reads_group (a : Pattern α) (t r : List α) :
    Reads (.group a) t r ↔ Reads a t r := by
  simp [Reads, ways, Match.capture]

@[simp] theorem reads_atEnd (p : α → Bool) (t r : List α) :
    Reads (.atEnd p) t r ↔ t = [] ∧ (r = [] ∨ ∃ x, r = [x] ∧ p x = true) := by
  constructor
  · intro h
    obtain ⟨m, hm, rfl⟩ := h
    change m ∈ endWays p (m.text ++ r) at hm
    cases hs : m.text ++ r with
    | nil =>
      rw [List.append_eq_nil_iff] at hs
      exact ⟨hs.1, Or.inl hs.2⟩
    | cons x rest =>
      rw [hs] at hm
      cases rest with
      | nil =>
        simp only [endWays] at hm
        split at hm
        · rename_i hx
          obtain rfl := List.mem_singleton.mp hm
          exact ⟨rfl, Or.inr ⟨x, hs, hx⟩⟩
        · exact absurd hm List.not_mem_nil
      | cons y rest => exact absurd hm List.not_mem_nil
  · intro h
    obtain ⟨rfl, hr⟩ := h
    rcases hr with rfl | ⟨x, rfl, hx⟩
    · exact ⟨⟨[], [], none⟩, List.mem_singleton.mpr rfl, rfl⟩
    · exact ⟨⟨[], [x], none⟩, by simp [ways, endWays, hx], rfl⟩

@[simp] theorem reads_plus (p : α → Bool) (t r : List α) :
    Reads (plus p) t r ↔ t ≠ [] ∧ ∀ x ∈ t, p x = true := by
  simp only [plus, reads_seq, reads_one, reads_many]
  constructor
  · rintro ⟨_, t₂, rfl, ⟨x, rfl, hx⟩, h⟩
    refine ⟨List.cons_ne_nil x t₂, ?_⟩
    intro y hy
    rcases List.mem_cons.mp hy with rfl | hy
    · exact hx
    · exact h y hy
  · rintro ⟨hne, h⟩
    obtain ⟨x, t, rfl⟩ := List.exists_cons_of_ne_nil hne
    exact ⟨[x], t, rfl, ⟨x, rfl, h x List.mem_cons_self⟩,
      fun y hy => h y (List.mem_cons_of_mem x hy)⟩

@[simp] theorem reads_chain_nil (t r : List α) : Reads (chain []) t r ↔ t = [] :=
  reads_empty t r

@[simp] theorem reads_chain_cons (a : Pattern α) (l : List (Pattern α)) (t r : List α) :
    Reads (chain (a :: l)) t r ↔
      ∃ t₁ t₂, t = t₁ ++ t₂ ∧ Reads a t₁ (t₂ ++ r) ∧ Reads (chain l) t₂ r :=
  reads_seq a (chain l) t r

end SmtpClient.Backtracking
