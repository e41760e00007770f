import Mathlib.Data.List.Basic
import Mathlib.Data.List.TakeDrop
import Mathlib.Tactic.Common

/-!
Reading a stream by lines into a bounded buffer. A read takes symbols up to and
with the next newline, but never more than the buffer holds, so a line that is
too long arrives in several chunks. The last chunk of a stream is the last line
cut at the last multiple of the buffer size.
-/
namespace SmtpClient.LineReading

variable {α : Type*}

/-- A line ends with its only newline. -/
def IsLine (nl : α) (l : List α) : Prop := ∃ w, l = w ++ [nl] ∧ nl ∉ w

section Read

variable [DecidableEq α]

/-- Up to k symbols, ending early behind a newline, and the rest of the stream. -/
def takeLine (nl : α) : ℕ → List α → List α × List α
  | 0, s => ([], s)
  | _ + 1, [] => ([], [])
  | k + 1, x :: s =>
    if x = nl then ([x], s) else (x :: (takeLine nl k s).1, (takeLine nl k s).2)

/-- A buffer of the given size keeps one place for the terminator. -/
def fgets (nl : α) (size : ℕ) (s : List α) : Option (List α × List α) :=
  if s = [] then none else some (takeLine nl (size - 1) s)

def chunksN (nl : α) (size : ℕ) : ℕ → List α → List (List α)
  | 0, _ => []
  | n + 1, s =>
    match fgets nl size s with
    | none => []
    | some (c, rest) => c :: chunksN nl size n rest

/-- All chunks of the stream. Every read of a nonempty stream takes something,
so the length of the stream bounds their number. -/
def chunks (nl : α) (size : ℕ) (s : List α) : List (List α) := chunksN nl size s.length s

/-- The lines of a stream; the last one may lack its newline. -/
def splitLines (nl : α) : List α → List (List α)
  | [] => []
  | x :: s =>
    if x = nl then [x] :: splitLines nl s
    else match splitLines nl s with
      | [] => [[x]]
      | l :: ls => (x :: l) :: ls

end Read

variable [DecidableEq α] (nl : α)

theorem takeLine_append (k : ℕ) (s : List α) :
    (takeLine nl k s).1 ++ (takeLine nl k s).2 = s := by
  induction k generalizing s with
  | zero => rfl
  | succ k ih =>
    cases s with
    | nil => rfl
    | cons x s =>
      simp only [takeLine]
      split
      · rfl
      · exact congrArg (List.cons x) (ih s)

theorem takeLine_length_le (k : ℕ) (s : List α) : (takeLine nl k s).1.length ≤ k := by
  induction k generalizing s with
  | zero => exact Nat.le_refl 0
  | succ k ih =>
    cases s with
    | nil => exact Nat.zero_le _
    | cons x s =>
      simp only [takeLine]
      split
      · exact Nat.succ_le_succ (Nat.zero_le k)
      · exact Nat.succ_le_succ (ih s)

/-- A newline can only be the last symbol of a chunk. -/
theorem takeLine_dropLast (k : ℕ) (s : List α) : nl ∉ (takeLine nl k s).1.dropLast := by
  induction k generalizing s with
  | zero => exact List.not_mem_nil
  | succ k ih =>
    cases s with
    | nil => exact List.not_mem_nil
    | cons x s =>
      simp only [takeLine]
      split
      · exact List.not_mem_nil
      · rename_i hx
        cases ht : (takeLine nl k s).1 with
        | nil => exact List.not_mem_nil
        | cons y t =>
          rw [List.dropLast_cons_of_ne_nil (List.cons_ne_nil y t), List.mem_cons, not_or]
          exact ⟨Ne.symm hx, ht ▸ ih s⟩

omit [DecidableEq α] in
/-- A chunk that holds a newline is a whole line. -/
theorem isLine_of_mem (l : List α) (h : nl ∈ l) (hlast : nl ∉ l.dropLast) : IsLine nl l := by
  have hne : l ≠ [] := List.ne_nil_of_mem h
  have happ := List.dropLast_append_getLast hne
  rw [← happ, List.mem_append, List.mem_singleton] at h
  rcases h with h | h
  · exact absurd h hlast
  · exact ⟨l.dropLast, by rw [h]; exact happ.symm, hlast⟩

/-- A line that fits into the buffer is read whole. -/
theorem takeLine_line (k : ℕ) (l s : List α) (hl : IsLine nl l) (hk : l.length ≤ k) :
    takeLine nl k (l ++ s) = (l, s) := by
  obtain ⟨w, rfl, hw⟩ := hl
  induction w generalizing k with
  | nil =>
    cases k with
    | zero => exact absurd hk (Nat.not_succ_le_zero _)
    | succ k => simp [takeLine]
  | cons x w ih =>
    cases k with
    | zero => exact absurd hk (Nat.not_succ_le_zero _)
    | succ k =>
      have hx : x ≠ nl := fun h => hw (h ▸ List.mem_cons_self)
      have htail := ih k (fun h => hw (List.mem_cons_of_mem x h)) (Nat.le_of_succ_le_succ hk)
      simp only [List.cons_append, takeLine, if_neg hx, htail]

/-- Without a newline among its first k symbols, a long stream fills the buffer. -/
theorem takeLine_full (k : ℕ) (w s : List α) (hw : nl ∉ w) (hk : w.length = k) :
    takeLine nl k (w ++ s) = (w, s) := by
  induction w generalizing k with
  | nil =>
    subst hk
    rfl
  | cons x w ih =>
    subst hk
    have hx : x ≠ nl := fun h => hw (h ▸ List.mem_cons_self)
    have htail := ih w.length (fun h => hw (List.mem_cons_of_mem x h)) rfl
    simp only [List.length_cons, List.cons_append, takeLine, if_neg hx, htail]

theorem takeLine_short (k : ℕ) (w : List α) (hw : nl ∉ w) (hk : w.length ≤ k) :
    takeLine nl k w = (w, []) := by
  induction w generalizing k with
  | nil => cases k <;> rfl
  | cons x w ih =>
    cases k with
    | zero => exact absurd hk (Nat.not_succ_le_zero _)
    | succ k =>
      have hx : x ≠ nl := fun h => hw (h ▸ List.mem_cons_self)
      have htail := ih k (fun h => hw (List.mem_cons_of_mem x h)) (Nat.le_of_succ_le_succ hk)
      simp only [takeLine, if_neg hx, htail]

/-- What lies behind the chunk does not change it. -/
theorem takeLine_append_of_rest (k : ℕ) (a b : List α) (h : (takeLine nl k a).2 ≠ []) :
    takeLine nl k (a ++ b) = ((takeLine nl k a).1, (takeLine nl k a).2 ++ b) := by
  induction k generalizing a with
  | zero => rfl
  | succ k ih =>
    cases a with
    | nil => exact absurd rfl h
    | cons x a =>
      simp only [List.cons_append, takeLine] at h ⊢
      split
      · rfl
      · rename_i hx
        rw [if_neg hx] at h
        rw [ih a h]

theorem takeLine_fst_ne_nil (k : ℕ) (s : List α) (hk : 0 < k) (hs : s ≠ []) :
    (takeLine nl k s).1 ≠ [] := by
  obtain ⟨x, s, rfl⟩ := List.exists_cons_of_ne_nil hs
  obtain ⟨k, rfl⟩ := Nat.exists_eq_add_of_lt hk
  simp only [Nat.zero_add, takeLine]
  split <;> exact List.cons_ne_nil _ _

theorem takeLine_snd_length (k : ℕ) (s : List α) (hk : 0 < k) (hs : s ≠ []) :
    (takeLine nl k s).2.length < s.length := by
  have happ := congrArg List.length (takeLine_append nl k s)
  have hpos := List.length_pos_of_ne_nil (takeLine_fst_ne_nil nl k s hk hs)
  rw [List.length_append] at happ
  omega

theorem splitLines_ne_nil (s : List α) (hs : s ≠ []) : splitLines nl s ≠ [] := by
  obtain ⟨x, s, rfl⟩ := List.exists_cons_of_ne_nil hs
  simp only [splitLines]
  split
  · exact List.cons_ne_nil _ _
  · split <;> exact List.cons_ne_nil _ _

theorem ne_nil_of_mem_splitLines (s l : List α) (hl : l ∈ splitLines nl s) : l ≠ [] := by
  induction s generalizing l with
  | nil => cases hl
  | cons x s ih =>
    simp only [splitLines] at hl
    split at hl
    · rcases List.mem_cons.mp hl with rfl | hl
      · exact List.cons_ne_nil x []
      · exact ih l hl
    · cases hls : splitLines nl s with
      | nil =>
        rw [hls] at hl
        rw [List.mem_singleton.mp hl]
        exact List.cons_ne_nil x []
      | cons k ks =>
        rw [hls] at hl ih
        rcases List.mem_cons.mp hl with rfl | hl
        · exact List.cons_ne_nil x k
        · exact ih l (List.mem_cons_of_mem k hl)

/-- The lines put together are the stream. -/
theorem splitLines_flatten (s : List α) : (splitLines nl s).flatten = s := by
  induction s with
  | nil => rfl
  | cons x s ih =>
    simp only [splitLines]
    split
    · exact congrArg (List.cons x) ih
    · cases hls : splitLines nl s with
      | nil =>
        rw [hls] at ih
        exact congrArg (List.cons x) ih
      | cons l ls =>
        rw [hls] at ih
        exact congrArg (List.cons x) ih

/-- A stream ends with a line that begins it or stands behind a newline. -/
theorem exists_last_line (s : List α) (hs : s ≠ []) :
    ∃ a l, s = a ++ l ∧ (a = [] ∨ a.getLast? = some nl) ∧ l ≠ [] ∧ nl ∉ l.dropLast := by
  induction s with
  | nil => exact absurd rfl hs
  | cons x s ih =>
    by_cases hnil : s = []
    · subst hnil
      exact ⟨[], [x], rfl, Or.inl rfl, List.cons_ne_nil x [], List.not_mem_nil⟩
    · obtain ⟨a, l, rfl, ha, hl, hfree⟩ := ih hnil
      rcases ha with rfl | ha
      · by_cases hx : x = nl
        · exact ⟨[x], l, rfl, Or.inr (by rw [hx]; rfl), hl, hfree⟩
        · refine ⟨[], x :: l, rfl, Or.inl rfl, List.cons_ne_nil x l, ?_⟩
          rw [List.dropLast_cons_of_ne_nil hl, List.mem_cons, not_or]
          exact ⟨Ne.symm hx, hfree⟩
      · exact ⟨x :: a, l, rfl, Or.inr (by rw [List.getLast?_cons, ha]; rfl), hl, hfree⟩

theorem splitLines_append (a b : List α) (ha : a.getLast? = some nl) :
    splitLines nl (a ++ b) = splitLines nl a ++ splitLines nl b := by
  induction a with
  | nil => cases ha
  | cons x a ih =>
    by_cases hnil : a = []
    · subst hnil
      obtain rfl := Option.some.inj ha
      simp [splitLines]
    · have hend : a.getLast? = some nl := by
        rw [← ha, List.getLast?_cons_of_ne_nil hnil]
      have hne := splitLines_ne_nil nl a hnil
      obtain ⟨l, ls, hls⟩ := List.exists_cons_of_ne_nil hne
      simp only [List.cons_append, splitLines, ih hend, hls]
      split <;> rfl

theorem splitLines_single (l : List α) (hne : l ≠ []) (hl : nl ∉ l.dropLast) :
    splitLines nl l = [l] := by
  induction l with
  | nil => exact absurd rfl hne
  | cons x l ih =>
    by_cases hnil : l = []
    · subst hnil
      simp [splitLines]
    · rw [List.dropLast_cons_of_ne_nil hnil, List.mem_cons, not_or] at hl
      simp only [splitLines, if_neg (Ne.symm hl.1), ih hnil hl.2]

/-- The last line of a stream, with what stands before it. -/
theorem splitLines_getLast? (s l : List α) (h : (splitLines nl s).getLast? = some l) :
    ∃ a, s = a ++ l ∧ (a = [] ∨ a.getLast? = some nl) ∧ l ≠ [] ∧ nl ∉ l.dropLast := by
  have hs : s ≠ [] := by
    rintro rfl
    cases h
  obtain ⟨a, l', rfl, ha, hl, hfree⟩ := exists_last_line nl s hs
  have hsingle := splitLines_single nl l' hl hfree
  have hlast : (splitLines nl (a ++ l')).getLast? = some l' := by
    rcases ha with rfl | ha
    · rw [List.nil_append, hsingle]
      rfl
    · rw [splitLines_append nl a l' ha, hsingle, List.getLast?_concat]
  obtain rfl := Option.some.inj (hlast.symm.trans h)
  exact ⟨a, rfl, ha, hl, hfree⟩

section Chunks

variable (size : ℕ) (hsize : 2 ≤ size)
include hsize

/-- Any bound that covers the stream gives the same chunks. -/
theorem chunksN_eq (n : ℕ) (s : List α) (h : s.length ≤ n) :
    chunksN nl size n s = chunks nl size s := by
  unfold chunks
  induction hm : s.length using Nat.strongRecOn generalizing n s with
  | ind m ih =>
    subst hm
    by_cases hs : s = []
    · subst hs
      cases n <;> rfl
    · have hpos := List.length_pos_of_ne_nil hs
      have hlt := takeLine_snd_length nl (size - 1) s (by omega) hs
      obtain ⟨n, rfl⟩ : ∃ n', n = n' + 1 := ⟨n - 1, by omega⟩
      obtain ⟨m, hm⟩ : ∃ m, s.length = m + 1 := ⟨s.length - 1, by omega⟩
      rw [hm]
      simp only [chunksN, fgets, if_neg hs]
      rw [ih _ hlt n _ (by omega) rfl, ih _ hlt m _ (by omega) rfl]

theorem chunks_of_ne_nil (s : List α) (hs : s ≠ []) :
    chunks nl size s =
      (takeLine nl (size - 1) s).1 :: chunks nl size (takeLine nl (size - 1) s).2 := by
  have hlt := takeLine_snd_length nl (size - 1) s (by omega) hs
  obtain ⟨m, hm⟩ : ∃ m, s.length = m + 1 := ⟨s.length - 1, by omega⟩
  rw [chunks, hm]
  simp only [chunksN, fgets, if_neg hs]
  rw [chunksN_eq nl size hsize m _ (by omega)]

theorem chunks_ne_nil (s : List α) (hs : s ≠ []) : chunks nl size s ≠ [] := by
  rw [chunks_of_ne_nil nl size hsize s hs]
  exact List.cons_ne_nil _ _

/-- The chunks put together are the stream. -/
theorem chunks_flatten (s : List α) : (chunks nl size s).flatten = s := by
  induction hm : s.length using Nat.strongRecOn generalizing s with
  | ind m ih =>
    subst hm
    by_cases hs : s = []
    · subst hs
      rfl
    · have hlt := takeLine_snd_length nl (size - 1) s (by omega) hs
      rw [chunks_of_ne_nil nl size hsize s hs, List.flatten_cons, ih _ hlt _ rfl,
        takeLine_append]

theorem chunks_length_le (s c : List α) (h : c ∈ chunks nl size s) : c.length ≤ size - 1 := by
  induction hm : s.length using Nat.strongRecOn generalizing s with
  | ind m ih =>
    subst hm
    by_cases hs : s = []
    · subst hs
      exact absurd h List.not_mem_nil
    · have hlt := takeLine_snd_length nl (size - 1) s (by omega) hs
      rw [chunks_of_ne_nil nl size hsize s hs] at h
      rcases List.mem_cons.mp h with h | h
      · rw [h]
        exact takeLine_length_le nl (size - 1) s
      · exact ih _ hlt _ h rfl

/-- A stream that ends with a newline is cut independently of what follows it. -/
theorem chunks_append (a b : List α) (ha : a.getLast? = some nl) :
    chunks nl size (a ++ b) = chunks nl size a ++ chunks nl size b := by
  induction hm : a.length using Nat.strongRecOn generalizing a with
  | ind m ih =>
    subst hm
    have hne : a ≠ [] := by
      rintro rfl
      cases ha
    have happ := takeLine_append nl (size - 1) a
    have hlt := takeLine_snd_length nl (size - 1) a (by omega) hne
    rw [chunks_of_ne_nil nl size hsize a hne,
      chunks_of_ne_nil nl size hsize (a ++ b) (by simp [hne])]
    by_cases hrest : (takeLine nl (size - 1) a).2 = []
    · rw [hrest, List.append_nil] at happ
      have hlen := takeLine_length_le nl (size - 1) a
      have hlast := takeLine_dropLast nl (size - 1) a
      rw [happ] at hlen hlast
      have hline := isLine_of_mem nl a (List.mem_of_getLast? ha) hlast
      rw [takeLine_line nl _ a b hline hlen, happ, hrest]
      rfl
    · have hend : (takeLine nl (size - 1) a).2.getLast? = some nl := by
        rw [← happ, List.getLast?_append_of_ne_nil _ hrest] at ha
        exact ha
      rw [takeLine_append_of_rest nl _ a b hrest]
      simp only
      rw [ih _ hlt _ hend rfl, List.cons_append]

/-- The last chunk of one line is what is left of it behind full buffers. -/
theorem chunks_getLast?_line (l : List α) (hne : l ≠ []) (hl : nl ∉ l.dropLast) :
    (chunks nl size l).getLast? =
      some (l.drop ((l.length - 1) / (size - 1) * (size - 1))) := by
  induction hm : l.length using Nat.strongRecOn generalizing l with
  | ind m ih =>
    subst hm
    have hpos := List.length_pos_of_ne_nil hne
    by_cases hle : l.length ≤ size - 1
    · have htake : takeLine nl (size - 1) l = (l, []) := by
        by_cases hmem : nl ∈ l
        · simpa using takeLine_line nl (size - 1) l [] (isLine_of_mem nl l hmem hl) hle
        · exact takeLine_short nl (size - 1) l hmem hle
      rw [chunks_of_ne_nil nl size hsize l hne, htake, Nat.div_eq_of_lt (by omega)]
      simp [chunks, chunksN]
    · have hdrop : l.drop (size - 1) ≠ [] := by
        simp only [ne_eq, List.drop_eq_nil_iff]
        omega
      have hfree : nl ∉ l.take (size - 1) := by
        intro hmem
        rw [List.dropLast_eq_take] at hl
        exact hl (List.take_subset_take_left l (by omega) hmem)
      have htake := takeLine_full nl (size - 1) (l.take (size - 1)) (l.drop (size - 1)) hfree
        (List.length_take_of_le (by omega))
      rw [List.take_append_drop] at htake
      have hfree' : nl ∉ (l.drop (size - 1)).dropLast := by
        rw [List.dropLast_drop_eq_drop_dropLast]
        exact fun hmem => hl (List.mem_of_mem_drop hmem)
      have hih := ih (l.drop (size - 1)).length (by rw [List.length_drop]; omega)
        (l.drop (size - 1)) hdrop hfree' rfl
      have hdiv := Nat.div_eq_sub_div (a := l.length - 1) (b := size - 1) (by omega) (by omega)
      have hcut : size - 1 + (l.length - (size - 1) - 1) / (size - 1) * (size - 1) =
          (l.length - 1) / (size - 1) * (size - 1) := by
        rw [hdiv, Nat.add_mul, Nat.one_mul, Nat.add_comm,
          show l.length - 1 - (size - 1) = l.length - (size - 1) - 1 by omega]
      rw [List.length_drop, List.drop_drop, hcut] at hih
      rw [chunks_of_ne_nil nl size hsize l hne, htake, List.getLast?_cons, hih, Option.getD_some]

/-- The last chunk of a stream comes from its last line. -/
theorem chunks_getLast? (s l : List α) (h : (splitLines nl s).getLast? = some l) :
    (chunks nl size s).getLast? =
      some (l.drop ((l.length - 1) / (size - 1) * (size - 1))) := by
  obtain ⟨a, rfl, ha, hne, hl⟩ := splitLines_getLast? nl s l h
  have hlast := chunks_getLast?_line nl size hsize l hne hl
  rcases ha with rfl | ha
  · exact hlast
  · rw [chunks_append nl size hsize a l ha,
      List.getLast?_append_of_ne_nil _ (chunks_ne_nil nl size hsize l hne), hlast]

end Chunks

end SmtpClient.LineReading
