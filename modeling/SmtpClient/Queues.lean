import Mathlib.Data.List.Basic
import Mathlib.Data.List.Nodup

/-!
Cursors into a linked queue. A cursor is the position of an element, and
`none` is the null pointer behind the last element. `seek` is the loop that
follows the links until a test succeeds. `pending` lists, with their positions,
the elements a cursor has still to visit; a search removes its first entry.
-/
namespace SmtpClient.Queues

variable {α : Type*}

def first (l : List α) : Option ℕ := if l = [] then none else some 0

def next (l : List α) (i : ℕ) : Option ℕ := if i + 1 < l.length then some (i + 1) else none

/-- Walk along the suffix that starts at position i up to the first element
that passes the test. -/
def seek (p : α → Bool) : ℕ → List α → Option ℕ
  | _, [] => none
  | i, x :: rest => if p x then some i else seek p (i + 1) rest

/-- The elements at or after position i that pass the test, with their positions. -/
def pending (p : α → Bool) (l : List α) (i : ℕ) : List (α × ℕ) :=
  ((l.drop i).zipIdx i).filter fun x => p x.1

theorem pending_of_length_le (p : α → Bool) (l : List α) (i : ℕ) (h : l.length ≤ i) :
    pending p l i = [] := by
  simp [pending, List.drop_eq_nil_of_le h]

theorem pending_of_lt (p : α → Bool) (l : List α) (i : ℕ) (h : i < l.length) :
    pending p l i =
      if p l[i] then (l[i], i) :: pending p l (i + 1) else pending p l (i + 1) := by
  unfold pending
  rw [List.drop_eq_getElem_cons h, List.zipIdx_cons, List.filter_cons]

theorem mem_pending (p : α → Bool) (l : List α) (i k : ℕ) (x : α) :
    (x, k) ∈ pending p l i ↔ i ≤ k ∧ l[k]? = some x ∧ p x = true := by
  unfold pending
  rw [List.mem_filter, List.mem_zipIdx_iff_le_and_getElem?_sub, List.getElem?_drop]
  constructor
  · rintro ⟨⟨hle, hget⟩, hp⟩
    rw [Nat.add_sub_cancel' hle] at hget
    exact ⟨hle, hget, hp⟩
  · rintro ⟨hle, hget, hp⟩
    rw [Nat.add_sub_cancel' hle]
    exact ⟨⟨hle, hget⟩, hp⟩

/-- The positions of the pending elements increase. -/
theorem pending_increasing (p : α → Bool) (l : List α) (i : ℕ) :
    (pending p l i).Pairwise fun x y => x.2 < y.2 := by
  refine List.Pairwise.sublist List.filter_sublist ?_
  generalize l.drop i = suffix
  induction suffix generalizing i with
  | nil => exact List.Pairwise.nil
  | cons x rest ih =>
    rw [List.zipIdx_cons, List.pairwise_cons]
    refine ⟨?_, ih (i + 1)⟩
    rintro ⟨y, k⟩ hy
    have hle := (List.mem_zipIdx_iff_le_and_getElem?_sub.mp hy).1
    exact Nat.lt_of_succ_le hle

/-- A search that stops at k leaves k as the first pending element. -/
theorem pending_of_seek_some (p : α → Bool) (l : List α) (i k : ℕ)
    (h : seek p i (l.drop i) = some k) :
    ∃ x, l[k]? = some x ∧ p x = true ∧ i ≤ k ∧
      pending p l i = (x, k) :: pending p l (k + 1) := by
  induction hn : l.length - i generalizing i with
  | zero =>
    rw [List.drop_eq_nil_of_le (by omega)] at h
    simp [seek] at h
  | succ n ih =>
    have hi : i < l.length := by omega
    rw [List.drop_eq_getElem_cons hi, seek] at h
    rw [pending_of_lt p l i hi]
    by_cases hp : p l[i] = true
    · rw [if_pos hp] at h
      obtain rfl := Option.some.inj h
      exact ⟨l[i], List.getElem?_eq_getElem hi, hp, Nat.le_refl i, if_pos hp⟩
    · rw [if_neg hp] at h
      obtain ⟨x, hx, hpx, hle, heq⟩ := ih (i + 1) h (by omega)
      exact ⟨x, hx, hpx, by omega, by rw [if_neg hp, heq]⟩

/-- A search that falls off the queue leaves nothing pending. -/
theorem pending_of_seek_none (p : α → Bool) (l : List α) (i : ℕ)
    (h : seek p i (l.drop i) = none) : pending p l i = [] := by
  induction hn : l.length - i generalizing i with
  | zero => exact pending_of_length_le p l i (by omega)
  | succ n ih =>
    have hi : i < l.length := by omega
    rw [List.drop_eq_getElem_cons hi, seek] at h
    rw [pending_of_lt p l i hi]
    by_cases hp : p l[i] = true
    · rw [if_pos hp] at h
      exact absurd h (Option.some_ne_none i)
    · rw [if_neg hp] at h ⊢
      exact ih (i + 1) h (by omega)

/-- The search finds an element exactly when one is pending. -/
theorem exists_seek (p : α → Bool) (l : List α) (i : ℕ)
    (h : ∃ (k : ℕ) (x : α), i ≤ k ∧ l[k]? = some x ∧ p x = true) :
    ∃ k, seek p i (l.drop i) = some k := by
  obtain ⟨k, x, hle, hx, hp⟩ := h
  have hmem := (mem_pending p l i k x).mpr ⟨hle, hx, hp⟩
  cases hs : seek p i (l.drop i) with
  | some k => exact ⟨k, rfl⟩
  | none =>
    rw [pending_of_seek_none p l i hs] at hmem
    exact absurd hmem List.not_mem_nil

/-- A queue that passes the test anywhere has its first pending element. -/
theorem any_iff_exists_getElem? (p : α → Bool) (l : List α) :
    l.any p = true ↔ ∃ (k : ℕ) (x : α), l[k]? = some x ∧ p x = true := by
  rw [List.any_eq_true]
  constructor
  · rintro ⟨x, hx, hp⟩
    obtain ⟨k, hk⟩ := List.getElem?_of_mem hx
    exact ⟨k, x, hk, hp⟩
  · rintro ⟨k, x, hk, hp⟩
    exact ⟨x, List.mem_of_getElem? hk, hp⟩

/-- Something is pending exactly when the test passes at or behind the position. -/
theorem pending_ne_nil_iff (p : α → Bool) (l : List α) (i : ℕ) :
    pending p l i ≠ [] ↔ (l.drop i).any p = true := by
  rw [any_iff_exists_getElem?]
  constructor
  · intro hne
    obtain ⟨⟨x, k⟩, hmem⟩ := List.exists_mem_of_ne_nil _ hne
    obtain ⟨hle, hget, hp⟩ := (mem_pending p l i k x).mp hmem
    refine ⟨k - i, x, ?_, hp⟩
    rw [List.getElem?_drop, Nat.add_sub_cancel' hle]
    exact hget
  · rintro ⟨k, x, hget, hp⟩
    rw [List.getElem?_drop] at hget
    exact List.ne_nil_of_mem ((mem_pending p l i (i + k) x).mpr ⟨Nat.le_add_right i k, hget, hp⟩)

theorem next_eq_some_iff (l : List α) (i k : ℕ) :
    next l i = some k ↔ k = i + 1 ∧ k < l.length := by
  unfold next
  split <;> simp <;> omega

theorem pending_of_next_none (p : α → Bool) (l : List α) (i : ℕ) (h : next l i = none) :
    pending p l (i + 1) = [] := by
  apply pending_of_length_le
  unfold next at h
  split at h
  · exact absurd h (Option.some_ne_none _)
  · omega

end SmtpClient.Queues
