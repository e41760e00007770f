import Mathlib.Data.List.Basic
import Mathlib.Order.Basic

/-!
Choosing an element of a list. The first element with a property is not found by
a test that others pass too, unless the property comes before them. A smallest
element that came first stays so while a list grows at its end.
-/
namespace SmtpClient.Choices

variable {α β : Type*}

section FirstMatch

variable (p q : α → Bool)

/-- Each element that passes the first test only stands behind one that passes
the second. -/
def Shielded (l : List α) : Prop :=
  ∀ before x after, l = before ++ x :: after → p x = true → q x = false → ∃ y ∈ before, q y = true

theorem shielded_cons (a : α) (l : List α) :
    Shielded p q (a :: l) ↔ q a = true ∨ p a = false ∧ Shielded p q l := by
  constructor
  · intro h
    cases hq : q a with
    | true => exact Or.inl rfl
    | false =>
      right
      constructor
      · by_contra hp
        rw [Bool.not_eq_false] at hp
        obtain ⟨y, hy, -⟩ := h [] a l rfl hp hq
        cases hy
      · intro before x after hl hpx hqx
        obtain ⟨y, hy, hqy⟩ := h (a :: before) x after (congrArg (List.cons a) hl) hpx hqx
        rcases List.mem_cons.mp hy with rfl | hy
        · rw [hq] at hqy
          cases hqy
        · exact ⟨y, hy, hqy⟩
  · intro h before x after hl hpx hqx
    cases before with
    | nil =>
      obtain ⟨rfl, -⟩ := List.cons.inj hl
      rw [hpx, hqx] at h
      rcases h with h | ⟨h, -⟩ <;> cases h
    | cons b before =>
      obtain ⟨rfl, hrest⟩ := List.cons.inj hl
      rcases h with hq | ⟨-, h⟩
      · exact ⟨a, List.mem_cons_self, hq⟩
      · obtain ⟨y, hy, hqy⟩ := h before x after hrest hpx hqx
        exact ⟨y, List.mem_cons_of_mem a hy, hqy⟩

/-- A wider test finds the same element exactly on the shielded lists. -/
theorem find?_eq_find?_iff (hwider : ∀ x, q x = true → p x = true) (l : List α) :
    l.find? p = l.find? q ↔ Shielded p q l := by
  induction l with
  | nil =>
    constructor
    · intro _ before x after hl
      exact absurd hl (by simp)
    · intro _
      rfl
  | cons a l ih =>
    rw [shielded_cons, List.find?_cons, List.find?_cons]
    cases hq : q a with
    | true =>
      rw [hwider a hq]
      exact ⟨fun _ => Or.inl rfl, fun _ => rfl⟩
    | false =>
      cases hp : p a with
      | true =>
        constructor
        · intro hfound
          have hpass := List.find?_some hfound.symm
          rw [hq] at hpass
          cases hpass
        · intro h
          rcases h with h | ⟨h, -⟩ <;> cases h
      | false =>
        rw [ih]
        exact ⟨fun h => Or.inr ⟨rfl, h⟩, fun h => h.elim (fun hq => by cases hq) And.right⟩

end FirstMatch

section FirstMin

variable [Preorder β] {f : α → β} {l : List α} {x y : α}

/-- Everything in front of the element is larger, and nothing behind it smaller. -/
def IsFirstMin (f : α → β) (l : List α) (x : α) : Prop :=
  ∃ before after, l = before ++ x :: after ∧ (∀ y ∈ before, f x < f y) ∧ ∀ y ∈ after, f x ≤ f y

theorem isFirstMin_singleton (f : α → β) (x : α) : IsFirstMin f [x] x :=
  ⟨[], [], rfl, fun _ hy => absurd hy List.not_mem_nil, fun _ hy => absurd hy List.not_mem_nil⟩

theorem IsFirstMin.mem (h : IsFirstMin f l x) : x ∈ l := by
  obtain ⟨before, after, rfl, -, -⟩ := h
  exact List.mem_append_right before List.mem_cons_self

theorem IsFirstMin.le (h : IsFirstMin f l x) (hy : y ∈ l) : f x ≤ f y := by
  obtain ⟨before, after, rfl, hbefore, hafter⟩ := h
  rcases List.mem_append.mp hy with hy | hy
  · exact (hbefore y hy).le
  · rcases List.mem_cons.mp hy with rfl | hy
    · exact le_refl _
    · exact hafter y hy

/-- A smaller element at the end becomes the first smallest one. -/
theorem IsFirstMin.concat_of_lt (h : IsFirstMin f l x) (hlt : f y < f x) :
    IsFirstMin f (l ++ [y]) y := by
  refine ⟨l, [], rfl, ?_, fun _ hz => absurd hz List.not_mem_nil⟩
  intro z hz
  exact hlt.trans_le (h.le hz)

/-- Any other element at the end changes nothing. -/
theorem IsFirstMin.concat_of_le (h : IsFirstMin f l x) (hle : f x ≤ f y) :
    IsFirstMin f (l ++ [y]) x := by
  obtain ⟨before, after, rfl, hbefore, hafter⟩ := h
  refine ⟨before, after ++ [y], by rw [List.append_assoc]; rfl, hbefore, ?_⟩
  intro z hz
  rcases List.mem_append.mp hz with hz | hz
  · exact hafter z hz
  · rw [List.mem_singleton.mp hz]
    exact hle

end FirstMin

end SmtpClient.Choices
