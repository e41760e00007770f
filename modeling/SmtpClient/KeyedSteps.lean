import Mathlib.Data.List.Basic
import Mathlib.Data.List.Nodup
import Mathlib.Logic.Function.Basic

/-!
Steps that each change one cell of a table. What such steps do to a cell is what
the steps with its key do to it. Every step has a result.
-/
namespace SmtpClient.KeyedSteps

variable {K A C B D : Type*}

/-- Every step of the run meets the condition in the state before it. -/
def Along (step : C → A → C) (P : C → A → Prop) : C → List A → Prop
  | _, [] => True
  | c, a :: as => P c a ∧ Along step P (step c a) as

variable [DecidableEq K] (key : A → K)

def stepAtKey (step : C → A → C) (s : K → C) (a : A) : K → C :=
  Function.update s (key a) (step (s (key a)) a)

/-- The steps with one key, in order. -/
def ofKey (k : K) (as : List A) : List A := as.filter fun a => key a = k

theorem ofKey_append (k : K) (as bs : List A) :
    ofKey key k (as ++ bs) = ofKey key k as ++ ofKey key k bs :=
  List.filter_append as bs

theorem ofKey_cons_self (a : A) (as : List A) :
    ofKey key (key a) (a :: as) = a :: ofKey key (key a) as := by
  simp [ofKey]

theorem ofKey_cons_of_ne (k : K) (a : A) (as : List A) (h : key a ≠ k) :
    ofKey key k (a :: as) = ofKey key k as := by
  simp [ofKey, h]

theorem ofKey_eq_self (k : K) (as : List A) (h : ∀ a ∈ as, key a = k) : ofKey key k as = as := by
  apply List.filter_eq_self.mpr
  intro a ha
  exact decide_eq_true (h a ha)

theorem ofKey_eq_nil (k : K) (as : List A) (h : ∀ a ∈ as, key a ≠ k) : ofKey key k as = [] := by
  apply List.filter_eq_nil_iff.mpr
  intro a ha hk
  exact h a ha (of_decide_eq_true hk)

variable (step : C → A → C)

/-- A run does to a cell what the steps with its key do. -/
theorem foldl_stepAtKey (s : K → C) (as : List A) (k : K) :
    as.foldl (stepAtKey key step) s k = (ofKey key k as).foldl step (s k) := by
  induction as generalizing s with
  | nil => rfl
  | cons a as ih =>
    rw [List.foldl_cons, ih]
    by_cases h : key a = k
    · subst h
      rw [ofKey_cons_self, List.foldl_cons, stepAtKey, Function.update_self]
    · rw [ofKey_cons_of_ne key k a as h, stepAtKey, Function.update_of_ne (Ne.symm h)]

/-- Where each item of a list makes steps with its own key only, and no two items
share a key, the steps with a key are those of its item. -/
theorem ofKey_flatMap (keyB : B → K) (g : B → List A) (bs : List B)
    (hg : ∀ b ∈ bs, ∀ a ∈ g b, key a = keyB b) (hbs : (bs.map keyB).Nodup) (b : B) (hb : b ∈ bs) :
    ofKey key (keyB b) (bs.flatMap g) = g b := by
  induction bs with
  | nil => exact absurd hb List.not_mem_nil
  | cons c bs ih =>
    rw [List.map_cons, List.nodup_cons] at hbs
    have hrest : ∀ b ∈ bs, ∀ a ∈ g b, key a = keyB b := by
      intro b hb
      exact hg b (List.mem_cons_of_mem c hb)
    rw [List.flatMap_cons, ofKey_append]
    rcases List.mem_cons.mp hb with rfl | hb
    · rw [ofKey_eq_self key _ (g b) (hg b List.mem_cons_self)]
      rw [ofKey_eq_nil key _ (bs.flatMap g), List.append_nil]
      intro a ha hkey
      obtain ⟨d, hd, ha⟩ := List.mem_flatMap.mp ha
      apply hbs.1
      rw [← hkey, hrest d hd a ha]
      exact List.mem_map_of_mem hd
    · rw [ih hrest hbs.2 hb, ofKey_eq_nil key _ (g c), List.nil_append]
      intro a ha hkey
      apply hbs.1
      rw [← hg c List.mem_cons_self a ha, hkey]
      exact List.mem_map_of_mem hb

theorem ofKey_flatMap_nil (keyB : B → K) (g : B → List A) (bs : List B)
    (hg : ∀ b ∈ bs, ∀ a ∈ g b, key a = keyB b) (k : K) (hk : ∀ b ∈ bs, keyB b ≠ k) :
    ofKey key k (bs.flatMap g) = [] := by
  apply ofKey_eq_nil
  intro a ha hkey
  obtain ⟨b, hb, ha⟩ := List.mem_flatMap.mp ha
  exact hk b hb ((hg b hb a ha).symm.trans hkey)

omit [DecidableEq K] in
/-- Picking items out of a list does not make two of them share a key. -/
theorem nodup_filterMap (keyB : B → K) (keyD : D → K) (g : B → Option D) (bs : List B)
    (hg : ∀ b d, g b = some d → keyD d = keyB b) (hbs : (bs.map keyB).Nodup) :
    ((bs.filterMap g).map keyD).Nodup := by
  induction bs with
  | nil => exact List.nodup_nil
  | cons b bs ih =>
    rw [List.map_cons, List.nodup_cons] at hbs
    rw [List.filterMap_cons]
    cases hb : g b with
    | none => exact ih hbs.2
    | some d =>
      simp only [List.map_cons, List.nodup_cons]
      refine ⟨?_, ih hbs.2⟩
      intro hmem
      obtain ⟨d', hd', hkey⟩ := List.mem_map.mp hmem
      obtain ⟨b', hb', hgb⟩ := List.mem_filterMap.mp hd'
      apply hbs.1
      rw [← hg b d hb, ← hkey, hg b' d' hgb]
      exact List.mem_map_of_mem hb'

end SmtpClient.KeyedSteps
