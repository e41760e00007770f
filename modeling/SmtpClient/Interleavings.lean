import SmtpClient.Runs
import Mathlib.Logic.Function.Basic

/-!
Systems of independent components. A step of the system is a step of one
component, so a run of the system is one run for each component, and it depends
on the interleaving only through the inputs of each component.
-/
namespace SmtpClient.Interleavings

open Runs

variable {P C E : Type*} [DecidableEq P]

/-- The inputs of one component, in order. -/
def project (σ : List (P × E)) (p : P) : List E :=
  σ.filterMap fun x => if x.1 = p then some x.2 else none

def stepAt (step : C → E → Option C) (s : P → C) (x : P × E) : Option (P → C) :=
  (step (s x.1) x.2).map fun c => Function.update s x.1 c

variable (step : C → E → Option C) (s : P → C)

@[simp] theorem project_nil (p : P) : project ([] : List (P × E)) p = [] := rfl

theorem project_cons_self (p : P) (e : E) (σ : List (P × E)) :
    project ((p, e) :: σ) p = e :: project σ p := by
  simp [project]

theorem project_cons_of_ne (p q : P) (e : E) (σ : List (P × E)) (h : q ≠ p) :
    project ((q, e) :: σ) p = project σ p := by
  simp [project, h]

theorem project_append (σ τ : List (P × E)) (p : P) :
    project (σ ++ τ) p = project σ p ++ project τ p := List.filterMap_append

theorem project_ne_nil_iff (σ : List (P × E)) (p : P) :
    project σ p ≠ [] ↔ ∃ e, (p, e) ∈ σ := by
  rw [ne_eq, project, List.filterMap_eq_nil_iff, not_forall]
  constructor
  · intro h
    obtain ⟨⟨q, e⟩, hx⟩ := h
    obtain ⟨hmem, hq⟩ := Classical.not_imp.mp hx
    by_cases hqp : q = p
    · exact ⟨e, hqp ▸ hmem⟩
    · exact absurd (if_neg hqp) hq
  · intro h
    obtain ⟨e, hmem⟩ := h
    exact ⟨(p, e), by simp [hmem]⟩

/-- A run of the system is a run of every component on its own inputs. -/
theorem run_stepAt_iff (σ : List (P × E)) (s' : P → C) :
    run (stepAt step) s σ = some s' ↔ ∀ p, run step (s p) (project σ p) = some (s' p) := by
  induction σ generalizing s with
  | nil =>
    simp only [run_nil, project_nil, Option.some.injEq]
    exact funext_iff
  | cons x σ ih =>
    obtain ⟨q, e⟩ := x
    rw [run_cons, stepAt]
    cases hq : step (s q) e with
    | none =>
      simp only [Option.map_none, Option.bind_none, reduceCtorEq, false_iff, not_forall]
      refine ⟨q, ?_⟩
      rw [project_cons_self, run_cons, hq]
      simp
    | some c =>
      simp only [Option.map_some, Option.bind_some]
      rw [ih]
      refine forall_congr' fun p => ?_
      by_cases hp : q = p
      · subst hp
        rw [project_cons_self, run_cons, hq, Function.update_self]
        rfl
      · rw [project_cons_of_ne p q e σ hp, Function.update_of_ne (Ne.symm hp)]

/-- Where no component faults on its own, the system does not fault. -/
theorem run_stepAt_total (σ : List (P × E))
    (h : ∀ p, ∃ c, run step (s p) (project σ p) = some c) :
    ∃ s', run (stepAt step) s σ = some s' := by
  choose s' hs' using h
  exact ⟨s', (run_stepAt_iff step s σ s').mpr hs'⟩

end SmtpClient.Interleavings
