import Mathlib.Data.List.Basic

/-!
Runs of a partial step function over a list of inputs. A step without a result
is a fault, and a run with a fault has no result. A step function can be made
to rest in its halted states. Rules: what every step keeps, every run keeps.
-/
namespace SmtpClient.Runs

variable {S I : Type*}

def run (step : S → I → Option S) (s : S) (inputs : List I) : Option S := inputs.foldlM step s

/-- Halted states take no steps. -/
def restIn (halted : S → Bool) (step : S → I → Option S) (s : S) (i : I) : Option S :=
  if halted s then some s else step s i

variable (step : S → I → Option S) (s : S)

@[simp] theorem run_nil : run step s [] = some s := rfl

@[simp] theorem run_cons (i : I) (inputs : List I) :
    run step s (i :: inputs) = (step s i).bind fun s' => run step s' inputs := rfl

theorem run_append (a b : List I) :
    run step s (a ++ b) = (run step s a).bind fun s' => run step s' b :=
  List.foldlM_append

theorem run_concat (a : List I) (i : I) :
    run step s (a ++ [i]) = (run step s a).bind fun s' => step s' i := by
  rw [run_append]
  congr 1
  funext s'
  rw [run_cons]
  cases step s' i <;> rfl

/-- Every beginning of a run without a fault has no fault. -/
theorem exists_run_of_append (a b : List I) (s' : S) (h : run step s (a ++ b) = some s') :
    ∃ t, run step s a = some t ∧ run step t b = some s' := by
  rw [run_append] at h
  exact Option.bind_eq_some_iff.mp h

/-- Every input of a run meets a condition in the state that it finds. -/
def RunAlong (Q : S → I → Prop) : S → List I → Prop
  | _, [] => True
  | s, i :: inputs => Q s i ∧ ∀ s', step s i = some s' → RunAlong Q s' inputs

theorem runAlong_append (Q : S → I → Prop) (a b : List I) (h : RunAlong step Q s (a ++ b)) :
    RunAlong step Q s a ∧ ∀ t, run step s a = some t → RunAlong step Q t b := by
  induction a generalizing s with
  | nil =>
    refine ⟨trivial, ?_⟩
    intro t ht
    obtain rfl := Option.some.inj ht
    exact h
  | cons i a ih =>
    obtain ⟨hi, hrest⟩ := h
    refine ⟨⟨hi, fun s' hs' => (ih s' (hrest s' hs')).1⟩, ?_⟩
    intro t ht
    rw [run_cons] at ht
    obtain ⟨s', hs', ht⟩ := Option.bind_eq_some_iff.mp ht
    exact (ih s' (hrest s' hs')).2 t ht

theorem runAlong_of_forall (Q : S → I → Prop) (inputs : List I) (h : ∀ s i, Q s i) :
    RunAlong step Q s inputs := by
  induction inputs generalizing s with
  | nil => trivial
  | cons i inputs ih => exact ⟨h s i, fun s' _ => ih s'⟩

theorem run_of_halted (halted : S → Bool) (inputs : List I) (h : halted s = true) :
    run (restIn halted step) s inputs = some s := by
  induction inputs with
  | nil => rfl
  | cons i inputs ih =>
    rw [run_cons, restIn, if_pos h]
    exact ih

variable {step s}

/-- What every step keeps whose input meets a condition holds at the end of a run whose
inputs all meet it, and a relation that these steps keep and that composes relates the
ends of the run. -/
theorem run_relation_along (R : S → S → Prop) (P : S → Prop) (Q : S → I → Prop)
    (hrefl : ∀ s, R s s) (htrans : ∀ a b c, R a b → R b c → R a c)
    (hstep : ∀ s i s', P s → Q s i → step s i = some s' → P s' ∧ R s s') (inputs : List I)
    (s' : S) (hs : P s) (hinputs : RunAlong step Q s inputs)
    (h : run step s inputs = some s') : P s' ∧ R s s' := by
  induction inputs generalizing s with
  | nil =>
    obtain rfl := Option.some.inj h
    exact ⟨hs, hrefl s⟩
  | cons i inputs ih =>
    rw [run_cons] at h
    obtain ⟨t, ht, h⟩ := Option.bind_eq_some_iff.mp h
    obtain ⟨hi, hrest⟩ := hinputs
    obtain ⟨hP, hR⟩ := hstep s i t hs hi ht
    obtain ⟨hend, hR'⟩ := ih hP (hrest t ht) h
    exact ⟨hend, htrans s t s' hR hR'⟩

/-- What every step keeps holds at the end of every run. -/
theorem run_invariant (P : S → Prop)
    (hstep : ∀ s i s', P s → step s i = some s' → P s') (inputs : List I) (s' : S)
    (hs : P s) (h : run step s inputs = some s') : P s' :=
  (run_relation_along (fun _ _ => True) P (fun _ _ => True) (fun _ => trivial)
    (fun _ _ _ _ _ => trivial) (fun s i s' hs _ hs' => ⟨hstep s i s' hs hs', trivial⟩) inputs s' hs
    (runAlong_of_forall step s _ inputs fun _ _ => trivial) h).1

/-- A relation that every step keeps and that composes relates the ends of a run. -/
theorem run_relation (R : S → S → Prop) (P : S → Prop) (hrefl : ∀ s, R s s)
    (htrans : ∀ a b c, R a b → R b c → R a c)
    (hstep : ∀ s i s', P s → step s i = some s' → P s' ∧ R s s') (inputs : List I) (s' : S)
    (hs : P s) (h : run step s inputs = some s') : R s s' :=
  (run_relation_along R P (fun _ _ => True) hrefl htrans
    (fun s i s' hs _ => hstep s i s' hs) inputs s' hs
    (runAlong_of_forall step s _ inputs fun _ _ => trivial) h).2

/-- Where every step uses up some of a measure, the measure bounds the length of a run. -/
theorem run_length_le (P : S → Prop) (μ : S → ℕ)
    (hstep : ∀ s i s', P s → step s i = some s' → P s' ∧ μ s' < μ s) (inputs : List I) (s' : S)
    (hs : P s) (h : run step s inputs = some s') : inputs.length + μ s' ≤ μ s := by
  induction inputs generalizing s with
  | nil =>
    obtain rfl := Option.some.inj h
    exact Nat.le_of_eq (Nat.zero_add _)
  | cons i inputs ih =>
    rw [run_cons] at h
    obtain ⟨t, ht, h⟩ := Option.bind_eq_some_iff.mp h
    obtain ⟨hP, hless⟩ := hstep s i t hs ht
    have hrest := ih hP h
    rw [List.length_cons]
    omega

/-- Where each step says when it makes a property true, the property holds at
the end of a run exactly when it held at the beginning or some step made it true. -/
theorem run_sets_iff (Q : S → Prop) (P : S → Prop) (Sets : S → I → Prop)
    (hstep : ∀ s i s', Q s → step s i = some s' → Q s' ∧ (P s' ↔ P s ∨ Sets s i))
    (inputs : List I) (s' : S) (hs : Q s) (h : run step s inputs = some s') :
    P s' ↔ P s ∨ ∃ before i after t, inputs = before ++ i :: after ∧
      run step s before = some t ∧ Sets t i := by
  induction inputs generalizing s with
  | nil =>
    obtain rfl := Option.some.inj h
    simp
  | cons i inputs ih =>
    rw [run_cons] at h
    obtain ⟨t, ht, h⟩ := Option.bind_eq_some_iff.mp h
    obtain ⟨hQ, hP⟩ := hstep s i t hs ht
    rw [ih hQ h, hP]
    constructor
    · intro hend
      rcases hend with (hP | hset) | ⟨before, j, after, u, hsplit, hu, hset⟩
      · exact Or.inl hP
      · exact Or.inr ⟨[], i, inputs, s, rfl, rfl, hset⟩
      · refine Or.inr ⟨i :: before, j, after, u, by rw [hsplit]; rfl, ?_, hset⟩
        rw [run_cons, ht]
        exact hu
    · intro hend
      rcases hend with hP | ⟨before, j, after, u, hsplit, hu, hset⟩
      · exact Or.inl (Or.inl hP)
      · cases before with
        | nil =>
          obtain ⟨rfl, -⟩ := List.cons.inj hsplit
          obtain rfl := Option.some.inj hu
          exact Or.inl (Or.inr hset)
        | cons k before =>
          obtain ⟨rfl, hrest⟩ := List.cons.inj hsplit
          rw [run_cons, ht] at hu
          exact Or.inr ⟨before, j, after, u, hrest, hu, hset⟩

end SmtpClient.Runs
