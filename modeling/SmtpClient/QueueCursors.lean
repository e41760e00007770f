import SmtpClient.TailQueues
import SmtpClient.Queues

/-!
Loops over linked queues beside functions of the lists that the queues hold. A
pointer to an element corresponds to a position in the list, following the
links corresponds to counting the position up, and a loop corresponds to a fold
or a search. Both sides may fail, and they fail together.
-/
namespace SmtpClient.QueueCursors

open TailQueues Queues

variable {A B C D E X σ τ : Type*}

section Related

variable {R : A → B → Prop} {S : C → D → Prop}

/-- Related computations that go on in related ways stay related. -/
theorem rel_bind {x : Option A} {y : Option B} {f : A → Option C} {g : B → Option D}
    (h : Option.Rel R x y) (hf : ∀ a b, R a b → Option.Rel S (f a) (g b)) :
    Option.Rel S (x.bind f) (y.bind g) := by
  cases h with
  | none => exact .none
  | some hab => exact hf _ _ hab

theorem rel_map {x : Option A} {y : Option B} {f : A → C} {g : B → D} (h : Option.Rel R x y)
    (hf : ∀ a b, R a b → S (f a) (g b)) : Option.Rel S (x.map f) (y.map g) := by
  cases h with
  | none => exact .none
  | some hab => exact .some (hf _ _ hab)

theorem rel_mono {R' : A → B → Prop} {x : Option A} {y : Option B} (h : Option.Rel R x y)
    (hR : ∀ a b, R a b → R' a b) : Option.Rel R' x y := by
  cases h with
  | none => exact .none
  | some hab => exact .some (hR _ _ hab)

theorem rel_join {x : Option (Option A)} {y : Option (Option B)}
    (h : Option.Rel (Option.Rel R) x y) : Option.Rel R x.join y.join := by
  cases h with
  | none => exact .none
  | some hab => exact hab

theorem exists_of_rel {x : Option A} {y : Option B} {b : B} (h : Option.Rel R x y)
    (hy : y = some b) : ∃ a, x = some a ∧ R a b := by
  subst hy
  cases h with
  | some hab => exact ⟨_, rfl, hab⟩

end Related

/-- The loop over a queue that reads the next link behind its body. -/
def foreach (queueOf : σ → TailQueue A E) (body : A → σ → Option σ) :
    ℕ → Option A → σ → Option σ
  | _, none, s => some s
  | 0, some _, _ => none
  | n + 1, some a, s =>
    (body a s).bind fun s => ((queueOf s).cells a).bind fun c => foreach queueOf body n c.next s

/-- The loop that follows the links up to an element that passes the test. -/
def search (q : TailQueue A E) (test : E → Option Bool) : ℕ → Option A → Option (Option A)
  | _, none => some none
  | 0, some _ => none
  | n + 1, some a =>
    (q.cells a).bind fun c => (test c.value).bind fun found =>
      if found then some (some a) else search q test n c.next

/-- The pointer to the element at a position. -/
def pointer (l : List (A × E)) (i : ℕ) : Option A := (l[i]?).map Prod.fst

section Pointers

variable {q : TailQueue A E} {l : List (A × E)}

theorem pointer_zero (l : List (A × E)) : pointer l 0 = l.head?.map Prod.fst := by
  rw [pointer, List.head?_eq_getElem?]

theorem pointer_of_getElem? {i : ℕ} {x : A × E} (hx : l[i]? = some x) :
    pointer l i = some x.1 := by
  rw [pointer, hx]
  rfl

theorem pointer_first (h : Represents q l) : q.first = pointer l 0 := by
  rw [h.first, pointer_zero]

theorem pointer_eq_some_iff {i : ℕ} {a : A} :
    pointer l i = some a ↔ ∃ x, l[i]? = some x ∧ x.1 = a :=
  Option.map_eq_some_iff

theorem pointer_inj (h : Represents q l) {i j : ℕ} {a : A} (hi : pointer l i = some a)
    (hj : pointer l j = some a) : i = j := by
  have hmap : ∀ k, (l.map Prod.fst)[k]? = pointer l k := fun k => List.getElem?_map
  have hlt : i < (l.map Prod.fst).length := by
    rw [← hmap] at hi
    exact (List.getElem?_eq_some_iff.mp hi).1
  rw [← hmap] at hi hj
  exact (List.getElem?_inj hlt h.1).mp (hi.trans hj.symm)

/-- The element at a position, with the link to the next one. -/
theorem cell_at (h : Represents q l) {i : ℕ} {x : A × E} (hx : l[i]? = some x) :
    ∃ prev, q.cells x.1 = some ⟨x.2, pointer l (i + 1), prev⟩ := by
  obtain ⟨hi, rfl⟩ := List.getElem?_eq_some_iff.mp hx
  have hsplit : l.take i ++ (l[i].1, l[i].2) :: l.drop (i + 1) = l := by
    change l.take i ++ l[i] :: l.drop (i + 1) = l
    rw [← List.drop_eq_getElem_cons hi, List.take_append_drop]
  have hrep : Represents q (l.take i ++ (l[i].1, l[i].2) :: l.drop (i + 1)) := by
    rw [hsplit]
    exact h
  obtain ⟨t, hcell⟩ := hrep.cell
  refine ⟨t, ?_⟩
  rw [hcell, pointer, List.head?_drop]

end Pointers

section Loops

variable {q : TailQueue A E} {xs : List X} (key : X → A × E)

/-- A loop over a queue that its body leaves alone is a fold over the list. The relation
knows which elements the loop has visited. -/
theorem foreach_rel (queueOf : σ → TailQueue A E) (body : A → σ → Option σ)
    (step : τ → X → Option τ) (R : List X → σ → τ → Prop)
    (hqueue : ∀ done s t, R done s t → Represents (queueOf s) (xs.map key))
    (hbody : ∀ done x todo s t, done ++ x :: todo = xs → R done s t →
      Option.Rel (R (done ++ [x])) (body (key x).1 s) (step t x))
    (n : ℕ) (hn : xs.length ≤ n) (s : σ) (t : τ) (hst : R [] s t) :
    Option.Rel (R xs) (foreach queueOf body n (queueOf s).first s) (xs.foldlM step t) := by
  suffices h : ∀ (todo done : List X), done ++ todo = xs → ∀ n, todo.length ≤ n → ∀ s t,
      R done s t → Option.Rel (R xs)
        (foreach queueOf body n (pointer (xs.map key) done.length) s) (todo.foldlM step t) by
    rw [pointer_first (hqueue [] s t hst)]
    exact h xs [] rfl n hn s t hst
  intro todo
  induction todo with
  | nil =>
    intro done hdone n _ s t hst
    rw [List.append_nil] at hdone
    subst hdone
    have hend : pointer (done.map key) done.length = none := by
      rw [pointer, List.getElem?_eq_none (Nat.le_of_eq (List.length_map key))]
      rfl
    rw [hend]
    cases n <;> exact .some hst
  | cons x todo ih =>
    intro done hdone n hn s t hst
    obtain ⟨n, rfl⟩ : ∃ k, n = k + 1 := ⟨n - 1, by rw [List.length_cons] at hn; omega⟩
    have hkey : (xs.map key)[done.length]? = some (key x) := by
      rw [← hdone, List.getElem?_map, List.getElem?_append_right (Nat.le_refl _), Nat.sub_self]
      rfl
    rw [pointer_of_getElem? hkey, List.foldlM_cons]
    refine rel_bind (hbody done x todo s t hdone hst) ?_
    intro s t hst
    obtain ⟨prev, hcell⟩ := cell_at (hqueue _ s t hst) hkey
    rw [hcell]
    have hrest := ih (done ++ [x]) (by rw [List.append_assoc]; exact hdone) n
      (by rw [List.length_cons] at hn; omega) s t hst
    rw [List.length_append] at hrest
    exact hrest

/-- A search along the links finds what the search in the list finds. -/
theorem search_eq (test : E → Option Bool) (p : X → Bool) (h : Represents q (xs.map key))
    (htest : ∀ x ∈ xs, test (key x).2 = some (p x)) (n i : ℕ) (hn : xs.length - i ≤ n) :
    search q test n (pointer (xs.map key) i) =
      some ((seek p i (xs.drop i)).bind (pointer (xs.map key))) := by
  induction n generalizing i with
  | zero =>
    have hend : xs[i]? = none := List.getElem?_eq_none (by omega)
    have hpointer : pointer (xs.map key) i = none := by
      rw [pointer, List.getElem?_map, hend]
      rfl
    rw [hpointer, List.drop_eq_nil_of_le (by omega)]
    rfl
  | succ n ih =>
    cases hx : xs[i]? with
    | none =>
      have hpointer : pointer (xs.map key) i = none := by
        rw [pointer, List.getElem?_map, hx]
        rfl
      rw [hpointer, List.drop_eq_nil_of_le (List.getElem?_eq_none_iff.mp hx)]
      rfl
    | some x =>
      obtain ⟨hi, rfl⟩ := List.getElem?_eq_some_iff.mp hx
      have hkey : (xs.map key)[i]? = some (key xs[i]) := by rw [List.getElem?_map, hx]; rfl
      obtain ⟨prev, hcell⟩ := cell_at h hkey
      rw [pointer_of_getElem? hkey, search, hcell, List.drop_eq_getElem_cons hi, seek]
      simp only [Option.bind_some, htest _ (List.getElem_mem hi)]
      by_cases hp : p xs[i] = true
      · rw [if_pos hp, if_pos hp, Option.bind_some, pointer_of_getElem? hkey]
      · rw [if_neg hp, if_neg hp]
        exact ih (i + 1) (by omega)

theorem eq_of_rel {x y : Option A} (h : Option.Rel Eq x y) : x = y := by
  cases h with
  | none => rfl
  | some hab => rw [hab]

/-- A loop that only looks at the elements. -/
theorem foreach_read {l : List (A × E)} (h : Represents q l) (body : A → E → σ → σ) (n : ℕ)
    (hn : l.length ≤ n) (s : σ) :
    foreach (fun _ => q) (fun a s => (q.cells a).map fun c => body a c.value s) n q.first s =
      some (l.foldl (fun s x => body x.1 x.2 s) s) := by
  have hloop := foreach_rel id (fun _ => q)
    (fun a s => (q.cells a).map fun c => body a c.value s)
    (fun s x => some (body x.1 x.2 s)) (fun _ => Eq) ?_ ?_ n hn s s rfl
  · rw [eq_of_rel hloop]
    exact List.foldlM_pure
  · intro _ _ _ _
    rw [List.map_id]
    exact h
  · rintro done x todo s t hdone rfl
    obtain ⟨i, hi⟩ := List.getElem?_of_mem (show x ∈ l by rw [← hdone]; simp)
    obtain ⟨prev, hcell⟩ := cell_at h hi
    rw [id, hcell]
    exact .some rfl

theorem seek_map (f : A → B) (p : B → Bool) (l : List A) (i : ℕ) :
    seek p i (l.map f) = seek (fun x => p (f x)) i l := by
  induction l generalizing i with
  | nil => rfl
  | cons x l ih => rw [List.map_cons, seek, seek, ih]

/-- A search stops inside of the list. -/
theorem seek_lt (p : X → Bool) (l : List X) (i k : ℕ) (h : seek p i (l.drop i) = some k) :
    k < l.length := by
  obtain ⟨x, hx, -⟩ := pending_of_seek_some p l i k h
  exact (List.getElem?_eq_some_iff.mp hx).1

end Loops

section Owned

/-- The queue holds these elements and there are no others in its memory. -/
structure Owns (q : TailQueue A E) (l : List (A × E)) : Prop where
  represents : Represents q l
  others : ∀ a, a ∉ l.map Prod.fst → q.cells a = none

variable {q q' : TailQueue A E} {l l₁ l₂ : List (A × E)} {a : A} {x : E}

theorem owns_init : Owns (TailQueue.init : TailQueue A E) [] := ⟨represents_init, fun _ _ => rfl⟩

/-- Nothing is left of an empty queue. -/
theorem Owns.empty (h : Owns q []) (a : A) : q.cells a = none := h.others a List.not_mem_nil

/-- The values of the elements stay as they are. -/
def SameValues (q q' : TailQueue A E) : Prop :=
  ∀ b, (q'.cells b).map Cell.value = (q.cells b).map Cell.value

theorem SameValues.others (h : SameValues q q') (b : A) (hb : q.cells b = none) :
    q'.cells b = none := by
  have hsame := h b
  rw [hb] at hsame
  exact Option.map_eq_none_iff.mp hsame

variable [DecidableEq A]

theorem modify_others {f : Cell A E → Cell A E} (h : q.modify a f = some q') (b : A)
    (hb : q.cells b = none) : q'.cells b = none := by
  unfold TailQueue.modify at h
  obtain ⟨c, hc, rfl⟩ := Option.map_eq_some_iff.mp h
  have hne : b ≠ a := by
    rintro rfl
    rw [hb] at hc
    cases hc
  change Function.update q.cells a _ b = none
  rw [Function.update_of_ne hne, hb]

theorem modify_values {f : Cell A E → Cell A E} (h : q.modify a f = some q')
    (hf : ∀ c, (f c).value = c.value) : SameValues q q' := by
  intro b
  unfold TailQueue.modify at h
  obtain ⟨c, hc, rfl⟩ := Option.map_eq_some_iff.mp h
  change (Function.update q.cells a _ b).map Cell.value = _
  by_cases hb : b = a
  · rw [hb, Function.update_self, hc, Option.map_some, Option.map_some, hf]
  · rw [Function.update_of_ne hb]

theorem setLink_values {s : Slot A} {link : Option A} (h : q.setLink s link = some q') :
    SameValues q q' := by
  cases s with
  | head =>
    obtain rfl := Option.some.inj h
    exact fun _ => rfl
  | entry a => exact modify_values h fun _ => rfl

theorem remove_values (h : q.remove a = some q') : SameValues q q' := by
  unfold TailQueue.remove at h
  obtain ⟨c, -, h⟩ := Option.bind_eq_some_iff.mp h
  dsimp only at h
  split at h
  · obtain ⟨q₁, hq₁, h⟩ := Option.bind_eq_some_iff.mp h
    obtain ⟨d, -, h⟩ := Option.bind_eq_some_iff.mp h
    intro b
    rw [setLink_values h b, modify_values hq₁ (fun _ => rfl) b]
  · obtain ⟨q₁, hq₁, h⟩ := Option.bind_eq_some_iff.mp h
    obtain ⟨d, -, h⟩ := Option.bind_eq_some_iff.mp h
    obtain rfl := Option.some.inj hq₁
    exact fun b => setLink_values h b

/-- A removed element keeps its value until it is freed. -/
theorem removed_cell (h : Represents q (l₁ ++ (a, x) :: l₂)) (hremove : q.remove a = some q') :
    ∃ c, q'.cells a = some c ∧ c.value = x := by
  obtain ⟨t, hcell⟩ := h.cell
  have hvalue := remove_values hremove a
  rw [hcell] at hvalue
  exact Option.map_eq_some_iff.mp hvalue

theorem Owns.setValue (h : Owns q (l₁ ++ (a, x) :: l₂)) (y : E) :
    ∃ q', q.setValue a y = some q' ∧ Owns q' (l₁ ++ (a, y) :: l₂) := by
  obtain ⟨q', hset, hrep⟩ := h.represents.setValue y
  refine ⟨q', hset, hrep, fun b hb => modify_others hset b (h.others b ?_)⟩
  simpa using hb

theorem Owns.insertTail (h : Owns q l) (a : A) (x : E) (ha : a ∉ l.map Prod.fst) :
    ∃ q', q.insertTail a x = some q' ∧ Owns q' (l ++ [(a, x)]) := by
  obtain ⟨q', hinsert, hrep⟩ := h.represents.insertTail a x ha
  refine ⟨q', hinsert, hrep, fun b hb => ?_⟩
  rw [List.map_append, List.mem_append, not_or] at hb
  obtain ⟨hl, hba⟩ := hb
  have hne : b ≠ a := by simpa using hba
  unfold TailQueue.insertTail at hinsert
  obtain ⟨q₁, hq₁, hinsert⟩ := Option.bind_eq_some_iff.mp hinsert
  obtain rfl := Option.some.inj hinsert
  refine (setLink_values hq₁).others b ?_
  change Function.update q.cells a _ b = none
  rw [Function.update_of_ne hne]
  exact h.others b hl

/-- An element that is removed and freed leaves nothing behind. -/
theorem Owns.remove (h : Owns q (l₁ ++ (a, x) :: l₂)) :
    ∃ q', q.remove a = some q' ∧ Owns (q'.free a) (l₁ ++ l₂) := by
  obtain ⟨q', hremove, hrep⟩ := h.represents.remove
  refine ⟨q', hremove, hrep, fun b hb => ?_⟩
  change Function.update q'.cells a none b = none
  by_cases hba : b = a
  · rw [hba, Function.update_self]
  · rw [Function.update_of_ne hba]
    refine (remove_values hremove).others b (h.others b ?_)
    rw [List.map_append, List.map_cons, List.mem_append, List.mem_cons, not_or, not_or]
    rw [List.map_append, List.mem_append, not_or] at hb
    exact ⟨hb.1, hba, hb.2⟩

theorem Owns.remove_first (h : Owns q ((a, x) :: l)) :
    ∃ q' c, q.remove a = some q' ∧ q'.cells a = some c ∧ c.value = x ∧ Owns (q'.free a) l := by
  have hfront : Owns q ([] ++ (a, x) :: l) := h
  obtain ⟨q', hremove, hq'⟩ := hfront.remove
  obtain ⟨c, hc, hvalue⟩ := removed_cell hfront.represents hremove
  exact ⟨q', c, hremove, hc, hvalue, hq'⟩

end Owned

end SmtpClient.QueueCursors
