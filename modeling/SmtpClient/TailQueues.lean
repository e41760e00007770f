import Mathlib.Data.List.Basic
import Mathlib.Data.List.Nodup
import Mathlib.Data.List.Induction
import Mathlib.Logic.Function.Basic

/-!
Doubly linked queues in memory. Each element holds a link to the next one and
the place of the link that points to it, and the queue holds its first link and
the place of its last one. A result of none is the use of an address without an
element. A chain says which elements lie between two links. A loop that reads
the next link before its body may remove and free the element it is at.
-/
namespace SmtpClient.TailQueues

variable {A E : Type*}

/-- The place of a link: in the queue itself or in one of the elements. -/
inductive Slot (A : Type*)
  | head
  | entry (a : A)
deriving DecidableEq

structure Cell (A E : Type*) where
  value : E
  next : Option A
  prev : Slot A

structure TailQueue (A E : Type*) where
  first : Option A
  last : Slot A
  cells : A → Option (Cell A E)

namespace TailQueue

def init : TailQueue A E := ⟨none, .head, fun _ => none⟩

variable [DecidableEq A]

def modify (q : TailQueue A E) (a : A) (f : Cell A E → Cell A E) : Option (TailQueue A E) :=
  (q.cells a).map fun c => { q with cells := Function.update q.cells a (some (f c)) }

/-- Write to the link at a place. -/
def setLink (q : TailQueue A E) (s : Slot A) (link : Option A) : Option (TailQueue A E) :=
  match s with
  | .head => some { q with first := link }
  | .entry a => q.modify a fun c => { c with next := link }

/-- A new element at a fresh address becomes the last one. -/
def insertTail (q : TailQueue A E) (a : A) (x : E) : Option (TailQueue A E) := do
  let q := { q with cells := Function.update q.cells a (some ⟨x, none, q.last⟩) }
  let q ← q.setLink q.last (some a)
  return { q with last := .entry a }

def remove (q : TailQueue A E) (a : A) : Option (TailQueue A E) := do
  let c ← q.cells a
  let q ← match c.next with
    | some b => q.modify b fun d => { d with prev := c.prev }
    | none => some { q with last := c.prev }
  let c ← q.cells a
  q.setLink c.prev c.next

def free (q : TailQueue A E) (a : A) : TailQueue A E :=
  { q with cells := Function.update q.cells a none }

def setValue (q : TailQueue A E) (a : A) (x : E) : Option (TailQueue A E) :=
  q.modify a fun c => { c with value := x }

end TailQueue

/-- The loop over a queue that lives in a state. The number bounds the passes. -/
def foreachSafe {σ : Type*} (queueOf : σ → TailQueue A E) (body : A → σ → Option σ) :
    ℕ → Option A → σ → Option σ
  | _, none, s => some s
  | 0, some _, _ => none
  | n + 1, some a, s =>
    match (queueOf s).cells a with
    | none => none
    | some c => (body a s).bind (foreachSafe queueOf body n c.next)

/-- From the link at place s to the link at place e lie these elements. -/
def Chain (cells : A → Option (Cell A E)) : Slot A → Option A → List (A × E) → Slot A →
    Option A → Prop
  | s, link, [], e, link' => s = e ∧ link = link'
  | s, link, (a, x) :: l, e, link' => link = some a ∧
      ∃ next, cells a = some ⟨x, next, s⟩ ∧ Chain cells (.entry a) next l e link'

theorem chain_append (cells : A → Option (Cell A E)) (s e : Slot A) (link link' : Option A)
    (l₁ l₂ : List (A × E)) :
    Chain cells s link (l₁ ++ l₂) e link' ↔
      ∃ t mid, Chain cells s link l₁ t mid ∧ Chain cells t mid l₂ e link' := by
  induction l₁ generalizing s link with
  | nil =>
    constructor
    · intro h
      exact ⟨s, link, ⟨rfl, rfl⟩, h⟩
    · intro h
      obtain ⟨t, mid, ⟨rfl, rfl⟩, h⟩ := h
      exact h
  | cons y l₁ ih =>
    obtain ⟨a, x⟩ := y
    constructor
    · intro h
      obtain ⟨hlink, next, hcell, h⟩ := h
      obtain ⟨t, mid, h₁, h₂⟩ := (ih (.entry a) next).mp h
      exact ⟨t, mid, ⟨hlink, next, hcell, h₁⟩, h₂⟩
    · intro h
      obtain ⟨t, mid, ⟨hlink, next, hcell, h₁⟩, h₂⟩ := h
      exact ⟨hlink, next, hcell, (ih (.entry a) next).mpr ⟨t, mid, h₁, h₂⟩⟩

/-- A chain depends on the memory of its own elements only. -/
theorem Chain.frame {cells cells' : A → Option (Cell A E)} {s e : Slot A} {link link' : Option A}
    {l : List (A × E)} (h : Chain cells s link l e link')
    (hcells : ∀ a ∈ l.map Prod.fst, cells' a = cells a) : Chain cells' s link l e link' := by
  induction l generalizing s link with
  | nil => exact h
  | cons y l ih =>
    obtain ⟨a, x⟩ := y
    obtain ⟨hlink, next, hcell, h⟩ := h
    refine ⟨hlink, next, ?_, ?_⟩
    · rw [hcells a List.mem_cons_self]
      exact hcell
    · apply ih h
      intro b hb
      exact hcells b (List.mem_cons_of_mem a hb)

/-- The elements in front of the link at place t, and that link. -/
def Front (q : TailQueue A E) (l : List (A × E)) (t : Slot A) (link : Option A) : Prop :=
  (l.map Prod.fst).Nodup ∧ Chain q.cells .head q.first l t link

/-- The queue holds these elements, each at its address. -/
def Represents (q : TailQueue A E) (l : List (A × E)) : Prop := Front q l q.last none

theorem represents_init : Represents (TailQueue.init : TailQueue A E) [] :=
  ⟨List.nodup_nil, rfl, rfl⟩

/-- A represented queue around one of its elements. -/
theorem represents_append_cons (q : TailQueue A E) (l₁ l₂ : List (A × E)) (a : A) (x : E) :
    Represents q (l₁ ++ (a, x) :: l₂) ↔
      a ∉ l₁.map Prod.fst ∧ a ∉ l₂.map Prod.fst ∧
      (l₁.map Prod.fst).Disjoint (l₂.map Prod.fst) ∧ (l₂.map Prod.fst).Nodup ∧
      ∃ t next, Front q l₁ t (some a) ∧ q.cells a = some ⟨x, next, t⟩ ∧
        Chain q.cells (.entry a) next l₂ q.last none := by
  unfold Represents Front
  rw [List.map_append, List.map_cons, List.nodup_middle, List.nodup_cons, List.nodup_append',
    chain_append, List.mem_append, not_or]
  constructor
  · intro h
    obtain ⟨⟨⟨ha₁, ha₂⟩, hl₁, hl₂, hdisj⟩, t, mid, h₁, rfl, next, hcell, h₂⟩ := h
    exact ⟨ha₁, ha₂, hdisj, hl₂, t, next, ⟨hl₁, h₁⟩, hcell, h₂⟩
  · intro h
    obtain ⟨ha₁, ha₂, hdisj, hl₂, t, next, ⟨hl₁, h₁⟩, hcell, h₂⟩ := h
    exact ⟨⟨⟨ha₁, ha₂⟩, hl₁, hl₂, hdisj⟩, t, some a, h₁, rfl, next, hcell, h₂⟩

/-- The element of an address, with the link to the element behind it. -/
theorem Represents.cell {q : TailQueue A E} {l₁ l₂ : List (A × E)} {a : A} {x : E}
    (h : Represents q (l₁ ++ (a, x) :: l₂)) :
    ∃ t, q.cells a = some ⟨x, l₂.head?.map Prod.fst, t⟩ := by
  obtain ⟨-, -, -, -, t, next, -, hcell, h₂⟩ := (represents_append_cons q l₁ l₂ a x).mp h
  refine ⟨t, ?_⟩
  rw [hcell]
  cases l₂ with
  | nil => rw [h₂.2]; rfl
  | cons y l₂ => rw [h₂.1]; rfl

theorem Represents.first {q : TailQueue A E} {l : List (A × E)} (h : Represents q l) :
    q.first = l.head?.map Prod.fst := by
  cases l with
  | nil => exact h.2.2
  | cons y l => exact h.2.1

/-- The rule of the loop. The invariant knows the passes that are over and the
elements to come, of which the queue still holds all, and the body is allowed
to change anything but those. -/
theorem foreachSafe_rule {σ X : Type*} (queueOf : σ → TailQueue A E) (body : A → σ → Option σ)
    (key : X → A × E) (I : List X → List X → σ → Prop)
    (hrep : ∀ done todo s, I done todo s → ∃ kept, Represents (queueOf s) (kept ++ todo.map key))
    (hstep : ∀ done x todo s, I done (x :: todo) s →
      ∃ s', body (key x).1 s = some s' ∧ I (done ++ [x]) todo s')
    (n : ℕ) (done todo : List X) (s : σ) (hs : I done todo s) (hn : todo.length ≤ n) :
    ∃ s', foreachSafe queueOf body n ((todo.map key).head?.map Prod.fst) s = some s' ∧
      I (done ++ todo) [] s' := by
  induction todo generalizing n done s with
  | nil =>
    rw [List.append_nil]
    refine ⟨s, ?_, hs⟩
    cases n <;> rfl
  | cons x todo ih =>
    cases n with
    | zero => simp at hn
    | succ n =>
      obtain ⟨kept, hkept⟩ := hrep done (x :: todo) s hs
      obtain ⟨t, hcell⟩ := hkept.cell
      obtain ⟨s', hbody, hs'⟩ := hstep done x todo s hs
      obtain ⟨u, hu, hend⟩ := ih n (done ++ [x]) s' hs' (by simpa using hn)
      refine ⟨u, ?_, ?_⟩
      · change foreachSafe queueOf body (n + 1) (some (key x).1) s = some u
        rw [foreachSafe, hcell]
        simp only [hbody, Option.bind_some]
        exact hu
      · rw [List.append_assoc] at hend
        exact hend

variable [DecidableEq A]

/-- Memory outside a chain can be overwritten. -/
theorem Chain.update {cells : A → Option (Cell A E)} {s e : Slot A} {link link' : Option A}
    {l : List (A × E)} (h : Chain cells s link l e link') (a : A) (c : Option (Cell A E))
    (ha : a ∉ l.map Prod.fst) : Chain (Function.update cells a c) s link l e link' := by
  apply h.frame
  intro b hb
  apply Function.update_of_ne
  intro hba
  exact ha (hba ▸ hb)

/-- Writing to the link behind some elements leaves them and all other memory
as it was. -/
theorem Front.setLink {q : TailQueue A E} {l : List (A × E)} {t : Slot A} {link : Option A}
    (h : Front q l t link) (link' : Option A) :
    ∃ q', q.setLink t link' = some q' ∧ Front q' l t link' ∧ q'.last = q.last ∧
      ∀ a ∉ l.map Prod.fst, q'.cells a = q.cells a := by
  obtain ⟨hnodup, hchain⟩ := h
  rcases List.eq_nil_or_concat' l with rfl | ⟨l, ⟨b, x⟩, rfl⟩
  · obtain ⟨rfl, -⟩ := hchain
    exact ⟨{ q with first := link' }, rfl, ⟨hnodup, rfl, rfl⟩, rfl, fun _ _ => rfl⟩
  · rw [List.map_append, List.nodup_append] at hnodup
    obtain ⟨hl, -, hdisj⟩ := hnodup
    obtain ⟨s, mid, hfront, rfl, next, hcell, rfl, rfl⟩ := (chain_append _ _ _ _ _ _ _).mp hchain
    have hb : b ∉ l.map Prod.fst := by
      intro hmem
      exact hdisj b hmem b (List.mem_singleton_self b) rfl
    refine ⟨{ q with cells := Function.update q.cells b (some ⟨x, link', s⟩) }, ?_, ⟨?_, ?_⟩, rfl, ?_⟩
    · change (q.cells b).map _ = _
      rw [hcell]
      rfl
    · rw [List.map_append, List.nodup_append]
      exact ⟨hl, List.nodup_singleton b, hdisj⟩
    · apply (chain_append _ _ _ _ _ _ _).mpr
      exact ⟨s, some b, hfront.update b _ hb, rfl, link', Function.update_self .., rfl, rfl⟩
    · intro a ha
      apply Function.update_of_ne
      intro hab
      exact ha (by simp [hab])

theorem TailQueue.remove_last (q : TailQueue A E) (a : A) (x : E) (t : Slot A)
    (hcell : q.cells a = some ⟨x, none, t⟩) :
    q.remove a = { q with last := t }.setLink t none := by
  simp only [TailQueue.remove, hcell, Option.bind_eq_bind, Option.bind_some]

/-- The link back from the next element skips the removed one. -/
theorem TailQueue.remove_before (q : TailQueue A E) (a b : A) (x z : E) (t s : Slot A)
    (after : Option A) (hcell : q.cells a = some ⟨x, some b, t⟩)
    (hb : q.cells b = some ⟨z, after, s⟩) (hne : a ≠ b) :
    q.remove a =
      { q with cells := Function.update q.cells b (some ⟨z, after, t⟩) }.setLink t (some b) := by
  have hmodify : q.modify b (fun d => { d with prev := t }) =
      some { q with cells := Function.update q.cells b (some ⟨z, after, t⟩) } := by
    unfold TailQueue.modify
    rw [hb]
    rfl
  have hsame : Function.update q.cells b (some ⟨z, after, t⟩) a = some ⟨x, some b, t⟩ := by
    rw [Function.update_of_ne hne, hcell]
  simp only [TailQueue.remove, hcell, Option.bind_eq_bind, Option.bind_some, hmodify, hsame]

/-- Removing an element and freeing it leaves the others in their order. -/
theorem Represents.remove {q : TailQueue A E} {l₁ l₂ : List (A × E)} {a : A} {x : E}
    (h : Represents q (l₁ ++ (a, x) :: l₂)) :
    ∃ q', q.remove a = some q' ∧ Represents (q'.free a) (l₁ ++ l₂) := by
  obtain ⟨ha₁, ha₂, hdisj, hl₂, t, next, hfront, hcell, h₂⟩ :=
    (represents_append_cons q l₁ l₂ a x).mp h
  cases l₂ with
  | nil =>
    obtain ⟨-, rfl⟩ := h₂
    have hfront' : Front { q with last := t } l₁ t (some a) := hfront
    obtain ⟨q', hset, ⟨hnodup, hchain⟩, hlast, -⟩ := hfront'.setLink none
    refine ⟨q', ?_, ?_⟩
    · rw [q.remove_last a x t hcell]
      exact hset
    · rw [List.append_nil]
      have hlast : q'.last = t := hlast
      refine ⟨hnodup, ?_⟩
      change Chain (Function.update q'.cells a none) .head q'.first l₁ q'.last none
      rw [hlast]
      exact hchain.update a none ha₁
  | cons y l₂ =>
    obtain ⟨b, z⟩ := y
    obtain ⟨rfl, after, hb, h₂⟩ := h₂
    rw [List.map_cons, List.mem_cons, not_or] at ha₂
    rw [List.map_cons, List.nodup_cons] at hl₂
    have hb₁ : b ∉ l₁.map Prod.fst := by
      intro hmem
      exact hdisj hmem List.mem_cons_self
    let q₁ : TailQueue A E := { q with cells := Function.update q.cells b (some ⟨z, after, t⟩) }
    have hfront₁ : Front q₁ l₁ t (some a) := ⟨hfront.1, hfront.2.update b _ hb₁⟩
    obtain ⟨q', hset, ⟨hnodup, hchain⟩, hlast, hkeep⟩ := hfront₁.setLink (some b)
    refine ⟨q', ?_, ?_, ?_⟩
    · rw [q.remove_before a b x z t _ after hcell hb ha₂.1]
      exact hset
    · rw [List.map_append, List.nodup_append']
      refine ⟨hnodup, ?_, hdisj⟩
      exact List.nodup_cons.mpr hl₂
    · have hfree : ∀ c, c ≠ a → (q'.free a).cells c = q'.cells c := by
        intro c hc
        exact Function.update_of_ne hc _ _
      apply (chain_append _ _ _ _ _ _ _).mpr
      refine ⟨t, some b, hchain.update a none ha₁, rfl, after, ?_, ?_⟩
      · rw [hfree b (Ne.symm ha₂.1), hkeep b hb₁]
        exact Function.update_self ..
      · change Chain _ _ _ _ q'.last none
        rw [hlast]
        have h₂' : Chain q₁.cells (.entry b) after l₂ q.last none := h₂.update b _ hl₂.1
        have hkept : Chain q'.cells (.entry b) after l₂ q.last none := by
          apply h₂'.frame
          intro c hc
          apply hkeep
          intro hmem
          exact hdisj hmem (List.mem_cons_of_mem b hc)
        exact hkept.update a none ha₂.2

theorem Represents.setValue {q : TailQueue A E} {l₁ l₂ : List (A × E)} {a : A} {x : E}
    (h : Represents q (l₁ ++ (a, x) :: l₂)) (y : E) :
    ∃ q', q.setValue a y = some q' ∧ Represents q' (l₁ ++ (a, y) :: l₂) := by
  obtain ⟨ha₁, ha₂, hdisj, hl₂, t, next, hfront, hcell, h₂⟩ :=
    (represents_append_cons q l₁ l₂ a x).mp h
  refine ⟨{ q with cells := Function.update q.cells a (some ⟨y, next, t⟩) }, ?_, ?_⟩
  · unfold TailQueue.setValue TailQueue.modify
    rw [hcell]
    rfl
  · apply (represents_append_cons _ l₁ l₂ a y).mpr
    exact ⟨ha₁, ha₂, hdisj, hl₂, t, next, ⟨hfront.1, hfront.2.update a _ ha₁⟩,
      Function.update_self .., h₂.update a _ ha₂⟩

theorem Represents.insertTail {q : TailQueue A E} {l : List (A × E)} (h : Represents q l) (a : A)
    (x : E) (ha : a ∉ l.map Prod.fst) :
    ∃ q', q.insertTail a x = some q' ∧ Represents q' (l ++ [(a, x)]) := by
  let q₁ : TailQueue A E :=
    { q with cells := Function.update q.cells a (some ⟨x, none, q.last⟩) }
  have hfront : Front q₁ l q.last none := ⟨h.1, h.2.update a _ ha⟩
  obtain ⟨q', hset, hfront', -, hkeep⟩ := hfront.setLink (some a)
  refine ⟨{ q' with last := .entry a }, ?_, ?_⟩
  · change (q₁.setLink q.last (some a)).bind _ = _
    rw [hset]
    rfl
  · apply (represents_append_cons _ l [] a x).mpr
    refine ⟨ha, List.not_mem_nil, List.disjoint_nil_right _, List.nodup_nil, q.last, none,
      hfront', ?_, rfl, rfl⟩
    change q'.cells a = _
    rw [hkeep a ha]
    exact Function.update_self ..

/-- Any values can be queued, one behind the other. -/
theorem exists_represents {X : Type*} (value : X → E) (xs : List X) :
    ∃ (q : TailQueue ℕ E) (l : List (ℕ × X)),
      Represents q (l.map fun x => (x.1, value x.2)) ∧ l.map Prod.snd = xs := by
  suffices h : ∃ (q : TailQueue ℕ E) (l : List (ℕ × X)),
      Represents q (l.map fun x => (x.1, value x.2)) ∧ l.map Prod.snd = xs ∧
        ∀ x ∈ l, x.1 < l.length by
    obtain ⟨q, l, hq, hxs, -⟩ := h
    exact ⟨q, l, hq, hxs⟩
  induction xs using List.reverseRecOn with
  | nil => exact ⟨.init, [], represents_init, rfl, by simp⟩
  | append_singleton xs y ih =>
    obtain ⟨q, l, hq, hxs, hfresh⟩ := ih
    have hnew : l.length ∉ (l.map fun x => (x.1, value x.2)).map Prod.fst := by
      intro hmem
      simp only [List.map_map, List.mem_map, Function.comp_apply] at hmem
      obtain ⟨x, hx, hlen⟩ := hmem
      have hlt := hfresh x hx
      omega
    obtain ⟨q', -, hq'⟩ := hq.insertTail l.length (value y) hnew
    refine ⟨q', l ++ [(l.length, y)], ?_, ?_, ?_⟩
    · rw [List.map_append]
      exact hq'
    · rw [List.map_append, hxs]
      rfl
    · intro x hx
      rw [List.length_append, List.length_singleton]
      rcases List.mem_append.mp hx with hx | hx
      · have hlt := hfresh x hx
        omega
      · rw [List.mem_singleton.mp hx]
        exact Nat.lt_succ_self _

end SmtpClient.TailQueues
