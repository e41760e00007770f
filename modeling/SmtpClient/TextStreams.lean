import SmtpClient.ClosingLine

/-!
Streams of lines and texts. A receiver takes the symbols of a stream one by one.
It reads lines, and behind a line that announces a text it reads on to the closing
line of the text. What it has taken depends on the symbols that have arrived and not
on how the stream was cut, and more symbols never change what was taken.
-/
namespace SmtpClient.TextStreams

open LineReading ClosingLine

variable {α : Type*}

inductive Item (α : Type*)
  | line (l : List α)
  | text (t : List α)
deriving DecidableEq

def Item.symbols : Item α → List α
  | .line l => l
  | .text t => t

/-- What was taken, the symbols behind it, and whether they belong to a text. -/
structure Receiver (α : Type*) where
  taken : List (Item α)
  unfinished : List α
  inText : Bool

def Receiver.start : Receiver α := ⟨[], [], false⟩

variable (nl : α) (sep close : List α) (announces : List α → Bool)

/-- A text that is complete with its last symbol and not before. -/
def IsClosed (t : List α) : Prop :=
  EndsAt sep close t t.length ∧ ∀ k < t.length, ¬ EndsAt sep close t k

/-- Items that can follow each other; the flag tells whether a text is awaited. -/
inductive Follows : Bool → List (Item α) → Prop
  | nil (awaited : Bool) : Follows awaited []
  | line (l : List α) (rest : List (Item α)) (hl : IsLine nl l)
      (h : Follows (announces l) rest) : Follows false (.line l :: rest)
  | text (t : List α) (rest : List (Item α)) (ht : IsClosed sep close t)
      (h : Follows false rest) : Follows true (.text t :: rest)

theorem Follows.of_append {awaited : Bool} {a b : List (Item α)}
    (h : Follows nl sep close announces awaited (a ++ b)) :
    Follows nl sep close announces awaited a := by
  induction a generalizing awaited with
  | nil => exact .nil awaited
  | cons x a ih =>
    rw [List.cons_append] at h
    cases h with
    | line l _ hl hrest => exact .line l a hl (ih hrest)
    | text t _ ht hrest => exact .text t a ht (ih hrest)

theorem IsClosed.ne_nil {t : List α} (h : IsClosed sep close t) (hclose : close ≠ []) : t ≠ [] := by
  rintro rfl
  rcases h.1 with heq | hsuffix
  · exact hclose heq.symm
  · have hnil := List.suffix_nil.mp hsuffix
    exact hclose (List.append_eq_nil_iff.mp hnil).2

theorem endsAt_take (t : List α) (k : ℕ) :
    EndsAt sep close (t.take k) (t.take k).length ↔ EndsAt sep close t k := by
  unfold EndsAt
  rw [List.take_length]

variable [DecidableEq α]

def Receiver.put (r : Receiver α) (x : α) : Receiver α :=
  let s := r.unfinished ++ [x]
  if r.inText then
    if EndsAt sep close s s.length then ⟨r.taken ++ [.text s], [], false⟩
    else { r with unfinished := s }
  else if x = nl then ⟨r.taken ++ [.line s], [], announces s⟩
  else { r with unfinished := s }

def Receiver.putAll (r : Receiver α) (s : List α) : Receiver α :=
  s.foldl (Receiver.put nl sep close announces) r

section Receiver

variable (r : Receiver α) (taken : List (Item α))

theorem putAll_append (a b : List α) :
    r.putAll nl sep close announces (a ++ b) =
      (r.putAll nl sep close announces a).putAll nl sep close announces b :=
  List.foldl_append

theorem putAll_concat (a : List α) (x : α) :
    r.putAll nl sep close announces (a ++ [x]) =
      (r.putAll nl sep close announces a).put nl sep close announces x :=
  List.foldl_concat ..

/-- What was taken stays. -/
theorem taken_putAll_prefix (s : List α) :
    r.taken <+: (r.putAll nl sep close announces s).taken := by
  induction s generalizing r with
  | nil => exact List.prefix_rfl
  | cons x s ih =>
    refine List.IsPrefix.trans ?_ (ih (r.put nl sep close announces x))
    unfold Receiver.put
    simp only
    split
    · split
      · exact List.prefix_append _ _
      · exact List.prefix_rfl
    · split
      · exact List.prefix_append _ _
      · exact List.prefix_rfl

theorem putAll_line (l : List α) (hl : IsLine nl l) :
    (⟨taken, [], false⟩ : Receiver α).putAll nl sep close announces l =
      ⟨taken ++ [.line l], [], announces l⟩ := by
  obtain ⟨w, rfl, hw⟩ := hl
  have hopen : ∀ u v, nl ∉ v →
      (⟨taken, u, false⟩ : Receiver α).putAll nl sep close announces v = ⟨taken, u ++ v, false⟩ := by
    intro u v hv
    induction v generalizing u with
    | nil =>
      rw [List.append_nil]
      rfl
    | cons x v ih =>
      rw [List.mem_cons, not_or] at hv
      have hput : (⟨taken, u, false⟩ : Receiver α).put nl sep close announces x =
          ⟨taken, u ++ [x], false⟩ := by
        simp only [Receiver.put, Bool.false_eq_true, if_false, if_neg (Ne.symm hv.1)]
      change ((⟨taken, u, false⟩ : Receiver α).put nl sep close announces x).putAll
        nl sep close announces v = _
      rw [hput, ih (u ++ [x]) hv.2, List.append_assoc]
      rfl
  rw [putAll_concat, hopen [] w hw, List.nil_append]
  simp only [Receiver.put, Bool.false_eq_true, if_false, if_true]

/-- A text is taken with its last symbol. -/
theorem putAll_text (t : List α) (ht : IsClosed sep close t) (hclose : close ≠ []) :
    (⟨taken, [], true⟩ : Receiver α).putAll nl sep close announces t =
      ⟨taken ++ [.text t], [], false⟩ := by
  have hopen : ∀ k < t.length, (⟨taken, [], true⟩ : Receiver α).putAll nl sep close announces
      (t.take k) = ⟨taken, t.take k, true⟩ := by
    intro k hk
    induction k with
    | zero => rfl
    | succ k ih =>
      have hsucc : t.take (k + 1) = t.take k ++ [t[k]] := List.take_succ_eq_append_getElem (by omega)
      have hnot : ¬ EndsAt sep close (t.take (k + 1)) (t.take (k + 1)).length := by
        rw [endsAt_take]
        exact ht.2 (k + 1) hk
      rw [hsucc] at hnot ⊢
      rw [putAll_concat, ih (by omega)]
      simp only [Receiver.put, if_true, if_neg hnot]
  have hne := ht.ne_nil sep close hclose
  have hlast : t.dropLast ++ [t.getLast hne] = t := List.dropLast_append_getLast hne
  have hlt : t.length - 1 < t.length := by
    have hpos := List.length_pos_of_ne_nil hne
    omega
  have hbefore := hopen (t.length - 1) hlt
  rw [← List.dropLast_eq_take] at hbefore
  have hput := putAll_concat nl sep close announces ⟨taken, [], true⟩ t.dropLast (t.getLast hne)
  rw [hlast, hbefore] at hput
  rw [hput]
  simp only [Receiver.put, if_true, hlast, if_pos ht.1]

/-- The receiver takes the items whose symbols have arrived. -/
theorem putAll_items (hclose : close ≠ []) (items : List (Item α)) (awaited : Bool)
    (h : Follows nl sep close announces awaited items) :
    ((⟨taken, [], awaited⟩ : Receiver α).putAll nl sep close announces
      (items.flatMap Item.symbols)).taken = taken ++ items := by
  induction h generalizing taken with
  | nil awaited => exact (List.append_nil _).symm
  | line l rest hl _ ih =>
    rw [List.flatMap_cons, putAll_append]
    change ((Receiver.putAll nl sep close announces ⟨taken, [], false⟩ l).putAll _ _ _ _ _).taken = _
    rw [putAll_line nl sep close announces taken l hl, ih, List.append_assoc]
    rfl
  | text t rest ht _ ih =>
    rw [List.flatMap_cons, putAll_append]
    change ((Receiver.putAll nl sep close announces ⟨taken, [], true⟩ t).putAll _ _ _ _ _).taken = _
    rw [putAll_text nl sep close announces taken t ht hclose, ih, List.append_assoc]
    rfl

end Receiver

end SmtpClient.TextStreams
