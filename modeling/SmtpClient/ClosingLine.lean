import SmtpClient.LineReading

/-!
Texts that are ended by a closing line. A receiver looks for the closing line
behind a separator, or at the start of the text, and takes what it has read by
then as the text. The positions at which it would stop are the ends of the lines that
equal the closing line and begin the text or stand behind a line that ends with the
separator.
-/
namespace SmtpClient.ClosingLine

open LineReading

variable {α : Type*} (nl : α) (sep close : List α)

/-- A closing line ends at position k of the text. -/
def EndsAt (t : List α) (k : ℕ) : Prop := t.take k = close ∨ (sep ++ close) <:+ t.take k

theorem endsAt_append (t r : List α) (k : ℕ) (hk : k ≤ t.length) :
    EndsAt sep close (t ++ r) k ↔ EndsAt sep close t k := by
  unfold EndsAt
  rw [List.take_append_of_le_length hk]

/-- Behind a separator, or at the start of the text, a closing line ends. -/
theorem endsAt_of_lines (ls : List (List α)) (b : List α)
    (hls : ∀ l, ls.getLast? = some l → sep <:+ l) :
    EndsAt sep close (ls.flatten ++ close ++ b) (ls.flatten ++ close).length := by
  unfold EndsAt
  rw [List.take_left]
  rcases List.eq_nil_or_concat ls with hnil | ⟨front, l, hcat⟩
  · subst hnil
    exact Or.inl (List.nil_append close)
  · right
    rw [List.concat_eq_append] at hcat
    obtain ⟨p, hp⟩ := hls l (by rw [hcat, List.getLast?_concat])
    refine ⟨front.flatten ++ p, ?_⟩
    rw [hcat, List.flatten_append, List.flatten_singleton, ← hp]
    simp only [List.append_assoc]

variable [DecidableEq α]

instance (t : List α) (k : ℕ) : Decidable (EndsAt sep close t k) :=
  inferInstanceAs (Decidable (_ ∨ _))

/-- What the receiver takes from a stream, and what it leaves. -/
def received (s : List α) : Option (List α × List α) :=
  ((List.range (s.length + 1)).find? fun k => decide (EndsAt sep close s k)).map
    fun k => (s.take k, s.drop k)

/-- The receiver takes exactly the text when a closing line ends there and none
ends before. -/
theorem received_append_iff (t r : List α) :
    received sep close (t ++ r) = some (t, r) ↔
      EndsAt sep close t t.length ∧ ∀ k < t.length, ¬ EndsAt sep close t k := by
  unfold received
  constructor
  · intro h
    obtain ⟨k, hfind, hcut⟩ := Option.map_eq_some_iff.mp h
    have hk : k = t.length := by
      have hle : k ≤ (t ++ r).length := by
        have hmem := List.mem_of_find?_eq_some hfind
        rw [List.mem_range] at hmem
        omega
      have hlen := congrArg List.length (Prod.mk.inj hcut).1
      rw [List.length_take] at hlen
      omega
    subst hk
    obtain ⟨hend, -, hbefore⟩ := List.find?_range_eq_some.mp hfind
    rw [decide_eq_true_iff, endsAt_append sep close t r _ (Nat.le_refl _)] at hend
    refine ⟨hend, ?_⟩
    intro k hk hnot
    have hfalse := hbefore k hk
    rw [Bool.not_eq_true', decide_eq_false_iff_not,
      endsAt_append sep close t r k (Nat.le_of_lt hk)] at hfalse
    exact hfalse hnot
  · intro h
    obtain ⟨hend, hbefore⟩ := h
    apply Option.map_eq_some_iff.mpr
    refine ⟨t.length, ?_, ?_⟩
    · apply List.find?_range_eq_some.mpr
      refine ⟨?_, ?_, ?_⟩
      · rw [decide_eq_true_iff, endsAt_append sep close t r _ (Nat.le_refl _)]
        exact hend
      · rw [List.mem_range, List.length_append]
        omega
      · intro k hk
        rw [Bool.not_eq_true', decide_eq_false_iff_not,
          endsAt_append sep close t r k (Nat.le_of_lt hk)]
        exact hbefore k hk
    · rw [List.take_left, List.drop_left]

/-- A closing line inside a text is one of its lines. -/
theorem splitLines_around (hclose : IsLine nl close) (a b : List α)
    (ha : a = [] ∨ a.getLast? = some nl) :
    splitLines nl (a ++ close ++ b) = splitLines nl a ++ [close] ++ splitLines nl b := by
  obtain ⟨w, rfl, hw⟩ := hclose
  have hsingle : splitLines nl (w ++ [nl]) = [w ++ [nl]] := by
    apply splitLines_single nl _ (by simp)
    rwa [List.dropLast_concat]
  have hlast : (a ++ (w ++ [nl])).getLast? = some nl := by simp
  rw [splitLines_append nl _ b hlast]
  rcases ha with rfl | ha
  · rw [List.nil_append, hsingle]
    rfl
  · rw [splitLines_append nl a _ ha, hsingle]

/-- The last line of a text that ends with a separator ends with it too. -/
theorem suffix_last_line (hsep : IsLine nl sep) (p l : List α)
    (h : (splitLines nl (p ++ sep)).getLast? = some l) : sep <:+ l := by
  obtain ⟨a, happ, ha, hne, -⟩ := splitLines_getLast? nl _ l h
  rcases List.append_eq_append_iff.mp happ with ⟨u, rfl, hu⟩ | ⟨u, -, hl⟩
  · by_cases hnil : u = []
    · exact ⟨[], by simp [hu, hnil]⟩
    · -- the newline in front of the last line would stand inside the separator
      obtain ⟨w, hw, hfree⟩ := hsep
      have hlast : u.getLast? = some nl := by
        rcases ha with ha | ha
        · exact absurd (List.append_eq_nil_iff.mp ha).2 hnil
        · rwa [List.getLast?_append_of_ne_nil _ hnil] at ha
      have hdrop : u ++ l.dropLast = w := by
        rw [← List.dropLast_append_of_ne_nil hne, ← hu, hw, List.dropLast_concat]
      exact absurd (hdrop ▸ List.mem_append_left _ (List.mem_of_getLast? hlast)) hfree
  · exact ⟨u, hl.symm⟩

/-- Line i is a closing line that a receiver sees: the first line, or one behind a line
that ends with the separator. -/
def SeenAt (ls : List (List α)) (i : ℕ) : Prop :=
  ls[i]? = some close ∧ ∀ l, 0 < i → ls[i - 1]? = some l → sep <:+ l

/-- Where a receiver stops there is the end of a closing line that it sees. -/
theorem exists_seenAt (hclose : IsLine nl close) (hsep : IsLine nl sep) (t : List α) (k : ℕ)
    (hk : k ≤ t.length) (hend : EndsAt sep close t k) :
    ∃ i, SeenAt sep close (splitLines nl t) i ∧
      k = ((splitLines nl t).take (i + 1)).flatten.length := by
  have hfront : ∃ a, t.take k = a ++ close ∧ (a = [] ∨ a.getLast? = some nl) ∧
      ∀ l, (splitLines nl a).getLast? = some l → sep <:+ l := by
    rcases hend with hend | ⟨p, hend⟩
    · refine ⟨[], hend, Or.inl rfl, ?_⟩
      intro l hl
      cases hl
    · refine ⟨p ++ sep, by rw [List.append_assoc, hend], Or.inr ?_, suffix_last_line nl sep hsep p⟩
      obtain ⟨w, rfl, -⟩ := hsep
      rw [← List.append_assoc, List.getLast?_concat]
  obtain ⟨a, htake, ha, hlast⟩ := hfront
  have hsplit : t = a ++ close ++ t.drop k := by rw [← htake, List.take_append_drop]
  have hlines := splitLines_around nl close hclose a (t.drop k) ha
  rw [← hsplit] at hlines
  refine ⟨(splitLines nl a).length, ⟨?_, ?_⟩, ?_⟩
  · rw [hlines, List.append_assoc, List.getElem?_append_right (Nat.le_refl _), Nat.sub_self]
    rfl
  · intro l hpos hl
    rw [hlines, List.append_assoc, List.getElem?_append_left (by omega),
      ← List.getLast?_eq_getElem?] at hl
    exact hlast l hl
  · have hlen : (splitLines nl a ++ [close]).length = (splitLines nl a).length + 1 := by simp
    rw [hlines, ← hlen, List.take_left, List.flatten_append, List.flatten_singleton,
      splitLines_flatten, ← htake, List.length_take_of_le hk]

/-- A receiver stops at the end of a closing line that it sees. -/
theorem endsAt_of_seenAt (t : List α) (i : ℕ) (h : SeenAt sep close (splitLines nl t) i) :
    EndsAt sep close t ((splitLines nl t).take (i + 1)).flatten.length := by
  obtain ⟨hi, hseen⟩ := h
  have hlt : i < (splitLines nl t).length := (List.getElem?_eq_some_iff.mp hi).1
  have hget : (splitLines nl t)[i] = close := (List.getElem?_eq_some_iff.mp hi).2
  have htake : (splitLines nl t).take (i + 1) = (splitLines nl t).take i ++ [close] := by
    rw [List.take_succ_eq_append_getElem hlt, hget]
  have ht : t = ((splitLines nl t).take i).flatten ++ close ++
      ((splitLines nl t).drop (i + 1)).flatten := by
    have hall := congrArg List.flatten (List.take_append_drop (i + 1) (splitLines nl t))
    rw [splitLines_flatten, List.flatten_append, htake, List.flatten_append,
      List.flatten_singleton] at hall
    exact hall.symm
  have hend := endsAt_of_lines sep close ((splitLines nl t).take i)
    ((splitLines nl t).drop (i + 1)).flatten ?_
  · rw [← ht] at hend
    rwa [htake, List.flatten_append, List.flatten_singleton]
  · intro l hl
    by_cases hpos : 0 < i
    · refine hseen l hpos ?_
      rw [List.getLast?_eq_getElem?, List.length_take_of_le (Nat.le_of_lt hlt),
        List.getElem?_take_of_lt (by omega)] at hl
      exact hl
    · rw [Nat.eq_zero_of_not_pos hpos] at hl
      cases hl

/-- A receiver stops at the ends of the closing lines that it sees. -/
theorem endsAt_iff (hclose : IsLine nl close) (hsep : IsLine nl sep) (t : List α) (k : ℕ)
    (hk : k ≤ t.length) : EndsAt sep close t k ↔
      ∃ i, SeenAt sep close (splitLines nl t) i ∧
        k = ((splitLines nl t).take (i + 1)).flatten.length := by
  constructor
  · exact exists_seenAt nl sep close hclose hsep t k hk
  · rintro ⟨i, hseen, rfl⟩
    exact endsAt_of_seenAt nl sep close t i hseen

/-- The lines up to line i are the text only when line i is the last one. -/
theorem length_take_lines (t : List α) (i : ℕ) (hi : i + 1 ≤ (splitLines nl t).length) :
    ((splitLines nl t).take (i + 1)).flatten.length ≤ t.length ∧
      (((splitLines nl t).take (i + 1)).flatten.length = t.length ↔
        i + 1 = (splitLines nl t).length) := by
  have hlen := congrArg List.length
    (congrArg List.flatten (List.take_append_drop (i + 1) (splitLines nl t)))
  rw [splitLines_flatten, List.flatten_append, List.length_append] at hlen
  refine ⟨by omega, ?_, ?_⟩
  · intro heq
    have hrest : ((splitLines nl t).drop (i + 1)).flatten = [] :=
      List.eq_nil_of_length_eq_zero (by omega)
    by_contra hless
    obtain ⟨l, rest, hcons⟩ := List.exists_cons_of_ne_nil
      (show (splitLines nl t).drop (i + 1) ≠ [] by
        rw [ne_eq, List.drop_eq_nil_iff]
        omega)
    have hmem : l ∈ splitLines nl t :=
      List.mem_of_mem_drop (hcons ▸ List.mem_cons_self : l ∈ (splitLines nl t).drop (i + 1))
    rw [hcons, List.flatten_cons, List.append_eq_nil_iff] at hrest
    exact ne_nil_of_mem_splitLines nl t l hmem hrest.1
  · intro heq
    rw [heq, List.take_length, splitLines_flatten]

/-- A receiver stops at the end of a text and nowhere before it exactly when the last
line is the one closing line that it sees. -/
theorem ends_once_iff (hclose : IsLine nl close) (hsep : IsLine nl sep) (t : List α)
    (ht : t ≠ []) : (EndsAt sep close t t.length ∧ ∀ k < t.length, ¬ EndsAt sep close t k) ↔
      ∀ i, SeenAt sep close (splitLines nl t) i ↔ i + 1 = (splitLines nl t).length := by
  have hends := endsAt_iff nl sep close hclose hsep t
  have hne := splitLines_ne_nil nl t ht
  have hwhole := length_take_lines nl t
  constructor
  · rintro ⟨hend, hbefore⟩ i
    constructor
    · intro hi
      have hlt := (List.getElem?_eq_some_iff.mp hi.1).1
      obtain ⟨hle, hiff⟩ := hwhole i hlt
      apply hiff.mp
      by_contra hless
      exact hbefore _ (by omega) ((hends _ hle).mpr ⟨i, hi, rfl⟩)
    · intro hi
      obtain ⟨j, hj, hlen⟩ := (hends t.length (Nat.le_refl _)).mp hend
      have hlt := (List.getElem?_eq_some_iff.mp hj.1).1
      have hlast := (hwhole j hlt).2.mp hlen.symm
      obtain rfl : i = j := by omega
      exact hj
  · intro hlast
    have hpos := List.length_pos_of_ne_nil hne
    have hseen := (hlast ((splitLines nl t).length - 1)).mpr (by omega)
    constructor
    · refine (hends t.length (Nat.le_refl _)).mpr ⟨_, hseen, ?_⟩
      exact ((hwhole _ (by omega)).2.mpr (by omega)).symm
    · intro k hk hend
      obtain ⟨i, hi, rfl⟩ := (hends k (Nat.le_of_lt hk)).mp hend
      have heq := (hlast i).mp hi
      exact absurd ((hwhole i (by omega)).2.mpr heq) (by omega)

end SmtpClient.ClosingLine
