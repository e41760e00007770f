import Mathlib.Data.List.Basic

/-!
Translation into a bounded space. Each symbol becomes some text, and no symbol
is translated any more once the texts together have reached the limit. The limit
is tested before a symbol and not behind it, so the last text may go beyond it.
-/
namespace SmtpClient.BoundedOutput

variable {α β : Type*} (enc : α → List β) (limit : ℕ)

/-- The symbols that are translated when an output of some size is there already. -/
def translated : ℕ → List α → List α
  | _, [] => []
  | size, x :: rest =>
    if size < limit then x :: translated (size + (enc x).length) rest else []

theorem translated_prefix (size : ℕ) (s : List α) : translated enc limit size s <+: s := by
  induction s generalizing size with
  | nil => exact List.prefix_rfl
  | cons x rest ih =>
    rw [translated]
    split
    · exact (List.prefix_cons_inj x).mpr (ih _)
    · exact List.nil_prefix

/-- Some symbol is left out only when the limit has been reached. -/
theorem translated_all_or_full (size : ℕ) (s : List α) :
    translated enc limit size s = s ∨
      limit ≤ size + ((translated enc limit size s).flatMap enc).length := by
  induction s generalizing size with
  | nil => exact Or.inl rfl
  | cons x rest ih =>
    rw [translated]
    split
    · rw [List.flatMap_cons, List.length_append]
      rcases ih (size + (enc x).length) with heq | hfull
      · exact Or.inl (by rw [heq])
      · exact Or.inr (by omega)
    · right
      rw [List.flatMap_nil, List.length_nil]
      omega

/-- The output goes beyond the limit by less than the width of one text. -/
theorem translated_length_lt (width : ℕ) (hwidth : ∀ x, (enc x).length ≤ width) (size : ℕ)
    (s : List α) (hsize : size < limit + width) :
    size + ((translated enc limit size s).flatMap enc).length < limit + width := by
  induction s generalizing size with
  | nil => exact hsize
  | cons x rest ih =>
    rw [translated]
    split
    · have hx := hwidth x
      have hrest := ih (size + (enc x).length) (by omega)
      rw [List.flatMap_cons, List.length_append]
      omega
    · exact hsize

end SmtpClient.BoundedOutput
