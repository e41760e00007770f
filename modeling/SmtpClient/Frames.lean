import Mathlib.Data.List.Basic

/-!
Frames on a stream of symbols. A frame is some text and a delimiter behind it.
The receiver collects the text of the open frame until the delimiter comes, and
stops at the first frame that is empty. Nothing here is specific to one use.
-/
namespace SmtpClient.Frames

variable {α : Type*}

def frame (delim : α) (text : List α) : List α := text ++ [delim]

variable [DecidableEq α] (delim : α)

/-- The texts up to the first empty frame, and the stream behind that frame if
it has come. The first list is the text of the open frame so far. -/
def deframe : List α → List α → List (List α) × Option (List α)
  | _, [] => ([], none)
  | part, x :: stream =>
    if x = delim then
      if part = [] then ([], some stream)
      else
        let r := deframe [] stream
        (part :: r.1, r.2)
    else deframe (part ++ [x]) stream

theorem deframe_text (part text stream : List α) (h : delim ∉ text) :
    deframe delim part (text ++ stream) = deframe delim (part ++ text) stream := by
  induction text generalizing part with
  | nil => rw [List.append_nil, List.nil_append]
  | cons x text ih =>
    rw [List.mem_cons, not_or] at h
    obtain ⟨hx, htext⟩ := h
    rw [List.cons_append, deframe, if_neg (Ne.symm hx), ih (part ++ [x]) htext, List.append_assoc]
    rfl

/-- One frame in front of a stream is one text. -/
theorem deframe_frame (text stream : List α) (hne : text ≠ []) (h : delim ∉ text) :
    deframe delim [] (frame delim text ++ stream) =
      (text :: (deframe delim [] stream).1, (deframe delim [] stream).2) := by
  rw [frame, List.append_assoc, deframe_text delim [] text _ h, List.nil_append]
  change deframe delim text (delim :: stream) = _
  rw [deframe, if_pos rfl, if_neg hne]

/-- The texts of any frames come back, and the receiver stops at the empty one. -/
theorem deframe_frames (texts : List (List α)) (rest : List α)
    (h : ∀ text ∈ texts, text ≠ [] ∧ delim ∉ text) :
    deframe delim [] (texts.flatMap (frame delim) ++ frame delim [] ++ rest) =
      (texts, some rest) := by
  induction texts with
  | nil =>
    change deframe delim [] (delim :: rest) = _
    rw [deframe, if_pos rfl, if_pos rfl]
  | cons text texts ih =>
    obtain ⟨hne, hdelim⟩ := h text List.mem_cons_self
    have hrest : ∀ t ∈ texts, t ≠ [] ∧ delim ∉ t := by
      intro t ht
      exact h t (List.mem_cons_of_mem text ht)
    rw [List.flatMap_cons, List.append_assoc, List.append_assoc,
      deframe_frame delim text _ hne hdelim, ← List.append_assoc, ih hrest]

/-- The text of the open frame is the beginning of the first text to come. -/
theorem deframe_open (part stream rest : List α) (texts : List (List α)) (hne : part ≠ [])
    (h : deframe delim part stream = (texts, some rest)) : ∃ text ∈ texts, part <+: text := by
  induction stream generalizing part with
  | nil => cases h
  | cons x stream ih =>
    rw [deframe] at h
    split at h
    · obtain ⟨htexts, -⟩ := Prod.mk.inj h
      rw [← htexts]
      exact ⟨part, List.mem_cons_self, List.prefix_rfl⟩
    · obtain ⟨text, hmem, hpre⟩ := ih (part ++ [x]) (by simp) h
      exact ⟨text, hmem, (List.prefix_append part [x]).trans hpre⟩

end SmtpClient.Frames
