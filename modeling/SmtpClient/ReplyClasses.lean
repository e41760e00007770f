import SmtpClient.ReplyLines

/-!
The events of single-line replies. The code alone decides which event a reply
raises, whatever its text is, but for one kind of line: the text that a blank
announces must not be empty.
-/
namespace SmtpClient.ReplyClasses

open MailTypes Regexp EventLoop ReplyLines

/-- One line: the code, then nothing or a blank and a text, then the line end. -/
def replyOf (code : Bytes) (text : Option Bytes) : Bytes :=
  match text with
  | none => code ++ bytes "\r\n"
  | some t => code ++ 32 :: t ++ bytes "\r\n"

def knownCodes : List Bytes := [bytes "220", bytes "221", bytes "250", bytes "354"]

/-- The event of a code, and INVALID for the others. -/
def eventOfCode (code : Bytes) : FsmEvent :=
  if code = bytes "220" then .r220
  else if code = bytes "221" then .r221
  else if code = bytes "250" then .r250
  else if code = bytes "354" then .r354
  else .invalid

theorem exists_event_of_known (code : Bytes) (h : code ∈ knownCodes) :
    ∃ name c, replyCode (eventOfCode code) = some (name, c) ∧ code = bytes c := by
  simp only [knownCodes, List.mem_cons, List.not_mem_nil, or_false] at h
  rcases h with rfl | rfl | rfl | rfl
  · exact ⟨.r220, "220", rfl, rfl⟩
  · exact ⟨.r221, "221", rfl, rfl⟩
  · exact ⟨.r250, "250", rfl, rfl⟩
  · exact ⟨.r354, "354", rfl, rfl⟩

theorem known_of_replyCode (evt : FsmEvent) (name : SmtpReName) (c : String)
    (h : replyCode evt = some (name, c)) : bytes c ∈ knownCodes := by
  cases evt <;> cases h <;> decide

theorem eventOfCode_of_unknown (code : Bytes) (h : code ∉ knownCodes) :
    eventOfCode code = .invalid := by
  simp only [knownCodes, List.mem_cons, List.not_mem_nil, or_false, not_or] at h
  obtain ⟨h220, h221, h250, h354⟩ := h
  rw [eventOfCode, if_neg h220, if_neg h221, if_neg h250, if_neg h354]

/-- An event of the four codes or INVALID is all that a buffer raises. -/
theorem replyEvent_cases (str : Bytes) :
    replyEvent str = .invalid ∨ ∃ name c, replyCode (replyEvent str) = some (name, c) := by
  have hreply := replyEvent_isReply str
  cases hevt : replyEvent str with
  | r220 => exact Or.inr ⟨.r220, "220", rfl⟩
  | r221 => exact Or.inr ⟨.r221, "221", rfl⟩
  | r250 => exact Or.inr ⟨.r250, "250", rfl⟩
  | r354 => exact Or.inr ⟨.r354, "354", rfl⟩
  | invalid => exact Or.inl rfl
  | noRcpt | noMail | timeout =>
    rw [hevt] at hreply
    cases hreply

/-- Behind one blank the optional text of a pattern needs at least one byte. -/
theorem replyText_of_blank (text rest : Bytes) (htext : IsReplyText text)
    (h : 32 :: bytes "\r\n" = text ++ bytes "\r\n" ++ rest) : False := by
  rcases htext with rfl | ⟨blanks, body, rfl, hblanks, -, hbody, -⟩
  · exact absurd (List.cons.inj h).1 (by decide)
  · have hlen := congrArg List.length h
    have hend : (bytes "\r\n").length = 2 := rfl
    have hpos := List.length_pos_of_ne_nil hblanks
    have hpos' := List.length_pos_of_ne_nil hbody
    simp only [List.length_cons, List.length_append, hend] at hlen
    omega

/-- A line of one code begins with a reply line of that code only, if it does. -/
theorem beginsWithReply_replyOf (c : String) (code : Bytes) (text : Option Bytes)
    (hcode : code.length = (bytes c).length) (htext : ∀ t, text = some t → 10 ∉ t) :
    BeginsWithReply c (replyOf code text) ↔ code = bytes c ∧ text ≠ some [] := by
  constructor
  · intro h
    obtain ⟨text', rest, htext', heq⟩ := h
    cases text with
    | none =>
      simp only [replyOf, List.append_assoc] at heq
      exact ⟨(List.append_inj heq hcode).1, Option.some_ne_none [] ∘ Eq.symm⟩
    | some t =>
      simp only [replyOf, List.append_assoc] at heq
      obtain ⟨heq, hrest⟩ := List.append_inj heq hcode
      refine ⟨heq, ?_⟩
      intro hempty
      obtain rfl := Option.some.inj hempty
      apply replyText_of_blank text' rest htext'
      rw [List.append_assoc]
      exact hrest
  · intro h
    obtain ⟨rfl, hne⟩ := h
    cases text with
    | none => exact ⟨[], [], Or.inl rfl, by simp [replyOf]⟩
    | some t =>
      refine ⟨32 :: t, [], Or.inr ⟨[32], t, rfl, List.cons_ne_nil _ _,
        List.forall_mem_singleton.mpr rfl, ?_, ?_⟩, by simp [replyOf]⟩
      · intro hnil
        exact hne (congrArg some hnil)
      · intro x hx hlf
        exact htext t rfl (hlf ▸ hx)

/-- A reply of one line raises the event of its code exactly when the code is not
one of the four or no empty text follows a blank. -/
theorem classified_by_code_iff (code : Bytes) (text : Option Bytes) (hcode : code.length = 3)
    (htext : ∀ t, text = some t → 10 ∉ t) :
    replyEvent (replyOf code text) = eventOfCode code ↔
      (text = some [] → code ∉ knownCodes) := by
  by_cases hknown : code ∈ knownCodes
  · obtain ⟨name, c, hreply, hc⟩ := exists_event_of_known code hknown
    rw [replyEvent_iff _ name c _ hreply, beginsWithReply_replyOf c code text (by rw [hc]) htext]
    constructor
    · intro h hempty
      exact absurd hempty h.2
    · intro h
      exact ⟨hc, fun hempty => h hempty hknown⟩
  · rw [eventOfCode_of_unknown code hknown]
    constructor
    · intro _ _
      exact hknown
    · intro _
      rcases replyEvent_cases (replyOf code text) with hinvalid | ⟨name, c, hreply⟩
      · exact hinvalid
      · have hbegins := (replyEvent_iff _ name c _ hreply).mp rfl
        have hlen : code.length = (bytes c).length := by
          rw [hcode, replyCode_length _ name c hreply]
        obtain ⟨rfl, -⟩ := (beginsWithReply_replyOf c code text hlen htext).mp hbegins
        exact absurd (known_of_replyCode _ name c hreply) hknown

theorem classified_by_code_iff_ok :
    replyEvent (replyOf (bytes "250") (some (bytes "OK"))) = .r250 := by
  refine (classified_by_code_iff (bytes "250") (some (bytes "OK")) rfl ?_).mpr ?_
  · intro t ht
    obtain rfl := Option.some.inj ht
    decide
  · intro hempty
    cases hempty

/-- A blank with nothing behind it makes a known reply invalid. -/
theorem blank_reply_invalid :
    ¬ ∀ (code : Bytes) (text : Option Bytes), code.length = 3 →
        (∀ x ∈ code, isDigit x = true) → (∀ t, text = some t → 13 ∉ t ∧ 10 ∉ t) →
        replyEvent (replyOf code text) = eventOfCode code := by
  intro hclaim
  have heq := hclaim (bytes "250") (some []) rfl (List.all_eq_true.mp rfl) (by
    intro t ht
    obtain rfl := Option.some.inj ht
    exact ⟨List.not_mem_nil, List.not_mem_nil⟩)
  exact absurd heq (by decide +kernel)

end SmtpClient.ReplyClasses
