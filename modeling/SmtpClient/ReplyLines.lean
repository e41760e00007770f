import SmtpClient.EventLoop

/-!
What the reply patterns match. A buffer counts as a reply when it begins with a
complete reply line, whatever stands behind that line; the code of the line
decides, and codes of one length exclude each other.
-/
namespace SmtpClient.ReplyLines

open MailTypes Backtracking Regexp EventLoop

/-- Bytes that are not letters. -/
def Caseless (c : UInt8) : Prop := c < 65 ∨ (90 < c ∧ c < 97) ∨ 122 < c

instance (c : UInt8) : Decidable (Caseless c) := by
  unfold Caseless
  infer_instance

theorem caseless_of_all (l : Bytes) (h : (l.all fun c => decide (Caseless c)) = true) :
    ∀ c ∈ l, Caseless c := by
  intro c hc
  exact of_decide_eq_true (List.all_eq_true.mp h c hc)

/-- What a caseless literal matches when it is not a letter. -/
theorem toLower_eq_iff (x c : UInt8) (hc : Caseless c) : toLower x = toLower c ↔ x = c := by
  unfold Caseless at hc
  simp only [UInt8.lt_iff_toNat_lt, UInt8.reduceToNat] at hc
  have hlow : toLower c = c := by
    unfold toLower
    rw [if_neg]
    intro hupper
    simp only [UInt8.le_iff_toNat_le, UInt8.reduceToNat] at hupper
    omega
  rw [hlow]
  unfold toLower
  split
  · rename_i hupper
    simp only [UInt8.le_iff_toNat_le, UInt8.reduceToNat] at hupper
    constructor
    · intro heq
      subst heq
      simp only [UInt8.toNat_add, UInt8.reduceToNat] at hc
      omega
    · intro heq
      subst heq
      omega
  · rfl

theorem reads_lit (c : UInt8) (hc : Caseless c) (t r : Bytes) :
    Reads (lit c) t r ↔ t = [c] := by
  unfold lit
  rw [reads_one]
  constructor
  · intro h
    obtain ⟨x, rfl, hx⟩ := h
    rw [(toLower_eq_iff x c hc).mp (of_decide_eq_true hx)]
  · intro h
    exact ⟨c, h, decide_eq_true rfl⟩

theorem reads_chain_lit (l t r : Bytes) (hl : ∀ c ∈ l, Caseless c) :
    Reads (chain (l.map lit)) t r ↔ t = l := by
  induction l generalizing t with
  | nil => simp
  | cons c l ih =>
    have hrest : ∀ b ∈ l, Caseless b := by
      intro b hb
      exact hl b (List.mem_cons_of_mem c hb)
    rw [List.map_cons, reads_chain_cons]
    constructor
    · intro h
      obtain ⟨t₁, t₂, rfl, h₁, h₂⟩ := h
      rw [(reads_lit c (hl c List.mem_cons_self) t₁ _).mp h₁, (ih t₂ hrest).mp h₂]
      rfl
    · intro h
      refine ⟨[c], l, h, ?_, (ih l hrest).mpr rfl⟩
      exact (reads_lit c (hl c List.mem_cons_self) [c] _).mpr rfl

theorem reads_word (s : String) (t r : Bytes) (hs : ∀ c ∈ bytes s, Caseless c) :
    Reads (word s) t r ↔ t = bytes s :=
  reads_chain_lit (bytes s) t r hs

/-- What may stand between the code of a reply line and its end. -/
def IsReplyText (text : Bytes) : Prop :=
  text = [] ∨ ∃ blanks body, text = blanks ++ body ∧ blanks ≠ [] ∧
    (∀ x ∈ blanks, isSpace x = true) ∧ body ≠ [] ∧ ∀ x ∈ body, x ≠ 10

/-- The buffer begins with a complete reply line of this code. -/
def BeginsWithReply (code : String) (str : Bytes) : Prop :=
  ∃ text rest, IsReplyText text ∧ str = bytes code ++ text ++ bytes "\r\n" ++ rest

theorem reads_replyText (t r : Bytes) : Reads replyText t r ↔ IsReplyText t := by
  unfold replyText IsReplyText
  simp only [reads_opt, reads_chain_cons, reads_chain_nil, reads_plus]
  constructor
  · intro h
    rcases h with ⟨t₁, _, rfl, ⟨hne, hspace⟩, t₂, _, rfl, ⟨hne', hdot⟩, rfl⟩ | h
    · refine Or.inr ⟨t₁, t₂, by simp, hne, hspace, hne', ?_⟩
      intro x hx
      exact of_decide_eq_true (hdot x hx)
    · exact Or.inl h
  · intro h
    rcases h with h | ⟨t₁, t₂, rfl, hne, hspace, hne', hdot⟩
    · exact Or.inr h
    · refine Or.inl ⟨t₁, t₂, rfl, ⟨hne, hspace⟩, t₂, [], by simp, ⟨hne', ?_⟩, rfl⟩
      intro x hx
      exact decide_eq_true (hdot x hx)

/-- A reply pattern matches the buffers that begin with a line of its code. -/
theorem execAt_replyPattern (code : String) (str : Bytes) (hc : ∀ c ∈ bytes code, Caseless c) :
    (execAt (replyPattern code) str).isSome = true ↔ BeginsWithReply code str := by
  have hend := caseless_of_all (bytes "\r\n") (by decide)
  rw [execAt_isSome_iff]
  unfold replyPattern BeginsWithReply
  simp only [reads_chain_cons, reads_chain_nil, reads_word code _ _ hc, reads_word _ _ _ hend,
    reads_replyText]
  constructor
  · intro h
    obtain ⟨t, r, rfl, _, _, rfl, rfl, text, _, rfl, htext, _, _, rfl, rfl, rfl⟩ := h
    exact ⟨text, r, htext, by simp⟩
  · intro h
    obtain ⟨text, rest, htext, rfl⟩ := h
    exact ⟨bytes code ++ (text ++ (bytes "\r\n" ++ [])), rest, by simp, _, _, rfl, rfl, text, _,
      rfl, htext, _, _, rfl, rfl, rfl⟩

/-- A buffer does not begin with two codes of the same length. -/
theorem beginsWithReply_unique (code code' : String) (str : Bytes)
    (hlen : (bytes code).length = (bytes code').length) (h : BeginsWithReply code str)
    (h' : BeginsWithReply code' str) : bytes code = bytes code' := by
  obtain ⟨text, rest, -, rfl⟩ := h
  obtain ⟨text', rest', -, heq⟩ := h'
  simp only [List.append_assoc] at heq
  exact (List.append_inj heq hlen).1

/-- The codes of the four replies that the client knows. -/
def replyCode : FsmEvent → Option (SmtpReName × String)
  | .r220 => some (.r220, "220")
  | .r221 => some (.r221, "221")
  | .r250 => some (.r250, "250")
  | .r354 => some (.r354, "354")
  | _ => none

theorem reMatch_reply (evt : FsmEvent) (name : SmtpReName) (code : String) (str : Bytes)
    (h : replyCode evt = some (name, code)) :
    reMatch name str = true ↔ BeginsWithReply code str := by
  have hcode : (patterns name) = (true, replyPattern code) ∧ ∀ c ∈ bytes code, Caseless c := by
    cases evt <;> cases h <;> exact ⟨rfl, caseless_of_all _ (by decide)⟩
  unfold reMatch pcreExec
  rw [hcode.1]
  exact execAt_replyPattern code str hcode.2

theorem replyCode_length (evt : FsmEvent) (name : SmtpReName) (code : String)
    (h : replyCode evt = some (name, code)) : (bytes code).length = 3 := by
  unfold bytes
  rw [List.length_map]
  cases evt <;> cases h <;> rfl

/-- At most one of the four reply patterns matches a buffer. -/
theorem reMatch_reply_unique (e e' : FsmEvent) (n n' : SmtpReName) (c c' : String) (str : Bytes)
    (h : replyCode e = some (n, c)) (h' : replyCode e' = some (n', c'))
    (hm : reMatch n str = true) (hne : bytes c ≠ bytes c') : reMatch n' str = false := by
  have hlen : (bytes c).length = (bytes c').length :=
    (replyCode_length e n c h).trans (replyCode_length e' n' c' h').symm
  by_contra hm'
  rw [Bool.not_eq_false] at hm'
  have hbegins := (reMatch_reply e n c str h).mp hm
  have hbegins' := (reMatch_reply e' n' c' str h').mp hm'
  exact hne (beginsWithReply_unique c c' str hlen hbegins hbegins')

/-- A buffer raises the event of a code exactly when it begins with a complete
reply line of that code. -/
theorem replyEvent_iff (evt : FsmEvent) (name : SmtpReName) (code : String) (str : Bytes)
    (h : replyCode evt = some (name, code)) :
    replyEvent str = evt ↔ BeginsWithReply code str := by
  rw [← reMatch_reply evt name code str h]
  constructor
  · intro heq
    have hany : reMatchAny str = some name := by
      unfold replyEvent at heq
      split at heq
      all_goals
        subst heq
        cases h
      all_goals assumption
    exact List.find?_some (p := fun n => reMatch n str) hany
  · intro hm
    have hany : reMatchAny str = some name := by
      have hother : ∀ e n c, replyCode e = some (n, c) → bytes code ≠ bytes c →
          reMatch n str = false := by
        intro e n c hc hne
        exact reMatch_reply_unique evt e name n code c str h hc hm hne
      unfold reMatchAny smtpReNames
      cases evt with
      | r220 =>
        cases h
        simp [hm]
      | r221 =>
        cases h
        have h220 := hother .r220 .r220 "220" rfl (by decide)
        simp [h220, hm]
      | r250 =>
        cases h
        have h220 := hother .r220 .r220 "220" rfl (by decide)
        have h221 := hother .r221 .r221 "221" rfl (by decide)
        simp [h220, h221, hm]
      | r354 =>
        cases h
        have h220 := hother .r220 .r220 "220" rfl (by decide)
        have h221 := hother .r221 .r221 "221" rfl (by decide)
        have h250 := hother .r250 .r250 "250" rfl (by decide)
        simp [h220, h221, h250, hm]
      | noRcpt => cases h
      | noMail => cases h
      | timeout => cases h
      | invalid => cases h
    unfold replyEvent
    rw [hany]
    cases evt <;> cases h <;> rfl

end SmtpClient.ReplyLines
