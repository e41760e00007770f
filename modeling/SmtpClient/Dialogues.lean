import Mathlib.Data.List.Basic

/-!
Scripted dialogues. The speaker of a script waits for the reply of its next
round, then says the command of that round; behind the last round it waits for
a closing reply. A wrong reply aborts the dialogue. The turns record what was
heard and said, in order. Nothing here is specific to one protocol.
-/
namespace SmtpClient.Dialogues

variable {ρ κ : Type*}

/-- Wait for the reply, then say the command. -/
structure Round (ρ κ : Type*) where
  reply : ρ
  command : κ
deriving DecidableEq

inductive Turn (ρ κ : Type*)
  | heard (r : ρ)
  | said (c : κ)
deriving DecidableEq

inductive Phase (ρ κ : Type*)
  | live (rest : List (Round ρ κ))
  | finished
  | aborted
deriving DecidableEq

/-- The turns of completed rounds. -/
def turns (done : List (Round ρ κ)) : List (Turn ρ κ) :=
  done.flatMap fun x => [.heard x.reply, .said x.command]

def saidOf (t : List (Turn ρ κ)) : List κ :=
  t.filterMap fun | .heard _ => none | .said c => some c

def heardOf (t : List (Turn ρ κ)) : List ρ :=
  t.filterMap fun | .heard r => some r | .said _ => none

/-- The reply that the speaker of the remaining rounds waits for. -/
def awaited (close : ρ) : List (Round ρ κ) → ρ
  | [] => close
  | x :: _ => x.reply

section Hear

variable [DecidableEq ρ]

/-- One reply: the next phase and what is said in answer. -/
def Phase.hear (close r : ρ) : Phase ρ κ → Phase ρ κ × List κ
  | .live [] => if r = close then (.finished, []) else (.aborted, [])
  | .live (x :: rest) => if r = x.reply then (.live rest, [x.command]) else (.aborted, [])
  | .finished => (.finished, [])
  | .aborted => (.aborted, [])

/-- Feed replies until the dialogue is over. -/
def talk (close : ρ) : Phase ρ κ → List ρ → Phase ρ κ × List (Turn ρ κ)
  | .live rest, r :: rs =>
      let (φ, cs) := (Phase.live rest).hear close r
      let (ψ, t) := talk close φ rs
      (ψ, .heard r :: cs.map .said ++ t)
  | φ, _ => (φ, [])

end Hear

@[simp] theorem turns_nil : turns ([] : List (Round ρ κ)) = [] := rfl

@[simp] theorem turns_cons (x : Round ρ κ) (done : List (Round ρ κ)) :
    turns (x :: done) = .heard x.reply :: .said x.command :: turns done := rfl

@[simp] theorem turns_append (a b : List (Round ρ κ)) : turns (a ++ b) = turns a ++ turns b :=
  List.flatMap_append

@[simp] theorem saidOf_nil : saidOf ([] : List (Turn ρ κ)) = [] := rfl

@[simp] theorem saidOf_append (s t : List (Turn ρ κ)) :
    saidOf (s ++ t) = saidOf s ++ saidOf t := List.filterMap_append

@[simp] theorem saidOf_heard (r : ρ) (t : List (Turn ρ κ)) :
    saidOf (.heard r :: t) = saidOf t := rfl

@[simp] theorem saidOf_said (c : κ) (t : List (Turn ρ κ)) :
    saidOf (.said c :: t) = c :: saidOf t := rfl

@[simp] theorem saidOf_turns (done : List (Round ρ κ)) :
    saidOf (turns done) = done.map Round.command := by
  induction done with
  | nil => rfl
  | cons x done ih => simp [ih]

@[simp] theorem saidOf_map_said (cs : List κ) :
    saidOf (cs.map (Turn.said : κ → Turn ρ κ)) = cs := by
  induction cs with
  | nil => rfl
  | cons c cs ih => simp [ih]

@[simp] theorem heardOf_nil : heardOf ([] : List (Turn ρ κ)) = [] := rfl

@[simp] theorem heardOf_append (s t : List (Turn ρ κ)) :
    heardOf (s ++ t) = heardOf s ++ heardOf t := List.filterMap_append

@[simp] theorem heardOf_heard (r : ρ) (t : List (Turn ρ κ)) :
    heardOf (.heard r :: t) = r :: heardOf t := rfl

@[simp] theorem heardOf_said (c : κ) (t : List (Turn ρ κ)) :
    heardOf (.said c :: t) = heardOf t := rfl

@[simp] theorem heardOf_turns (done : List (Round ρ κ)) :
    heardOf (turns done) = done.map Round.reply := by
  induction done with
  | nil => rfl
  | cons x done ih => simp [ih]

@[simp] theorem heardOf_map_said (cs : List κ) :
    heardOf (cs.map (Turn.said : κ → Turn ρ κ)) = [] := by
  induction cs with
  | nil => rfl
  | cons c cs ih => simp [ih]

theorem hear_of_ne_awaited [DecidableEq ρ] (close r : ρ) (rest : List (Round ρ κ))
    (h : r ≠ awaited close rest) : (Phase.live rest).hear close r = (.aborted, []) := by
  cases rest with
  | nil => exact if_neg h
  | cons x rest => exact if_neg h

@[simp] theorem hear_reply [DecidableEq ρ] (close : ρ) (x : Round ρ κ)
    (rest : List (Round ρ κ)) :
    (Phase.live (x :: rest)).hear close x.reply = (.live rest, [x.command]) := if_pos rfl

/-- The answer that ends a dialogue says nothing. -/
theorem hear_over_says_nothing [DecidableEq ρ] (close r : ρ) (rest : List (Round ρ κ))
    (h : ((Phase.live rest).hear close r).1 = .finished ∨
      ((Phase.live rest).hear close r).1 = .aborted) :
    ((Phase.live rest).hear close r).2 = [] := by
  cases rest with
  | nil => by_cases hr : r = close <;> simp [Phase.hear, hr]
  | cons x rest =>
    by_cases hr : r = x.reply
    · subst hr
      rw [hear_reply] at h
      rcases h with h | h <;> cases h
    · rw [hear_of_ne_awaited close r (x :: rest) hr]

/-- What a record of turns may look like in each phase. An aborted dialogue has
at most one further reply behind its completed rounds. -/
def Conforms (close : ρ) (script : List (Round ρ κ)) (t : List (Turn ρ κ)) :
    Phase ρ κ → Prop
  | .live rest => ∃ done, script = done ++ rest ∧ t = turns done
  | .finished => t = turns script ++ [.heard close]
  | .aborted => ∃ done rest, script = done ++ rest ∧
      (t = turns done ∨ ∃ r, t = turns done ++ [.heard r])

theorem conforms_start (close : ρ) (script : List (Round ρ κ)) :
    Conforms close script [] (.live script) := ⟨[], rfl, rfl⟩

/-- A dialogue can be given up in every phase. -/
theorem conforms_abort (close : ρ) (script : List (Round ρ κ)) (t : List (Turn ρ κ))
    (φ : Phase ρ κ) (h : Conforms close script t φ) : Conforms close script t .aborted := by
  cases φ with
  | live rest =>
    obtain ⟨done, hscript, ht⟩ := h
    exact ⟨done, rest, hscript, Or.inl ht⟩
  | finished => exact ⟨script, [], (List.append_nil _).symm, Or.inr ⟨close, h⟩⟩
  | aborted => exact h

theorem conforms_hear [DecidableEq ρ] (close r : ρ) (script rest : List (Round ρ κ))
    (t : List (Turn ρ κ)) (h : Conforms close script t (.live rest)) :
    Conforms close script (t ++ .heard r :: ((Phase.live rest).hear close r).2.map .said)
      ((Phase.live rest).hear close r).1 := by
  obtain ⟨done, hscript, ht⟩ := h
  cases rest with
  | nil =>
    by_cases hr : r = close
    · simp [Phase.hear, hr, Conforms, hscript, ht]
    · simp only [Phase.hear, if_neg hr, List.map_nil]
      exact ⟨done, [], hscript, Or.inr ⟨r, by rw [ht]⟩⟩
  | cons x rest =>
    by_cases hr : r = x.reply
    · simp only [Phase.hear, if_pos hr, List.map_cons, List.map_nil]
      refine ⟨done ++ [x], by simp [hscript], ?_⟩
      rw [ht, hr, turns_append, turns_cons, turns_nil]
    · simp only [Phase.hear, if_neg hr, List.map_nil]
      exact ⟨done, x :: rest, hscript, Or.inr ⟨r, by rw [ht]⟩⟩

/-- In every phase the turns are completed rounds and at most one more reply. -/
theorem Conforms.shape {close : ρ} {script : List (Round ρ κ)} {t : List (Turn ρ κ)}
    {φ : Phase ρ κ} (h : Conforms close script t φ) :
    ∃ done rest, script = done ++ rest ∧
      (t = turns done ∨ ∃ r, t = turns done ++ [.heard r]) :=
  conforms_abort close script t φ h

theorem Conforms.saidOf_prefix {close : ρ} {script : List (Round ρ κ)}
    {t : List (Turn ρ κ)} {φ : Phase ρ κ} (h : Conforms close script t φ) :
    saidOf t <+: script.map Round.command := by
  obtain ⟨done, rest, rfl, rfl | ⟨r, rfl⟩⟩ := h.shape
  · simp
  · simp

theorem Conforms.saidOf_finished {close : ρ} {script : List (Round ρ κ)}
    {t : List (Turn ρ κ)} (h : Conforms close script t .finished) :
    saidOf t = script.map Round.command := by
  have ht : t = turns script ++ [.heard close] := h
  simp [ht]

/-- While the dialogue goes on, one reply was heard for each completed round. -/
theorem Conforms.heardOf_live {close : ρ} {script rest : List (Round ρ κ)}
    {t : List (Turn ρ κ)} (h : Conforms close script t (.live rest)) :
    (heardOf t).length + rest.length = script.length := by
  obtain ⟨done, rfl, rfl⟩ := h
  simp

/-- The outcome of feeding replies: the script is still under way, or it was
heard to its end, or the last reply was not the awaited one. -/
theorem talk_cases [DecidableEq ρ] (close : ρ) (script : List (Round ρ κ)) (rs : List ρ) :
    (∃ done rest, script = done ++ rest ∧
      talk close (.live script) rs = (.live rest, turns done) ∧
      rs = done.map Round.reply) ∨
    talk close (.live script) rs = (.finished, turns script ++ [.heard close]) ∨
    (∃ done rest r, script = done ++ rest ∧ r ≠ awaited close rest ∧
      talk close (.live script) rs = (.aborted, turns done ++ [.heard r])) := by
  induction rs generalizing script with
  | nil => exact Or.inl ⟨[], script, rfl, rfl, rfl⟩
  | cons r rs ih =>
    cases script with
    | nil =>
      by_cases hr : r = close
      · refine Or.inr (Or.inl ?_)
        simp [talk, Phase.hear, hr]
      · refine Or.inr (Or.inr ⟨[], [], r, rfl, hr, ?_⟩)
        simp [talk, Phase.hear, hr]
    | cons x rest =>
      by_cases hr : r = x.reply
      · have htalk : talk close (.live (x :: rest)) (r :: rs) =
            ((talk close (.live rest) rs).1,
              .heard r :: .said x.command :: (talk close (.live rest) rs).2) := by
          simp [talk, Phase.hear, hr]
        rw [htalk, hr]
        rcases ih rest with ⟨done, rem, hs, ht, hrs⟩ | ht | ⟨done, rem, bad, hs, hbad, ht⟩
        · exact Or.inl ⟨x :: done, rem, by simp [hs], by simp [ht], by simp [hrs]⟩
        · exact Or.inr (Or.inl (by simp [ht]))
        · exact Or.inr (Or.inr ⟨x :: done, rem, bad, by simp [hs], hbad, by simp [ht]⟩)
      · refine Or.inr (Or.inr ⟨[], x :: rest, r, rfl, hr, ?_⟩)
        simp [talk, Phase.hear, hr]

theorem talk_said_prefix [DecidableEq ρ] (close : ρ) (script : List (Round ρ κ))
    (rs : List ρ) :
    saidOf (talk close (.live script) rs).2 <+: script.map Round.command := by
  rcases talk_cases close script rs with ⟨done, rest, hs, ht, -⟩ | ht | ⟨done, rest, r, hs, -, ht⟩
  · rw [ht, hs]
    simp
  · simp [ht]
  · rw [ht, hs]
    simp

/-- Command n is said exactly when the replies of rounds 0 to n were heard. -/
theorem talk_said_iff [DecidableEq ρ] (close : ρ) (script : List (Round ρ κ)) (rs : List ρ)
    (n : ℕ) (hn : n < script.length) :
    n < (saidOf (talk close (.live script) rs).2).length ↔
      (script.take (n + 1)).map Round.reply <+: rs := by
  induction script generalizing rs n with
  | nil => exact absurd hn (Nat.not_lt_zero n)
  | cons x script ih =>
    cases rs with
    | nil => simp [talk]
    | cons r rs =>
      by_cases hr : r = x.reply
      · have htalk : saidOf (talk close (.live (x :: script)) (r :: rs)).2 =
            x.command :: saidOf (talk close (.live script) rs).2 := by
          simp [talk, Phase.hear, hr]
        rw [htalk, hr, List.take_succ_cons, List.map_cons, List.cons_prefix_cons,
          List.length_cons]
        cases n with
        | zero => simp
        | succ n =>
          have hlen : n < script.length := Nat.lt_of_succ_lt_succ hn
          rw [Nat.succ_lt_succ_iff, ih rs n hlen]
          simp
      · have hne : x.reply ≠ r := Ne.symm hr
        simp [talk, Phase.hear, hr, hne]

/-- The dialogue finishes exactly on inputs that begin with the replies of the
script and the closing reply. -/
theorem talk_finished_iff [DecidableEq ρ] (close : ρ) (script : List (Round ρ κ))
    (rs : List ρ) :
    (talk close (.live script) rs).1 = .finished ↔
      script.map Round.reply ++ [close] <+: rs := by
  induction script generalizing rs with
  | nil =>
    cases rs with
    | nil => simp [talk]
    | cons r rs =>
      by_cases hr : r = close
      · simp [talk, Phase.hear, hr]
      · have hne : close ≠ r := Ne.symm hr
        simp [talk, Phase.hear, hr, hne]
  | cons x script ih =>
    cases rs with
    | nil => simp [talk]
    | cons r rs =>
      by_cases hr : r = x.reply
      · have htalk : (talk close (.live (x :: script)) (r :: rs)).1 =
            (talk close (.live script) rs).1 := by
          simp [talk, Phase.hear, hr]
        rw [htalk, ih, hr, List.map_cons, List.cons_append, List.cons_prefix_cons]
        simp
      · have hne : x.reply ≠ r := Ne.symm hr
        simp [talk, Phase.hear, hr, hne]

/-- The awaited reply never breaks a dialogue off. -/
theorem hear_awaited_ne_aborted [DecidableEq ρ] (close : ρ) (rest : List (Round ρ κ)) :
    ((Phase.live rest).hear close (awaited close rest)).1 ≠ .aborted := by
  cases rest with
  | nil => simp [Phase.hear, awaited]
  | cons x rest => simp [awaited]

section Answers

variable (answer : κ → ρ) (close : ρ)

/-- A partner that speaks first and then answers each command says what the script
waits for. -/
def AnsweredBy : ρ → List (Round ρ κ) → Prop
  | said, [] => said = close
  | said, x :: rest => x.reply = said ∧ AnsweredBy (answer x.command) rest

variable {answer close} {said : ρ} {a b : List (Round ρ κ)}

theorem AnsweredBy.append {next : ρ} (ha : AnsweredBy answer next said a)
    (hb : AnsweredBy answer close next b) : AnsweredBy answer close said (a ++ b) := by
  induction a generalizing said with
  | nil =>
    obtain rfl := ha
    exact hb
  | cons x a ih => exact ⟨ha.1, ih ha.2⟩

/-- Behind some rounds the last answer is the one that is awaited. -/
theorem AnsweredBy.getElem?_eq_awaited (h : AnsweredBy answer close said (a ++ b)) :
    (said :: a.map fun x => answer x.command)[a.length]? = some (awaited close b) := by
  induction a generalizing said with
  | nil =>
    cases b with
    | nil => exact congrArg some h
    | cons x b => exact congrArg some h.1.symm
  | cons x a ih => exact ih h.2

theorem Conforms.answer_eq_awaited {script : List (Round ρ κ)} {t : List (Turn ρ κ)}
    (h : Conforms close script t (.live b)) (hscript : AnsweredBy answer close said script) :
    (said :: (saidOf t).map answer)[(heardOf t).length]? = some (awaited close b) := by
  obtain ⟨done, rfl, rfl⟩ := h
  have hlast := hscript.getElem?_eq_awaited
  rw [heardOf_turns, saidOf_turns, List.length_map, List.map_map]
  exact hlast

/-- In a finished dialogue every command was followed by its answer. -/
theorem Conforms.answered {script : List (Round ρ κ)} {t : List (Turn ρ κ)} {x : Round ρ κ}
    (h : Conforms close script t .finished) (hscript : AnsweredBy answer close said script)
    (hsplit : script = a ++ x :: b) :
    turns (a ++ [x]) ++ [.heard (answer x.command)] <+: t := by
  have ht : t = turns script ++ [.heard close] := h
  have hlast : answer x.command = awaited close b := by
    rw [hsplit, ← List.singleton_append, ← List.append_assoc] at hscript
    have hget := hscript.getElem?_eq_awaited
    simpa using hget
  rw [ht, hsplit, hlast]
  cases b with
  | nil => exact List.prefix_rfl
  | cons y b => exact ⟨.said y.command :: turns b ++ [.heard close], by simp [awaited]⟩

end Answers

end SmtpClient.Dialogues
