import SmtpClient.SessionScript
import Mathlib.Data.List.Induction

/-!
The order of a script. A session names the recipients of one mail between its
MAIL FROM line and its DATA command, every recipient of the domain once and no
other one, and it sends the text of a queued mail only.
-/
namespace SmtpClient.ScriptOrder

open MailTypes Queues SendCommands Dialogues SessionScript

/-- The commands of a script in order. -/
def scriptCommands (mails : List Mail) (d : Domain) : List Sent :=
  (sessionScript mails d).map Round.command

def mailCommands (d : Domain) (x : Mail × ℕ) : List Sent :=
  (mailRounds d x).map Round.command

variable (mails : List Mail) (d : Domain)

theorem scriptCommands_eq : scriptCommands mails d =
    ⟨.helo, msgHelo⟩ :: ((mailsFrom d mails 0).flatMap (mailCommands d) ++ [⟨.quit, msgQuit⟩]) := by
  unfold scriptCommands sessionScript queueRounds
  rw [List.map_cons, List.map_append, List.map_flatMap]
  rfl

theorem mailCommands_eq (m : Mail) (i : ℕ) : mailCommands d (m, i) =
    ⟨.mailfrom i, m.fromLine⟩ ::
      ((rcptsFrom d m 0).map (fun x => ⟨.rcptto i x.2, msgRcptto x.1.name⟩) ++
        [⟨.data, msgData⟩, ⟨.datastr i, m.msg⟩]) := by
  unfold mailCommands mailRounds bodyRounds
  rw [List.map_cons, List.map_append, List.map_map]
  rfl

theorem mem_mailsFrom_zero (m : Mail) (i : ℕ) :
    (m, i) ∈ mailsFrom d mails 0 ↔ mails[i]? = some m ∧ mailHasRcptsFromDomain m d = true := by
  rw [mailsFrom_eq, mem_pending]
  simp

theorem mem_rcptsFrom_zero (m : Mail) (r : Rcpt) (j : ℕ) :
    (r, j) ∈ rcptsFrom d m 0 ↔ m.rcpts[j]? = some r ∧ r.domain = d.name := by
  rw [rcptsFrom, mem_pending]
  simp

/-- A command of a script other than HELO and QUIT belongs to a mail. -/
theorem mem_scriptCommands (x : Sent) (h : x ∈ scriptCommands mails d) :
    x = ⟨.helo, msgHelo⟩ ∨ x = ⟨.quit, msgQuit⟩ ∨
      ∃ m i, (m, i) ∈ mailsFrom d mails 0 ∧ x ∈ mailCommands d (m, i) := by
  rw [scriptCommands_eq, List.mem_cons, List.mem_append, List.mem_flatMap] at h
  rcases h with h | ⟨⟨m, i⟩, hm, hx⟩ | h
  · exact Or.inl h
  · exact Or.inr (Or.inr ⟨m, i, hm, hx⟩)
  · exact Or.inr (Or.inl (List.mem_singleton.mp h))

theorem mem_mailCommands (m : Mail) (i : ℕ) (x : Sent) (h : x ∈ mailCommands d (m, i)) :
    x = ⟨.mailfrom i, m.fromLine⟩ ∨
      (∃ r j, (r, j) ∈ rcptsFrom d m 0 ∧ x = ⟨.rcptto i j, msgRcptto r.name⟩) ∨
      x = ⟨.data, msgData⟩ ∨ x = ⟨.datastr i, m.msg⟩ := by
  rw [mailCommands_eq, List.mem_cons, List.mem_append, List.mem_map] at h
  rcases h with h | ⟨⟨r, j⟩, hr, hx⟩ | h
  · exact Or.inl h
  · exact Or.inr (Or.inl ⟨r, j, hr, hx.symm⟩)
  · refine Or.inr (Or.inr ?_)
    simpa using h

/-- The text of a mail is sent for a domain of one of its recipients. -/
theorem mem_scriptCommands_datastr (i : ℕ) (text : Bytes)
    (h : ⟨.datastr i, text⟩ ∈ scriptCommands mails d) :
    ∃ m, mails[i]? = some m ∧ mailHasRcptsFromDomain m d = true ∧ text = m.msg := by
  rcases mem_scriptCommands mails d _ h with h | h | ⟨m, k, hm, hx⟩
  · cases h
  · cases h
  · rcases mem_mailCommands d m k _ hx with hx | ⟨r, j, -, hx⟩ | hx | hx
    · cases hx
    · cases hx
    · cases hx
    · obtain ⟨hcmd, rfl⟩ := Sent.mk.inj hx
      obtain rfl := Command.datastr.inj hcmd
      obtain ⟨hget, hwant⟩ := (mem_mailsFrom_zero mails d m _).mp hm
      exact ⟨m, hget, hwant, rfl⟩

/-- The recipient commands of a script, with their texts. -/
theorem mem_scriptCommands_rcptto_iff (i j : ℕ) (text : Bytes) :
    ⟨.rcptto i j, text⟩ ∈ scriptCommands mails d ↔
      ∃ m r, mails[i]? = some m ∧ m.rcpts[j]? = some r ∧ r.domain = d.name ∧
        text = msgRcptto r.name := by
  constructor
  · intro h
    rcases mem_scriptCommands mails d _ h with h | h | ⟨m, k, hm, hx⟩
    · cases h
    · cases h
    · rcases mem_mailCommands d m k _ hx with hx | ⟨r, l, hr, hx⟩ | hx | hx
      · cases hx
      · obtain ⟨hcmd, rfl⟩ := Sent.mk.inj hx
        obtain ⟨rfl, rfl⟩ := Command.rcptto.inj hcmd
        obtain ⟨hget, hdom⟩ := (mem_rcptsFrom_zero d m r _).mp hr
        exact ⟨m, r, ((mem_mailsFrom_zero mails d m _).mp hm).1, hget, hdom, rfl⟩
      · cases hx
      · cases hx
  · intro h
    obtain ⟨m, r, hm, hr, hdom, rfl⟩ := h
    have hwant : mailHasRcptsFromDomain m d = true :=
      (mailHasRcptsFromDomain_iff m d).mpr ⟨r, List.mem_of_getElem? hr, hdom⟩
    have hmail := (mem_mailsFrom_zero mails d m i).mpr ⟨hm, hwant⟩
    have hrcpt := (mem_rcptsFrom_zero d m r j).mpr ⟨hr, hdom⟩
    rw [scriptCommands_eq, List.mem_cons, List.mem_append, List.mem_flatMap]
    refine Or.inr (Or.inl ⟨(m, i), hmail, ?_⟩)
    rw [mailCommands_eq, List.mem_cons, List.mem_append]
    exact Or.inr (Or.inl (List.mem_map.mpr ⟨(r, j), hrcpt, rfl⟩))

/-- The recipients that some commands name, by mail and place. -/
def rcptsNamed (cs : List Sent) : List (ℕ × ℕ) :=
  cs.filterMap fun x => match x.command with
    | .rcptto i j => some (i, j)
    | _ => none

theorem rcptsNamed_append (a b : List Sent) :
    rcptsNamed (a ++ b) = rcptsNamed a ++ rcptsNamed b := List.filterMap_append

theorem rcptsNamed_mailCommands (m : Mail) (i : ℕ) :
    rcptsNamed (mailCommands d (m, i)) = (rcptsFrom d m 0).map fun x => (i, x.2) := by
  rw [mailCommands_eq]
  simp [rcptsNamed, List.filterMap_map]

theorem rcptsNamed_scriptCommands : rcptsNamed (scriptCommands mails d) =
    (mailsFrom d mails 0).flatMap fun x => (rcptsFrom d x.1 0).map fun y => (x.2, y.2) := by
  have hmail : ∀ x : Mail × ℕ, (mailCommands d x).filterMap (fun x => match x.command with
      | .rcptto i j => some (i, j)
      | _ => none) = (rcptsFrom d x.1 0).map fun y => (x.2, y.2) :=
    fun x => rcptsNamed_mailCommands d x.1 x.2
  rw [scriptCommands_eq]
  unfold rcptsNamed
  rw [List.filterMap_cons, List.filterMap_append, List.filterMap_flatMap]
  simp [hmail]

theorem mem_rcptsNamed (cs : List Sent) (i j : ℕ) :
    (i, j) ∈ rcptsNamed cs ↔ ∃ text, ⟨.rcptto i j, text⟩ ∈ cs := by
  unfold rcptsNamed
  rw [List.mem_filterMap]
  constructor
  · intro h
    obtain ⟨⟨command, text⟩, hmem, hname⟩ := h
    cases command with
    | rcptto k l =>
      obtain ⟨rfl, rfl⟩ := Prod.mk.inj (Option.some.inj hname)
      exact ⟨text, hmem⟩
    | helo | mailfrom k | data | datastr k | quit => cases hname
  · intro h
    obtain ⟨text, hmem⟩ := h
    exact ⟨_, hmem, rfl⟩

/-- A script names exactly the recipients of its domain. -/
theorem mem_rcptsNamed_scriptCommands (i j : ℕ) :
    (i, j) ∈ rcptsNamed (scriptCommands mails d) ↔
      ∃ m r, mails[i]? = some m ∧ m.rcpts[j]? = some r ∧ r.domain = d.name := by
  rw [mem_rcptsNamed]
  simp only [mem_scriptCommands_rcptto_iff]
  constructor
  · intro h
    obtain ⟨text, m, r, hm, hr, hdom, -⟩ := h
    exact ⟨m, r, hm, hr, hdom⟩
  · intro h
    obtain ⟨m, r, hm, hr, hdom⟩ := h
    exact ⟨_, m, r, hm, hr, hdom, rfl⟩

/-- A script names no recipient twice. -/
theorem nodup_rcptsNamed_scriptCommands : (rcptsNamed (scriptCommands mails d)).Nodup := by
  rw [rcptsNamed_scriptCommands, List.nodup_flatMap]
  constructor
  · intro x _
    rw [List.Nodup, List.pairwise_map]
    refine (pending_increasing _ x.1.rcpts 0).imp ?_
    intro a b hlt heq
    exact Nat.ne_of_lt hlt (Prod.mk.inj heq).2
  · refine (pending_increasing _ mails 0).imp ?_
    intro x y hlt
    change List.Disjoint _ _
    intro z hx hy
    obtain ⟨a, -, rfl⟩ := List.mem_map.mp hx
    obtain ⟨b, -, heq⟩ := List.mem_map.mp hy
    exact Nat.ne_of_gt hlt (Prod.mk.inj heq).1

/-- An element of a concatenation stands inside one of the parts. -/
theorem flatMap_eq_append_cons {α β : Type*} (f : α → List β) (l : List α) (a b : List β) (x : β)
    (h : l.flatMap f = a ++ x :: b) :
    ∃ l₁ y l₂ c e, l = l₁ ++ y :: l₂ ∧ f y = c ++ x :: e ∧ a = l₁.flatMap f ++ c := by
  induction l generalizing a with
  | nil => simp at h
  | cons y l ih =>
    rw [List.flatMap_cons, List.append_eq_append_iff] at h
    rcases h with ⟨c, rfl, hrest⟩ | ⟨c, hy, hrest⟩
    · obtain ⟨l₁, z, l₂, c', e, rfl, hz, rfl⟩ := ih c hrest
      exact ⟨y :: l₁, z, l₂, c', e, rfl, hz, by simp⟩
    · cases c with
      | nil =>
        rw [List.append_nil] at hy
        rw [List.nil_append] at hrest
        obtain ⟨l₁, z, l₂, c', e, rfl, hz, hnil⟩ := ih [] hrest.symm
        exact ⟨y :: l₁, z, l₂, c', e, rfl, hz, by simp [hy, ← hnil]⟩
      | cons z c =>
        obtain ⟨rfl, rfl⟩ := List.cons.inj hrest
        exact ⟨[], y, l, a, c, rfl, hy, rfl⟩

/-- An element that is not the last one stands before it. -/
theorem concat_eq_append_cons {α : Type*} (l a b : List α) (x y : α)
    (h : l ++ [y] = a ++ x :: b) (hne : x ≠ y) : ∃ b', l = a ++ x :: b' := by
  induction b using List.reverseRecOn with
  | nil =>
    have hlast := (List.append_inj' h rfl).2
    exact absurd (List.cons.inj hlast).1.symm hne
  | append_singleton b z _ =>
    have h : l ++ [y] = (a ++ x :: b) ++ [z] := by simpa using h
    exact ⟨b, (List.append_inj' h rfl).1⟩

/-- Inside the commands of a mail, only its MAIL FROM line and recipients stand
before a recipient. -/
theorem mailCommands_before_rcptto (m : Mail) (k i j : ℕ) (text : Bytes) (c e : List Sent)
    (h : mailCommands d (m, k) = c ++ ⟨.rcptto i j, text⟩ :: e) :
    k = i ∧ (∃ r, (r, j) ∈ rcptsFrom d m 0 ∧ text = msgRcptto r.name) ∧
      ∃ a₂, c = ⟨.mailfrom i, m.fromLine⟩ :: a₂ ∧ ∀ x ∈ a₂, ∃ l, x.command = .rcptto i l := by
  rw [mailCommands_eq] at h
  cases c with
  | nil => cases h
  | cons z c =>
    rw [List.cons_append] at h
    obtain ⟨rfl, htail⟩ := List.cons.inj h
    have hsplit : (rcptsFrom d m 0).map (fun x => (⟨.rcptto k x.2, msgRcptto x.1.name⟩ : Sent)) ++
        [⟨.data, msgData⟩] ++ [⟨.datastr k, m.msg⟩] = c ++ ⟨.rcptto i j, text⟩ :: e := by
      rw [← htail, List.append_assoc]
      rfl
    have hdatastr : (⟨.rcptto i j, text⟩ : Sent) ≠ ⟨.datastr k, m.msg⟩ := by
      intro heq
      cases heq
    have hdata : (⟨.rcptto i j, text⟩ : Sent) ≠ ⟨.data, msgData⟩ := by
      intro heq
      cases heq
    obtain ⟨e, hsplit⟩ := concat_eq_append_cons _ c e _ _ hsplit hdatastr
    obtain ⟨e, hsplit⟩ := concat_eq_append_cons _ c e _ _ hsplit hdata
    obtain ⟨r₁, r₂, hr, rfl, hr₂⟩ := List.map_eq_append_iff.mp hsplit
    obtain ⟨⟨r, l⟩, r₃, rfl, hx, -⟩ := List.map_eq_cons_iff.mp hr₂
    obtain ⟨hcmd, rfl⟩ := Sent.mk.inj hx
    obtain ⟨rfl, rfl⟩ := Command.rcptto.inj hcmd
    refine ⟨rfl, ⟨r, ?_, rfl⟩, _, rfl, ?_⟩
    · rw [hr]
      exact List.mem_append_right r₁ List.mem_cons_self
    · intro x hx
      obtain ⟨y, -, rfl⟩ := List.mem_map.mp hx
      exact ⟨y.2, rfl⟩

/-- The commands of earlier mails are about other mails. -/
theorem mailCommands_ne (m : Mail) (k i : ℕ) (x : Sent) (hx : x ∈ mailCommands d (m, k))
    (hne : k ≠ i) : x.command ≠ .mailfrom i ∧ x.command ≠ .datastr i := by
  rcases mem_mailCommands d m k x hx with rfl | ⟨r, j, -, rfl⟩ | rfl | rfl
  · simp [hne]
  · simp
  · simp
  · simp [hne]

/-- Before a recipient is named, MAIL FROM for its mail was sent, with nothing
but other recipients of that mail in between, and nothing for it before that. -/
theorem scriptCommands_before_rcptto (i j : ℕ) (text : Bytes) (a b : List Sent)
    (h : scriptCommands mails d = a ++ ⟨.rcptto i j, text⟩ :: b) :
    ∃ m r a₁ a₂, mails[i]? = some m ∧ m.rcpts[j]? = some r ∧ r.domain = d.name ∧
      text = msgRcptto r.name ∧ a = a₁ ++ ⟨.mailfrom i, m.fromLine⟩ :: a₂ ∧
      (∀ x ∈ a₂, ∃ k, x.command = .rcptto i k) ∧
      ∀ x ∈ a₁, x.command ≠ .mailfrom i ∧ x.command ≠ .datastr i := by
  rw [scriptCommands_eq] at h
  cases a with
  | nil => cases h
  | cons z a =>
    rw [List.cons_append] at h
    obtain ⟨rfl, htail⟩ := List.cons.inj h
    have hquit : (⟨.rcptto i j, text⟩ : Sent) ≠ ⟨.quit, msgQuit⟩ := by
      intro heq
      cases heq
    obtain ⟨b, hflat⟩ := concat_eq_append_cons _ a b _ _ htail hquit
    obtain ⟨l₁, ⟨m, k⟩, l₂, c, e, hmails, hmail, rfl⟩ := flatMap_eq_append_cons _ _ a b _ hflat
    obtain ⟨rfl, ⟨r, hr, rfl⟩, a₂, rfl, hrcpts⟩ :=
      mailCommands_before_rcptto d m k i j text c e hmail
    have hm : (m, k) ∈ mailsFrom d mails 0 := by
      rw [hmails]
      exact List.mem_append_right l₁ List.mem_cons_self
    obtain ⟨hget, hdom⟩ := (mem_rcptsFrom_zero d m r j).mp hr
    refine ⟨m, r, ⟨.helo, msgHelo⟩ :: l₁.flatMap (mailCommands d), a₂,
      ((mem_mailsFrom_zero mails d m k).mp hm).1, hget, hdom, rfl, rfl, hrcpts, ?_⟩
    intro x hx
    rcases List.mem_cons.mp hx with rfl | hx
    · simp
    · obtain ⟨⟨m', k'⟩, hmem, hx⟩ := List.mem_flatMap.mp hx
      have hpair : (mailsFrom d mails 0).Pairwise fun x y => x.2 < y.2 :=
        pending_increasing _ mails 0
      rw [hmails, List.pairwise_append] at hpair
      have hlt : k' < k := hpair.2.2 (m', k') hmem (m, k) List.mem_cons_self
      exact mailCommands_ne d m' k' k x hx (Nat.ne_of_lt hlt)

end SmtpClient.ScriptOrder
