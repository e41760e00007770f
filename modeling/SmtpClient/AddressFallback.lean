import SmtpClient.Choices
import SmtpClient.MxLookup

/-!
Which address of a host is taken. An attempt that poll waits for counts as
connected as soon as poll reports the socket, and a refused connection is
reported too. So the first established address is taken exactly when none that
is refused late stands in front of it. All other sockets are closed either way.
-/
namespace SmtpClient.AddressFallback

open MxLookup Choices

/-- The connection to the address is really there. -/
def AddrInfo.established (a : AddrInfo) : Bool :=
  decide (0 < a.sock) && (decide (a.outcome = .connected) || decide (a.outcome = .pendingConnected))

/-- connect_with_timeout succeeds. -/
def AddrInfo.taken (a : AddrInfo) : Bool :=
  decide (0 < a.sock) && decide ((connectWithTimeout a.sock a.outcome).1 ≠ 0)

/-- A successful call of socket returns a positive number that is not in use. -/
structure DistinctSockets (info : List AddrInfo) : Prop where
  sock_ne : ∀ a ∈ info, a.sock ≠ 0
  distinct : info.Pairwise fun a b => 0 < a.sock → a.sock ≠ b.sock

/-- The mode of a socket after some calls. It is blocking when it is created. -/
def blocking (sock : ℤ) (ops : List SockOp) : Bool :=
  ops.foldl (fun b op =>
    if op = .setNonblocking sock then false else if op = .setBlocking sock then true else b) true

/-- The socket of the first established address is returned, open and blocking, and
each other socket that was opened is closed once. -/
structure FallsBack (info : List AddrInfo) (r : ℤ × List SockOp) : Prop where
  result : r.1 = ((info.find? AddrInfo.established).map AddrInfo.sock).getD 0
  closed : ∀ sock, 0 < sock → .socket sock ∈ r.2 → sock ≠ r.1 → r.2.count (.close sock) = 1
  kept : r.1 ≠ 0 → .close r.1 ∉ r.2 ∧ blocking r.1 r.2 = true

/-- Every address whose connection is refused while poll waits for it stands behind
an established one. -/
def RefusedBehind (info : List AddrInfo) : Prop :=
  ∀ before a after, info = before ++ a :: after → 0 < a.sock → a.outcome = .pendingRefused →
    ∃ b ∈ before, AddrInfo.established b = true

/-- The calls for an address that is passed over. -/
def failedOps (a : AddrInfo) : List SockOp :=
  if a.sock < 0 then [.socket a.sock]
  else [.socket a.sock, .setNonblocking a.sock, .close a.sock]

/-- The calls for the address that is taken. -/
def takenOps (a : AddrInfo) : List SockOp :=
  [.socket a.sock, .setNonblocking a.sock, .setBlocking a.sock]

theorem taken_iff (a : AddrInfo) : AddrInfo.taken a = true ↔ 0 < a.sock ∧
    (a.outcome = .connected ∨ a.outcome = .pendingConnected ∨ a.outcome = .pendingRefused) := by
  unfold AddrInfo.taken connectWithTimeout ConnectOutcome.pollResult
  cases a.outcome <;> simp <;> omega

theorem established_iff (a : AddrInfo) : AddrInfo.established a = true ↔
    0 < a.sock ∧ (a.outcome = .connected ∨ a.outcome = .pendingConnected) := by
  unfold AddrInfo.established
  simp

theorem taken_of_established (a : AddrInfo) (h : AddrInfo.established a = true) :
    AddrInfo.taken a = true := by
  obtain ⟨hsock, h⟩ := (established_iff a).mp h
  refine (taken_iff a).mpr ⟨hsock, ?_⟩
  rcases h with h | h
  · exact Or.inl h
  · exact Or.inr (Or.inl h)

/-- A refused connection is all that is taken wrongly. -/
theorem shielded_iff (info : List AddrInfo) :
    Shielded AddrInfo.taken AddrInfo.established info ↔ RefusedBehind info := by
  constructor
  · intro h before a after hinfo hsock hrefused
    apply h before a after hinfo
    · exact (taken_iff a).mpr ⟨hsock, Or.inr (Or.inr hrefused)⟩
    · rw [← Bool.not_eq_true, established_iff, hrefused]
      simp
  · intro h before a after hinfo htaken hnot
    obtain ⟨hsock, houtcome⟩ := (taken_iff a).mp htaken
    rw [← Bool.not_eq_true, established_iff] at hnot
    apply h before a after hinfo hsock
    rcases houtcome with hc | hc | hc
    · exact absurd ⟨hsock, Or.inl hc⟩ hnot
    · exact absurd ⟨hsock, Or.inr hc⟩ hnot
    · exact hc

theorem connectToAny_taken (a : AddrInfo) (info : List AddrInfo) (h : AddrInfo.taken a = true) :
    connectToAnyWithTimeout (a :: info) = (a.sock, takenOps a) := by
  obtain ⟨hsock, houtcome⟩ := (taken_iff a).mp h
  have hconnect : connectWithTimeout a.sock a.outcome =
      (a.sock, [.setNonblocking a.sock, .setBlocking a.sock]) := by
    rcases houtcome with hc | hc | hc <;> rw [hc] <;> rfl
  rw [connectToAnyWithTimeout, if_neg (by omega)]
  simp only [hconnect]
  rw [if_neg (by omega)]
  rfl

theorem connectToAny_failed (a : AddrInfo) (info : List AddrInfo) (hne : a.sock ≠ 0)
    (h : AddrInfo.taken a = false) :
    connectToAnyWithTimeout (a :: info) =
      ((connectToAnyWithTimeout info).1, failedOps a ++ (connectToAnyWithTimeout info).2) := by
  rw [connectToAnyWithTimeout, failedOps]
  by_cases hsock : a.sock < 0
  · rw [if_pos hsock, if_pos hsock]
  · have hconnect : connectWithTimeout a.sock a.outcome = (0, [.setNonblocking a.sock]) := by
      rw [← Bool.not_eq_true, taken_iff] at h
      have hpos : 0 < a.sock := by omega
      cases hc : a.outcome with
      | connected | pendingConnected | pendingRefused => exact absurd ⟨hpos, by simp [hc]⟩ h
      | failed | pendingSilent | pendingError => rfl
    rw [if_neg hsock, if_neg hsock]
    simp only [hconnect, if_true]
    rfl

/-- The addresses in front of the one that is taken are passed over. -/
theorem connectToAny_append (before rest : List AddrInfo) (hne : ∀ b ∈ before, b.sock ≠ 0)
    (h : ∀ b ∈ before, AddrInfo.taken b = false) :
    connectToAnyWithTimeout (before ++ rest) = ((connectToAnyWithTimeout rest).1,
      before.flatMap failedOps ++ (connectToAnyWithTimeout rest).2) := by
  induction before with
  | nil => rfl
  | cons a before ih =>
    rw [List.forall_mem_cons] at hne h
    rw [List.cons_append, connectToAny_failed a _ hne.1 h.1, ih hne.2 h.2, List.flatMap_cons,
      List.append_assoc]

/-- Either no address is taken, or the first one that can be. -/
theorem connectToAny_cases (info : List AddrInfo) (hne : ∀ a ∈ info, a.sock ≠ 0) :
    (info.find? AddrInfo.taken = none ∧
      connectToAnyWithTimeout info = (0, info.flatMap failedOps)) ∨
    ∃ before a after, info = before ++ a :: after ∧ info.find? AddrInfo.taken = some a ∧
      0 < a.sock ∧
      connectToAnyWithTimeout info = (a.sock, before.flatMap failedOps ++ takenOps a) := by
  cases hfind : info.find? AddrInfo.taken with
  | none =>
    left
    refine ⟨rfl, ?_⟩
    have hall : ∀ b ∈ info, AddrInfo.taken b = false := by
      intro b hb
      exact Bool.eq_false_iff.mpr (List.find?_eq_none.mp hfind b hb)
    have happ := connectToAny_append info [] hne hall
    rw [List.append_nil] at happ
    rw [happ]
    exact congrArg (Prod.mk 0) (List.append_nil _)
  | some a =>
    right
    obtain ⟨htaken, before, after, rfl, hbefore⟩ := List.find?_eq_some_iff_append.mp hfind
    refine ⟨before, a, after, rfl, rfl, ((taken_iff a).mp htaken).1, ?_⟩
    rw [connectToAny_append before (a :: after), connectToAny_taken a after htaken]
    · intro b hb
      exact hne b (List.mem_append_left _ hb)
    · intro b hb
      exact (Bool.not_eq_eq_eq_not.mp (hbefore b hb))

section Calls

variable {info : List AddrInfo} {sock : ℤ}

theorem socket_of_mem_failedOps (h : .socket sock ∈ info.flatMap failedOps) :
    ∃ a ∈ info, a.sock = sock := by
  obtain ⟨a, ha, hop⟩ := List.mem_flatMap.mp h
  refine ⟨a, ha, ?_⟩
  unfold failedOps at hop
  split at hop <;> simp at hop <;> exact hop.symm

theorem count_close_failedOps (a : AddrInfo) (hsock : 0 < sock) :
    (failedOps a).count (.close sock) = if a.sock = sock then 1 else 0 := by
  unfold failedOps
  by_cases hneg : a.sock < 0
  · rw [if_pos hneg, if_neg (by omega)]
    rfl
  · rw [if_neg hneg]
    simp [List.count_cons]

theorem count_close_eq_zero (hsock : 0 < sock) (h : ∀ a ∈ info, a.sock ≠ sock) :
    (info.flatMap failedOps).count (.close sock) = 0 := by
  induction info with
  | nil => rfl
  | cons a info ih =>
    rw [List.forall_mem_cons] at h
    rw [List.flatMap_cons, List.count_append, count_close_failedOps a hsock, if_neg h.1, ih h.2]

/-- A socket that is passed over is closed once, since no other has its number. -/
theorem count_close_eq_one (hsock : 0 < sock) (hmem : ∃ a ∈ info, a.sock = sock)
    (h : info.Pairwise fun a b => 0 < a.sock → a.sock ≠ b.sock) :
    (info.flatMap failedOps).count (.close sock) = 1 := by
  induction info with
  | nil =>
    obtain ⟨a, ha, -⟩ := hmem
    cases ha
  | cons a info ih =>
    obtain ⟨hfirst, hrest⟩ := List.pairwise_cons.mp h
    rw [List.flatMap_cons, List.count_append, count_close_failedOps a hsock]
    by_cases ha : a.sock = sock
    · have hother : ∀ b ∈ info, b.sock ≠ sock := by
        intro b hb heq
        exact hfirst b hb (ha ▸ hsock) (ha.trans heq.symm)
      rw [if_pos ha, count_close_eq_zero hsock hother]
    · rw [if_neg ha, ih _ hrest]
      obtain ⟨b, hb, hbsock⟩ := hmem
      rcases List.mem_cons.mp hb with rfl | hb
      · exact absurd hbsock ha
      · exact ⟨b, hb, hbsock⟩

end Calls

/-- Two addresses with one positive socket are the same. -/
theorem DistinctSockets.eq_of_sock {info : List AddrInfo} (h : DistinctSockets info)
    {a b : AddrInfo} (ha : a ∈ info) (hb : b ∈ info) (hsock : 0 < a.sock)
    (heq : a.sock = b.sock) : a = b := by
  have hpair : info.Pairwise fun a b => 0 < a.sock → a.sock = b.sock → a = b := by
    apply h.distinct.imp
    intro c d hne hpos hcd
    exact absurd hcd (hne hpos)
  have hflip : info.Pairwise (flip fun a b => 0 < a.sock → a.sock = b.sock → a = b) := by
    apply h.distinct.imp
    intro c d hne hpos hdc
    exact absurd hdc.symm (hne (hdc ▸ hpos))
  exact List.Pairwise.forall_of_forall_of_flip (fun _ _ _ _ => rfl) hpair hflip ha hb hsock heq

theorem result_eq (info : List AddrInfo) (h : DistinctSockets info) :
    (connectToAnyWithTimeout info).1 =
      ((info.find? AddrInfo.taken).map AddrInfo.sock).getD 0 := by
  rcases connectToAny_cases info h.sock_ne with ⟨hfind, hrun⟩ | ⟨_, a, _, -, hfind, -, hrun⟩
  · rw [hrun, hfind]
    rfl
  · rw [hrun, hfind]
    rfl

/-- The right address is chosen exactly when the same one passes both tests first. -/
theorem result_iff (info : List AddrInfo) (h : DistinctSockets info) :
    (connectToAnyWithTimeout info).1 =
        ((info.find? AddrInfo.established).map AddrInfo.sock).getD 0 ↔
      info.find? AddrInfo.taken = info.find? AddrInfo.established := by
  rw [result_eq info h]
  constructor
  · intro heq
    cases htaken : info.find? AddrInfo.taken with
    | none =>
      have hnone := List.find?_eq_none.mp htaken
      symm
      apply List.find?_eq_none.mpr
      intro a ha hest
      exact hnone a ha (taken_of_established a hest)
    | some a =>
      have hsock := ((taken_iff a).mp (List.find?_some htaken)).1
      cases hest : info.find? AddrInfo.established with
      | none =>
        rw [htaken, hest] at heq
        have hzero : a.sock = 0 := heq
        omega
      | some e =>
        rw [htaken, hest] at heq
        rw [h.eq_of_sock (List.mem_of_find?_eq_some htaken) (List.mem_of_find?_eq_some hest) hsock
          heq]
  · intro heq
    rw [heq]

/-- Each socket that was opened is closed once, unless it is returned. -/
theorem closed_once (info : List AddrInfo) (h : DistinctSockets info) (sock : ℤ) (hsock : 0 < sock)
    (hopen : .socket sock ∈ (connectToAnyWithTimeout info).2)
    (hne : sock ≠ (connectToAnyWithTimeout info).1) :
    (connectToAnyWithTimeout info).2.count (.close sock) = 1 := by
  rcases connectToAny_cases info h.sock_ne with
    ⟨-, hrun⟩ | ⟨before, a, after, rfl, -, -, hrun⟩
  · rw [hrun] at hopen ⊢
    exact count_close_eq_one hsock (socket_of_mem_failedOps hopen) h.distinct
  · rw [hrun] at hopen hne ⊢
    have hbefore : .socket sock ∈ before.flatMap failedOps := by
      rcases List.mem_append.mp hopen with hmem | hmem
      · exact hmem
      · simp only [takenOps, List.mem_cons, SockOp.socket.injEq, List.not_mem_nil, reduceCtorEq,
          or_false] at hmem
        exact absurd hmem hne
    have htaken : (takenOps a).count (.close sock) = 0 := by simp [takenOps]
    have hdistinct := (List.pairwise_append.mp h.distinct).1
    rw [List.count_append, htaken, count_close_eq_one hsock (socket_of_mem_failedOps hbefore) hdistinct]

/-- The socket that is returned is not closed, and its last mode is blocking. -/
theorem kept_open (info : List AddrInfo) (h : DistinctSockets info)
    (hne : (connectToAnyWithTimeout info).1 ≠ 0) :
    .close (connectToAnyWithTimeout info).1 ∉ (connectToAnyWithTimeout info).2 ∧
      blocking (connectToAnyWithTimeout info).1 (connectToAnyWithTimeout info).2 = true := by
  rcases connectToAny_cases info h.sock_ne with
    ⟨-, hrun⟩ | ⟨before, a, after, rfl, -, hsock, hrun⟩
  · rw [hrun] at hne
    exact absurd rfl hne
  · rw [hrun]
    have hother : ∀ b ∈ before, b.sock ≠ a.sock := by
      intro b hb heq
      have hcross := (List.pairwise_append.mp h.distinct).2.2 b hb a List.mem_cons_self
      exact hcross (heq ▸ hsock) heq
    constructor
    · rw [← List.count_eq_zero, List.count_append, count_close_eq_zero hsock hother]
      simp [takenOps]
    · unfold blocking
      rw [List.foldl_append]
      simp [takenOps]

/-- The first established address is returned, and every other socket closed, exactly
when no address in front of it, or in the whole list if there is none, is refused
while poll waits for it. -/
theorem falls_back_iff (info : List AddrInfo) (h : DistinctSockets info) :
    FallsBack info (connectToAnyWithTimeout info) ↔ RefusedBehind info := by
  rw [← shielded_iff, ← find?_eq_find?_iff _ _ taken_of_established, ← result_iff info h]
  constructor
  · intro hfalls
    exact hfalls.result
  · intro hresult
    exact ⟨hresult, closed_once info h, kept_open info h⟩

section Example

/-- A silent address, and an established one behind it. -/
def silentFirst : List AddrInfo := [⟨3, .pendingSilent⟩, ⟨4, .connected⟩]

theorem falls_back_iff_silent : FallsBack silentFirst (connectToAnyWithTimeout silentFirst) := by
  have hdistinct : DistinctSockets silentFirst := ⟨by decide, by decide⟩
  refine (falls_back_iff silentFirst hdistinct).mpr ?_
  intro before a after hinfo _ hrefused
  have hmem : a ∈ silentFirst := by
    rw [hinfo]
    exact List.mem_append_right before List.mem_cons_self
  have hnone : ∀ b ∈ silentFirst, b.outcome ≠ .pendingRefused := by decide
  exact absurd hrefused (hnone a hmem)

/-- A refused connection is returned in place of the established one behind it. -/
theorem refused_taken :
    ¬ ∀ info, DistinctSockets info → FallsBack info (connectToAnyWithTimeout info) := by
  intro hclaim
  have hfalls := hclaim [⟨3, .pendingRefused⟩, ⟨4, .connected⟩] ⟨by decide, by decide⟩
  exact absurd hfalls.result (by decide)

end Example

end SmtpClient.AddressFallback
