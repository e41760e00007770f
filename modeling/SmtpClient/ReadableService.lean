import SmtpClient.Passes

/-!
Which readable connection wait_for_response serves. poll returns how many
entries have events, and the loop behind it looks at as many entries from the
front of the array, wherever the events are. A readable entry behind them is
left unserved.
-/
namespace SmtpClient.ReadableService

open MailTypes SendCommands Connections EventLoop Passes

/-- Live connections with sockets of their own, and their number. -/
structure Pollable (w : World) : Prop where
  ne_nil : w.connections ≠ []
  live : ∀ p ∈ w.connections, ∃ c, w.conns[p]? = some c ∧ c.state.terminal = false
  distinct : ∀ p ∈ w.connections, ∀ q ∈ w.connections,
    (w.conns[p]?).map MxConn.sock = (w.conns[q]?).map MxConn.sock → p = q
  count : w.connectionsCount = w.connections.length

/-- poll reports the i-th open connection readable. -/
def ReadableAt (w : World) (revents : ℕ → UInt16) (i p : ℕ) : Prop :=
  w.connections[i]? = some p ∧ revents i &&& pollin ≠ 0

/-- recv is called on the socket of connection p. Its state machine then runs
on the buffer, or it is marked invalid, and no other connection changes. -/
structure Serves (w : World) (inp : PassInput) (p : ℕ) : Prop where
  stepped : ∀ chunk, inp.recv = .data chunk → waitForResponse w inp =
    (parseResponse (World.log w [.recv p inp.recv]) p chunk.buf inp.now).map fun v => (1, v)
  failed : (∀ chunk, inp.recv ≠ .data chunk) → waitForResponse w inp =
    some (0, invalidateConnection (World.log w [.recv p inp.recv]) p)
  others : ∀ n v, waitForResponse w inp = some (n, v) → ∀ q, q ≠ p → v.conns[q]? = w.conns[q]?

theorem parseResponse_conns (w v : World) (p : ℕ) (str : Bytes) (now : ℤ)
    (h : parseResponse w p str now = some v) (q : ℕ) (hq : q ≠ p) : v.conns[q]? = w.conns[q]? := by
  unfold parseResponse at h
  obtain ⟨c, -, h⟩ := Option.bind_eq_some_iff.mp h
  obtain ⟨⟨st, s⟩, -, h⟩ := Option.bind_eq_some_iff.mp h
  obtain rfl := Option.some.inj h
  exact List.getElem?_set_ne (Ne.symm hq)

theorem invalidateConnection_conns (w : World) (p q : ℕ) (hq : q ≠ p) :
    (invalidateConnection w p).conns[q]? = w.conns[q]? := by
  unfold invalidateConnection
  split
  · rfl
  · exact List.getElem?_set_ne (Ne.symm hq)

theorem invalidateConnection_trace (w : World) (p : ℕ) :
    (invalidateConnection w p).trace = w.trace := by
  unfold invalidateConnection
  split <;> rfl

/-- What a pass does with the connection that the socket of its entry finds. -/
theorem serves_of_entry (w : World) (inp : PassInput) (i p : ℕ)
    (hentry : readableEntry w.connectionsCount inp.poll = some i)
    (hp : getConnBySocket w (pollFds w inp.stack i) = some p) : Serves w inp p := by
  have hdata : ∀ chunk, inp.recv = .data chunk → waitForResponse w inp =
      (parseResponse (World.log w [.recv p inp.recv]) p chunk.buf inp.now).map
        fun v => (1, v) := by
    intro chunk hrecv
    unfold waitForResponse
    simp only [hentry, hp, hrecv, Option.bind_eq_bind, Option.bind_some]
    exact (Option.map_eq_bind).symm
  have hfailed : (∀ chunk, inp.recv ≠ .data chunk) → waitForResponse w inp =
      some (0, invalidateConnection (World.log w [.recv p inp.recv]) p) := by
    intro hfail
    unfold waitForResponse
    simp only [hentry, hp, Option.bind_eq_bind, Option.bind_some]
    cases hrecv : inp.recv with
    | error | disconnected => rfl
    | data chunk => exact absurd hrecv (hfail chunk)
  refine ⟨hdata, hfailed, ?_⟩
  intro n v hv q hq
  by_cases hchunk : ∃ chunk, inp.recv = .data chunk
  · obtain ⟨chunk, hrecv⟩ := hchunk
    rw [hdata chunk hrecv] at hv
    obtain ⟨u, hu, huv⟩ := Option.map_eq_some_iff.mp hv
    obtain ⟨-, rfl⟩ := Prod.mk.inj huv
    exact parseResponse_conns (World.log w _) u p chunk.buf inp.now hu q hq
  · rw [hfailed fun chunk hrecv => hchunk ⟨chunk, hrecv⟩] at hv
    obtain ⟨-, rfl⟩ := Prod.mk.inj (Option.some.inj hv)
    exact invalidateConnection_conns (World.log w _) p q hq

/-- A pass that looks at no readable entry serves no connection. -/
theorem not_serves_of_no_entry (w : World) (inp : PassInput) (p : ℕ)
    (hentry : readableEntry w.connectionsCount inp.poll = none) : ¬ Serves w inp p := by
  intro hserves
  have hwait : waitForResponse w inp = some (0, w) := by
    unfold waitForResponse
    rw [hentry]
  have hidle : ∀ r, (0, w) ≠ (0, invalidateConnection (World.log w [.recv p r]) p) := by
    intro r heq
    have htrace := congrArg (fun x => x.2.trace.length) heq
    simp [invalidateConnection_trace, World.log] at htrace
  cases hrecv : inp.recv with
  | error | disconnected =>
    have hfailed := hserves.failed (by rw [hrecv]; intro chunk hchunk; cases hchunk)
    rw [hwait] at hfailed
    exact hidle _ (Option.some.inj hfailed)
  | data chunk =>
    have hstepped := hserves.stepped chunk hrecv
    rw [hwait] at hstepped
    obtain ⟨v, -, heq⟩ := Option.map_eq_some_iff.mp hstepped.symm
    exact absurd (Prod.mk.inj heq).1 Nat.one_ne_zero

theorem res_le (count : ℕ) (revents : ℕ → UInt16) :
    ((PollResult.events revents).res count).toNat ≤ count := by
  change ((List.range count).countP _ : ℤ).toNat ≤ count
  rw [Int.toNat_natCast]
  have hle := List.countP_le_length (p := fun i => decide (revents i ≠ 0)) (l := List.range count)
  rw [List.length_range] at hle
  exact hle

/-- The socket of a polled entry finds the connection of that entry. -/
theorem getConnBySocket_entry (w : World) (h : Pollable w) (stack : ℕ → ℤ) (i p : ℕ)
    (hp : w.connections[i]? = some p) : getConnBySocket w (pollFds w stack i) = some p := by
  have hmem := List.mem_of_getElem? hp
  obtain ⟨c, hc, -⟩ := h.live p hmem
  have hfd : pollFds w stack i = c.sock := by
    unfold pollFds
    rw [hp, Option.bind_some, hc]
  have hsock : (w.conns[p]?).map MxConn.sock = some c.sock := by
    rw [hc]
    rfl
  obtain ⟨q, hq⟩ := getConnBySocket_isSome w c.sock p hmem hsock
  obtain ⟨hqmem, hqsock⟩ := getConnBySocket_mem w c.sock q hq
  obtain rfl := h.distinct q hqmem p hmem (hqsock.trans hsock.symm)
  rw [hfd]
  exact hq

/-- One of the readable connections is served exactly when one of them stands
in the list at a position below the number of entries that have events. -/
theorem readable_served_iff (w : World) (inp : PassInput) (revents : ℕ → UInt16)
    (h : Pollable w) (hpoll : inp.poll = .events revents) :
    (∃ i p, ReadableAt w revents i p ∧ Serves w inp p) ↔
      ∃ i p, ReadableAt w revents i p ∧ (i : ℤ) < inp.poll.res w.connectionsCount := by
  have hentry : readableEntry w.connectionsCount inp.poll =
      (List.range (inp.poll.res w.connectionsCount).toNat).find? fun i =>
        decide (revents i &&& pollin ≠ 0) := by
    unfold readableEntry
    rw [hpoll]
  constructor
  · intro hserved
    obtain ⟨-, p, -, hserves⟩ := hserved
    cases hfound : readableEntry w.connectionsCount inp.poll with
    | none => exact absurd hserves (not_serves_of_no_entry w inp p hfound)
    | some i =>
      rw [hentry] at hfound
      have hready := List.find?_some hfound
      have hlt := List.mem_range.mp (List.mem_of_find?_eq_some hfound)
      have hres := res_le w.connectionsCount revents
      rw [← hpoll] at hres
      have hi : i < w.connections.length := by
        have hcount := h.count
        omega
      exact ⟨i, w.connections[i], ⟨List.getElem?_eq_getElem hi, of_decide_eq_true hready⟩,
        by omega⟩
  · intro hex
    obtain ⟨i, p, ⟨-, hready⟩, hlt⟩ := hex
    have hsome : ((List.range (inp.poll.res w.connectionsCount).toNat).find? fun i =>
        decide (revents i &&& pollin ≠ 0)).isSome = true := by
      rw [List.find?_isSome]
      exact ⟨i, List.mem_range.mpr (by omega), decide_eq_true hready⟩
    obtain ⟨k, hk⟩ := Option.isSome_iff_exists.mp hsome
    have hkready := List.find?_some hk
    have hklt := List.mem_range.mp (List.mem_of_find?_eq_some hk)
    have hres := res_le w.connectionsCount revents
    rw [← hpoll] at hres
    have hkconn : k < w.connections.length := by
      have hcount := h.count
      omega
    have hget := List.getElem?_eq_getElem hkconn
    refine ⟨k, w.connections[k], ⟨hget, of_decide_eq_true hkready⟩, ?_⟩
    exact serves_of_entry w inp k _ (hentry.trans hk)
      (getConnBySocket_entry w h inp.stack k _ hget)

section Example

def connOn (sock : ℤ) (domain : String) : MxConn :=
  ⟨sock, .helo, some 0, some (0, 0), ⟨bytes domain⟩, 0⟩

/-- Two live connections on the sockets 4 and 5. -/
def worldOfTwo : World :=
  ⟨[], [], [connOn 4 "d", connOn 5 "e"], [0, 1], 2, fun _ => false, []⟩

theorem pollable_worldOfTwo : Pollable worldOfTwo := by
  refine ⟨List.cons_ne_nil _ _, ?_, ?_, rfl⟩
  · intro p hp
    have hp : p = 0 ∨ p = 1 := by simpa [worldOfTwo] using hp
    rcases hp with rfl | rfl
    · exact ⟨_, rfl, rfl⟩
    · exact ⟨_, rfl, rfl⟩
  · intro p hp q hq hsock
    have hp : p = 0 ∨ p = 1 := by simpa [worldOfTwo] using hp
    have hq : q = 0 ∨ q = 1 := by simpa [worldOfTwo] using hq
    rcases hp with rfl | rfl <;> rcases hq with rfl | rfl
    · rfl
    · exact absurd hsock (by decide)
    · exact absurd hsock (by decide)
    · rfl

/-- Only the k-th entry is readable, and its server hangs up. -/
def hangupAt (k : ℕ) : PassInput :=
  ⟨.events fun i => if i = k then pollin else 0, fun _ => 0, .disconnected, 0, fun _ => 0⟩

/-- Of two connections only the second one is readable, and no one is served. -/
theorem readable_not_served :
    ¬ ∀ (w : World) (inp : PassInput) (revents : ℕ → UInt16), Pollable w →
        inp.poll = .events revents → (∃ i p, ReadableAt w revents i p) →
        ∃ i p, ReadableAt w revents i p ∧ Serves w inp p := by
  intro hclaim
  obtain ⟨i, p, -, hserves⟩ := hclaim worldOfTwo (hangupAt 1) _ pollable_worldOfTwo rfl
    ⟨1, 1, rfl, by decide⟩
  exact not_serves_of_no_entry worldOfTwo (hangupAt 1) p (by decide) hserves

/-- The first of two connections is readable and served. -/
theorem readable_served_iff_first :
    ∃ i p, ReadableAt worldOfTwo (fun i => if i = 0 then pollin else 0) i p ∧
      Serves worldOfTwo (hangupAt 0) p :=
  (readable_served_iff worldOfTwo (hangupAt 0) _ pollable_worldOfTwo rfl).mpr
    ⟨0, 0, ⟨rfl, by decide⟩, by decide⟩

end Example

end SmtpClient.ReadableService
