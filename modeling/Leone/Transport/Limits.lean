import Leone.Framework.Machine
import Leone.Framework.Tally
import Leone.Transport.Address

/-!
# Connection limits

A lease counts against the server from the moment it is acquired, and against one client from the
moment the client is known. Its drop gives both back.
-/

namespace Leone.Transport

open Framework

/-- The limits of a server. A limit is a `usize`. -/
structure ConnectionLimits where
  maxConnections : {limit : Nat // limit < 2 ^ 64}
  maxConnectionsPerClient : {limit : Nat // limit < 2 ^ 64}
  trustedProxyIps : List IpAddr

/-- What the lock guards: the counts, and the sockets by connection. -/
structure ConnectionState where
  active : Nat
  byClient : IpAddr → Option Nat
  sockets : List Nat

structure ConnectionLease where
  connectionId : Nat
  clientId : Option IpAddr
  deriving DecidableEq

inductive ConnectionReject where
  | globalLimit
  | clientLimit
  deriving DecidableEq, Repr

/-- `ConnectionLimits::new` keeps the canonical form of every proxy. -/
def ConnectionLimits.new (maxConnections maxConnectionsPerClient : {limit : Nat // limit < 2 ^ 64})
    (trustedProxyIps : List IpAddr) : ConnectionLimits × ConnectionState :=
  ({ maxConnections, maxConnectionsPerClient, trustedProxyIps := trustedProxyIps.map canonicalIp },
    { active := 0, byClient := fun _ => none, sockets := [] })

def incrementClientCount (counts : IpAddr → Option Nat) (clientId : IpAddr) : IpAddr → Option Nat :=
  Function.update counts clientId (some (min ((counts clientId).getD 0 + 1) (2 ^ 64 - 1)))

def decrementClientCount (counts : IpAddr → Option Nat) (clientId : IpAddr) : IpAddr → Option Nat :=
  match counts clientId with
  | none => counts
  | some count =>
    if count - 1 = 0 then Function.update counts clientId none
    else Function.update counts clientId (some (count - 1))

section Operations

variable (limits : ConnectionLimits)

/-- The client that a peer is counted as at once. A proxy's client is assigned later. -/
def peerClient (peer : IpAddr) : Option IpAddr :=
  if canonicalIp peer ∈ limits.trustedProxyIps then none else some (canonicalIp peer)

/-- Another lease of this client is past the limit. -/
def clientFull (state : ConnectionState) (clientId : IpAddr) : Bool :=
  limits.maxConnectionsPerClient.val ≤ (state.byClient clientId).getD 0

def acquire (state : ConnectionState) (peer : IpAddr) (connectionId : Nat) :
    Except ConnectionReject (ConnectionState × ConnectionLease) :=
  let clientId := peerClient limits peer
  if limits.maxConnections.val ≤ state.active then .error .globalLimit
  else if clientId.any (clientFull limits state) then .error .clientLimit
  else
    .ok ({ state with
      active := (state.active + 1) % 2 ^ 64
      byClient := clientId.elim state.byClient (incrementClientCount state.byClient) },
      { connectionId, clientId })

def assignClient (state : ConnectionState) (lease : ConnectionLease) (clientId : IpAddr) :
    Bool × ConnectionState × ConnectionLease :=
  let clientId := canonicalIp clientId
  if lease.clientId = some clientId then (true, state, lease)
  else if lease.clientId.isSome then (false, state, lease)
  else if clientFull limits state clientId then (false, state, lease)
  else
    (true, { state with byClient := incrementClientCount state.byClient clientId },
      { lease with clientId := some clientId })

end Operations

def register (state : ConnectionState) (lease : ConnectionLease) : ConnectionState :=
  { state with sockets := lease.connectionId :: state.sockets.erase lease.connectionId }

def drop (state : ConnectionState) (lease : ConnectionLease) : ConnectionState :=
  { active := state.active - 1
    byClient := lease.clientId.elim state.byClient (decrementClientCount state.byClient)
    sockets := state.sockets.erase lease.connectionId }

/-! ## Runs -/

/-- The guarded state with the live leases of all threads. -/
structure Connections where
  state : ConnectionState
  leases : List ConnectionLease

/-- One call, under the lock. A lease is named by its place among the live ones. -/
inductive Call where
  | acquire (peer : IpAddr) (connectionId : Nat)
  | register (lease : Nat)
  | assignClient (lease : Nat) (clientId : IpAddr)
  | drop (lease : Nat)
  deriving DecidableEq

def call (limits : ConnectionLimits) (c : Connections) : Call → Connections
  | .acquire peer connectionId =>
    match acquire limits c.state peer connectionId with
    | .error _ => c
    | .ok (state, lease) => { state, leases := lease :: c.leases }
  | .register i =>
    match c.leases[i]? with
    | none => c
    | some lease => { c with state := register c.state lease }
  | .assignClient i clientId =>
    match c.leases[i]? with
    | none => c
    | some lease =>
      let assigned := (assignClient limits c.state lease clientId).2
      { state := assigned.1, leases := c.leases.set i assigned.2 }
  | .drop i =>
    match c.leases[i]? with
    | none => c
    | some lease => { state := drop c.state lease, leases := c.leases.eraseIdx i }

/-- The live leases of a client. -/
def holders (leases : List ConnectionLease) (clientId : IpAddr) : Nat :=
  (leases.map fun lease => if lease.clientId = some clientId then 1 else 0).sum

/-- The entry of a client with so many leases. -/
def entry (count : Nat) : Option Nat := if count = 0 then none else some count

/-- Every count is the number of leases it counts, within its limit, and a client without leases
has no entry. -/
structure Exact (limits : ConnectionLimits) (c : Connections) : Prop where
  active_eq : c.state.active = c.leases.length
  active_le : c.state.active ≤ limits.maxConnections
  byClient_eq : ∀ clientId, c.state.byClient clientId = entry (holders c.leases clientId)
  byClient_le : ∀ clientId, holders c.leases clientId ≤ limits.maxConnectionsPerClient
  canonical : ∀ lease ∈ c.leases, ∀ clientId, lease.clientId = some clientId →
    canonicalIp clientId = clientId

/-- What one call does: a refused one nothing, an accepted one what it says, and a drop takes from
counts that are there. -/
def Answered (limits : ConnectionLimits) (c : Connections) : Call → Prop
  | .acquire peer connectionId =>
    match acquire limits c.state peer connectionId with
    | .error _ => call limits c (.acquire peer connectionId) = c
    | .ok (_, lease) =>
      lease.clientId = peerClient limits peer ∧
        (call limits c (.acquire peer connectionId)).leases = lease :: c.leases
  | .register i => (call limits c (.register i)).leases = c.leases
  | .assignClient i clientId => ∀ lease, c.leases[i]? = some lease →
    if (assignClient limits c.state lease clientId).1 then
      ∃ lease', lease'.clientId = some (canonicalIp clientId) ∧
        (call limits c (.assignClient i clientId)).leases = c.leases.set i lease'
    else call limits c (.assignClient i clientId) = c
  | .drop i => ∀ lease, c.leases[i]? = some lease →
    0 < c.state.active ∧
      (∀ clientId, lease.clientId = some clientId →
        ∃ count, c.state.byClient clientId = some count ∧ 0 < count) ∧
      (call limits c (.drop i)).leases = c.leases.eraseIdx i

/-! ## One call -/

section Counts

variable {counts : IpAddr → Option Nat} {clientId : IpAddr} {count : Nat}

theorem entry_getD (count : Nat) : (entry count).getD 0 = count := by
  unfold entry
  split
  · next hzero => rw [hzero, Option.getD_none]
  · rfl

theorem incrementClientCount_entry (h : counts clientId = entry count) (hlt : count + 1 < 2 ^ 64) :
    incrementClientCount counts clientId =
      Function.update counts clientId (entry (count + 1)) := by
  rw [incrementClientCount, h, entry_getD, Nat.min_eq_left (by omega)]
  rfl

theorem decrementClientCount_entry (h : counts clientId = entry (count + 1)) :
    decrementClientCount counts clientId = Function.update counts clientId (entry count) := by
  have hsome : counts clientId = some (count + 1) := h
  simp only [decrementClientCount, hsome, Nat.add_sub_cancel, entry]
  split
  · rfl
  · rfl

end Counts

section Holders

variable {leases : List ConnectionLease} {lease : ConnectionLease} {i : Nat}

theorem holders_cons (clientId : IpAddr) :
    holders (lease :: leases) clientId =
      (if lease.clientId = some clientId then 1 else 0) + holders leases clientId := by
  simp [holders]

theorem holders_set (h : leases[i]? = some lease) (lease' : ConnectionLease) (clientId : IpAddr) :
    holders (leases.set i lease') clientId + (if lease.clientId = some clientId then 1 else 0) =
      holders leases clientId + (if lease'.clientId = some clientId then 1 else 0) :=
  sum_map_set h lease' fun lease => if lease.clientId = some clientId then 1 else 0

theorem holders_eraseIdx (h : leases[i]? = some lease) (clientId : IpAddr) :
    holders leases clientId =
      (if lease.clientId = some clientId then 1 else 0) +
        holders (leases.eraseIdx i) clientId :=
  sum_map_eraseIdx h fun lease => if lease.clientId = some clientId then 1 else 0

end Holders

section Calls

variable {limits : ConnectionLimits} {c : Connections}

/-- An update at one client gives the entries of leases that differ at that client. -/
theorem update_entry {counts : IpAddr → Option Nat} {before after : IpAddr → Nat}
    {clientId : IpAddr} (hcounts : ∀ id, counts id = entry (before id))
    (hothers : ∀ id, id ≠ clientId → after id = before id) (id : IpAddr) :
    Function.update counts clientId (entry (after clientId)) id = entry (after id) := by
  by_cases heq : id = clientId
  · rw [heq, Function.update_self]
  · rw [Function.update_of_ne heq, hcounts, hothers id heq]

theorem clientFull_eq_false (h : Exact limits c) {clientId : IpAddr}
    (hfull : clientFull limits c.state clientId = false) :
    holders c.leases clientId < limits.maxConnectionsPerClient := by
  rw [clientFull, h.byClient_eq, entry_getD] at hfull
  exact Nat.lt_of_not_le (of_decide_eq_false hfull)

/-- One more lease of a client that is not full. -/
theorem Exact.increment (h : Exact limits c) {clientId : IpAddr}
    (hfull : clientFull limits c.state clientId = false) {leases : List ConnectionLease}
    (hself : holders leases clientId = holders c.leases clientId + 1)
    (hothers : ∀ id, id ≠ clientId → holders leases id = holders c.leases id) (id : IpAddr) :
    incrementClientCount c.state.byClient clientId id = entry (holders leases id) ∧
      holders leases id ≤ limits.maxConnectionsPerClient := by
  have hlt := clientFull_eq_false h hfull
  have hlimit := limits.maxConnectionsPerClient.property
  rw [incrementClientCount_entry (h.byClient_eq clientId) (by omega), ← hself]
  refine ⟨update_entry h.byClient_eq hothers id, ?_⟩
  by_cases heq : id = clientId
  · rw [heq, hself]
    omega
  · rw [hothers id heq]
    exact h.byClient_le id

theorem acquire_ok {state next : ConnectionState} {peer : IpAddr} {connectionId : Nat}
    {lease : ConnectionLease} (h : acquire limits state peer connectionId = .ok (next, lease)) :
    state.active < limits.maxConnections ∧ lease.clientId = peerClient limits peer ∧
      (∀ clientId, peerClient limits peer = some clientId →
        clientFull limits state clientId = false) ∧
      next.active = (state.active + 1) % 2 ^ 64 ∧
      next.byClient =
        (peerClient limits peer).elim state.byClient (incrementClientCount state.byClient) := by
  simp only [acquire] at h
  split at h
  · cases h
  · next hactive =>
    split at h
    · cases h
    · next hclient =>
      cases h
      refine ⟨Nat.lt_of_not_le hactive, rfl, ?_, rfl, rfl⟩
      intro clientId hsome
      rw [hsome, Option.any_some] at hclient
      simpa using hclient

theorem peerClient_canonical {peer clientId : IpAddr}
    (h : peerClient limits peer = some clientId) : canonicalIp clientId = clientId := by
  unfold peerClient at h
  split at h
  · cases h
  · cases h
    exact canonicalIp_idem peer

theorem Exact.acquires (h : Exact limits c) (peer : IpAddr) (connectionId : Nat) :
    Exact limits (call limits c (.acquire peer connectionId)) := by
  cases hacquire : acquire limits c.state peer connectionId with
  | error reject =>
    simp only [call, hacquire]
    exact h
  | ok accepted =>
    obtain ⟨next, lease⟩ := accepted
    obtain ⟨hactive, hlease, hfull, hnext, hcounts⟩ := acquire_ok hacquire
    have hlimit := limits.maxConnections.property
    have hholders : ∀ id, holders (lease :: c.leases) id =
        (if lease.clientId = some id then 1 else 0) + holders c.leases id := holders_cons
    have hentries : ∀ id, next.byClient id = entry (holders (lease :: c.leases) id) ∧
        holders (lease :: c.leases) id ≤ limits.maxConnectionsPerClient := by
      intro id
      rw [hcounts]
      cases hclient : peerClient limits peer with
      | none =>
        rw [hholders, hlease, hclient, if_neg nofun, Nat.zero_add]
        exact ⟨h.byClient_eq id, h.byClient_le id⟩
      | some clientId =>
        apply h.increment (hfull clientId hclient)
        · rw [hholders, hlease, hclient, if_pos rfl, Nat.add_comm]
        · intro other hne
          rw [hholders, hlease, hclient, if_neg (by simpa using hne.symm), Nat.zero_add]
    have hactiveNext : next.active = c.state.active + 1 := by
      rw [hnext, Nat.mod_eq_of_lt (by omega)]
    simp only [call, hacquire]
    refine ⟨?_, ?_, fun id => (hentries id).1, fun id => (hentries id).2, ?_⟩
    · show next.active = (lease :: c.leases).length
      rw [hactiveNext, h.active_eq, List.length_cons]
    · show next.active ≤ _
      omega
    · intro other hother clientId hclient
      rcases List.mem_cons.mp hother with rfl | hmem
      · exact peerClient_canonical (hlease ▸ hclient)
      · exact h.canonical other hmem clientId hclient

theorem Exact.assigns (h : Exact limits c) (i : Nat) (clientId : IpAddr) :
    Exact limits (call limits c (.assignClient i clientId)) := by
  cases hget : c.leases[i]? with
  | none =>
    simp only [call, hget]
    exact h
  | some lease =>
    have hsame : c.leases.set i lease = c.leases := by
      obtain ⟨hlt, heq⟩ := List.getElem?_eq_some_iff.mp hget
      rw [← heq, List.set_getElem_self]
    simp only [call, hget, assignClient]
    split
    · rw [hsame]
      exact h
    · split
      · rw [hsame]
        exact h
      · next hunassigned =>
        split
        · rw [hsame]
          exact h
        · next hfull =>
          have hnone : lease.clientId = none := by simpa using hunassigned
          have hset : ∀ id, holders
              (c.leases.set i { lease with clientId := some (canonicalIp clientId) }) id =
                holders c.leases id + if canonicalIp clientId = id then 1 else 0 := by
            intro id
            have hsum := holders_set hget
              { lease with clientId := some (canonicalIp clientId) } id
            rw [hnone, if_neg nofun, Nat.add_zero] at hsum
            simpa using hsum
          have hentries := h.increment (by simpa using hfull)
            (by rw [hset, if_pos rfl])
            (fun id hne => by rw [hset, if_neg (Ne.symm hne), Nat.add_zero])
          refine ⟨?_, h.active_le, fun id => (hentries id).1, fun id => (hentries id).2, ?_⟩
          · show c.state.active = _
            rw [h.active_eq, List.length_set]
          · intro other hother id hclient
            rcases List.mem_or_eq_of_mem_set hother with hmem | rfl
            · exact h.canonical other hmem id hclient
            · cases hclient
              exact canonicalIp_idem clientId

/-- The counts that a live lease takes part in are not zero. -/
theorem Exact.live (h : Exact limits c) {i : Nat} {lease : ConnectionLease}
    (hget : c.leases[i]? = some lease) :
    0 < c.state.active ∧ ∀ clientId, lease.clientId = some clientId →
      ∃ count, c.state.byClient clientId = some (count + 1) ∧
        holders (c.leases.eraseIdx i) clientId = count := by
  obtain ⟨hlt, -⟩ := List.getElem?_eq_some_iff.mp hget
  constructor
  · rw [h.active_eq]
    omega
  · intro clientId hclient
    have hholders := holders_eraseIdx hget clientId
    rw [if_pos hclient, Nat.add_comm] at hholders
    refine ⟨_, ?_, rfl⟩
    rw [h.byClient_eq, hholders, entry, if_neg (Nat.succ_ne_zero _)]

theorem Exact.drops (h : Exact limits c) (i : Nat) : Exact limits (call limits c (.drop i)) := by
  cases hget : c.leases[i]? with
  | none =>
    simp only [call, hget]
    exact h
  | some lease =>
    have hlength : (c.leases.eraseIdx i).length = c.leases.length - 1 := by
      obtain ⟨hlt, -⟩ := List.getElem?_eq_some_iff.mp hget
      exact List.length_eraseIdx_of_lt hlt
    have hholders := holders_eraseIdx hget
    have hactive := h.active_eq
    simp only [call, hget]
    refine ⟨?_, ?_, ?_, ?_, ?_⟩
    · show c.state.active - 1 = (c.leases.eraseIdx i).length
      omega
    · show c.state.active - 1 ≤ _
      have hle := h.active_le
      omega
    · intro id
      show lease.clientId.elim c.state.byClient (decrementClientCount c.state.byClient) id = _
      cases hclient : lease.clientId with
      | none =>
        have hid := hholders id
        rw [hclient, if_neg nofun, Nat.zero_add] at hid
        rw [Option.elim_none, h.byClient_eq, hid]
      | some clientId =>
        have hself := hholders clientId
        rw [if_pos hclient, Nat.add_comm] at hself
        rw [Option.elim_some,
          decrementClientCount_entry (by rw [h.byClient_eq clientId, hself])]
        apply update_entry h.byClient_eq
        intro other hne
        have hother := hholders other
        rw [hclient, if_neg (by simpa using hne.symm), Nat.zero_add] at hother
        exact hother.symm
    · intro id
      have hle := h.byClient_le id
      have hid := hholders id
      show holders (c.leases.eraseIdx i) id ≤ _
      omega
    · intro other hother clientId hclient
      exact h.canonical other (List.mem_of_mem_eraseIdx hother) clientId hclient

theorem Exact.registers (h : Exact limits c) (i : Nat) :
    Exact limits (call limits c (.register i)) := by
  cases hget : c.leases[i]? with
  | none =>
    simp only [call, hget]
    exact h
  | some lease =>
    simp only [call, hget]
    exact ⟨h.active_eq, h.active_le, h.byClient_eq, h.byClient_le, h.canonical⟩

theorem Exact.call (h : Exact limits c) (next : Call) : Exact limits (call limits c next) := by
  cases next with
  | acquire peer connectionId => exact h.acquires peer connectionId
  | register i => exact h.registers i
  | assignClient i clientId => exact h.assigns i clientId
  | drop i => exact h.drops i

theorem Exact.answered (h : Exact limits c) (next : Call) : Answered limits c next := by
  cases next with
  | acquire peer connectionId =>
    unfold Answered
    cases hacquire : acquire limits c.state peer connectionId with
    | error reject => simp only [Transport.call, hacquire]
    | ok accepted =>
      obtain ⟨state, lease⟩ := accepted
      simp only [Transport.call, hacquire, and_true]
      exact (acquire_ok hacquire).2.1
  | register i =>
    unfold Answered
    cases hget : c.leases[i]? with
    | none => simp only [Transport.call, hget]
    | some lease => simp only [Transport.call, hget]
  | assignClient i clientId =>
    intro lease hget
    have hsame : c.leases.set i lease = c.leases := by
      obtain ⟨hlt, heq⟩ := List.getElem?_eq_some_iff.mp hget
      rw [← heq, List.set_getElem_self]
    simp only [Transport.call, hget, assignClient]
    split
    · next hassigned => exact ⟨lease, hassigned, rfl⟩
    · split
      · simp [hsame]
      · split
        · simp [hsame]
        · exact ⟨_, rfl, rfl⟩
  | drop i =>
    intro lease hget
    obtain ⟨hactive, hcounts⟩ := h.live hget
    refine ⟨hactive, ?_, by simp only [Transport.call, hget]⟩
    intro clientId hclient
    obtain ⟨count, hcount, -⟩ := hcounts clientId hclient
    exact ⟨count + 1, hcount, Nat.succ_pos count⟩

end Calls

/-! ## Runs -/

theorem run_exact {limits : ConnectionLimits} {c : Connections} (h : Exact limits c)
    (calls : List Call) :
    Exact limits (run (call limits) c calls) ∧ Along (call limits) (Answered limits) c calls := by
  induction calls generalizing c with
  | nil => exact ⟨h, trivial⟩
  | cons next calls ih =>
    obtain ⟨hexact, halong⟩ := ih (h.call next)
    exact ⟨hexact, h.answered next, halong⟩

/-- From an empty server, every order of calls keeps the counts exact. -/
theorem limits_exact (maxConnections maxConnectionsPerClient : {limit : Nat // limit < 2 ^ 64})
    (trustedProxyIps : List IpAddr) (calls : List Call) :
    let server := ConnectionLimits.new maxConnections maxConnectionsPerClient trustedProxyIps
    Exact server.1 (run (call server.1) { state := server.2, leases := [] } calls) ∧
      Along (call server.1) (Answered server.1) { state := server.2, leases := [] } calls := by
  intro server
  apply run_exact
  constructor
  · rfl
  · exact Nat.zero_le _
  · intro clientId
    rfl
  · intro clientId
    exact Nat.zero_le _
  · intro lease hlease
    cases hlease

end Leone.Transport
