import Leone.Scheduler.Steps
import Leone.Framework.Machine

/-!
# The scheduler invariant

A coherent state has sound records, each running exactly when it has an open dispatch. The
invariant adds the KV totals over all records. Every transition changes one request at a time,
so each method keeps both by one of three lemmas: a record is replaced, a new record is stored,
or terminal records are dropped.
-/

namespace Leone.Scheduler

open Framework Framework.Method

/-- The bounds that policy validation guarantees. -/
structure PolicyOk (policy : SchedulerPolicy) : Prop where
  active : 1 ≤ (policy.maxActiveRequests : Nat)
  queued : 1 ≤ (policy.maxQueuedRequests : Nat)
  batch : 1 ≤ (policy.maxBatchRequests : Nat)
  reserved : 1 ≤ (policy.maxReservedKvBytes : Nat)
  bytes : 1 ≤ (policy.kvBytesPerToken : Nat)
  page : 1 ≤ (policy.kvPageTokens : Nat)
  prompt : 1 ≤ (policy.maxPromptTokens : Nat)
  output : 1 ≤ (policy.maxOutputTokens : Nat)
  service : 1 ≤ (policy.serviceQuantumTokens : Nat)
  chunk : 1 ≤ (policy.prefillChunkTokens : Nat)

theorem SchedulerPolicy.validate_eq_ok {policy policy' : SchedulerPolicy}
    (h : policy.validate = .ok policy') : policy' = policy ∧ PolicyOk policy := by
  have pos {w : Nat} {n : Fin (2 ^ w)} (h : ¬ n = 0) : 1 ≤ (n : Nat) :=
    Nat.pos_of_ne_zero fun hz => h (Fin.ext (by simpa using hz))
  simp only [SchedulerPolicy.validate, validateRequestLimits, validateMemoryLimits,
    validateTokenLimits, validateQuantumLimits, bind, Except.bind, pure, Except.pure] at h
  split_ifs at h with hrequests hmemory htokens hquanta
  cases h
  simp only [not_or] at hrequests hmemory htokens hquanta
  exact ⟨rfl, pos hrequests.1, pos hrequests.2.1, pos hrequests.2.2, pos hmemory.1,
    pos hmemory.2.1, pos hmemory.2.2, pos htokens.1, pos htokens.2, pos hquanta.1, pos hquanta.2⟩

/-- A new scheduler is empty, and its policy is valid. -/
theorem ContinuousScheduler.new_eq_ok {policy : SchedulerPolicy} {s : ContinuousScheduler}
    (h : ContinuousScheduler.new policy = .ok s) :
    s = ⟨policy, ∅, ∅, [], 0, 0, .default⟩ ∧ PolicyOk policy := by
  cases hv : policy.validate with
  | error e =>
    rw [ContinuousScheduler.new, hv] at h
    cases h
  | ok policy' =>
    obtain ⟨rfl, hok⟩ := SchedulerPolicy.validate_eq_ok hv
    rw [ContinuousScheduler.new, hv] at h
    cases h
    exact ⟨rfl, hok⟩

/-- What every stored record satisfies, under the key it is stored at. -/
structure RecordOk (id : RequestId) (state : RequestState) : Prop where
  keyed : state.spec.id = id
  terminal : state.status.isTerminal → state.reservedKvBytes = 0
  priority : state.status ≠ .rejected → 1 ≤ (state.spec.priority : Nat)
  tokens : ¬ state.status.isTerminal →
    state.emittedTokens + state.remainingTokens = state.spec.maxOutputTokens
  runnable : ¬ state.status.isTerminal → 1 ≤ state.remainingTokens

/-- What an open dispatch satisfies, against the record it was made from. -/
structure DispatchOk (policy : SchedulerPolicy) (id : RequestId) (state : RequestState)
    (dispatch : Dispatch) : Prop where
  keyed : dispatch.requestId = id
  pos : 1 ≤ dispatch.tokenBudget
  prefill : dispatch.kind = .prefill → dispatch.tokenBudget ≤ policy.prefillChunkTokens
  decode : dispatch.kind = .decode → dispatch.tokenBudget ≤ policy.serviceQuantumTokens ∧
    dispatch.tokenBudget ≤ state.remainingTokens

theorem DispatchOk.budget_lt {policy : SchedulerPolicy} {id : RequestId} {state : RequestState}
    {dispatch : Dispatch} (h : DispatchOk policy id state dispatch) :
    dispatch.tokenBudget < 2 ^ 32 := by
  cases hk : dispatch.kind with
  | prefill => exact lt_of_le_of_lt (h.prefill hk) policy.prefillChunkTokens.isLt
  | decode => exact lt_of_le_of_lt (h.decode hk).1 policy.serviceQuantumTokens.isLt

/-- A request and its open dispatch agree: it has one exactly when it runs. -/
def EntryOk (policy : SchedulerPolicy) (id : RequestId) :
    Option RequestState → Option Dispatch → Prop
  | none, dispatch => dispatch = none
  | some state, none => RecordOk id state ∧ state.status ≠ .running
  | some state, some dispatch =>
    RecordOk id state ∧ state.status = .running ∧ DispatchOk policy id state dispatch

/-- Every request and its dispatch agree, under a valid policy. -/
structure Coherent (s : ContinuousScheduler) : Prop where
  policy : PolicyOk s.policy
  entry : ∀ id, EntryOk s.policy id (s.requests.get? id) (s.running.get? id)
  emitted : s.stats.emittedTokens < 2 ^ 64

/-- The invariant of a coherent state whose admission accounting is exact. -/
structure Inv (s : ContinuousScheduler) : Prop extends Coherent s where
  reserved : s.reservedKvBytes = s.requests.sumBy RequestState.reservedKvBytes
  capacity : s.reservedKvBytes ≤ s.policy.maxReservedKvBytes
  active : (requestCounts s.requests).1 ≤ s.policy.maxActiveRequests

namespace Coherent

variable {s s' : ContinuousScheduler} {id : RequestId} {state state' : RequestState}
  {dispatch : Dispatch}

theorem record (h : Coherent s) (hget : s.requests.get? id = some state) : RecordOk id state := by
  have hentry := h.entry id
  rw [hget] at hentry
  cases hrun : s.running.get? id with
  | none =>
    rw [hrun] at hentry
    exact hentry.1
  | some dispatch =>
    rw [hrun] at hentry
    exact hentry.1

theorem dispatched (h : Coherent s) (hget : s.requests.get? id = some state)
    (hrun : s.running.get? id = some dispatch) :
    state.status = .running ∧ DispatchOk s.policy id state dispatch := by
  have hentry := h.entry id
  rw [hget, hrun] at hentry
  exact hentry.2

theorem exists_record (h : Coherent s) (hrun : s.running.get? id = some dispatch) :
    ∃ state, s.requests.get? id = some state := by
  have hentry := h.entry id
  cases hget : s.requests.get? id with
  | none =>
    rw [hget, hrun] at hentry
    cases hentry
  | some state => exact ⟨state, rfl⟩

theorem running_iff (h : Coherent s) (hget : s.requests.get? id = some state) :
    state.status = .running ↔ ∃ dispatch, s.running.get? id = some dispatch := by
  have hentry := h.entry id
  rw [hget] at hentry
  cases hrun : s.running.get? id with
  | none =>
    rw [hrun] at hentry
    simpa using hentry.2
  | some dispatch =>
    rw [hrun] at hentry
    simpa using hentry.2.1

theorem not_running (h : Coherent s) (hget : s.requests.get? id = some state)
    (hstatus : state.status ≠ .running) : s.running.get? id = none := by
  by_contra hne
  exact hstatus ((h.running_iff hget).mpr (Option.ne_none_iff_exists'.mp hne))

theorem running_none (h : Coherent s) (hget : s.requests.get? id = none) :
    s.running.get? id = none := by
  have hentry := h.entry id
  rw [hget] at hentry
  exact hentry

/-- Other counters, the totals and the expired list carry no part of coherence. -/
theorem congr (h : Coherent s) (hpolicy : s'.policy = s.policy) (hreq : s'.requests = s.requests)
    (hrun : s'.running = s.running)
    (hemitted : s'.stats.emittedTokens = s.stats.emittedTokens) : Coherent s' where
  policy := hpolicy ▸ h.policy
  emitted := hemitted ▸ h.emitted
  entry id := by
    rw [hpolicy, hreq, hrun]
    exact h.entry id

/-- One record is replaced, or stored under a new key, together with its dispatch. -/
theorem update (h : Coherent s) (hpolicy : s'.policy = s.policy)
    (hreq : s'.requests = s.requests.insert id state')
    (hrun : ∀ id', id' ≠ id → s'.running.get? id' = s.running.get? id')
    (hentry : EntryOk s.policy id (some state') (s'.running.get? id))
    (hemitted : s'.stats.emittedTokens < 2 ^ 64) : Coherent s' where
  policy := hpolicy ▸ h.policy
  emitted := hemitted
  entry id' := by
    rw [hpolicy, hreq, SortedMap.get?_insert]
    split_ifs with hid
    · exact hid ▸ hentry
    · rw [hrun id' hid]
      exact h.entry id'

/-- Terminal records have no dispatch, so they can be dropped. -/
theorem prune (h : Coherent s) (hpolicy : s'.policy = s.policy)
    (hreq : s'.requests = s.requests.retain fun _ state => !state.status.isTerminal)
    (hrun : s'.running = s.running)
    (hemitted : s'.stats.emittedTokens = s.stats.emittedTokens) : Coherent s' where
  policy := hpolicy ▸ h.policy
  emitted := hemitted ▸ h.emitted
  entry id := by
    have hentry := h.entry id
    rw [hpolicy, hreq, hrun, SortedMap.get?_retain]
    cases hget : s.requests.get? id with
    | none =>
      rw [hget] at hentry
      exact hentry
    | some state =>
      rw [hget] at hentry
      cases hterm : state.status.isTerminal
      · simpa [Option.filter, hterm] using hentry
      · have hne : state.status ≠ .running := fun hr => by
          simp [hr, RequestStatus.isTerminal] at hterm
        simpa [Option.filter, hterm, EntryOk] using h.not_running hget hne

end Coherent

namespace Inv

variable {s s' : ContinuousScheduler} {id : RequestId} {state state' : RequestState}

theorem reserved_le (h : Inv s) (hget : s.requests.get? id = some state) :
    state.reservedKvBytes ≤ s.reservedKvBytes := by
  rw [h.reserved]
  exact SortedMap.le_sumBy _ hget

theorem new {policy : SchedulerPolicy} (h : ContinuousScheduler.new policy = .ok s) : Inv s := by
  obtain ⟨rfl, hok⟩ := ContinuousScheduler.new_eq_ok h
  exact ⟨⟨hok, fun _ => rfl, Nat.two_pow_pos 64⟩, rfl, Nat.zero_le _, Nat.zero_le _⟩

/-- Other counters, the expired list and the sequence number carry no part of the invariant. -/
theorem congr (h : Inv s) (hpolicy : s'.policy = s.policy) (hreq : s'.requests = s.requests)
    (hrun : s'.running = s.running) (hres : s'.reservedKvBytes = s.reservedKvBytes)
    (hemitted : s'.stats.emittedTokens = s.stats.emittedTokens) : Inv s' where
  toCoherent := h.toCoherent.congr hpolicy hreq hrun hemitted
  reserved := by rw [hres, hreq, h.reserved]
  capacity := by
    rw [hres, hpolicy]
    exact h.capacity
  active := by
    rw [hreq, hpolicy]
    exact h.active

/-- One record is replaced, and what it releases leaves the total. -/
theorem update (h : Inv s) (hs' : Coherent s') (hget : s.requests.get? id = some state)
    (hpolicy : s'.policy = s.policy) (hreq : s'.requests = s.requests.insert id state')
    (hres : s'.reservedKvBytes + state.reservedKvBytes =
      s.reservedKvBytes + state'.reservedKvBytes)
    (hle : state'.reservedKvBytes ≤ state.reservedKvBytes)
    (hterm : state.status.isTerminal → state'.status.isTerminal) : Inv s' where
  toCoherent := hs'
  reserved := by
    have hsum := SortedMap.sumBy_insert_add state' RequestState.reservedKvBytes hget
    have hold := h.reserved
    rw [hreq]
    omega
  capacity := by
    have hcap := h.capacity
    rw [hpolicy]
    omega
  active := by
    have hcount := SortedMap.sumBy_insert_add state'
      (fun state => (!state.status.isTerminal).toNat) hget
    have hold := h.active
    rw [requestCounts, SortedMap.countBy_eq_sumBy] at hold
    rw [hreq, hpolicy, requestCounts, SortedMap.countBy_eq_sumBy]
    have hmono : (!state'.status.isTerminal).toNat ≤ (!state.status.isTerminal).toNat := by
      cases hs : state.status.isTerminal
      · exact Bool.toNat_le _
      · simp [hterm hs]
    omega

/-- A record is stored under a new key within the capacity and the active limit. -/
theorem store (h : Inv s) (hs' : Coherent s') (hget : s.requests.get? id = none)
    (hpolicy : s'.policy = s.policy) (hreq : s'.requests = s.requests.insert id state')
    (hres : s'.reservedKvBytes = s.reservedKvBytes + state'.reservedKvBytes)
    (hcap : s.reservedKvBytes + state'.reservedKvBytes ≤ s.policy.maxReservedKvBytes)
    (hactive : ¬ state'.status.isTerminal →
      (requestCounts s.requests).1 < s.policy.maxActiveRequests) : Inv s' where
  toCoherent := hs'
  reserved := by
    rw [hreq, SortedMap.sumBy_insert_new _ _ hget, hres, h.reserved]
    omega
  capacity := by
    rw [hres, hpolicy]
    exact hcap
  active := by
    have hold := h.active
    rw [hreq, hpolicy, requestCounts, SortedMap.countBy_eq_sumBy,
      SortedMap.sumBy_insert_new _ _ hget, ← SortedMap.countBy_eq_sumBy]
    rw [requestCounts] at hold
    cases hs : state'.status.isTerminal
    · have hlt := hactive (by simp [hs])
      rw [requestCounts] at hlt
      simp only [Bool.not_false, Bool.toNat_true]
      omega
    · simpa using hold

/-- Terminal records hold nothing, so dropping them changes no total. -/
theorem prune (h : Inv s) (hpolicy : s'.policy = s.policy)
    (hreq : s'.requests = s.requests.retain fun _ state => !state.status.isTerminal)
    (hrun : s'.running = s.running) (hres : s'.reservedKvBytes = s.reservedKvBytes)
    (hemitted : s'.stats.emittedTokens = s.stats.emittedTokens) : Inv s' where
  toCoherent := h.toCoherent.prune hpolicy hreq hrun hemitted
  reserved := by
    rw [hres, hreq, SortedMap.sumBy_retain, h.reserved]
    intro id state hget hkeep
    exact (h.record hget).terminal (by simpa using hkeep)
  capacity := by
    rw [hres, hpolicy]
    exact h.capacity
  active := by
    have hold := h.active
    rw [requestCounts, SortedMap.countBy_eq_sumBy] at hold
    rw [hreq, hpolicy, requestCounts, SortedMap.countBy_eq_sumBy, SortedMap.sumBy_retain]
    · exact hold
    · intro id state _ hkeep
      simpa using hkeep

end Inv

end Leone.Scheduler
