import Leone.Scheduler.Accounting

/-!
# Counts and watermarks

Every admitted request is in exactly one of the closed counters or in a nonterminal record, and
the watermarks cover every state of a run. The watermark of the queue moves at admissions only,
so a quantum that returns its request to the queue may lift the queue above it.
-/

namespace Leone.Scheduler

open Framework Framework.Method

/-! ## Counting records -/

/-- The number of admitted requests that ended. -/
def SchedulerStats.closed (stats : SchedulerStats) : Nat :=
  stats.completedRequests + stats.cancelledRequests + stats.expiredRequests

def ContinuousScheduler.liveCount (s : ContinuousScheduler) : Nat := (requestCounts s.requests).1
def ContinuousScheduler.queuedCount (s : ContinuousScheduler) : Nat := (requestCounts s.requests).2

def RequestState.live (state : RequestState) : Nat := (!state.status.isTerminal).toNat
def RequestState.queued (state : RequestState) : Nat :=
  (decide (state.status = .queued)).toNat

theorem RequestState.live_le (state : RequestState) : state.live ≤ 1 := Bool.toNat_le _
theorem RequestState.queued_le (state : RequestState) : state.queued ≤ 1 := Bool.toNat_le _

section Records

variable {s s' : ContinuousScheduler} {id : RequestId} {state state' : RequestState}

theorem liveCount_eq (s : ContinuousScheduler) :
    s.liveCount = s.requests.sumBy RequestState.live := SortedMap.countBy_eq_sumBy _ _

theorem queuedCount_eq (s : ContinuousScheduler) :
    s.queuedCount = s.requests.sumBy RequestState.queued := SortedMap.countBy_eq_sumBy _ _

theorem counts_update (hget : s.requests.get? id = some state)
    (hreq : s'.requests = s.requests.insert id state') :
    s'.liveCount + state.live = s.liveCount + state'.live ∧
      s'.queuedCount + state.queued = s.queuedCount + state'.queued := by
  simp only [liveCount_eq, queuedCount_eq, hreq]
  exact ⟨SortedMap.sumBy_insert_add _ _ hget, SortedMap.sumBy_insert_add _ _ hget⟩

theorem counts_store (s' : ContinuousScheduler) (hget : s.requests.get? id = none)
    (hreq : s'.requests = s.requests.insert id state') :
    s'.liveCount = state'.live + s.liveCount ∧
      s'.queuedCount = state'.queued + s.queuedCount := by
  simp only [liveCount_eq, queuedCount_eq, hreq]
  exact ⟨SortedMap.sumBy_insert_new _ _ hget, SortedMap.sumBy_insert_new _ _ hget⟩

theorem counts_prune (s' : ContinuousScheduler)
    (hreq : s'.requests = s.requests.retain fun _ state => !state.status.isTerminal) :
    s'.liveCount = s.liveCount ∧ s'.queuedCount = s.queuedCount := by
  simp only [liveCount_eq, queuedCount_eq, hreq]
  refine ⟨SortedMap.sumBy_retain _ _ _ ?_, SortedMap.sumBy_retain _ _ _ ?_⟩
  · intro _ state _ hdropped
    simpa [RequestState.live] using hdropped
  · intro _ state _ hdropped
    cases hstatus : state.status <;> simp [hstatus, RequestStatus.isTerminal] at hdropped <;>
      simp [RequestState.queued, hstatus]

theorem live_le_liveCount (hget : s.requests.get? id = some state) : state.live ≤ s.liveCount := by
  rw [liveCount_eq]
  exact SortedMap.le_sumBy _ hget

end Records

/-! ## Room for a quantum that returns to the queue -/

/-- A commit that returns its request to the queue finds the watermark above the queue. -/
def RequeueRoom (s : ContinuousScheduler) (id : RequestId) (emitted progress : Nat)
    (ready eos : Bool) : Prop :=
  ∀ dispatch ∈ s.running.get? id, ∀ state ∈ s.requests.get? id,
    validateQuantumCompletion dispatch id emitted progress = .ok () →
    QuantumFits dispatch.kind emitted progress ready state s.stats →
    state.cancellationRequested = false →
    (dispatch.kind = .decode → eos = false ∧ emitted < state.remainingTokens) →
    s.queuedCount < s.stats.maxQueueDepth

instance (s : ContinuousScheduler) (id : RequestId) (emitted progress : Nat) (ready eos : Bool) :
    Decidable (RequeueRoom s id emitted progress ready eos) :=
  inferInstanceAs (Decidable (∀ dispatch ∈ s.running.get? id, ∀ state ∈ s.requests.get? id, _))

/-- What a call needs for the counts and the watermarks to survive it. -/
def Call.KeepsBooks (s : ContinuousScheduler) : Call → Prop
  | .admitRequest spec nowNs => AdmissionRoom s spec nowNs
  | .completeQuantum id emitted eos => DecodeRoom s id emitted emitted ∧
    ((∀ dispatch ∈ s.running.get? id, dispatch.kind = .decode) →
      RequeueRoom s id emitted emitted false eos)
  | .completeQuantumWithProgress id emitted progress ready eos =>
    DecodeRoom s id emitted progress ∧ RequeueRoom s id emitted progress ready eos
  | .dispatchBatch .. | .abortQuantum _ | .cancel _ | .takeExpiredDeadlines | .pruneTerminal =>
    True

theorem Call.KeepsBooks.hasRoom {s : ContinuousScheduler} {call : Call} (h : call.KeepsBooks s) :
    call.HasRoom s := by
  cases call with
  | completeQuantum | completeQuantumWithProgress => exact h.1
  | admitRequest | dispatchBatch | abortQuantum | cancel | takeExpiredDeadlines
  | pruneTerminal => trivial

/-- A commit counts the request as ended exactly when its record ends. -/
theorem committed_closed (kind : DispatchKind) (emitted progress : Nat) (ready eos : Bool)
    (state : RequestState) {stats : SchedulerStats} (hroom : stats.closed + 1 < 2 ^ 64) :
    (committedStats kind emitted progress ready eos state stats).closed +
      (committedRecord kind emitted progress ready eos state).live = stats.closed + 1 := by
  have hprogressed : progressedStats kind emitted progress stats = { stats with
      prefillChunks := (progressedStats kind emitted progress stats).prefillChunks
      prefillTokens := (progressedStats kind emitted progress stats).prefillTokens
      decodeQuanta := (progressedStats kind emitted progress stats).decodeQuanta
      emittedTokens := (progressedStats kind emitted progress stats).emittedTokens } := by
    cases kind <;> rfl
  simp only [SchedulerStats.closed] at hroom
  have hcompleted : wrappingAdd 64 stats.completedRequests 1 = stats.completedRequests + 1 :=
    wrappingAdd_of_lt (by omega)
  have hcancelled : wrappingAdd 64 stats.cancelledRequests 1 = stats.cancelledRequests + 1 :=
    wrappingAdd_of_lt (by omega)
  unfold committedStats applyQuantumStatus committedRecord settledStatus
  rw [hprogressed]
  split_ifs <;>
    simp only [SchedulerStats.closed, RequestState.live, RequestStatus.isTerminal, hcompleted,
      hcancelled, Bool.not_true, Bool.not_false, Bool.toNat_true, Bool.toNat_false] <;> omega

theorem committed_marks (kind : DispatchKind) (emitted progress : Nat) (ready eos : Bool)
    (state : RequestState) (stats : SchedulerStats) :
    stats.admittedRequests =
      (committedStats kind emitted progress ready eos state stats).admittedRequests ∧
    stats.maxQueueDepth =
      (committedStats kind emitted progress ready eos state stats).maxQueueDepth ∧
    stats.maxReservedKvBytes =
      (committedStats kind emitted progress ready eos state stats).maxReservedKvBytes := by
  obtain ⟨_, _, _, hstats⟩ := committedStats_eq kind emitted progress ready eos state stats
  rw [hstats]
  cases kind <;> exact ⟨rfl, rfl, rfl⟩

/-- When a commit returns its record to the queue. -/
theorem committed_queued (kind : DispatchKind) (emitted progress : Nat) (ready eos : Bool)
    (state : RequestState)
    (h : (committedRecord kind emitted progress ready eos state).status = .queued) :
    state.cancellationRequested = false ∧
      (kind = .decode → eos = false ∧ emitted < state.remainingTokens) := by
  change settledStatus kind eos (progressedRecord kind emitted progress ready state) = .queued at h
  have hcancel := (progressedRecord_standing kind emitted progress ready state).cancellation
  unfold settledStatus at h
  rw [hcancel] at h
  split_ifs at h with hflag hkind hends
  · exact ⟨by simpa using hflag, fun hk => absurd (hkind.symm.trans hk) (by simp)⟩
  · refine ⟨by simpa using hflag, fun hk => ?_⟩
    subst hk
    simp only [progressedRecord, not_or] at hends
    exact ⟨by simpa using hends.1, by omega⟩

/-! ## The books -/

/-- Every admitted request is counted once, and the watermarks cover the state at hand as well as
an earlier queue `depth` and reservation of `bytes`. -/
structure Counted (depth bytes : Nat) (s : ContinuousScheduler) : Prop where
  sequence_lt : s.nextSequence < 2 ^ 64
  admitted_le : s.stats.admittedRequests ≤ s.nextSequence
  admitted : s.stats.admittedRequests = s.stats.closed + s.liveCount
  queued : s.queuedCount ≤ s.stats.maxQueueDepth
  reserved : s.reservedKvBytes ≤ s.stats.maxReservedKvBytes
  depth_le : depth ≤ s.stats.maxQueueDepth
  bytes_le : bytes ≤ s.stats.maxReservedKvBytes

/-- Two versions of the counters with the same admissions and watermarks. -/
structure SameMarks (stats stats' : SchedulerStats) : Prop where
  admitted : stats'.admittedRequests = stats.admittedRequests
  depth : stats'.maxQueueDepth = stats.maxQueueDepth
  bytes : stats'.maxReservedKvBytes = stats.maxReservedKvBytes

theorem SameMarks.refl (stats : SchedulerStats) : SameMarks stats stats := ⟨rfl, rfl, rfl⟩

namespace Counted

variable {s s' : ContinuousScheduler} {id : RequestId} {state state' : RequestState}
  {depth bytes : Nat}

/-- Changes that leave the counts, the reservation and the counters of the books. -/
theorem congr (h : Counted depth bytes s) (hlive : s'.liveCount = s.liveCount)
    (hqueued : s'.queuedCount = s.queuedCount) (hseq : s'.nextSequence = s.nextSequence)
    (hres : s'.reservedKvBytes = s.reservedKvBytes) (hmarks : SameMarks s.stats s'.stats)
    (hclosed : s'.stats.closed = s.stats.closed) : Counted depth bytes s' where
  sequence_lt := hseq ▸ h.sequence_lt
  admitted_le := by
    rw [hmarks.admitted, hseq]
    exact h.admitted_le
  admitted := by
    rw [hmarks.admitted, hclosed, hlive]
    exact h.admitted
  queued := by
    rw [hqueued, hmarks.depth]
    exact h.queued
  reserved := by
    rw [hres, hmarks.bytes]
    exact h.reserved
  depth_le := hmarks.depth ▸ h.depth_le
  bytes_le := hmarks.bytes ▸ h.bytes_le

/-- One record is replaced. A record that ends moves to a closed counter, and one that returns
to the queue finds the watermark above the queue. -/
theorem update (h : Counted depth bytes s) (hget : s.requests.get? id = some state)
    (hreq : s'.requests = s.requests.insert id state') (hseq : s'.nextSequence = s.nextSequence)
    (hres : s'.reservedKvBytes ≤ s.reservedKvBytes) (hmarks : SameMarks s.stats s'.stats)
    (hclosed : s'.stats.closed + state'.live = s.stats.closed + state.live)
    (hqueued : state'.queued ≤ state.queued ∨ s.queuedCount < s.stats.maxQueueDepth) :
    Counted depth bytes s' := by
  obtain ⟨hlive, hdepth⟩ := counts_update hget hreq
  have hadmitted := h.admitted
  have hwas := h.queued
  have hone := state'.queued_le
  refine ⟨hseq ▸ h.sequence_lt, ?_, ?_, ?_, ?_, hmarks.depth ▸ h.depth_le,
    hmarks.bytes ▸ h.bytes_le⟩
  · rw [hmarks.admitted, hseq]
    exact h.admitted_le
  · rw [hmarks.admitted]
    omega
  · rw [hmarks.depth]
    omega
  · rw [hmarks.bytes]
    exact hres.trans h.reserved

/-- The closed counters have room for a request that is still live. -/
theorem closed_lt (h : Counted depth bytes s) (hget : s.requests.get? id = some state)
    (hlive : ¬ state.status.isTerminal) : s.stats.closed + 1 < 2 ^ 64 := by
  have hone : state.live = 1 := by simp [RequestState.live, hlive]
  have hle := live_le_liveCount hget
  have hadmitted := h.admitted
  have hadmitted_le := h.admitted_le
  have hlt := h.sequence_lt
  omega

theorem counter_le (h : s.stats.closed + 1 < 2 ^ 64) :
    wrappingAdd 64 s.stats.completedRequests 1 = s.stats.completedRequests + 1 ∧
      wrappingAdd 64 s.stats.cancelledRequests 1 = s.stats.cancelledRequests + 1 ∧
      wrappingAdd 64 s.stats.expiredRequests 1 = s.stats.expiredRequests + 1 := by
  simp only [SchedulerStats.closed] at h
  refine ⟨wrappingAdd_of_lt ?_, wrappingAdd_of_lt ?_, wrappingAdd_of_lt ?_⟩ <;> omega

/-! ### Dispatching -/

theorem expired (h : Counted depth bytes s) (hget : s.requests.get? id = some state)
    (hqueued : state.status = .queued) : Counted depth bytes (expiredState s id state) := by
  have hlive : ¬ state.status.isTerminal := by simp [hqueued, RequestStatus.isTerminal]
  have hone : state.live = 1 := by simp [RequestState.live, hlive]
  obtain ⟨-, -, hexpired⟩ := counter_le (h.closed_lt hget hlive)
  refine h.update hget rfl rfl (Nat.sub_le _ _) ⟨rfl, rfl, rfl⟩ ?_ (.inl ?_)
  · simp only [expiredState, SchedulerStats.closed, hexpired, hone]
    simp [expiredRecord, RequestState.live, RequestStatus.isTerminal]
    omega
  · simp [expiredRecord, RequestState.queued]

theorem started {nowNs : Nat} (h : Counted depth bytes s)
    (hget : s.requests.get? id = some state) (hqueued : state.status = .queued) :
    Counted depth bytes (startedState s nowNs id state) := by
  refine h.update hget rfl rfl le_rfl (.refl _) ?_ (.inl ?_)
  · simp [startedState, startedRecord, RequestState.live, hqueued, RequestStatus.isTerminal]
  · simp [startedRecord, RequestState.queued]

theorem expireDeadlines (h : Counted depth bytes s) (hcoh : Coherent s) (nowNs : Nat) :
    (expireDeadlines nowNs).Ends s (fun _ s' => Counted depth bytes s')
      (fun fault _ => fault = .panic) := by
  simp only [Scheduler.expireDeadlines, ends_bind, ends_get]
  have hnodup := hcoh.keyed.nodup_dueIds nowNs
  have hids := hcoh.keyed.allQueued_dueIds nowNs
  change (forM (dueIds s nowNs) expireOne).Ends s _ _
  generalize dueIds s nowNs = ids at hnodup hids
  clear hcoh
  induction ids generalizing s with
  | nil => exact h
  | cons id ids ih =>
    obtain ⟨hfresh, hnodup⟩ := List.nodup_cons.mp hnodup
    obtain ⟨state, hget, hqueued⟩ := hids id List.mem_cons_self
    simp only [List.forM_cons, ends_bind]
    refine (expireOne_ends hget).mono ?_ fun _ _ hf => hf.1
    intro _ s' hs'
    subst hs'
    exact ih (h.expired hget hqueued) hnodup (hids.tail hfresh rfl)

theorem startBatch {ids : List RequestId} {nowNs : Nat} (h : Counted depth bytes s)
    (hnodup : ids.Nodup) (hids : AllQueued s ids) :
    (startBatch ids nowNs).Ends s (fun _ s' => Counted depth bytes s') (fun _ _ => False) := by
  unfold Scheduler.startBatch
  induction ids generalizing s with
  | nil => exact h
  | cons id ids ih =>
    obtain ⟨hfresh, hnodup⟩ := List.nodup_cons.mp hnodup
    obtain ⟨state, hget, hqueued⟩ := hids id List.mem_cons_self
    simp only [List.mapM', ends_bind, ends_pure]
    refine (startOne_ends hget).mono ?_ fun _ _ hf => hf
    intro _ s' hs'
    rw [hs'.2]
    exact ih (h.started hget hqueued) hnodup (hids.tail hfresh rfl)

theorem recordBatchDispatch (h : Counted depth bytes s) (batch : List Dispatch) :
    (recordBatchDispatch batch).Ends s (fun _ s' => Counted depth bytes s')
      (fun _ s' => Counted depth bytes s') := by
  by_cases hempty : batch = []
  · subst hempty
    exact h
  · simp only [Scheduler.recordBatchDispatch, List.isEmpty_iff, hempty, if_false, ends_bind,
      ends_modify, ends_get, ends_orErr]
    exact ⟨fun _ _ => h.congr rfl rfl rfl rfl ⟨rfl, rfl, rfl⟩ rfl,
      fun _ => h.congr rfl rfl rfl rfl ⟨rfl, rfl, rfl⟩ rfl⟩

theorem dispatchBatch (h : Counted depth bytes s) (hcoh : Coherent s) (nowNs limit : Nat) :
    (dispatchBatch nowNs limit).Ends s (fun _ s' => Counted depth bytes s')
      (fun fault s' => fault = .panic ∨ Counted depth bytes s') := by
  simp only [Scheduler.dispatchBatch, ends_bind, ends_get, ends_ensure, ends_pure]
  refine ⟨fun _ => ⟨fun _ => ?_, fun _ => .inr h⟩, fun _ => .inr h⟩
  refine ((h.expireDeadlines hcoh nowNs).and (expireDeadlines_ends hcoh nowNs)).mono ?_ ?_
  · rintro _ expired ⟨hexpired, hcoh', _⟩
    refine (hexpired.startBatch (hcoh'.keyed.nodup_selectBatchIds _ _)
      (hcoh'.keyed.allQueued_selectBatchIds _ _)).mono ?_ fun _ _ hf => hf.elim
    intro batch started hstarted
    exact (hstarted.recordBatchDispatch batch).mono (fun _ _ hs' => hs') fun _ _ hs' => .inr hs'
  · exact fun _ _ hf => .inl hf.1

/-! ### Admissions -/

theorem admitReturns {spec : RequestSpec} {nowNs : Nat} {outcome : AdmissionOutcome}
    (h : Counted depth bytes s) (hr : AdmitReturns s spec nowNs outcome s') :
    Counted depth bytes s' := by
  obtain ⟨hnone, -, hseq, hr⟩ := hr
  have hadmitted := h.admitted
  have hadmitted_le := h.admitted_le
  cases outcome with
  | rejected reason =>
    obtain ⟨-, rfl⟩ := hr
    obtain ⟨hlive, hqueued⟩ := counts_store (rejectedState s spec) hnone rfl
    refine ⟨hseq, hadmitted_le.trans (Nat.le_succ _), ?_, ?_, h.reserved, h.depth_le, h.bytes_le⟩
    · refine hadmitted.trans ?_
      rw [hlive]
      exact congrArg _ (Nat.zero_add _).symm
    · rw [hqueued]
      exact (Nat.zero_add _).trans_le h.queued
  | admitted reservation =>
    obtain ⟨ha, rfl⟩ := hr
    obtain ⟨hlive, hqueued⟩ := counts_store (admittedState s spec reservation) hnone rfl
    have hwrap : wrappingAdd 64 s.stats.admittedRequests 1 = s.stats.admittedRequests + 1 :=
      wrappingAdd_of_lt (by omega)
    have hroom : s.queuedCount < 2 ^ 32 - 1 :=
      ha.queued.trans_le (Nat.le_sub_one_of_lt s.policy.maxQueuedRequests.isLt)
    have hdepth : tryFrom 32 (admittedState s spec reservation).queuedCount =
        some (admittedState s spec reservation).queuedCount := by
      refine tryFrom_eq_some.mpr ⟨?_, rfl⟩
      have hone := (queuedRecord s spec reservation).queued_le
      omega
    have hmax : (admittedState s spec reservation).stats.maxQueueDepth =
        max s.stats.maxQueueDepth (admittedState s spec reservation).queuedCount :=
      congrArg (fun n : Option Nat => max s.stats.maxQueueDepth (n.getD (2 ^ 32 - 1))) hdepth
    refine ⟨hseq, ?_, ?_, ?_, le_max_right _ _, ?_, h.bytes_le.trans (le_max_left _ _)⟩
    · change wrappingAdd 64 s.stats.admittedRequests 1 ≤ s.nextSequence + 1
      omega
    · change wrappingAdd 64 s.stats.admittedRequests 1 = s.stats.closed + _
      have hone : (queuedRecord s spec reservation).live = 1 := rfl
      omega
    · rw [hmax]
      exact le_max_right _ _
    · rw [hmax]
      exact h.depth_le.trans (le_max_left _ _)

theorem admitFails {spec : RequestSpec} {nowNs : Nat} {fault : Fault SchedulerError}
    (h : Counted depth bytes s) (hroom : AdmissionRoom s spec nowNs)
    (hf : AdmitFails s spec nowNs fault s') : Counted depth bytes s' := by
  cases hf with
  | duplicate | future => exact h
  | reservation => exact h.congr rfl rfl rfl rfl ⟨rfl, rfl, rfl⟩ rfl
  | strandedRejected hnone =>
    obtain ⟨hlive, hqueued⟩ :=
      counts_store (strandedState s (newRecord s spec .rejected 0 0)) hnone rfl
    exact h.congr (hlive.trans (Nat.zero_add _)) (hqueued.trans (Nat.zero_add _)) rfl rfl
      ⟨rfl, rfl, rfl⟩ rfl
  | strandedQueued reservation hnone hover ha harrived =>
    exact absurd (hroom reservation ha hnone harrived) (not_lt.mpr hover)

/-! ### Completions -/

theorem completeReturns {emitted progress : Nat} {ready eos : Bool}
    {completion : QuantumCompletion} {dispatch : Dispatch} (h : Counted depth bytes s)
    (hcoh : Coherent s) (hroom : RequeueRoom s id emitted progress ready eos)
    (hr : CompleteReturns s id emitted progress ready eos completion s' dispatch state) :
    Counted depth bytes s' := by
  have hstatus := (hcoh.dispatched hr.request hr.running).1
  have hlive : ¬ state.status.isTerminal := by simp [hstatus, RequestStatus.isTerminal]
  have hone : state.live = 1 := by simp [RequestState.live, hlive]
  have hclosed := committed_closed dispatch.kind emitted progress ready eos state
    (h.closed_lt hr.request hlive)
  obtain ⟨hadmitted, hdepth, hbytes⟩ := committed_marks dispatch.kind emitted progress ready eos
    state s.stats
  have hqueued := committed_queued dispatch.kind emitted progress ready eos state
  rw [hr.state_eq]
  generalize committedRecord dispatch.kind emitted progress ready eos state = record at *
  refine h.update hr.request rfl rfl ?_ ⟨hadmitted.symm, hdepth.symm, hbytes.symm⟩ ?_ ?_
  · simp only [committedState]
    split_ifs <;> omega
  · rw [hone, ← hclosed]
    split_ifs <;> rfl
  · by_cases hback : record.status = .queued
    · obtain ⟨hcancel, hdecode⟩ := hqueued hback
      exact .inr (hroom dispatch hr.running state hr.request hr.valid hr.fits hcancel hdecode)
    · left
      split_ifs <;> simp [RequestState.queued, hback]

theorem completeFails {emitted progress : Nat} {ready : Bool} {fault : Fault SchedulerError}
    (h : Counted depth bytes s)
    (hf : CompleteFails s id emitted progress ready fault s') :
    fault = .panic ∨ Counted depth bytes s' := by
  cases hf with
  | notRunning | invalid | unknown => exact .inr h
  | overflow dispatch state state' stats hrun hget hvalid hfits hp =>
    right
    have hst := hp.standing
    have hsettled := hp.total
    refine h.update hget rfl rfl le_rfl ?_ ?_ (.inl ?_)
    · refine ⟨?_, ?_, ?_⟩ <;> exact (congrArg _ hsettled).trans rfl
    · have hclosed : stats.closed = s.stats.closed := (congrArg _ hsettled).trans rfl
      simp only [RequestState.live, hst.status, hclosed]
    · simp only [RequestState.queued, hst.status, le_refl]
  | panic => exact .inl rfl

/-! ### Aborts and cancellations -/

theorem aborted (h : Counted depth bytes s) (hget : s.requests.get? id = some state)
    (hlive : ¬ state.status.isTerminal) : Counted depth bytes (abortedState s id state) := by
  have hone : state.live = 1 := by simp [RequestState.live, hlive]
  obtain ⟨-, hcancelled, -⟩ := counter_le (h.closed_lt hget hlive)
  refine h.update hget rfl rfl (Nat.sub_le _ _) ⟨rfl, rfl, rfl⟩ ?_ (.inl ?_)
  · simp only [abortedState, SchedulerStats.closed, hcancelled, hone]
    simp [abortedRecord, RequestState.live, RequestStatus.isTerminal]
    omega
  · simp [abortedRecord, RequestState.queued]

theorem cancelled (h : Counted depth bytes s) (hget : s.requests.get? id = some state)
    (hlive : ¬ state.status.isTerminal) : Counted depth bytes (cancelledState s id state) := by
  have hone : state.live = 1 := by simp [RequestState.live, hlive]
  obtain ⟨-, hcancelled, -⟩ := counter_le (h.closed_lt hget hlive)
  refine h.update hget rfl rfl (Nat.sub_le _ _) ⟨rfl, rfl, rfl⟩ ?_ (.inl ?_)
  · simp only [cancelledState, SchedulerStats.closed, hcancelled, hone]
    simp [RequestState.live, RequestStatus.isTerminal]
    omega
  · simp [RequestState.queued]

theorem cancelReturns {status : RequestStatus} (h : Counted depth bytes s)
    (hget : s.requests.get? id = some state) (hr : CancelReturns s id state status s') :
    Counted depth bytes s' := by
  unfold CancelReturns at hr
  split at hr
  · rename_i hqueued
    rw [hr.2]
    exact h.cancelled hget (by simp [hqueued, RequestStatus.isTerminal])
  · rw [hr.2]
    exact h.update hget rfl rfl le_rfl (.refl _) rfl (.inl le_rfl)
  · rw [hr.2]
    exact h

/-! ### Runs -/

theorem exec {call : Call} (h : Counted depth bytes s) (hcoh : Coherent s)
    (hroom : call.KeepsBooks s) :
    call.exec.Ends s (fun _ s' => Counted depth bytes s')
      (fun fault s' => fault = .panic ∨ Counted depth bytes s') := by
  cases call with
  | admitRequest spec nowNs =>
    simp only [Call.exec, ends_bind, ends_pure]
    exact (admit_ends spec nowNs hcoh.policy.page).mono (fun _ _ => h.admitReturns)
      fun _ _ hf => .inr (h.admitFails hroom hf)
  | dispatchBatch nowNs limit =>
    simp only [Call.exec, ends_bind, ends_pure]
    exact h.dispatchBatch hcoh nowNs limit
  | completeQuantum id emitted eos =>
    simp only [Call.exec, ends_bind, ends_pure]
    refine (completeQuantum_ends s id emitted eos).mono ?_ ?_
    · rintro completion s' ⟨dispatch, state, hk, hr⟩
      refine h.completeReturns hcoh (hroom.2 fun dispatch' hrun => ?_) hr
      obtain rfl := Option.some.inj (hr.running.symm.trans hrun)
      exact hk
    · rintro fault s' (⟨rfl, -⟩ | ⟨-, hf⟩)
      · exact .inr h
      · exact h.completeFails hf
  | completeQuantumWithProgress id emitted progress ready eos =>
    simp only [Call.exec, ends_bind, ends_pure]
    refine (completeQuantumWithProgress_ends s id emitted progress ready eos).mono ?_ ?_
    · rintro completion s' ⟨dispatch, state, hr⟩
      exact h.completeReturns hcoh hroom.2 hr
    · exact fun _ _ hf => h.completeFails hf
  | abortQuantum id =>
    simp only [Call.exec, ends_bind, ends_pure]
    refine (abortQuantum_ends s id).mono ?_ ?_
    · rintro _ _ ⟨dispatch, state, hrun, hget, -, rfl⟩
      exact h.aborted hget (by
        simp [(hcoh.dispatched hget hrun).1, RequestStatus.isTerminal])
    · rintro _ _ ⟨rfl, -⟩
      exact .inr h
  | cancel id =>
    simp only [Call.exec, ends_bind, ends_pure]
    refine (cancel_ends s id).mono ?_ ?_
    · rintro status s' ⟨state, hget, hr⟩
      exact h.cancelReturns hget hr
    · rintro _ _ ⟨rfl, -⟩
      exact .inr h
  | takeExpiredDeadlines =>
    simp only [Call.exec, ends_bind, ends_pure]
    exact h.congr rfl rfl rfl rfl (.refl _) rfl
  | pruneTerminal =>
    simp only [Call.exec, ends_bind, ends_pure]
    obtain ⟨hlive, hqueued⟩ := counts_prune (s := s) { s with
      requests := s.requests.retain fun _ state => !state.status.isTerminal } rfl
    exact h.congr hlive hqueued rfl rfl (.refl _) rfl

theorem step {call : Call} (h : Counted depth bytes s) (hinv : Inv s)
    (hroom : call.KeepsBooks s) :
    Inv (Scheduler.step s call) ∧ Counted depth bytes (Scheduler.step s call) := by
  have hexec := hinv.exec_of_room call (fun spec nowNs heq => ?_) hroom.hasRoom
  · refine Ends.after (P := fun s' => Inv s' ∧ Counted depth bytes s')
      ((hexec.and (h.exec hinv.toCoherent hroom)).mono (fun _ _ hs' => hs') ?_)
    rintro fault s' ⟨⟨hinv', hpanic⟩, hcounted⟩
    exact ⟨hinv', hcounted.resolve_left hpanic⟩
  · subst heq
    exact hroom

theorem run {calls : List Call} (h : Counted depth bytes s) (hinv : Inv s)
    (hroom : Along Scheduler.step (fun s call => call.KeepsBooks s) s calls) :
    Inv (Framework.run Scheduler.step s calls) ∧
      Counted depth bytes (Framework.run Scheduler.step s calls) :=
  run_invariant (fun s => Inv s ∧ Counted depth bytes s) ⟨hinv, h⟩
    (fun _ _ hs hcall => hs.2.step hs.1 hcall) hroom

theorem new {policy : SchedulerPolicy} (hnew : ContinuousScheduler.new policy = .ok s) :
    Counted 0 0 s := by
  obtain ⟨rfl, -⟩ := ContinuousScheduler.new_eq_ok hnew
  exact ⟨Nat.two_pow_pos 64, le_rfl, rfl, le_rfl, le_rfl, le_rfl, le_rfl⟩

end Counted

/-- What the counters of the last state of a run say about a state the run passed through. -/
structure Booked (last s : ContinuousScheduler) : Prop where
  admitted : s.stats.admittedRequests = s.stats.completedRequests + s.stats.cancelledRequests +
    s.stats.expiredRequests + s.liveCount
  queued : s.queuedCount ≤ last.stats.maxQueueDepth
  reserved : s.reservedKvBytes ≤ last.stats.maxReservedKvBytes

/-- Every admitted request is counted exactly once, and the watermarks cover every state that the
run passes through. -/
def BooksBalance (s : ContinuousScheduler) (calls : List Call) : Prop :=
  ∀ before after, calls = before ++ after → Booked (run step s calls) (run step s before)

/-- The books balance in every run, as long as a quantum that returns its request to the queue
finds the watermark of the queue above it. -/
theorem counted_once_along (policy : SchedulerPolicy) (s : ContinuousScheduler)
    (calls : List Call) (hnew : ContinuousScheduler.new policy = .ok s)
    (hroom : Along step (fun s call => call.KeepsBooks s) s calls) : BooksBalance s calls := by
  intro before after hcalls
  subst hcalls
  obtain ⟨hbefore, hafter⟩ := (along_append _ _ _).mp hroom
  obtain ⟨hinv, hcounted⟩ := (Counted.new hnew).run (Inv.new hnew) hbefore
  have hfloor : Counted (run step s before).queuedCount (run step s before).reservedKvBytes
      (run step s before) := { hcounted with
    depth_le := hcounted.queued
    bytes_le := hcounted.reserved }
  have hlast := (hfloor.run hinv hafter).2
  rw [← run_append] at hlast
  exact ⟨hcounted.admitted, hlast.depth_le, hlast.bytes_le⟩

/-- One request that is served in two quanta of its prompt and is then cancelled. -/
def servedCalls : List Call :=
  [.admitRequest ⟨1, 0, 3, 0, 4, 1, none⟩ 0, .dispatchBatch 0 1,
    .completeQuantumWithProgress 1 0 2 false false, .dispatchBatch 1 1, .cancel 1,
    .completeQuantumWithProgress 1 0 1 false false, .pruneTerminal]

theorem counted_once_along_served :
    BooksBalance ⟨smallPolicy, ∅, ∅, [], 0, 0, .default⟩ servedCalls :=
  counted_once_along smallPolicy _ _ rfl
    ⟨fun _ _ _ _ => by decide, trivial, ⟨by decide +kernel, by decide +kernel⟩, trivial, trivial,
      ⟨by decide +kernel, by decide +kernel⟩, trivial, trivial⟩

/-- A second request that is admitted while the first one is served. -/
def requeuedCalls : List Call :=
  [.admitRequest ⟨1, 0, 3, 0, 4, 1, none⟩ 0, .dispatchBatch 0 1,
    .admitRequest ⟨2, 0, 3, 0, 4, 1, none⟩ 0, .completeQuantumWithProgress 1 0 2 false false]

theorem queue_depth_fails : ¬ ∀ (policy : SchedulerPolicy) (s : ContinuousScheduler)
    (calls : List Call), ContinuousScheduler.new policy = .ok s → BooksBalance s calls := by
  intro hall
  have hbooked := hall smallPolicy _ requeuedCalls rfl requeuedCalls [] (List.append_nil _).symm
  have hqueued := hbooked.queued
  revert hqueued
  decide +kernel

end Leone.Scheduler
