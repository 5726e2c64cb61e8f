import Leone.Scheduler.Batch

/-!
# Coherence of every call

Admissions, commits, aborts and cancellations keep every request in agreement with its dispatch,
whatever the counters hold. A commit that stops half-way at an exhausted counter is the one
exception; aborting its quantum restores coherence.
-/

namespace Leone.Scheduler

open Framework Framework.Method

/-! ## Records -/

theorem queuedRecord_ok {s : ContinuousScheduler} {spec : RequestSpec} {nowNs bytes : Nat}
    (ha : Admissible s spec nowNs bytes) : RecordOk spec.id (queuedRecord s spec bytes) := by
  obtain ⟨_, houtput, hpriority, _⟩ := basicAdmissionRejection_eq_none ha.basic
  refine ⟨rfl, ?_, fun _ => hpriority, fun _ => ?_, fun _ => houtput⟩
  · simp [queuedRecord, newRecord, RequestStatus.isTerminal]
  · simp [queuedRecord, newRecord]

theorem rejectedRecord_ok (s : ContinuousScheduler) (spec : RequestSpec) :
    RecordOk spec.id (newRecord s spec .rejected 0 0) := by
  refine ⟨rfl, fun _ => rfl, fun h => absurd rfl h, ?_, ?_⟩
  · simp [newRecord, RequestStatus.isTerminal]
  · simp [newRecord, RequestStatus.isTerminal]

theorem validateQuantumCompletion_eq_ok {dispatch : Dispatch} {id : RequestId}
    {emitted progress : Nat}
    (h : validateQuantumCompletion dispatch id emitted progress = .ok ()) :
    emitted ≤ dispatch.tokenBudget ∧ progress ≤ dispatch.tokenBudget ∧
      (dispatch.kind = .prefill → emitted = 0) ∧
      (dispatch.kind = .decode → progress = emitted) := by
  unfold validateQuantumCompletion at h
  split_ifs at h with hbudget hreused hdecode
  rw [not_or, not_lt, not_lt] at hbudget
  refine ⟨hbudget.1, hbudget.2, fun hk => ?_, fun hk => ?_⟩
  · by_contra hne
    exact hreused ⟨hk, hne⟩
  · by_contra hne
    exact hdecode ⟨hk, hne⟩

/-- A committed record is sound: what was emitted moved from the remaining tokens. -/
theorem RecordOk.committed {id : RequestId} {state : RequestState} {kind : DispatchKind}
    {emitted : Nat} (h : RecordOk id state) (progress : Nat) (ready eos : Bool)
    (hstatus : state.status = .running) (hle : kind = .decode → emitted ≤ state.remainingTokens) :
    let record := committedRecord kind emitted progress ready eos state
    RecordOk id (if record.status.isTerminal then { record with reservedKvBytes := 0 }
      else record) := by
  intro record
  have hlive : ¬ state.status.isTerminal := by simp [hstatus, RequestStatus.isTerminal]
  have hpos := h.runnable hlive
  have hpriority : 1 ≤ (record.spec.priority : Nat) := by
    rw [show record.spec = state.spec from committedRecord_spec ..]
    exact h.priority (by simp [hstatus])
  have hkeyed : record.spec.id = id := by
    rw [show record.spec = state.spec from committedRecord_spec ..]
    exact h.keyed
  by_cases hterm : record.status.isTerminal
  · rw [if_pos hterm]
    exact ⟨hkeyed, fun _ => rfl, fun _ => hpriority, fun hne => absurd hterm hne,
      fun hne => absurd hterm hne⟩
  · rw [if_neg hterm]
    refine ⟨hkeyed, fun ht => absurd ht hterm, fun _ => hpriority, fun _ => ?_, fun _ => ?_⟩
    · have hold := h.tokens hlive
      cases kind with
      | prefill => exact hold
      | decode =>
        have hle := hle rfl
        simp only [record, committedRecord, progressedRecord]
        omega
    · cases kind with
      | prefill => exact hpos
      | decode =>
        by_contra hzero
        have hrem : (progressedRecord .decode emitted progress ready state).remainingTokens = 0 :=
          Nat.lt_one_iff.mp (not_le.mp hzero)
        apply hterm
        simp only [record, committedRecord, settledStatus, hrem]
        split_ifs <;> simp_all [RequestStatus.isTerminal]

/-! ## Transitions -/

namespace Coherent

variable {s s' : ContinuousScheduler} {id : RequestId} {state : RequestState}
  {dispatch : Dispatch}

/-- Storing a sound record that does not run, under a new key. -/
theorem stored (h : Coherent s) (hget : s.requests.get? id = none) (hpolicy : s'.policy = s.policy)
    (hreq : s'.requests = s.requests.insert id state) (hrun : s'.running = s.running)
    (hrecord : RecordOk id state) (hstatus : state.status ≠ .running)
    (hemitted : s'.stats.emittedTokens = s.stats.emittedTokens) : Coherent s' := by
  refine h.update hpolicy hreq (fun _ _ => by rw [hrun]) ?_ (hemitted ▸ h.emitted)
  rw [hrun, h.running_none hget]
  exact ⟨hrecord, hstatus⟩

theorem admitReturns {spec : RequestSpec} {nowNs : Nat} {outcome : AdmissionOutcome}
    (h : Coherent s) (hr : AdmitReturns s spec nowNs outcome s') : Coherent s' := by
  obtain ⟨hnone, _, _, hr⟩ := hr
  cases outcome with
  | rejected reason =>
    obtain ⟨-, rfl⟩ := hr
    exact h.stored hnone rfl rfl rfl (rejectedRecord_ok s spec) (by simp [newRecord]) rfl
  | admitted bytes =>
    obtain ⟨ha, rfl⟩ := hr
    exact h.stored hnone rfl rfl rfl (queuedRecord_ok ha) (by simp [queuedRecord, newRecord]) rfl

theorem admitFails {spec : RequestSpec} {nowNs : Nat} {fault : Fault SchedulerError}
    (h : Coherent s) (hf : AdmitFails s spec nowNs fault s') : Coherent s' ∧ fault ≠ .panic := by
  cases hf with
  | duplicate | future => exact ⟨h, by simp⟩
  | reservation => exact ⟨h.congr rfl rfl rfl rfl, by simp⟩
  | strandedRejected hnone =>
    exact ⟨h.stored hnone rfl rfl rfl (rejectedRecord_ok s spec) (by simp [newRecord]) rfl,
      by simp⟩
  | strandedQueued bytes hnone _ ha =>
    exact ⟨h.stored hnone rfl rfl rfl (queuedRecord_ok ha) (by simp [queuedRecord, newRecord])
      rfl, by simp⟩

theorem completeReturns {emitted progress : Nat} {ready eos : Bool}
    {completion : QuantumCompletion} (h : Coherent s)
    (hr : CompleteReturns s id emitted progress ready eos completion s' dispatch state) :
    Coherent s' := by
  have hstatus := (h.dispatched hr.request hr.running).1
  have hrecord := (h.record hr.request).committed progress ready eos hstatus hr.emitted_le
  rw [hr.state_eq]
  refine h.update rfl rfl (fun id' hid' => ?_) ?_ ?_
  · exact (SortedMap.get?_remove _ _ _).trans (if_neg hid')
  · rw [show (committedState s id _ _).running.get? id = none from SortedMap.get?_remove_self _ _]
    refine ⟨hrecord, ?_⟩
    split_ifs
    · exact settledStatus_ne_running _ _ _
    · exact settledStatus_ne_running _ _ _
  · obtain ⟨_, _, _, hstats⟩ := committedStats_eq dispatch.kind emitted progress ready eos state
      s.stats
    change (committedStats dispatch.kind emitted progress ready eos state s.stats).emittedTokens <
      2 ^ 64
    rw [hstats]
    cases dispatch.kind <;> exact hr.fits.1

/-- Aborting a quantum leaves a sound terminal record, also after a commit of it that stopped
half-way. -/
theorem aborted {state' : RequestState} {stats : SchedulerStats} (h : Coherent s)
    (hget : s.requests.get? id = some state) (hstatus : state.status = .running)
    (hspec : state'.spec = state.spec) (hemitted : stats.emittedTokens = s.stats.emittedTokens) :
    Coherent (abortedState { s with requests := s.requests.insert id state', stats } id state') := by
  have hrecord := h.record hget
  have hpriority := hrecord.priority (by simp [hstatus])
  have hreq : (abortedState { s with requests := s.requests.insert id state', stats } id
      state').requests = s.requests.insert id { abortedRecord state' with reservedKvBytes := 0 } :=
    SortedMap.insert_insert _ _ _ _
  refine h.update rfl hreq (fun id' hid' => ?_) ?_ ?_
  · exact (SortedMap.get?_remove _ _ _).trans (if_neg hid')
  · rw [show (abortedState _ id state').running.get? id = none from SortedMap.get?_remove_self _ _]
    refine ⟨⟨?_, fun _ => rfl, fun _ => ?_, ?_, ?_⟩, by simp [abortedRecord]⟩
    · exact (congrArg RequestSpec.id hspec).trans hrecord.keyed
    · exact le_of_le_of_eq hpriority (congrArg (fun spec => (spec.priority : Nat)) hspec.symm)
    · simp [abortedRecord, RequestStatus.isTerminal]
    · simp [abortedRecord, RequestStatus.isTerminal]
  · exact lt_of_eq_of_lt hemitted h.emitted

theorem cancelled (h : Coherent s) (hget : s.requests.get? id = some state)
    (hstatus : state.status = .queued) : Coherent (cancelledState s id state) := by
  have hrecord := h.record hget
  refine h.update rfl rfl (fun _ _ => rfl) ?_ h.emitted
  rw [show (cancelledState s id state).running = s.running from rfl,
    h.not_running hget (by simp [hstatus])]
  exact ⟨⟨hrecord.keyed, fun _ => rfl, fun _ => hrecord.priority (by simp [hstatus]),
    by simp [RequestStatus.isTerminal], by simp [RequestStatus.isTerminal]⟩, by simp⟩

theorem flagged (h : Coherent s) (hget : s.requests.get? id = some state) :
    Coherent (flaggedState s id state) := by
  have hentry := h.entry id
  refine h.update rfl rfl (fun _ _ => rfl) ?_ h.emitted
  change EntryOk s.policy id (some { state with cancellationRequested := true })
    (s.running.get? id)
  rw [hget] at hentry
  cases hrun : s.running.get? id with
  | none =>
    rw [hrun] at hentry
    obtain ⟨hr, hne⟩ := hentry
    exact ⟨⟨hr.keyed, hr.terminal, hr.priority, hr.tokens, hr.runnable⟩, hne⟩
  | some dispatch =>
    rw [hrun] at hentry
    obtain ⟨hr, hstatus, hd⟩ := hentry
    exact ⟨⟨hr.keyed, hr.terminal, hr.priority, hr.tokens, hr.runnable⟩, hstatus,
      ⟨hd.keyed, hd.pos, hd.prefill, hd.decode⟩⟩

theorem cancelReturns {status : RequestStatus} (h : Coherent s)
    (hget : s.requests.get? id = some state) (hr : CancelReturns s id state status s') :
    Coherent s' := by
  unfold CancelReturns at hr
  split at hr
  · obtain ⟨-, rfl⟩ := hr
    exact h.cancelled hget ‹_›
  · obtain ⟨-, rfl⟩ := hr
    exact h.flagged hget
  · obtain ⟨-, rfl⟩ := hr
    exact h

/-- Of a coherent state's validated commit, only a reservation above the total can panic. -/
theorem panic_cause {emitted progress : Nat} (h : Coherent s)
    (hrun : s.running.get? id = some dispatch) (hget : s.requests.get? id = some state)
    (hvalid : validateQuantumCompletion dispatch id emitted progress = .ok ())
    (hcause : (state.spec.priority : Nat) = 0 ∨
      (dispatch.kind = .decode ∧ state.remainingTokens < emitted) ∨
      s.reservedKvBytes < state.reservedKvBytes) :
    s.reservedKvBytes < state.reservedKvBytes := by
  obtain ⟨hstatus, hdispatch⟩ := h.dispatched hget hrun
  obtain ⟨hemitted, -, -, -⟩ := validateQuantumCompletion_eq_ok hvalid
  rcases hcause with hpriority | ⟨hk, hlt⟩ | hlt
  · have hpos := (h.record hget).priority (by simp [hstatus])
    omega
  · have hbudget := (hdispatch.decode hk).2
    omega
  · exact hlt

end Coherent

end Leone.Scheduler
