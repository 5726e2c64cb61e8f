import Leone.Framework.Machine
import Leone.Scheduler.Coherence

/-!
# KV accounting

Every call keeps the scheduler invariant and never panics, as long as sequence numbers last and
every decode commit finds room in the counters it advances. A decode commit without room
deducts its tokens and then fails, and a repetition of it underflows.
-/

namespace Leone.Scheduler

open Framework Framework.Method

/-! ## One call -/

/-- A decode commit finds room in every counter it advances. One that does not has already
deducted its tokens when it fails. -/
def DecodeRoom (s : ContinuousScheduler) (id : RequestId) (emitted progress : Nat) : Prop :=
  ∀ dispatch ∈ s.running.get? id, ∀ state ∈ s.requests.get? id, dispatch.kind = .decode →
    validateQuantumCompletion dispatch id emitted progress = .ok () → 0 < emitted →
    s.stats.decodeQuanta + 1 < 2 ^ 64 ∧ s.stats.emittedTokens + emitted < 2 ^ 64 ∧
      state.virtualRuntime + charge emitted state.spec.priority < 2 ^ 128

instance (s : ContinuousScheduler) (id : RequestId) (emitted progress : Nat) :
    Decidable (DecodeRoom s id emitted progress) :=
  inferInstanceAs (Decidable (∀ dispatch ∈ s.running.get? id, ∀ state ∈ s.requests.get? id, _))

/-- An admission that the scheduler accepts finds a sequence number. -/
def AdmissionRoom (s : ContinuousScheduler) (spec : RequestSpec) (nowNs : Nat) : Prop :=
  ∀ bytes, Admissible s spec nowNs bytes → s.requests.get? spec.id = none →
    (spec.arrivalNs : Nat) ≤ nowNs → s.nextSequence + 1 < 2 ^ 64

namespace Inv

variable {s s' : ContinuousScheduler}

theorem admitReturns {spec : RequestSpec} {nowNs : Nat} {outcome : AdmissionOutcome} (h : Inv s)
    (hr : AdmitReturns s spec nowNs outcome s') : Inv s' := by
  have hcoh := h.toCoherent.admitReturns hr
  obtain ⟨hnone, _, _, hr⟩ := hr
  cases outcome with
  | rejected reason =>
    obtain ⟨-, rfl⟩ := hr
    exact h.store hcoh hnone rfl rfl rfl h.capacity
      (by simp [newRecord, RequestStatus.isTerminal])
  | admitted bytes =>
    obtain ⟨ha, rfl⟩ := hr
    exact h.store hcoh hnone rfl rfl rfl ha.capacity (fun _ => ha.active)

/-- An admission keeps the invariant while sequence numbers last. -/
theorem admitRequest (h : Inv s) {spec : RequestSpec} {nowNs : Nat}
    (hroom : AdmissionRoom s spec nowNs) : (admitRequest spec nowNs).Ends s (fun _ s' => Inv s')
      (fun fault s' => Inv s' ∧ fault ≠ .panic) := by
  refine (admit_ends spec nowNs h.policy.page).mono (fun _ _ => h.admitReturns) ?_
  rintro _ _ hfail
  cases hfail with
  | duplicate => exact ⟨h, by simp⟩
  | future => exact ⟨h, by simp⟩
  | reservation => exact ⟨h.congr rfl rfl rfl rfl rfl, by simp⟩
  | strandedRejected hnone hover hr =>
    refine ⟨h.store (h.toCoherent.admitFails (.strandedRejected hnone hover hr)).1 hnone rfl rfl rfl
      h.capacity ?_, by simp⟩
    simp [newRecord, RequestStatus.isTerminal]
  | strandedQueued bytes hnone hover ha harrived =>
    exact absurd (hroom bytes ha hnone harrived) (not_lt.mpr hover)

theorem completeReturns {id : RequestId} {emitted progress : Nat} {ready eos : Bool}
    {completion : QuantumCompletion} {dispatch : Dispatch} {state : RequestState} (h : Inv s)
    (hr : CompleteReturns s id emitted progress ready eos completion s' dispatch state) :
    Inv s' := by
  have hget := hr.request
  have hstatus := (h.dispatched hget hr.running).1
  have hle := h.reserved_le hget
  have hcoh := h.toCoherent.completeReturns hr
  rw [hr.state_eq] at hcoh ⊢
  refine h.update hcoh hget rfl rfl ?_ ?_ ?_
  · simp only [committedState]
    split_ifs
    · simp only [committedRecord_reserved]
      omega
    · simp only [committedRecord_reserved]
  · split_ifs <;> simp
  · simp [hstatus, RequestStatus.isTerminal]

/-- A commit that failed without deducting tokens leaves the record sound and running. -/
theorem partlyCommitted {id : RequestId} {emitted : Nat} {dispatch : Dispatch}
    {state state' : RequestState} {stats : SchedulerStats} (h : Inv s)
    (hrun : s.running.get? id = some dispatch) (hget : s.requests.get? id = some state)
    (hp : PartlyCommitted dispatch.kind emitted state s.stats state' stats)
    (hzero : dispatch.kind = .decode → emitted = 0) :
    Inv { s with requests := s.requests.insert id state', stats } := by
  have hrecord := h.record hget
  obtain ⟨hstatus, hdispatch⟩ := h.dispatched hget hrun
  have hsame : state'.remainingTokens = state.remainingTokens ∧
      state'.emittedTokens = state.emittedTokens := by
    cases hk : dispatch.kind with
    | prefill => exact hp.prefill hk
    | decode =>
      obtain ⟨hrem, hem⟩ := hp.decode hk
      have hz := hzero hk
      omega
  have hst := hp.standing
  have hcoh : Coherent { s with requests := s.requests.insert id state', stats } := by
    refine h.toCoherent.update rfl rfl (fun _ _ => rfl) ?_ (lt_of_eq_of_lt hp.total.emittedTokens h.emitted)
    change EntryOk s.policy id (some state') (s.running.get? id)
    rw [hrun]
    refine ⟨⟨?_, ?_, ?_, ?_, ?_⟩, ?_, ⟨hdispatch.keyed, hdispatch.pos, hdispatch.prefill, ?_⟩⟩
    · rw [hst.spec, hrecord.keyed]
    · rw [hst.status, hst.reserved]
      exact hrecord.terminal
    · rw [hst.status, hst.spec]
      exact hrecord.priority
    · rw [hst.status, hst.spec, hsame.1, hsame.2]
      exact hrecord.tokens
    · rw [hst.status, hsame.1]
      exact hrecord.runnable
    · rw [hst.status, hstatus]
    · rw [hsame.1]
      exact hdispatch.decode
  refine h.update hcoh hget rfl rfl ?_ ?_ ?_
  · rw [hst.reserved]
  · rw [hst.reserved]
  · rw [hst.status]
    exact fun ht => ht

/-- In a sound state a validated commit has none of the causes of a panic. -/
theorem not_panic_cause {id : RequestId} {emitted progress : Nat} {dispatch : Dispatch}
    {state : RequestState} (h : Inv s) (hrun : s.running.get? id = some dispatch)
    (hget : s.requests.get? id = some state)
    (hvalid : validateQuantumCompletion dispatch id emitted progress = .ok ()) :
    ¬ ((state.spec.priority : Nat) = 0 ∨
      (dispatch.kind = .decode ∧ state.remainingTokens < emitted) ∨
      s.reservedKvBytes < state.reservedKvBytes) := by
  intro hcause
  have hlt := h.toCoherent.panic_cause hrun hget hvalid hcause
  exact absurd (h.reserved_le hget) (not_le.mpr hlt)

theorem completeFails {id : RequestId} {emitted progress : Nat} {ready : Bool}
    {fault : Fault SchedulerError} (h : Inv s) (hroom : DecodeRoom s id emitted progress)
    (hf : CompleteFails s id emitted progress ready fault s') : Inv s' ∧ fault ≠ .panic := by
  cases hf with
  | notRunning | unknown => exact ⟨h, by simp⟩
  | invalid => exact ⟨h, by simp⟩
  | overflow dispatch state state' stats hrun hget hvalid hfits hp =>
    refine ⟨h.partlyCommitted hrun hget hp fun hk => ?_, by simp⟩
    by_contra hne
    obtain ⟨hquanta, htotal, hruntime⟩ :=
      hroom dispatch hrun state hget hk hvalid (Nat.pos_of_ne_zero hne)
    obtain ⟨hemitted, -, -, -⟩ := validateQuantumCompletion_eq_ok hvalid
    obtain ⟨hstatus, hdispatch⟩ := h.dispatched hget hrun
    have hbudget := (hdispatch.decode hk).2
    have htokens := (h.record hget).tokens (by simp [hstatus, RequestStatus.isTerminal])
    have hmax := state.spec.maxOutputTokens.isLt
    apply hfits
    rw [hk]
    exact ⟨htotal, hquanta, by omega, hruntime⟩
  | panic dispatch state _ hrun hget hvalid hcause =>
    exact absurd hcause (h.not_panic_cause hrun hget hvalid)

/-- An aborted quantum gives its reservation back, also after a commit of it that stopped
half-way. -/
theorem aborted_of_partly {id : RequestId} {state state' : RequestState} {stats : SchedulerStats}
    (h : Inv s) (hget : s.requests.get? id = some state) (hstatus : state.status = .running)
    (hspec : state'.spec = state.spec) (hreserved : state'.reservedKvBytes = state.reservedKvBytes)
    (hemitted : stats.emittedTokens = s.stats.emittedTokens) :
    Inv (abortedState { s with requests := s.requests.insert id state', stats } id state') := by
  have hle := h.reserved_le hget
  have hreq : (abortedState { s with requests := s.requests.insert id state', stats } id
      state').requests = s.requests.insert id { abortedRecord state' with reservedKvBytes := 0 } :=
    SortedMap.insert_insert _ _ _ _
  refine h.update (h.toCoherent.aborted hget hstatus hspec hemitted) hget rfl hreq ?_
    (Nat.zero_le _) ?_
  · simp only [abortedState, releasedState, abortedRecord]
    omega
  · simp [hstatus, RequestStatus.isTerminal]

theorem aborted {id : RequestId} {state : RequestState} (h : Inv s)
    (hget : s.requests.get? id = some state) (hstatus : state.status = .running) :
    Inv (abortedState s id state) := by
  have hsame : s.requests.insert id state = s.requests := SortedMap.insert_self hget
  have haborted := h.aborted_of_partly hget hstatus rfl rfl (rfl : s.stats.emittedTokens = _)
  rwa [hsame] at haborted

theorem cancelled {id : RequestId} {state : RequestState} (h : Inv s)
    (hget : s.requests.get? id = some state) (hstatus : state.status = .queued) :
    Inv (cancelledState s id state) := by
  have hle := h.reserved_le hget
  refine h.update (h.toCoherent.cancelled hget hstatus) hget rfl rfl ?_ (Nat.zero_le _) ?_
  · simp only [cancelledState, releasedState]
    omega
  · simp [hstatus, RequestStatus.isTerminal]

theorem flagged {id : RequestId} {state : RequestState} (h : Inv s)
    (hget : s.requests.get? id = some state) : Inv (flaggedState s id state) :=
  h.update (h.toCoherent.flagged hget) hget rfl rfl rfl le_rfl fun ht => ht

theorem abortQuantum (h : Inv s) (id : RequestId) :
    (abortQuantum id).Ends s (fun _ s' => Inv s') (fun fault s' => Inv s' ∧ fault ≠ .panic) := by
  refine (abortQuantum_ends s id).mono ?_ ?_
  · rintro _ _ ⟨dispatch, state, hrun, hget, -, rfl⟩
    exact h.aborted hget (h.dispatched hget hrun).1
  · rintro _ _ ⟨rfl, hfail⟩
    refine ⟨h, ?_⟩
    cases hfail with
    | notRunning | unknown => simp
    | panic state hget hlt =>
      have hle := h.reserved_le hget
      omega

theorem cancelReturns {id : RequestId} {state : RequestState} {status : RequestStatus}
    (h : Inv s) (hget : s.requests.get? id = some state)
    (hr : CancelReturns s id state status s') : Inv s' := by
  unfold CancelReturns at hr
  split at hr
  · obtain ⟨-, rfl⟩ := hr
    exact h.cancelled hget ‹_›
  · obtain ⟨-, rfl⟩ := hr
    exact h.flagged hget
  · obtain ⟨-, rfl⟩ := hr
    exact h

theorem cancel (h : Inv s) (id : RequestId) :
    (cancel id).Ends s (fun _ s' => Inv s') (fun fault s' => Inv s' ∧ fault ≠ .panic) := by
  refine (cancel_ends s id).mono ?_ ?_
  · rintro _ _ ⟨state, hget, hr⟩
    exact h.cancelReturns hget hr
  · rintro _ _ ⟨rfl, hfail⟩
    refine ⟨h, ?_⟩
    cases hfail with
    | unknown => simp
    | panic state hget hlt =>
      have hle := h.reserved_le hget
      omega

end Inv

/-! ## Whole runs -/

def Call.isAdmit : Call → Bool
  | .admitRequest .. => true
  | _ => false

/-- What a call needs for the accounting to survive it. -/
def Call.HasRoom (s : ContinuousScheduler) : Call → Prop
  | .completeQuantum id emitted _ => DecodeRoom s id emitted emitted
  | .completeQuantumWithProgress id emitted progress _ _ => DecodeRoom s id emitted progress
  | _ => True

instance (s : ContinuousScheduler) : (call : Call) → Decidable (call.HasRoom s)
  | .completeQuantum id emitted _ => inferInstanceAs (Decidable (DecodeRoom s id emitted emitted))
  | .completeQuantumWithProgress id emitted progress _ _ =>
    inferInstanceAs (Decidable (DecodeRoom s id emitted progress))
  | .admitRequest .. | .dispatchBatch .. | .abortQuantum _ | .cancel _ | .takeExpiredDeadlines
  | .pruneTerminal => .isTrue trivial

/-- No call panics in a sound state. -/
theorem Inv.exec_ne_panic {s : ContinuousScheduler} (h : Inv s) (call : Call) :
    call.exec.Ends s (fun _ _ => True) (fun fault _ => fault ≠ .panic) := by
  have hfails {id : RequestId} {emitted progress : Nat} {ready : Bool}
      {fault : Fault SchedulerError} {s' : ContinuousScheduler}
      (hf : CompleteFails s id emitted progress ready fault s') : fault ≠ .panic := by
    cases hf with
    | notRunning | invalid | unknown | overflow => simp
    | panic dispatch state _ hrun hget hvalid hcause =>
      exact absurd hcause (h.not_panic_cause hrun hget hvalid)
  cases call with
  | admitRequest spec nowNs =>
    simp only [Call.exec, ends_bind, ends_pure]
    exact (admit_ends spec nowNs h.policy.page).mono (fun _ _ _ => trivial)
      fun _ _ hf => (h.toCoherent.admitFails hf).2
  | dispatchBatch nowNs limit =>
    simp only [Call.exec, ends_bind, ends_pure]
    exact (h.dispatchBatch nowNs limit).mono (fun _ _ _ => trivial) fun _ _ hf => hf.2
  | completeQuantum id emitted eos =>
    simp only [Call.exec, ends_bind, ends_pure]
    refine (completeQuantum_ends s id emitted eos).mono (fun _ _ _ => trivial) ?_
    rintro _ _ (⟨-, rfl, -⟩ | ⟨-, hf⟩)
    · simp
    · exact hfails hf
  | completeQuantumWithProgress id emitted progress ready eos =>
    simp only [Call.exec, ends_bind, ends_pure]
    exact (completeQuantumWithProgress_ends s id emitted progress ready eos).mono
      (fun _ _ _ => trivial) fun _ _ hf => hfails hf
  | abortQuantum id =>
    simp only [Call.exec, ends_bind, ends_pure]
    exact (h.abortQuantum id).mono (fun _ _ _ => trivial) fun _ _ hf => hf.2
  | cancel id =>
    simp only [Call.exec, ends_bind, ends_pure]
    exact (h.cancel id).mono (fun _ _ _ => trivial) fun _ _ hf => hf.2
  | takeExpiredDeadlines => exact trivial
  | pruneTerminal => exact trivial

/-- One call keeps the invariant and does not panic. -/
theorem Inv.exec_of_room {s : ContinuousScheduler} (h : Inv s) (call : Call)
    (hseq : ∀ spec nowNs, call = .admitRequest spec nowNs → AdmissionRoom s spec nowNs)
    (hroom : call.HasRoom s) :
    call.exec.Ends s (fun _ s' => Inv s') (fun fault s' => Inv s' ∧ fault ≠ .panic) := by
  cases call with
  | admitRequest spec nowNs =>
    simp only [Call.exec, ends_bind, ends_pure]
    exact h.admitRequest (hseq spec nowNs rfl)
  | dispatchBatch nowNs limit =>
    simp only [Call.exec, ends_bind, ends_pure]
    exact h.dispatchBatch nowNs limit
  | completeQuantum id emitted eos =>
    simp only [Call.exec, ends_bind, ends_pure]
    refine (completeQuantum_ends s id emitted eos).mono ?_ ?_
    · rintro _ _ ⟨dispatch, state, -, hr⟩
      exact h.completeReturns hr
    · rintro _ _ (⟨rfl, rfl, -⟩ | ⟨-, hf⟩)
      · exact ⟨h, by simp⟩
      · exact h.completeFails hroom hf
  | completeQuantumWithProgress id emitted progress ready eos =>
    simp only [Call.exec, ends_bind, ends_pure]
    refine (completeQuantumWithProgress_ends s id emitted progress ready eos).mono ?_ ?_
    · rintro _ _ ⟨dispatch, state, hr⟩
      exact h.completeReturns hr
    · exact fun _ _ hf => h.completeFails hroom hf
  | abortQuantum id =>
    simp only [Call.exec, ends_bind, ends_pure]
    exact h.abortQuantum id
  | cancel id =>
    simp only [Call.exec, ends_bind, ends_pure]
    exact h.cancel id
  | takeExpiredDeadlines =>
    simp only [Call.exec, takeExpiredDeadlines, ends_bind, ends_get, ends_set, ends_pure]
    exact h.congr rfl rfl rfl rfl rfl
  | pruneTerminal =>
    simp only [Call.exec, pruneTerminal, ends_bind, ends_modify, ends_pure]
    exact h.prune rfl rfl rfl rfl rfl

theorem Inv.exec {s : ContinuousScheduler} (h : Inv s) (call : Call)
    (hseq : call.isAdmit → s.nextSequence + 1 < 2 ^ 64) (hroom : call.HasRoom s) :
    call.exec.Ends s (fun _ s' => Inv s') (fun fault s' => Inv s' ∧ fault ≠ .panic) := by
  refine h.exec_of_room call (fun spec nowNs heq _ _ _ _ => hseq ?_) hroom
  rw [heq]
  rfl

/-- The policy never changes and only an admission takes a sequence number. -/
def Call.Framed (call : Call) (s s' : ContinuousScheduler) : Prop :=
  s'.policy = s.policy ∧ s'.nextSequence ≤ s.nextSequence + call.isAdmit.toNat

theorem Call.exec_framed {s : ContinuousScheduler} (h : Coherent s) (call : Call) :
    call.exec.Ends s (fun _ s' => call.Framed s s')
      (fun fault s' => fault = .panic ∨ call.Framed s s') := by
  have hfails {id : RequestId} {emitted progress : Nat} {ready : Bool}
      {fault : Fault SchedulerError} {s' : ContinuousScheduler}
      (hf : CompleteFails s id emitted progress ready fault s') :
      fault = .panic ∨ s'.policy = s.policy ∧ s'.nextSequence ≤ s.nextSequence := by
    cases hf with
    | panic => exact .inl rfl
    | notRunning | invalid | unknown | overflow => exact .inr ⟨rfl, le_rfl⟩
  cases call with
  | admitRequest spec nowNs =>
    simp only [Call.exec, ends_bind, ends_pure]
    refine (admit_ends spec nowNs h.policy.page).mono ?_ ?_
    · rintro (bytes | reason) s' ⟨-, -, -, hr⟩
      · rw [hr.2]
        exact ⟨rfl, le_rfl⟩
      · rw [hr.2]
        exact ⟨rfl, le_rfl⟩
    · rintro _ _ hf
      cases hf <;> exact .inr ⟨rfl, Nat.le_add_right _ _⟩
  | dispatchBatch nowNs limit =>
    simp only [Call.exec, ends_bind, ends_pure]
    refine (dispatchBatch_ends h nowNs limit).mono ?_ ?_
    · rintro batch _ ⟨-, expired, started, hr⟩
      rw [hr.state_eq]
      unfold countedState
      split_ifs
      · exact ⟨hr.start.policy.trans hr.expire.policy,
          (hr.start.nextSequence.trans hr.expire.nextSequence).le⟩
      · exact ⟨hr.start.policy.trans hr.expire.policy,
          (hr.start.nextSequence.trans hr.expire.nextSequence).le⟩
    · rintro _ _ (hpanic | ⟨-, hf⟩)
      · exact .inl hpanic
      cases hf with
      | inFlight | zeroLimit => exact .inr ⟨rfl, le_rfl⟩
      | overflow expired started batch _ _ _ he hs =>
        exact .inr ⟨hs.policy.trans he.policy, (hs.nextSequence.trans he.nextSequence).le⟩
  | completeQuantum id emitted eos =>
    simp only [Call.exec, ends_bind, ends_pure]
    refine (completeQuantum_ends s id emitted eos).mono ?_ ?_
    · rintro _ _ ⟨dispatch, state, -, hr⟩
      rw [hr.state_eq]
      exact ⟨rfl, le_rfl⟩
    · rintro _ _ (⟨rfl, -⟩ | ⟨-, hf⟩)
      · exact .inr ⟨rfl, le_rfl⟩
      · exact hfails hf
  | completeQuantumWithProgress id emitted progress ready eos =>
    simp only [Call.exec, ends_bind, ends_pure]
    refine (completeQuantumWithProgress_ends s id emitted progress ready eos).mono ?_
      fun _ _ hf => hfails hf
    rintro _ _ ⟨dispatch, state, hr⟩
    rw [hr.state_eq]
    exact ⟨rfl, le_rfl⟩
  | abortQuantum id =>
    simp only [Call.exec, ends_bind, ends_pure]
    refine (abortQuantum_ends s id).mono ?_ ?_
    · rintro _ _ ⟨dispatch, state, -, -, -, rfl⟩
      exact ⟨rfl, le_rfl⟩
    · rintro _ _ ⟨rfl, -⟩
      exact .inr ⟨rfl, le_rfl⟩
  | cancel id =>
    simp only [Call.exec, ends_bind, ends_pure]
    refine (cancel_ends s id).mono ?_ ?_
    · rintro _ _ ⟨state, -, hr⟩
      unfold CancelReturns at hr
      split at hr <;> rw [hr.2] <;> exact ⟨rfl, le_rfl⟩
    · rintro _ _ ⟨rfl, -⟩
      exact .inr ⟨rfl, le_rfl⟩
  | takeExpiredDeadlines =>
    simp only [Call.exec, ends_bind, ends_pure]
    exact ⟨rfl, le_rfl⟩
  | pruneTerminal =>
    simp only [Call.exec, ends_bind, ends_pure]
    exact ⟨rfl, le_rfl⟩

/-- The accounting identities of one scheduler state. -/
structure Accounted (policy : SchedulerPolicy) (s : ContinuousScheduler) : Prop where
  policy_eq : s.policy = policy
  exact : s.reservedKvBytes = s.requests.sumBy RequestState.reservedKvBytes
  capacity : s.reservedKvBytes ≤ policy.maxReservedKvBytes
  terminal : ∀ id state, s.requests.get? id = some state → state.status.isTerminal →
    state.reservedKvBytes = 0
  running : ∀ id, s.running.contains id ↔ s.status id = some .running
  active : (requestCounts s.requests).1 ≤ policy.maxActiveRequests

theorem Inv.accounted {s : ContinuousScheduler} (h : Inv s) : Accounted s.policy s where
  policy_eq := rfl
  exact := h.reserved
  capacity := h.capacity
  terminal _ _ hget := (h.record hget).terminal
  running id := by
    rw [SortedMap.contains_iff, ContinuousScheduler.status]
    cases hget : s.requests.get? id with
    | none => simp [h.running_none hget]
    | some state => simpa using (h.running_iff hget).symm
  active := h.active

/-- A call leaves exact accounting behind and none of its subtractions underflows. -/
def Call.AccountsExactly (policy : SchedulerPolicy) (s : ContinuousScheduler) (call : Call) :
    Prop :=
  Accounted policy (step s call) ∧
    call.exec.Ends s (fun _ _ => True) (fun fault _ => fault ≠ .panic)

/-- A call with room leaves a sound state, under the same policy. -/
theorem Inv.step_framed {s : ContinuousScheduler} {call : Call} (h : Inv s)
    (hseq : call.isAdmit → s.nextSequence + 1 < 2 ^ 64) (hroom : call.HasRoom s) :
    Inv (step s call) ∧ call.Framed s (step s call) := by
  refine Ends.after (P := fun s' => Inv s' ∧ call.Framed s s') ?_
  refine ((h.exec call hseq hroom).and (Call.exec_framed h.toCoherent call)).mono (fun _ _ hq => hq) ?_
  rintro fault s' ⟨⟨hinv, hne⟩, hpanic | hframed⟩
  · exact absurd hpanic hne
  · exact ⟨hinv, hframed⟩

/-- The first call of a run takes a sequence number only if one is left for it. -/
theorem sequence_lt_of_countP {s : ContinuousScheduler} {call : Call} {calls : List Call}
    (hadmits : s.nextSequence + (call :: calls).countP Call.isAdmit < 2 ^ 64) :
    call.isAdmit → s.nextSequence + 1 < 2 ^ 64 := by
  intro hadm
  rw [List.countP_cons, if_pos hadm] at hadmits
  omega

/-- The calls after the first still find sequence numbers. -/
theorem Call.Framed.countP {s s' : ContinuousScheduler} {call : Call} {calls : List Call}
    (h : call.Framed s s')
    (hadmits : s.nextSequence + (call :: calls).countP Call.isAdmit < 2 ^ 64) :
    s'.nextSequence + calls.countP Call.isAdmit < 2 ^ 64 := by
  have hnext := h.2
  rw [List.countP_cons] at hadmits
  cases hadm : call.isAdmit <;> simp [hadm] at hadmits hnext <;> omega

/-- From a sound state, a run whose calls all have room stays sound. -/
theorem Inv.run_sound {s : ContinuousScheduler} {calls : List Call} (h : Inv s)
    (hadmits : s.nextSequence + calls.countP Call.isAdmit < 2 ^ 64)
    (hroom : Along step (fun s call => call.HasRoom s) s calls) :
    Inv (run step s calls) ∧ (run step s calls).policy = s.policy ∧
      (run step s calls).nextSequence ≤ s.nextSequence + calls.countP Call.isAdmit := by
  induction calls generalizing s with
  | nil => exact ⟨h, rfl, le_rfl⟩
  | cons call calls ih =>
    obtain ⟨hcall, hroom⟩ := hroom
    obtain ⟨hinv, hframed⟩ := h.step_framed (sequence_lt_of_countP hadmits) hcall
    obtain ⟨hend, hpolicy, hnext⟩ := ih hinv (hframed.countP hadmits) hroom
    refine ⟨hend, hpolicy.trans hframed.1, hnext.trans ?_⟩
    have hle := hframed.2
    rw [List.countP_cons]
    cases hadm : call.isAdmit <;> simp [hadm] at hle ⊢ <;> omega

/-- From a sound state, a run whose calls all have room accounts exactly after every call. -/
theorem Inv.along_accountsExactly {s : ContinuousScheduler} {calls : List Call} (h : Inv s)
    (hadmits : s.nextSequence + calls.countP Call.isAdmit < 2 ^ 64)
    (hroom : Along step (fun s call => call.HasRoom s) s calls) :
    Along step (Call.AccountsExactly s.policy) s calls := by
  induction calls generalizing s with
  | nil => trivial
  | cons call calls ih =>
    obtain ⟨hcall, hroom⟩ := hroom
    have hexec := h.exec call (sequence_lt_of_countP hadmits) hcall
    obtain ⟨hinv, hframed⟩ := h.step_framed (sequence_lt_of_countP hadmits) hcall
    refine ⟨⟨hframed.1 ▸ hinv.accounted, hexec.mono (fun _ _ _ => trivial) fun _ _ hf => hf.2⟩, ?_⟩
    rw [← hframed.1]
    exact ih hinv (hframed.countP hadmits) hroom

/-- Admission accounting is exact and subtractions never underflow, in every run of fewer than
`2 ^ 64` admissions whose decode commits find room in the counters they advance. -/
theorem accounting_exact_along (policy : SchedulerPolicy) (s : ContinuousScheduler)
    (calls : List Call) (hnew : ContinuousScheduler.new policy = .ok s)
    (hadmits : calls.countP Call.isAdmit < 2 ^ 64)
    (hroom : Along step (fun s call => call.HasRoom s) s calls) :
    Along step (Call.AccountsExactly policy) s calls := by
  have hinv := Inv.new hnew
  obtain ⟨rfl, -⟩ := ContinuousScheduler.new_eq_ok hnew
  refine hinv.along_accountsExactly ?_ hroom
  simpa using hadmits

/-- A policy for short examples. -/
def smallPolicy : SchedulerPolicy := ⟨2, 2, 2, 64, 1, 4, 16, 16, 2, 2, 0, 16⟩

theorem accounting_exact_along_small :
    Along step (Call.AccountsExactly smallPolicy) ⟨smallPolicy, ∅, ∅, [], 0, 0, .default⟩
      [.admitRequest ⟨1, 0, 3, 0, 4, 1, none⟩ 0, .dispatchBatch 0 2,
        .completeQuantumWithProgress 1 0 2 false false, .dispatchBatch 1 1,
        .completeQuantumWithProgress 1 0 1 false false, .dispatchBatch 2 1,
        .completeQuantum 1 2 false, .cancel 1, .pruneTerminal] :=
  accounting_exact_along smallPolicy _ _ rfl (by decide) (by decide +kernel)

/-! ## A decode commit without room -/

theorem validateQuantumCompletion_decode {dispatch : Dispatch} {emitted : Nat} (id : RequestId)
    (hk : dispatch.kind = .decode) (hle : emitted ≤ dispatch.tokenBudget) :
    validateQuantumCompletion dispatch id emitted emitted = .ok () := by
  unfold validateQuantumCompletion
  split_ifs with hbudget hprefill hdecode
  · omega
  · rw [hk] at hprefill
    cases hprefill.1
  · exact absurd rfl hdecode.2
  · rfl

/-- The ways a decode commit within its budget can end. -/
theorem completeQuantum_decode_ends {s : ContinuousScheduler} {id : RequestId} {emitted : Nat}
    {eos : Bool} {dispatch : Dispatch} {state : RequestState}
    (hrun : s.running.get? id = some dispatch) (hget : s.requests.get? id = some state)
    (hk : dispatch.kind = .decode) (hle : emitted ≤ dispatch.tokenBudget) :
    (completeQuantum id emitted eos).Ends s
      (fun completion s' =>
        CompleteReturns s id emitted emitted false eos completion s' dispatch state)
      (fun fault s' => (fault = .panic ∧ ((state.spec.priority : Nat) = 0 ∨
          (dispatch.kind = .decode ∧ state.remainingTokens < emitted) ∨
          s.reservedKvBytes < state.reservedKvBytes)) ∨
        fault = .error .accountingOverflow ∧
        ¬ QuantumFits .decode emitted emitted false state s.stats ∧ ∃ state' stats',
          s' = { s with requests := s.requests.insert id state', stats := stats' } ∧
          state'.remainingTokens + emitted = state.remainingTokens) := by
  have hvalid := validateQuantumCompletion_decode id hk hle
  refine (completeQuantum_ends s id emitted eos).mono ?_ ?_
  · rintro _ _ ⟨dispatch', state', hk', hr⟩
    have hd : dispatch' = dispatch := by simpa [hrun] using hr.running.symm
    have hs : state' = state := by simpa [hget] using hr.request.symm
    exact hd ▸ hs ▸ hr
  · rintro fault s' (⟨-, -, dispatch', hrun', hk'⟩ | ⟨-, hf⟩)
    · have heq : dispatch' = dispatch := by simpa [hrun] using hrun'.symm
      rw [heq, hk] at hk'
      cases hk'
    · cases hf with
      | notRunning hnone => simp [hrun] at hnone
      | unknown _ _ hnone => simp [hget] at hnone
      | invalid dispatch' error hrun' herror =>
        have heq : dispatch' = dispatch := by simpa [hrun] using hrun'.symm
        rw [heq, hvalid] at herror
        cases herror
      | overflow dispatch' state₁ state' stats hrun' hget' _ hfits hp =>
        have hd : dispatch' = dispatch := by simpa [hrun] using hrun'.symm
        have hs : state₁ = state := by simpa [hget] using hget'.symm
        rw [hd, hk, hs] at hfits hp
        exact .inr ⟨rfl, hfits, state', stats, rfl, (hp.decode rfl).1⟩
      | panic dispatch' state' _ hrun' hget' _ hcause =>
        have hd : dispatch' = dispatch := by simpa [hrun] using hrun'.symm
        have hs : state' = state := by simpa [hget] using hget'.symm
        exact .inl ⟨rfl, hd ▸ hs ▸ hcause⟩

/-- Repeating a decode commit that found no room underflows the remaining tokens. -/
theorem Inv.repeated_completion_panics {s : ContinuousScheduler} {id : RequestId} {emitted : Nat}
    {dispatch : Dispatch} {state : RequestState} (h : Inv s) (eos : Bool)
    (hrun : s.running.get? id = some dispatch) (hget : s.requests.get? id = some state)
    (hk : dispatch.kind = .decode) (hle : emitted ≤ dispatch.tokenBudget)
    (hover : ¬ QuantumFits .decode emitted emitted false state s.stats)
    (hlt : state.remainingTokens < 2 * emitted) :
    (completeQuantum id emitted eos).Ends (step s (.completeQuantum id emitted eos))
      (fun _ _ => False) (fun fault _ => fault = .panic) := by
  have hvalid := validateQuantumCompletion_decode id hk hle
  obtain ⟨state', stats', hstep, hrem⟩ : ∃ state' stats',
      step s (.completeQuantum id emitted eos) =
        { s with requests := s.requests.insert id state', stats := stats' } ∧
      state'.remainingTokens + emitted = state.remainingTokens := by
    refine Ends.after (P := fun s' => ∃ state' stats',
      s' = { s with requests := s.requests.insert id state', stats := stats' } ∧
      state'.remainingTokens + emitted = state.remainingTokens) ?_
    simp only [Call.exec, ends_bind, ends_pure]
    refine (completeQuantum_decode_ends hrun hget hk hle).mono ?_ ?_
    · exact fun _ _ hr => absurd (hk ▸ hr.fits) hover
    · rintro _ _ (⟨-, hcause⟩ | ⟨-, -, hpartial⟩)
      · exact absurd hcause (h.not_panic_cause hrun hget hvalid)
      · exact hpartial
  have hget' : (step s (.completeQuantum id emitted eos)).requests.get? id = some state' := by
    rw [hstep]
    exact SortedMap.get?_insert_self _ _ _
  have hrun' : (step s (.completeQuantum id emitted eos)).running.get? id = some dispatch := by
    rw [hstep]
    exact hrun
  refine (completeQuantum_decode_ends hrun' hget' hk hle).mono ?_ ?_
  · intro _ _ hr
    have hle' := hr.emitted_le hk
    omega
  · rintro _ _ (⟨hfault, -⟩ | ⟨-, -, state'', _, -, hrem'⟩)
    · exact hfault
    · omega

/-! ## A run that underflows -/

/-- A policy for requests that each take one long decode quantum. -/
def drainPolicy : SchedulerPolicy :=
  ⟨1, 1, 1, 4294967295, 1, 1, 1, 4294967295, 4294967295, 1, 0, 0⟩

def drainSpec (tokens : U64) : RequestSpec := ⟨1, 0, 0, 0, tokens, 1, none⟩

/-- One request that emits a full quantum, finishes and is pruned. -/
def drainCycle (tokens : U64) : List Call :=
  [.admitRequest (drainSpec tokens) 0, .dispatchBatch 0 1, .completeQuantum 1 tokens false,
    .pruneTerminal]

/-- The scheduler after `k` cycles: empty, with its counters advanced. -/
structure Drained (k : Nat) (s : ContinuousScheduler) : Prop where
  inv : Inv s
  policy : s.policy = drainPolicy
  requests : s.requests = ∅
  running : s.running = ∅
  nextSequence : s.nextSequence = k
  dispatchedQuanta : s.stats.dispatchedQuanta = k
  decodeQuanta : s.stats.decodeQuanta = k
  emittedTokens : s.stats.emittedTokens = k * 4294967295

/-- The record of a request of `tokens` output tokens, the `k`-th of its run. -/
def drainRecord (k : Nat) (tokens : U64) (status : RequestStatus) : RequestState :=
  ⟨drainSpec tokens, status, tokens, 0, tokens, 0, 0, k, false⟩

/-- A drained scheduler that admitted one more request and opened its quantum. -/
structure Draining (k : Nat) (tokens : U64) (s : ContinuousScheduler) : Prop where
  inv : Inv s
  policy : s.policy = drainPolicy
  requests : s.requests = (∅ : SortedMap _ _).insert 1 (drainRecord k tokens .running)
  running : s.running = (∅ : SortedMap _ _).insert 1 ⟨1, tokens, 0, .decode⟩
  nextSequence : s.nextSequence = k + 1
  dispatchedQuanta : s.stats.dispatchedQuanta = k + 1
  decodeQuanta : s.stats.decodeQuanta = k
  emittedTokens : s.stats.emittedTokens = k * 4294967295

theorem Drained.admissible {k : Nat} {s : ContinuousScheduler} {tokens : U64} (h : Drained k s)
    (htokens : tokens = 4294967295 ∨ tokens = 1) : Admissible s (drainSpec tokens) 0 tokens := by
  have hcounts : requestCounts s.requests = (0, 0) := by
    rw [h.requests]
    rfl
  have hzero : s.reservedKvBytes = 0 := by
    rw [h.inv.reserved, h.requests]
    rfl
  constructor
  · rw [h.policy]
    rcases htokens with rfl | rfl <;> decide
  · rw [hcounts, h.policy]
    decide
  · rw [hcounts, h.policy]
    decide
  · rw [h.policy]
    rcases htokens with rfl | rfl <;> decide
  · rw [h.policy, hzero]
    rcases htokens with rfl | rfl <;> decide

theorem Drained.admitRequest {k : Nat} {s : ContinuousScheduler} {tokens : U64} (h : Drained k s)
    (hk : k ≤ 4294967297) (htokens : tokens = 4294967295 ∨ tokens = 1) :
    step s (.admitRequest (drainSpec tokens) 0) = admittedState s (drainSpec tokens) tokens := by
  refine Ends.after (P := fun s' => s' = admittedState s (drainSpec tokens) tokens) ?_
  simp only [Call.exec, ends_bind, ends_pure]
  refine ((h.admissible htokens).admit_ends h.inv.policy.page ?_ (Nat.le_refl 0) ?_).mono
    (fun _ _ hr => hr.2) (fun _ _ hf => hf.elim)
  · rw [h.requests]
    rfl
  · rw [h.nextSequence]
    omega

/-- What opening a quantum for the only request changes. `counted` is what the quantum counter
took. -/
structure OpenedAlone (id : RequestId) (state : RequestState) (nowNs counted : Nat)
    (s s' : ContinuousScheduler) : Prop where
  inv : Inv s'
  policy : s'.policy = s.policy
  requests : s'.requests = (∅ : SortedMap _ _).insert id (startedRecord state)
  running : s'.running = (∅ : SortedMap _ _).insert id (openDispatch s.policy nowNs id state)
  nextSequence : s'.nextSequence = s.nextSequence
  dispatchedQuanta : s'.stats.dispatchedQuanta = s.stats.dispatchedQuanta + counted
  decodeQuanta : s'.stats.decodeQuanta = s.stats.decodeQuanta
  emittedTokens : s'.stats.emittedTokens = s.stats.emittedTokens

/-- Dispatching the only request opens its quantum, also when the counter has no room for it. -/
theorem dispatchBatch_singleton {s : ContinuousScheduler} {id : RequestId} {state : RequestState}
    (h : Inv s) (hreq : s.requests = (∅ : SortedMap _ _).insert id state) (hrun : s.running = ∅)
    (hid : state.spec.id = id) (hqueued : state.status = .queued)
    (hdeadline : state.spec.deadlineNs = none) (nowNs : Nat) :
    (dispatchBatch nowNs 1).Ends s
      (fun _ s' => s.stats.dispatchedQuanta + 1 < 2 ^ 64 ∧ OpenedAlone id state nowNs 1 s s')
      (fun _ s' => 2 ^ 64 ≤ s.stats.dispatchedQuanta + 1 ∧ OpenedAlone id state nowNs 0 s s') := by
  have hlimit : batchLimit s 1 = 0 + 1 := by
    have hbatch := h.policy.batch
    rw [batchLimit]
    omega
  have hselected : ∀ expired, ExpiredBy (dueIds s nowNs) s expired → expired.requests = s.requests ∧
      selectBatchIds expired nowNs (batchLimit s 1) = [id] := by
    intro expired he
    have hsame : expired.requests = s.requests := by
      ext id'
      rw [he.requests, dueIds_singleton hreq nowNs hdeadline]
      simp
    refine ⟨hsame, ?_⟩
    rw [hlimit, ← hid]
    exact selectBatchIds_singleton (hid ▸ hsame.trans hreq) hqueued nowNs 0
  have hopened : ∀ expired started batch counted s', ExpiredBy (dueIds s nowNs) s expired →
      StartedBy nowNs (selectBatchIds expired nowNs (batchLimit s 1)) expired started batch →
      Inv s' → s'.policy = started.policy → s'.requests = started.requests →
      s'.running = started.running → s'.nextSequence = started.nextSequence →
      s'.stats.dispatchedQuanta = started.stats.dispatchedQuanta + counted →
      s'.stats.decodeQuanta = started.stats.decodeQuanta →
      s'.stats.emittedTokens = started.stats.emittedTokens →
      OpenedAlone id state nowNs counted s s' := by
    intro expired started batch counted s' he hs hinv hp hr hrun' hseq hquanta hdecode hemitted
    obtain ⟨hsame, hids⟩ := hselected expired he
    rw [hids] at hs
    refine ⟨hinv, (hp.trans hs.policy).trans he.policy, ?_, ?_,
      (hseq.trans hs.nextSequence).trans he.nextSequence, ?_, ?_, ?_⟩
    · rw [hr]
      ext id'
      rw [hs.requests, hsame, hreq, SortedMap.get?_insert, SortedMap.get?_insert]
      by_cases heq : id' = id <;> simp [heq]
    · rw [hrun']
      ext id'
      have hidle : expired.running = ∅ := he.running.trans hrun
      rw [hs.running, hsame, hreq, he.policy, SortedMap.get?_insert, SortedMap.get?_insert, hidle]
      by_cases heq : id' = id <;> simp [heq]
    · rw [hquanta, hs.stats, he.stats]
    · rw [hdecode, hs.stats, he.stats]
    · rw [hemitted, hs.stats, he.stats]
  have hlength : ∀ expired started batch, ExpiredBy (dueIds s nowNs) s expired →
      StartedBy nowNs (selectBatchIds expired nowNs (batchLimit s 1)) expired started batch →
      batch.length = 1 ∧ started.stats.dispatchedQuanta = s.stats.dispatchedQuanta := by
    intro expired started batch he hs
    rw [(hselected expired he).2] at hs
    refine ⟨?_, ?_⟩
    · rw [← List.length_map, hs.batch_ids]
      rfl
    · rw [hs.stats, he.stats]
  refine ((dispatchBatch_ends h.toCoherent nowNs 1).and (h.dispatchBatch nowNs 1)).mono ?_ ?_
  · rintro batch s' ⟨⟨-, expired, started, hr⟩, hinv⟩
    obtain ⟨hone, hquanta⟩ := hlength expired started batch hr.expire hr.start
    have hne : batch ≠ [] := fun hnil => by simp [hnil] at hone
    have hfits := hr.fits hne
    refine ⟨by omega, ?_⟩
    rw [hr.state_eq, countedState, if_neg hne] at hinv ⊢
    exact hopened expired started batch 1 _ hr.expire hr.start hinv rfl rfl rfl rfl
      (by rw [← hone]) rfl rfl
  · rintro fault s' ⟨hpanic | ⟨-, hf⟩, hinv, hne⟩
    · exact absurd hpanic hne
    cases hf with
    | inFlight hbusy => exact absurd (by rw [hrun]; rfl) hbusy
    | zeroLimit hzero => cases hzero
    | overflow expired started batch _ _ _ he hs _ hover =>
      obtain ⟨hone, hquanta⟩ := hlength expired started batch he hs
      exact ⟨by omega, hopened expired started batch 0 _ he hs hinv rfl rfl rfl rfl rfl rfl rfl⟩

theorem Drained.start {k : Nat} {s : ContinuousScheduler} {tokens : U64} (h : Drained k s)
    (hk : k ≤ 4294967297) (htokens : tokens = 4294967295 ∨ tokens = 1) :
    Draining k tokens (run step s [.admitRequest (drainSpec tokens) 0, .dispatchBatch 0 1]) := by
  simp only [run_cons, run_nil, h.admitRequest hk htokens]
  have ha := h.admissible htokens
  have hreq : (admittedState s (drainSpec tokens) tokens).requests =
      (∅ : SortedMap _ _).insert 1 (drainRecord k tokens .queued) := by
    simp only [admittedState, updateHighWatermarks, queuedRecord, newRecord, h.requests,
      h.nextSequence, drainRecord]
    rw [show baseRuntime (∅ : SortedMap RequestId RequestState) = 0 from rfl, Nat.zero_sub]
    rfl
  have hfresh : s.requests.get? 1 = none := by
    rw [h.requests]
    rfl
  have hseq : s.nextSequence + 1 < 2 ^ 64 := by
    rw [h.nextSequence]
    omega
  have hreturns : AdmitReturns s (drainSpec tokens) 0 (.admitted tokens)
      (admittedState s (drainSpec tokens) tokens) := ⟨hfresh, Nat.le_refl 0, hseq, ha, rfl⟩
  have hinv := h.inv.admitReturns hreturns
  have hquanta : (admittedState s (drainSpec tokens) tokens).stats.dispatchedQuanta = k :=
    h.dispatchedQuanta
  have hopen : openDispatch drainPolicy 0 1 (drainRecord k tokens .queued) =
      ⟨1, tokens, 0, .decode⟩ := by
    rcases htokens with rfl | rfl <;> simp [openDispatch, nextQuantum, drainRecord, drainPolicy]
  refine Ends.after (P := Draining k tokens) ?_
  simp only [Call.exec, ends_bind, ends_pure]
  refine (dispatchBatch_singleton hinv hreq h.running rfl rfl rfl 0).mono ?_ ?_
  · rintro _ s' ⟨-, ho⟩
    refine ⟨ho.inv, ho.policy.trans h.policy, ho.requests, ?_,
      ho.nextSequence.trans (congrArg (· + 1) h.nextSequence),
      ho.dispatchedQuanta.trans (congrArg (· + 1) h.dispatchedQuanta),
      ho.decodeQuanta.trans h.decodeQuanta, ho.emittedTokens.trans h.emittedTokens⟩
    rw [ho.running, show (admittedState s (drainSpec tokens) tokens).policy = drainPolicy from
      h.policy, hopen]
  · rintro _ _ ⟨hover, -⟩
    omega

/-- The open request finishes with all its tokens, and leaves an empty scheduler. -/
theorem Draining.finish {k : Nat} {tokens : U64} {s : ContinuousScheduler}
    (h : Draining k tokens s) (hk : k + 1 < 2 ^ 64)
    (htokens : k * 4294967295 + tokens < 2 ^ 64) :
    let s' := run step s [.completeQuantum 1 tokens false, .pruneTerminal]
    Inv s' ∧ s'.policy = drainPolicy ∧ s'.requests = ∅ ∧ s'.running = ∅ ∧
      s'.nextSequence = k + 1 ∧ s'.stats.dispatchedQuanta = k + 1 ∧
      s'.stats.decodeQuanta = k + 1 ∧ s'.stats.emittedTokens = k * 4294967295 + tokens := by
  intro s'
  have hrun : s.running.get? 1 = some ⟨1, tokens, 0, .decode⟩ := by
    rw [h.running]
    exact SortedMap.get?_insert_self _ _ _
  have hget : s.requests.get? 1 = some (drainRecord k tokens .running) := by
    rw [h.requests]
    exact SortedMap.get?_insert_self _ _ _
  have hfits : QuantumFits .decode tokens tokens false (drainRecord k tokens .running) s.stats := by
    have hcharge : charge tokens 1 < 2 ^ 128 := charge_lt le_rfl
    rw [QuantumFits, h.emittedTokens, h.decodeQuanta]
    refine ⟨by omega, hk, ?_, ?_⟩
    · simp [drainRecord]
    · simpa [drainRecord, drainSpec] using hcharge
  obtain ⟨completion, hr⟩ : ∃ completion, CompleteReturns s 1 tokens tokens false false
      completion (step s (.completeQuantum 1 tokens false)) ⟨1, tokens, 0, .decode⟩
      (drainRecord k tokens .running) := by
    refine Ends.after (P := fun s' => ∃ completion, CompleteReturns s 1 tokens tokens false
      false completion s' ⟨1, tokens, 0, .decode⟩ (drainRecord k tokens .running)) ?_
    simp only [Call.exec, ends_bind, ends_pure]
    refine (completeQuantum_decode_ends hrun hget rfl le_rfl).mono (fun c _ hr => ⟨c, hr⟩) ?_
    rintro _ _ (⟨-, hcause⟩ | ⟨-, hover, -⟩)
    · exact absurd hcause (h.inv.not_panic_cause hrun hget
        (validateQuantumCompletion_decode 1 rfl le_rfl))
    · exact absurd hfits hover
  obtain ⟨completed, cancelled, overshoot, hstats⟩ := committedStats_eq .decode tokens
    tokens false false (drainRecord k tokens .running) s.stats
  have hinv : Inv s' := (h.inv.completeReturns hr).prune rfl rfl rfl rfl rfl
  have hs' : s' = step (step s (.completeQuantum 1 tokens false)) .pruneTerminal := rfl
  rw [hr.state_eq] at hs'
  refine ⟨hinv, ?_⟩
  clear_value s'
  subst hs'
  refine ⟨h.policy, ?_, ?_, h.nextSequence, ?_, ?_, ?_⟩
  · have hfinished : (committedRecord .decode tokens tokens false false
        (drainRecord k tokens .running)).status = .finished := by
      simp [committedRecord, settledStatus, progressedRecord, drainRecord]
    ext id
    change ((s.requests.insert 1 _).retain _).get? id = some _ ↔ _
    rw [SortedMap.get?_retain, SortedMap.get?_insert, h.requests, SortedMap.get?_insert]
    by_cases hid : id = 1
    · simp [hid, hfinished, RequestStatus.isTerminal, Option.filter]
    · simp [hid]
  · change s.running.remove 1 = ∅
    rw [h.running]
    rfl
  · exact (congrArg SchedulerStats.dispatchedQuanta hstats).trans h.dispatchedQuanta
  · exact (congrArg SchedulerStats.decodeQuanta hstats).trans (congrArg (· + 1) h.decodeQuanta)
  · exact (congrArg SchedulerStats.emittedTokens hstats).trans
      (congrArg (· + (tokens : Nat)) h.emittedTokens)

theorem Drained.cycle {k : Nat} {s : ContinuousScheduler} (h : Drained k s)
    (hk : k < 4294967297) : Drained (k + 1) (run step s (drainCycle 4294967295)) := by
  have hstart := h.start (by omega) (.inl rfl)
  have htokens : ((4294967295 : U64) : Nat) = 4294967295 := rfl
  generalize (4294967295 : U64) = tokens at hstart htokens
  have hsplit : drainCycle tokens = [.admitRequest (drainSpec tokens) 0, .dispatchBatch 0 1] ++
      [.completeQuantum 1 tokens false, .pruneTerminal] := rfl
  rw [hsplit, run_append]
  obtain ⟨hinv, hpolicy, hrequests, hrunning, hseq, hquanta, hdecode, hemitted⟩ :=
    hstart.finish (by omega) (by omega)
  refine ⟨hinv, hpolicy, hrequests, hrunning, hseq, hquanta, hdecode, ?_⟩
  rw [hemitted]
  omega

/-- Fill the emitted-token counter with full quanta, then emit one token more, twice. -/
def drainCalls (k : Nat) : List Call :=
  (List.replicate k (drainCycle 4294967295)).flatten ++
    ([.admitRequest (drainSpec 1) 0, .dispatchBatch 0 1] ++
      [.completeQuantum 1 1 false, .completeQuantum 1 1 false])

theorem Drained.replicate {k : Nat} {s : ContinuousScheduler} (h : Drained 0 s)
    (hk : k ≤ 4294967297) :
    Drained k (run step s (List.replicate k (drainCycle 4294967295)).flatten) := by
  induction k with
  | zero => exact h
  | succ k ih =>
    rw [List.replicate_succ', List.flatten_append, run_append]
    simpa using (ih (by omega)).cycle (by omega)

theorem countP_drainCalls (k : Nat) : (drainCalls k).countP Call.isAdmit = k + 1 := by
  have hcycles : (List.replicate k (drainCycle 4294967295)).flatten.countP Call.isAdmit = k := by
    induction k with
    | zero => rfl
    | succ k ih =>
      rw [List.replicate_succ, List.flatten_cons, List.countP_append, ih]
      exact Nat.add_comm 1 k
  rw [drainCalls, List.countP_append, hcycles]
  rfl

/-- Accounting is not exact in every run: the second of two equal completions underflows. -/
theorem accounting_exact_fails : ¬ ∀ (policy : SchedulerPolicy) (s : ContinuousScheduler)
    (calls : List Call), ContinuousScheduler.new policy = .ok s →
    calls.countP Call.isAdmit < 2 ^ 64 → Along step (Call.AccountsExactly policy) s calls := by
  intro hall
  obtain ⟨s, hnew⟩ : ∃ s, ContinuousScheduler.new drainPolicy = .ok s := ⟨_, rfl⟩
  have hzero : Drained 0 s := by
    have hinv := Inv.new hnew
    cases hnew
    exact ⟨hinv, rfl, rfl, rfl, rfl, rfl, rfl, rfl⟩
  obtain ⟨k, hk⟩ : ∃ k : Nat, k = 4294967297 := ⟨_, rfl⟩
  have hcount : (drainCalls k).countP Call.isAdmit < 2 ^ 64 := by
    rw [countP_drainCalls]
    omega
  have halong := hall drainPolicy s (drainCalls k) hnew hcount
  have hstart := (hzero.replicate hk.le).start hk.le (.inr rfl)
  rw [drainCalls, along_append, along_append] at halong
  generalize run step (run step s _) _ = s₁ at hstart halong
  obtain ⟨-, -, -, ⟨-, hsecond⟩, -⟩ := halong
  have hrun : s₁.running.get? 1 = some ⟨1, 1, 0, .decode⟩ := by
    rw [hstart.running]
    exact SortedMap.get?_insert_self _ _ _
  have hget : s₁.requests.get? 1 = some (drainRecord k 1 .running) := by
    rw [hstart.requests]
    exact SortedMap.get?_insert_self _ _ _
  have hover : ¬ QuantumFits .decode 1 1 false (drainRecord k 1 .running) s₁.stats := by
    rw [QuantumFits, hstart.emittedTokens]
    omega
  have hpanic := hstart.inv.repeated_completion_panics false hrun hget rfl le_rfl hover
    (by simp [drainRecord])
  simp only [Call.exec, ends_bind, ends_pure] at hsecond
  refine not_ends_false _ _ ((hpanic.and hsecond).mono (fun _ _ hq => hq.1) ?_)
  rintro fault _ ⟨hfault, hne⟩
  exact hne hfault

end Leone.Scheduler
