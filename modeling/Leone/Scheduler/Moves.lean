import Leone.Scheduler.Order
import Leone.Scheduler.Accounting

/-!
# What a call does to one request

Seen from one request, a call leaves it alone or makes one of a few moves. Properties of a
request over a run are proved by one case for each move.
-/

namespace Leone.Scheduler

open Framework Framework.Method

/-- The two completion calls, with the arguments of the general one. -/
def Call.Completes (call : Call) (id : RequestId) (emitted progress : Nat) (ready eos : Bool) :
    Prop :=
  call = .completeQuantumWithProgress id emitted progress ready eos ∨
    call = .completeQuantum id emitted eos ∧ progress = emitted ∧ ready = false

/-- The change that a call makes to the record and the dispatch of one request. -/
inductive Move (s : ContinuousScheduler) (call : Call) (id : RequestId)
    (s' : ContinuousScheduler) : Prop
  | kept (hreq : s'.requests.get? id = s.requests.get? id)
      (hrun : s'.running.get? id = s.running.get? id)
  | stored (spec : RequestSpec) (nowNs : Nat) (record : RequestState)
      (hcall : call = .admitRequest spec nowNs) (hid : spec.id = id)
      (hget : s.requests.get? id = none)
      (hrecord : record = newRecord s spec .rejected 0 0 ∨
        ∃ bytes, Admissible s spec nowNs bytes ∧ record = queuedRecord s spec bytes)
      (hreq : s'.requests.get? id = some record) (hrun : s'.running.get? id = none)
  | expired (nowNs limit : Nat) (state : RequestState) (hcall : call = .dispatchBatch nowNs limit)
      (hget : s.requests.get? id = some state) (hdue : deadlinePassed nowNs state)
      (hreq : s'.requests.get? id = some (expiredRecord state))
      (hrun : s'.running.get? id = none)
  | selected (nowNs limit : Nat) (state : RequestState) (hcall : call = .dispatchBatch nowNs limit)
      (hget : s.requests.get? id = some state) (hqueued : state.status = .queued)
      (hfirst : ∀ id' other, s'.requests.get? id' = some other → other.status = .queued →
        serviceKey s.policy nowNs state ≤ serviceKey s.policy nowNs other)
      (hreq : s'.requests.get? id = some (startedRecord state))
      (hrun : s'.running.get? id = some (openDispatch s.policy nowNs id state))
  | committed (emitted progress : Nat) (ready eos : Bool) (completion : QuantumCompletion)
      (dispatch : Dispatch) (state : RequestState)
      (hcall : call.Completes id emitted progress ready eos)
      (hreturns : CompleteReturns s id emitted progress ready eos completion s' dispatch state)
  | stalled (emitted progress : Nat) (ready eos : Bool) (dispatch : Dispatch)
      (state state' : RequestState) (stats : SchedulerStats)
      (hcall : call.Completes id emitted progress ready eos)
      (hdispatch : s.running.get? id = some dispatch) (hget : s.requests.get? id = some state)
      (hvalid : validateQuantumCompletion dispatch id emitted progress = .ok ())
      (hover : ¬ QuantumFits dispatch.kind emitted progress ready state s.stats)
      (hpartly : PartlyCommitted dispatch.kind emitted state s.stats state' stats)
      (hreq : s'.requests.get? id = some state')
      (hrun : s'.running.get? id = some dispatch)
  | aborted (state : RequestState) (hcall : call = .abortQuantum id)
      (hget : s.requests.get? id = some state) (hstatus : state.status = .running)
      (hreq : s'.requests.get? id = some { abortedRecord state with reservedKvBytes := 0 })
      (hrun : s'.running.get? id = none)
  | cancelled (state : RequestState) (hcall : call = .cancel id)
      (hget : s.requests.get? id = some state) (hqueued : state.status = .queued)
      (hreq : s'.requests.get? id = some { state with status := .cancelled, reservedKvBytes := 0 })
      (hrun : s'.running.get? id = none)
  | flagged (state : RequestState) (hcall : call = .cancel id)
      (hget : s.requests.get? id = some state) (hstatus : state.status = .running)
      (hreq : s'.requests.get? id = some { state with cancellationRequested := true })
      (hrun : s'.running.get? id = s.running.get? id)
  | pruned (state : RequestState) (hcall : call = .pruneTerminal)
      (hget : s.requests.get? id = some state) (hterm : state.status.isTerminal)
      (hreq : s'.requests.get? id = none) (hrun : s'.running.get? id = none)

/-- A change at one request keeps the others. -/
theorem Move.kept_of_ne {s s' : ContinuousScheduler} {call : Call} {id id' : RequestId}
    {record : RequestState} (hreq : s'.requests = s.requests.insert id' record)
    (hrun : s'.running.get? id = s.running.get? id) (hne : id ≠ id') : Move s call id s' :=
  .kept (hreq ▸ SortedMap.get?_insert_of_ne hne) hrun

section Calls

variable {s : ContinuousScheduler}

theorem move_admitRequest (h : Coherent s) (spec : RequestSpec) (nowNs : Nat) (id : RequestId) :
    (admitRequest spec nowNs).Ends s (fun _ s' => Move s (.admitRequest spec nowNs) id s')
      (fun _ s' => Move s (.admitRequest spec nowNs) id s') := by
  have hstored {s' : ContinuousScheduler} {record : RequestState}
      (hnone : s.requests.get? spec.id = none)
      (hrecord : record = newRecord s spec .rejected 0 0 ∨
        ∃ bytes, Admissible s spec nowNs bytes ∧ record = queuedRecord s spec bytes)
      (hreq : s'.requests = s.requests.insert spec.id record) (hrun : s'.running = s.running) :
      Move s (.admitRequest spec nowNs) id s' := by
    by_cases hid : spec.id = id
    · subst hid
      refine .stored spec nowNs record rfl rfl hnone hrecord ?_ ?_
      · rw [hreq, SortedMap.get?_insert_self]
      · rw [hrun, h.running_none hnone]
    · exact .kept_of_ne hreq (by rw [hrun]) (Ne.symm hid)
  refine (admit_ends spec nowNs h.policy.page).mono ?_ ?_
  · rintro (bytes | reason) s' ⟨hnone, -, -, hr⟩
    · exact hstored hnone (.inr ⟨bytes, hr.1, rfl⟩) (by rw [hr.2]; rfl) (by rw [hr.2]; rfl)
    · exact hstored hnone (.inl rfl) (by rw [hr.2]; rfl) (by rw [hr.2]; rfl)
  · intro fault s' hf
    cases hf with
    | duplicate | future | reservation => exact .kept rfl rfl
    | strandedRejected hnone => exact hstored hnone (.inl rfl) rfl rfl
    | strandedQueued bytes hnone _ ha => exact hstored hnone (.inr ⟨bytes, ha, rfl⟩) rfl rfl

/-- The two loops of a dispatch, seen from one request. -/
theorem move_started (h : Coherent s) {expired started s' : ContinuousScheduler}
    {batch : List Dispatch} {nowNs limit n : Nat} (id : RequestId)
    (hidle : s.running.isEmpty) (hcoh : Coherent expired)
    (he : ExpiredBy (dueIds s nowNs) s expired)
    (hs : StartedBy nowNs (selectBatchIds expired nowNs n) expired started batch)
    (hreq : s'.requests = started.requests) (hrun : s'.running = started.running) :
    Move s (.dispatchBatch nowNs limit) id s' := by
  have hnone : s.running.get? id = none := SortedMap.isEmpty_iff.mp hidle id
  by_cases hsel : id ∈ selectBatchIds expired nowNs n
  · obtain ⟨state, hget, hqueued⟩ := hcoh.keyed.mem_selectBatchIds hsel
    have hnotdue : id ∉ dueIds s nowNs := by
      intro hdue
      rw [he.requests, if_pos hdue, Option.map_eq_some_iff] at hget
      obtain ⟨state₀, -, rfl⟩ := hget
      cases hqueued
    have hget₀ : s.requests.get? id = some state := by
      rw [← hget, he.requests, if_neg hnotdue]
    refine .selected nowNs limit state rfl hget₀ hqueued ?_ ?_ ?_
    · intro id' other hother hqueued'
      rw [hreq, hs.requests] at hother
      have hnotsel : id' ∉ selectBatchIds expired nowNs n := by
        intro hsel'
        rw [if_pos hsel', Option.map_eq_some_iff] at hother
        obtain ⟨state₀, -, rfl⟩ := hother
        cases hqueued'
      rw [if_neg hnotsel] at hother
      rw [selectBatchIds_eq, List.mem_map] at hsel
      obtain ⟨chosen, hchosen, hid⟩ := hsel
      have hvalue : chosen ∈ expired.requests.values :=
        (List.mem_filter.mp ((List.mem_insertionSort _).mp (List.mem_of_mem_take hchosen))).1
      have hsame : chosen = state := by
        have hget' := hcoh.keyed.mem_values.mp hvalue
        rw [hid, hget] at hget'
        exact (Option.some.inj hget').symm
      rw [← he.policy]
      refine serviceKey_le_of_selected (hsame ▸ hchosen)
        (SortedMap.mem_values_iff.mpr ⟨id', hother⟩) hqueued' fun hmem => hnotsel ?_
      rw [selectBatchIds_eq, List.mem_map]
      exact ⟨other, hmem, (hcoh.record hother).keyed⟩
    · rw [hreq, hs.requests, if_pos hsel, hget]
      rfl
    · rw [hrun, hs.running, if_pos hsel, hget, he.policy]
      rfl
  · have hreq' : s'.requests.get? id = expired.requests.get? id := by
      rw [hreq, hs.requests, if_neg hsel]
    have hrun' : s'.running.get? id = none := by
      rw [hrun, hs.running, if_neg hsel, he.running, hnone]
    by_cases hdue : id ∈ dueIds s nowNs
    · obtain ⟨state, hget, hpassed⟩ := h.keyed.mem_dueIds.mp hdue
      refine .expired nowNs limit state rfl hget hpassed ?_ hrun'
      rw [hreq', he.requests, if_pos hdue, hget]
      rfl
    · refine .kept ?_ ?_
      · rw [hreq', he.requests, if_neg hdue]
      · rw [hrun', hnone]

theorem move_dispatchBatch (h : Coherent s) (nowNs limit : Nat) (id : RequestId) :
    (dispatchBatch nowNs limit).Ends s (fun _ s' => Move s (.dispatchBatch nowNs limit) id s')
      (fun fault s' => fault = .panic ∨ Move s (.dispatchBatch nowNs limit) id s') := by
  refine (dispatchBatch_ends h nowNs limit).mono ?_ ?_
  · rintro batch s' ⟨-, expired, started, hr⟩
    have hcounted : s'.requests = started.requests ∧ s'.running = started.running := by
      rw [hr.state_eq]
      unfold countedState
      split_ifs <;> exact ⟨rfl, rfl⟩
    exact move_started h id hr.idle hr.expired_coherent hr.expire hr.start hcounted.1 hcounted.2
  · rintro fault s' (hpanic | ⟨-, hf⟩)
    · exact .inl hpanic
    cases hf with
    | inFlight | zeroLimit => exact .inr (.kept rfl rfl)
    | overflow expired started batch hidle _ hcoh he hs =>
      exact .inr (move_started h id hidle hcoh he hs rfl rfl)

theorem move_completeReturns {call : Call} {id' : RequestId} {emitted progress : Nat}
    {ready eos : Bool} {completion : QuantumCompletion} {dispatch : Dispatch}
    {state : RequestState} {s' : ContinuousScheduler}
    (hcall : call.Completes id' emitted progress ready eos)
    (hr : CompleteReturns s id' emitted progress ready eos completion s' dispatch state)
    (id : RequestId) : Move s call id s' := by
  by_cases hid : id = id'
  · subst hid
    exact .committed emitted progress ready eos completion dispatch state hcall hr
  · have heq := hr.state_eq
    refine .kept_of_ne (congrArg ContinuousScheduler.requests heq) ?_ hid
    rw [congrArg ContinuousScheduler.running heq]
    exact (SortedMap.get?_remove _ _ _).trans (if_neg hid)

theorem move_completeFails {call : Call} {id' : RequestId} {emitted progress : Nat}
    {ready eos : Bool} {fault : Fault SchedulerError} {s' : ContinuousScheduler}
    (hcall : call.Completes id' emitted progress ready eos)
    (hf : CompleteFails s id' emitted progress ready fault s') (id : RequestId) :
    fault = .panic ∨ Move s call id s' := by
  cases hf with
  | notRunning | unknown => exact .inr (.kept rfl rfl)
  | invalid => exact .inr (.kept rfl rfl)
  | overflow dispatch state state' stats hdispatch hget hvalid hover hpartly =>
    right
    by_cases hid : id = id'
    · subst hid
      exact .stalled emitted progress ready eos dispatch state state' stats hcall hdispatch hget
        hvalid hover hpartly (SortedMap.get?_insert_self _ _ _) hdispatch
    · exact .kept_of_ne rfl rfl hid
  | panic => exact .inl rfl

theorem move_abortQuantum (h : Coherent s) (id' id : RequestId) :
    (abortQuantum id').Ends s (fun _ s' => Move s (.abortQuantum id') id s')
      (fun _ s' => Move s (.abortQuantum id') id s') := by
  refine (abortQuantum_ends s id').mono ?_ ?_
  · rintro _ _ ⟨dispatch, state, hdispatch, hget, -, rfl⟩
    by_cases hid : id = id'
    · subst hid
      refine .aborted state rfl hget (h.dispatched hget hdispatch).1 ?_ ?_
      · exact SortedMap.get?_insert_self _ _ _
      · exact SortedMap.get?_remove_self _ _
    · refine .kept_of_ne rfl ?_ hid
      exact (SortedMap.get?_remove _ _ _).trans (if_neg hid)
  · rintro _ _ ⟨rfl, -⟩
    exact .kept rfl rfl

theorem move_cancel (h : Coherent s) (id' id : RequestId) :
    (cancel id').Ends s (fun _ s' => Move s (.cancel id') id s')
      (fun _ s' => Move s (.cancel id') id s') := by
  refine (cancel_ends s id').mono ?_ ?_
  · intro status s' hr
    obtain ⟨state, hget, hr⟩ := hr
    unfold CancelReturns at hr
    split at hr
    · rename_i hqueued
      obtain ⟨-, rfl⟩ := hr
      by_cases hid : id = id'
      · subst hid
        refine .cancelled state rfl hget hqueued ?_ ?_
        · exact SortedMap.get?_insert_self _ _ _
        · exact h.not_running hget (by simp [hqueued])
      · exact .kept_of_ne rfl rfl hid
    · rename_i hrunning
      obtain ⟨-, rfl⟩ := hr
      by_cases hid : id = id'
      · subst hid
        exact .flagged state rfl hget hrunning (SortedMap.get?_insert_self _ _ _) rfl
      · exact .kept_of_ne rfl rfl hid
    · obtain ⟨-, rfl⟩ := hr
      exact .kept rfl rfl
  · rintro _ _ ⟨rfl, -⟩
    exact .kept rfl rfl

theorem move_pruneTerminal (h : Coherent s) (id : RequestId) :
    pruneTerminal.Ends s (fun _ s' => Move s .pruneTerminal id s')
      (fun _ s' => Move s .pruneTerminal id s') := by
  rw [pruneTerminal, ends_modify]
  cases hget : s.requests.get? id with
  | none =>
    refine .kept ?_ rfl
    rw [SortedMap.get?_retain, hget]
    rfl
  | some state =>
    by_cases hterm : state.status.isTerminal
    · refine .pruned state rfl hget hterm ?_ ?_
      · rw [SortedMap.get?_retain, hget]
        simp [Option.filter, hterm]
      · refine h.not_running hget fun hrunning => ?_
        simp [hrunning, RequestStatus.isTerminal] at hterm
    · refine .kept ?_ rfl
      rw [SortedMap.get?_retain, hget]
      simp [Option.filter, hterm]

end Calls

/-- Every call that does not panic makes one move at every request. -/
theorem Coherent.exec_move {s : ContinuousScheduler} (h : Coherent s) (call : Call)
    (id : RequestId) : call.exec.Ends s (fun _ s' => Move s call id s')
      (fun fault s' => fault = .panic ∨ Move s call id s') := by
  cases call with
  | admitRequest spec nowNs =>
    simp only [Call.exec, ends_bind, ends_pure]
    exact (move_admitRequest h spec nowNs id).mono (fun _ _ hm => hm) fun _ _ hm => .inr hm
  | dispatchBatch nowNs limit =>
    simp only [Call.exec, ends_bind, ends_pure]
    exact move_dispatchBatch h nowNs limit id
  | completeQuantum id' emitted eos =>
    simp only [Call.exec, ends_bind, ends_pure]
    have hcall : (Call.completeQuantum id' emitted eos).Completes id' emitted emitted false eos :=
      .inr ⟨rfl, rfl, rfl⟩
    refine (completeQuantum_ends s id' emitted eos).mono ?_ ?_
    · rintro completion s' ⟨dispatch, state, -, hr⟩
      exact move_completeReturns hcall hr id
    · rintro fault s' (⟨rfl, -⟩ | ⟨-, hf⟩)
      · exact .inr (.kept rfl rfl)
      · exact move_completeFails hcall hf id
  | completeQuantumWithProgress id' emitted progress ready eos =>
    simp only [Call.exec, ends_bind, ends_pure]
    refine (completeQuantumWithProgress_ends s id' emitted progress ready eos).mono ?_ ?_
    · rintro completion s' ⟨dispatch, state, hr⟩
      exact move_completeReturns (.inl rfl) hr id
    · exact fun fault s' hf => move_completeFails (.inl rfl) hf id
  | abortQuantum id' =>
    simp only [Call.exec, ends_bind, ends_pure]
    exact (move_abortQuantum h id' id).mono (fun _ _ hm => hm) fun _ _ hm => .inr hm
  | cancel id' =>
    simp only [Call.exec, ends_bind, ends_pure]
    exact (move_cancel h id' id).mono (fun _ _ hm => hm) fun _ _ hm => .inr hm
  | takeExpiredDeadlines =>
    simp only [Call.exec, ends_bind, ends_pure]
    exact .kept rfl rfl
  | pruneTerminal =>
    simp only [Call.exec, ends_bind, ends_pure]
    exact (move_pruneTerminal h id).mono (fun _ _ hm => hm) fun _ _ hm => .inr hm

/-- Every call makes one move at every request. -/
theorem Inv.move {s : ContinuousScheduler} (h : Inv s) (call : Call) (id : RequestId) :
    Move s call id (step s call) := by
  refine Ends.after (P := Move s call id) ?_
  refine ((h.toCoherent.exec_move call id).and (h.exec_ne_panic call)).mono (fun _ _ hm => hm.1) ?_
  rintro fault s' ⟨hpanic | hm, hne⟩
  · exact absurd hpanic hne
  · exact hm

end Leone.Scheduler
