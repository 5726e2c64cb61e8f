import Leone.Trace.Quanta

/-!
# The turns of the service loop

A quantum runs to its end with the cancellations that come due meanwhile. A turn either runs one
quantum or waits for the next arrival, and each turn that goes on leaves less work, so the loop
stops. Only an exhausted counter can fail it.
-/

namespace Leone.Trace

open Framework Framework.Method Scheduler

section Turns

variable {trace : ServiceTrace} {ordered : List ServiceTraceRequest}
  {sources : SortedMap RequestId ServiceTraceRequest} {run run' : TraceRun}

/-! ## Completing a quantum -/

theorem settledStatus_finished {kind : DispatchKind} {eos : Bool} {state : RequestState}
    (h : settledStatus kind eos state = .finished) :
    kind = .decode ∧ (eos = true ∨ state.remainingTokens = 0) := by
  unfold settledStatus at h
  split_ifs at h with hcancelled hprefill hdone
  refine ⟨?_, hdone⟩
  cases kind with
  | prefill => exact absurd rfl hprefill
  | decode => rfl

theorem settledStatus_queued {kind : DispatchKind} {eos : Bool} {state : RequestState}
    (h : settledStatus kind eos state = .queued) : state.cancellationRequested = false := by
  unfold settledStatus at h
  split_ifs at h with hcancelled
  all_goals simpa using hcancelled

theorem settledStatus_eos {state : RequestState} :
    (settledStatus .decode true state).isTerminal := by
  unfold settledStatus
  split_ifs <;> simp_all [RequestStatus.isTerminal]

theorem committedRecord_emitted {kind : DispatchKind} {emitted : Nat} (progress : Nat)
    (ready eos : Bool) (state : RequestState) (h : kind = .prefill → emitted = 0) :
    (committedRecord kind emitted progress ready eos state).emittedTokens =
      state.emittedTokens + emitted := by
  cases kind with
  | prefill => rw [h rfl]; rfl
  | decode => rfl

/-- What the executor reports for a quantum, from what the quantum covers. -/
structure QuantumOk (source : ServiceTraceRequest) (dispatch : Dispatch) (state : RequestState)
    (emitted progress : Nat) (ready eos : Bool) : Prop where
  prefill : dispatch.kind = .prefill → emitted = 0 ∧ 1 ≤ state.remainingPrefillTokens ∧
    (ready = true ∨ 1 ≤ progress)
  decode : dispatch.kind = .decode → emitted = 0 → eos = true
  within : state.emittedTokens + emitted ≤ source.isolatedTokens.length
  finished : eos = true → state.emittedTokens + emitted = source.isolatedTokens.length

theorem QuantumOk.emitted_zero {source : ServiceTraceRequest} {dispatch : Dispatch}
    {state : RequestState} {emitted progress : Nat} {ready eos : Bool}
    (h : QuantumOk source dispatch state emitted progress ready eos)
    (hkind : dispatch.kind = .prefill) : emitted = 0 := (h.prefill hkind).1

section Committing

variable {source : ServiceTraceRequest} {dispatch : Dispatch} {state : RequestState}
  {emitted progress : Nat} {ready eos : Bool}

/-- The record of a completed quantum serves its request. -/
theorem Serves.committed (h : Serves source state) (hrecord : RecordOk dispatch.requestId state)
    (hlive : ¬ state.status.isTerminal)
    (hok : QuantumOk source dispatch state emitted progress ready eos)
    (hle : dispatch.kind = .decode → emitted ≤ state.remainingTokens) :
    Serves source (committedRecord dispatch.kind emitted progress ready eos state) := by
  have hemitted := committedRecord_emitted progress ready eos state hok.emitted_zero
  have htokens := hrecord.tokens hlive
  have hspec : (committedRecord dispatch.kind emitted progress ready eos state).spec = state.spec :=
    committedRecord_spec ..
  have hmax : state.emittedTokens + emitted ≤ state.spec.maxOutputTokens := by
    cases hkind : dispatch.kind with
    | prefill =>
      rw [hok.emitted_zero hkind]
      omega
    | decode =>
      have := hle hkind
      omega
  refine ⟨hspec.trans h.spec, ?_, ?_, fun _ => ?_, fun _ => ?_, settledStatus_queued, ?_⟩
  · rw [hemitted]
    exact hok.within
  · rw [hemitted, hspec]
    exact hmax
  · rw [committedRecord_reserved]
    refine le_trans ?_ (h.covers_prefill hlive)
    cases dispatch.kind with
    | prefill =>
      change (if ready then 0 else state.remainingPrefillTokens - progress) ≤ _
      split_ifs <;> omega
    | decode => exact le_rfl
  · rw [committedRecord_reserved]
    refine le_trans ?_ (h.covers_decode hlive)
    cases dispatch.kind with
    | prefill => exact le_rfl
    | decode => exact Nat.sub_le _ _
  · intro hfinished
    obtain ⟨hkind, hdone⟩ := settledStatus_finished hfinished
    rw [hemitted, hspec]
    rcases hdone with heos | hzero
    · exact .inl (hok.finished heos)
    · rw [hkind] at hzero
      change state.remainingTokens - emitted = 0 at hzero
      omega

/-- A completed quantum leaves its request less to do. -/
theorem recordWork_committed (hget : sources.get? state.spec.id = some source)
    (hlive : ¬ state.status.isTerminal)
    (hok : QuantumOk source dispatch state emitted progress ready eos) :
    recordWork sources (committedRecord dispatch.kind emitted progress ready eos state) + 1 ≤
      recordWork sources state := by
  have hemitted := committedRecord_emitted progress ready eos state hok.emitted_zero
  have hspec : (committedRecord dispatch.kind emitted progress ready eos state).spec = state.spec :=
    committedRecord_spec ..
  have hold : recordWork sources state = 1 + state.remainingPrefillTokens +
      (source.isolatedTokens.length - state.emittedTokens) := by
    rw [recordWork, if_neg hlive, hget]
    rfl
  by_cases hterm : (committedRecord dispatch.kind emitted progress ready eos state).status.isTerminal
  · rw [recordWork, if_pos hterm]
    omega
  · rw [hold, recordWork, if_neg hterm, hspec, hget, hemitted, Option.map_some, Option.getD_some]
    have hwithin := hok.within
    cases hkind : dispatch.kind with
    | prefill =>
      obtain ⟨hzero, hsome, hprogress⟩ := hok.prefill hkind
      change 1 + (if ready then 0 else state.remainingPrefillTokens - progress) + _ + 1 ≤ _
      rcases hprogress with hready | hpos
      · rw [hready, if_pos rfl]
        omega
      · split_ifs <;> omega
    | decode =>
      have hpos : emitted ≠ 0 := by
        intro hzero
        rw [hkind] at hterm
        apply hterm
        change (settledStatus .decode eos _).isTerminal = true
        rw [hok.decode hkind hzero]
        exact settledStatus_eos
      change 1 + state.remainingPrefillTokens + _ + 1 ≤ _
      omega

/-- A record that gives its bytes back serves as before. -/
theorem Serves.cleared (h : Serves source state) (hterm : state.status.isTerminal) :
    Serves source { state with reservedKvBytes := 0 } :=
  ⟨h.spec, h.emitted_le, h.emitted_le_max, fun hlive => absurd hterm hlive,
    fun hlive => absurd hterm hlive, h.unflagged, h.finished⟩

theorem committedStats_overshoot (kind : DispatchKind) (emitted progress : Nat) (ready eos : Bool)
    (state : RequestState) (stats : SchedulerStats) :
    (committedStats kind emitted progress ready eos state stats).maxCancellationOvershootTokens ≤
      max stats.maxCancellationOvershootTokens emitted := by
  have hkept : (progressedStats kind emitted progress stats).maxCancellationOvershootTokens =
      stats.maxCancellationOvershootTokens := by
    cases kind <;> rfl
  unfold committedStats applyQuantumStatus
  split_ifs
  · exact (congrArg (max · emitted) hkept).le
  · exact hkept.le.trans (le_max_left _ _)
  · exact hkept.le.trans (le_max_left _ _)
  · exact hkept.le.trans (le_max_left _ _)

/-- The commit of a quantum and its event keep the invariant, and the backlog shrinks. -/
theorem TraceOk.committed (h : TraceOk trace ordered sources run)
    {completion : QuantumCompletion} {s' : ContinuousScheduler} (endNs : Nat)
    (hsource : sources.get? dispatch.requestId = some source)
    (hok : QuantumOk source dispatch state emitted progress ready eos)
    (hr : CompleteReturns run.scheduler dispatch.requestId emitted progress ready eos completion s'
      dispatch state) :
    let next : TraceRun := { run with
      scheduler := s'
      outputs := run.outputs.insert dispatch.requestId
        (source.isolatedTokens.take (state.emittedTokens + emitted))
      events := run.events ++ [.complete endNs completion.requestId completion.emittedTokens
        completion.status s'.reservedKvBytes dispatch.kind] }
    TraceOk trace ordered sources next ∧ next.scheduler.running.isEmpty ∧
      backlog sources next + 1 ≤ backlog sources run := by
  intro next
  obtain ⟨replay, hreplays, hmatches⟩ := h.replayed
  obtain ⟨replay', hstep, hmatches'⟩ := hmatches.committed h.inv endNs hr
  have hinv' := h.inv.completeReturns hr
  have hrecord := h.inv.record hr.request
  obtain ⟨hstatus, hdispatch⟩ := h.inv.dispatched hr.request hr.running
  have hlive : ¬ state.status.isTerminal := by simp [hstatus, RequestStatus.isTerminal]
  have hemitted := committedRecord_emitted progress ready eos state hok.emitted_zero
  have hstate := hr.state_eq
  generalize hnew : committedRecord dispatch.kind emitted progress ready eos state = record
    at hstate hemitted
  have hspec : record.spec = state.spec := hnew ▸ committedRecord_spec ..
  have hpolicy : s'.policy = run.scheduler.policy := by rw [hstate, committedState]
  have hreq : s'.requests = run.scheduler.requests.insert dispatch.requestId
      (if record.status.isTerminal then { record with reservedKvBytes := 0 } else record) := by
    rw [hstate, committedState]
  have hquantum : emitted ≤ trace.policy.serviceQuantumTokens := by
    cases hkind : dispatch.kind with
    | prefill =>
      rw [hok.emitted_zero hkind]
      exact Nat.zero_le _
    | decode =>
      obtain ⟨hbudget, -, -, -⟩ := validateQuantumCompletion_eq_ok hr.valid
      rw [← h.policy]
      exact hbudget.trans (hdispatch.decode hkind).1
  have hover : s'.stats.maxCancellationOvershootTokens ≤ trace.policy.serviceQuantumTokens := by
    rw [hstate, committedState]
    exact (committedStats_overshoot ..).trans (max_le h.overshoot hquantum)
  have hemits : (if record.status.isTerminal then { record with reservedKvBytes := 0 }
      else record).emittedTokens = state.emittedTokens + emitted := by
    split_ifs <;> exact hemitted
  refine ⟨?_, ?_, ?_⟩
  · refine h.replaced hr.request (fun source' hsource' hold => ?_) hinv' hreq hpolicy hover rfl
      (fun id' => ?_) ⟨replay', ?_, hmatches'⟩
    · rw [hsource] at hsource'
      cases hsource'
      have hserves := hold.committed hrecord hlive hok hr.emitted_le
      rw [hnew] at hserves
      split_ifs with hterm
      · exact hserves.cleared hterm
      · exact hserves
    · rw [SortedMap.get?_insert, transcript, hemits]
      split_ifs with hid
      · rw [hsource]
        rfl
      · rfl
    · refine hreplays.snoc hstep ?_
      rw [hmatches'.reserved, ← h.policy, ← hpolicy]
      exact hinv'.capacity
  · rw [SortedMap.isEmpty_iff]
    intro id
    change s'.running.get? id = none
    rw [hstate, committedState, SortedMap.get?_remove]
    split_ifs with hid
    · rfl
    · by_contra hne
      obtain ⟨other, hother⟩ := Option.ne_none_iff_exists'.mp hne
      exact hid (hmatches.running_unique hr.running hother)
  · have hkeyed : sources.get? state.spec.id = some source := by rw [hrecord.keyed, hsource]
    have hless := recordWork_committed hkeyed hlive hok
    rw [hnew] at hless
    have hsame : recordWork sources (if record.status.isTerminal then
        { record with reservedKvBytes := 0 } else record) = recordWork sources record := by
      split_ifs with hterm
      · simp [recordWork, hterm]
      · rfl
    have hsum := SortedMap.sumBy_insert_add (if record.status.isTerminal then
      { record with reservedKvBytes := 0 } else record) (recordWork sources) hr.request
    rw [hsame] at hsum
    change (run.pending.map requestWork).sum + s'.requests.sumBy (recordWork sources) + 1 ≤ _
    rw [backlog, hreq]
    omega

end Committing

/-! ## Running a quantum -/

/-- What the executor knows of the quantum it has opened. -/
structure Open (run : TraceRun) (dispatch : Dispatch) (state : RequestState) : Prop where
  running : run.scheduler.running.get? dispatch.requestId = some dispatch
  request : run.scheduler.requests.get? dispatch.requestId = some state
  prefill : dispatch.kind = .prefill →
    1 ≤ state.remainingPrefillTokens ∧ dispatch.tokenBudget ≤ state.remainingPrefillTokens

/-- Cancellations leave a quantum open. -/
theorem Open.cancelled {dispatch : Dispatch} {state : RequestState} (h : Open run dispatch state)
    (hrunning : state.status = .running) (hframe : CancelFrame run run') :
    ∃ state', Open run' dispatch state' ∧ state'.emittedTokens = state.emittedTokens := by
  have hrecord := hframe.records dispatch.requestId
  rw [h.request] at hrecord
  generalize hget : run'.scheduler.requests.get? dispatch.requestId = record at hrecord
  cases hrecord with
  | @some _ state' hasked =>
    refine ⟨state', ⟨hframe.running ▸ h.running, hget, ?_⟩, hasked.emittedTokens⟩
    cases hasked with
    | kept | flagged => exact h.prefill
    | ended hqueued => exact absurd (hrunning.symm.trans hqueued) (by simp)

theorem take_append_slice {tokens : List U32} {start count : Nat}
    (h : start + count ≤ tokens.length) :
    tokens.take start ++ slice tokens start (start + count) = tokens.take (start + count) := by
  rw [slice, Nat.add_sub_cancel_left, List.take_add]

/-- The tokens that a quantum emits. -/
def quantumEmitted (dispatch : Dispatch) (count : Nat) : Nat :=
  if dispatch.kind = .prefill then 0 else count

/-- The output of a decode quantum grows by its tokens; a prefill quantum leaves it. -/
theorem appendTraceOutput_ends {dispatch : Dispatch} {state : RequestState} {nowNs : Nat}
    {bounds : QuantumBounds} (h : TraceOk trace ordered sources run)
    (hopen : Open run dispatch state) (hbounds : BoundsOk sources dispatch state nowNs bounds)
    (hwithin : state.emittedTokens ≤ bounds.source.isolatedTokens.length) :
    (appendTraceOutput dispatch bounds.source bounds.start bounds.count).Ends run
      (fun _ run' => run' = { run with
        outputs := run.outputs.insert dispatch.requestId (bounds.source.isolatedTokens.take
          (state.emittedTokens + quantumEmitted dispatch bounds.count)) })
      (fun _ _ => False) := by
  have houtput : run.outputs.get? dispatch.requestId =
      some (bounds.source.isolatedTokens.take state.emittedTokens) := by
    rw [h.outputs, hopen.request, Option.bind_some, transcript, hbounds.source]
    rfl
  rw [appendTraceOutput, quantumEmitted]
  cases hkind : dispatch.kind with
  | prefill =>
    rw [if_neg (by simp), if_pos rfl, Nat.add_zero]
    have hsame := SortedMap.insert_self houtput
    rw [ends_pure, hsame]
  | decode =>
    obtain ⟨hstart, hcount⟩ := hbounds.decode hkind
    have hfits : state.emittedTokens + bounds.count ≤ bounds.source.isolatedTokens.length := by
      rw [hcount]
      omega
    have hslice : tokenSlice bounds.source.isolatedTokens bounds.start
        (bounds.start + bounds.count) = some (slice bounds.source.isolatedTokens
          state.emittedTokens (state.emittedTokens + bounds.count)) := by
      rw [tokenSlice, hstart, if_pos ⟨Nat.le_add_right _ _, hfits⟩]
    simp only [if_true, reduceCtorEq, if_false, ends_bind, ends_get, ends_orPanic, houtput, hslice,
      Option.some.injEq, forall_eq', ends_modify, take_append_slice hfits, false_implies, and_true]

/-- The executor reports a quantum as the bounds give it. -/
theorem quantumOk {dispatch : Dispatch} {state : RequestState} {nowNs : Nat}
    {bounds : QuantumBounds} (h : TraceOk trace ordered sources run)
    (hopen : Open run dispatch state) (hbounds : BoundsOk sources dispatch state nowNs bounds) :
    QuantumOk bounds.source dispatch state (quantumEmitted dispatch bounds.count)
      (traceProgressTokens dispatch (quantumEmitted dispatch bounds.count))
      (tracePrefillReady run.scheduler dispatch)
      (traceEos dispatch bounds.start bounds.count bounds.source.isolatedTokens.length) := by
  obtain ⟨source, hsource, hserves⟩ := h.served _ state hopen.request
  rw [hbounds.source] at hsource
  cases hsource
  obtain ⟨-, hdispatch⟩ := h.inv.dispatched hopen.request hopen.running
  have hpos := hdispatch.pos
  have hwithin := hserves.emitted_le
  cases hkind : dispatch.kind with
  | prefill =>
    have hemitted : quantumEmitted dispatch bounds.count = 0 := by simp [quantumEmitted, hkind]
    rw [hemitted]
    refine ⟨fun _ => ⟨rfl, (hopen.prefill hkind).1, .inr ?_⟩, fun hdecode => ?_, hwithin,
      fun heos => ?_⟩
    · rw [traceProgressTokens, if_pos hkind]
      exact hpos
    · exact absurd (hkind.symm.trans hdecode) (by simp)
    · simp [traceEos, hkind] at heos
  | decode =>
    obtain ⟨hstart, hcount⟩ := hbounds.decode hkind
    have hemitted : quantumEmitted dispatch bounds.count = bounds.count := by
      simp [quantumEmitted, hkind]
    rw [hemitted]
    refine ⟨fun hprefill => ?_, fun _ hzero => ?_, ?_, fun heos => ?_⟩
    · exact absurd (hkind.symm.trans hprefill) (by simp)
    · rw [hzero] at hcount
      simp only [traceEos, hkind, decide_true, Bool.true_and, decide_eq_true_eq, hstart]
      omega
    · rw [hcount]
      omega
    · simp only [traceEos, hkind, decide_true, Bool.true_and, decide_eq_true_eq, hstart] at heos
      exact heos

/-- An opened quantum passes the checks of its completion. -/
theorem validateQuantumCompletion_ok {dispatch : Dispatch} {state : RequestState} {nowNs : Nat}
    {bounds : QuantumBounds} (hbounds : BoundsOk sources dispatch state nowNs bounds) :
    validateQuantumCompletion dispatch dispatch.requestId (quantumEmitted dispatch bounds.count)
      (traceProgressTokens dispatch (quantumEmitted dispatch bounds.count)) = .ok () := by
  cases hkind : dispatch.kind with
  | prefill => simp [validateQuantumCompletion, traceProgressTokens, quantumEmitted, hkind]
  | decode =>
    obtain ⟨-, hcount⟩ := hbounds.decode hkind
    have hle : ¬ dispatch.tokenBudget < bounds.count := by omega
    simp [validateQuantumCompletion, traceProgressTokens, quantumEmitted, hkind, hle]

/-- A completion that the executor makes can only run out of a counter. -/
theorem completeFails_overflowed {s s' : ContinuousScheduler} {dispatch : Dispatch}
    {state : RequestState} {emitted progress : Nat} {ready : Bool} {fault : Fault SchedulerError}
    (hinv : Inv s) (hrun : s.running.get? dispatch.requestId = some dispatch)
    (hget : s.requests.get? dispatch.requestId = some state)
    (hvalid : validateQuantumCompletion dispatch dispatch.requestId emitted progress = .ok ())
    (h : CompleteFails s dispatch.requestId emitted progress ready fault s') :
    fault = .error .accountingOverflow := by
  cases h with
  | notRunning hnone =>
    rw [hrun] at hnone
    cases hnone
  | invalid dispatch' error hd hinvalid =>
    rw [hrun] at hd
    cases hd
    rw [hvalid] at hinvalid
    cases hinvalid
  | unknown dispatch' hd hnone =>
    rw [hget] at hnone
    cases hnone
  | overflow => rfl
  | panic dispatch' state' _ hd hs hv hcause =>
    exact absurd hcause (hinv.not_panic_cause hd hs hv)

/-- A quantum runs to its end. -/
theorem completeTraceQuantum_ends {dispatch : Dispatch} {state : RequestState} {nowNs : Nat}
    (h : TraceOk trace ordered sources { run with events := run.events ++
      [.dispatch nowNs dispatch.requestId dispatch.tokenBudget dispatch.kind] })
    (hopen : Open run dispatch state) :
    (completeTraceQuantum trace sources dispatch nowNs).Ends run
      (fun endNs run' => TraceOk trace ordered sources run' ∧ run'.scheduler.running.isEmpty ∧
        nowNs ≤ endNs ∧ run'.pending = run.pending ∧
        backlog sources run' + 1 ≤ backlog sources run) Overflowed := by
  obtain ⟨hstatus, hdispatch⟩ := h.inv.dispatched hopen.request hopen.running
  have hlive : ¬ state.status.isTerminal := by simp [hstatus, RequestStatus.isTerminal]
  obtain ⟨source, hsource, hserves⟩ := h.served _ state hopen.request
  have hbudget : dispatch.tokenBudget < 2 ^ 64 := hdispatch.budget_lt.trans (by norm_num)
  have hemitted : state.emittedTokens < 2 ^ 64 :=
    lt_of_le_of_lt hserves.emitted_le_max state.spec.maxOutputTokens.isLt
  obtain ⟨hbounds, herror⟩ := traceQuantumBounds_spec trace nowNs hopen.running
    hopen.request hsource hbudget hemitted
  simp only [completeTraceQuantum, ends_bind, ends_pushEvent, ends_get, ends_ofExcept]
  refine ⟨fun bounds hok => ?_, fun e hfails => congrArg Fault.error (herror e hfails)⟩
  apply (applyCancellations_ends bounds.endNs h).mono ?_ (fun _ _ hfault => hfault.elim)
  intro _ cancelled hcancelled
  obtain ⟨hok', hframe⟩ := hcancelled
  have hrecorded : Open { run with events := run.events ++
      [.dispatch nowNs dispatch.requestId dispatch.tokenBudget dispatch.kind] } dispatch state :=
    ⟨hopen.running, hopen.request, hopen.prefill⟩
  obtain ⟨state', hopen', hsame⟩ := hrecorded.cancelled hstatus hframe
  have hbounds' : BoundsOk sources dispatch state' nowNs bounds := by
    have hfirst := hbounds bounds hok
    exact ⟨hfirst.source, hfirst.prefill, hsame ▸ hfirst.decode, hfirst.later⟩
  obtain ⟨source', hsource', hserves'⟩ := hok'.served _ state' hopen'.request
  rw [hbounds'.source] at hsource'
  cases hsource'
  apply (appendTraceOutput_ends hok' hopen' hbounds' hserves'.emitted_le).mono ?_
    (fun _ _ hfault => hfault.elim)
  intro _ shown hshown
  subst hshown
  have hcount : traceEmittedTokens dispatch bounds.count =
      .ok (quantumEmitted dispatch bounds.count) := by
    rw [traceEmittedTokens, quantumEmitted]
    split_ifs with hkind
    · rfl
    · have hdecode : dispatch.kind = .decode := by
        cases hk : dispatch.kind with
        | prefill => exact absurd hk hkind
        | decode => rfl
      have hlt := hdispatch.budget_lt
      have hle := (hbounds'.decode hdecode).2
      rw [tryFrom_eq_some.mpr ⟨by omega, rfl⟩]
      rfl
  simp only [hcount, Except.ok.injEq, forall_eq', reduceCtorEq, false_implies, implies_true,
    and_true, ends_onScheduler, ends_pure]
  apply (completeQuantumWithProgress_ends ..).mono
  · intro completion s' hreturns
    obtain ⟨dispatch', state'', hr⟩ := hreturns
    obtain rfl : dispatch = dispatch' := Option.some.inj (hopen'.running.symm.trans hr.running)
    obtain rfl : state' = state'' := Option.some.inj (hopen'.request.symm.trans hr.request)
    obtain ⟨hdone, hidle, hless⟩ := hok'.committed bounds.endNs hbounds'.source
      (quantumOk hok' hopen' hbounds') (show CompleteReturns cancelled.scheduler _ _ _ _ _ _ _ _ _
        from hr)
    refine ⟨hdone, hidle, hbounds'.later, hframe.pending, ?_⟩
    have hle : backlog sources cancelled ≤ backlog sources run := hframe.backlog_le
    omega
  · intro fault s' hfails
    exact completeFails_overflowed hok'.inv hopen'.running hopen'.request
      (validateQuantumCompletion_ok hbounds') hfails

/-! ## One turn -/

/-- A dispatch of an idle scheduler returns, or runs out of a counter. -/
theorem dispatch_ends {s : ContinuousScheduler} (hinv : Inv s) (hidle : s.running.isEmpty)
    (nowNs : Nat) : (Scheduler.dispatch nowNs).Ends s
      (fun dispatch s' => Inv s' ∧ ∃ batch expired started, dispatch = batch.head? ∧
        DispatchReturns s nowNs 1 batch s' expired started)
      (fun fault _ => fault = .error .accountingOverflow) := by
  simp only [Scheduler.dispatch, ends_bind, ends_pure]
  apply ((dispatchBatch_ends hinv.toCoherent nowNs 1).and (hinv.dispatchBatch nowNs 1)).mono
  · intro batch s' h
    obtain ⟨⟨-, expired, started, hr⟩, hinv'⟩ := h
    exact ⟨hinv', batch, expired, started, rfl, hr⟩
  · intro fault s' h
    obtain ⟨hfails, -, hpanic⟩ := h
    rcases hfails with hpanic' | ⟨-, hfails⟩
    · exact absurd hpanic' hpanic
    · cases hfails with
      | inFlight hbusy => exact absurd hidle hbusy
      | zeroLimit hzero => cases hzero
      | overflow => rfl

/-- The executor has nothing left to do. -/
structure Ended (run : TraceRun) : Prop where
  pending : run.pending = []
  settled : ∀ id state, run.scheduler.requests.get? id = some state → state.status.isTerminal

/-- One more turn while the next request has not arrived. -/
def waits (run : TraceRun) : Nat :=
  if run.pending.head?.any fun head => run.now < (head.spec.arrivalNs : Nat) then 1 else 0

/-- A bound on the turns that an execution still takes. -/
def work (sources : SortedMap RequestId ServiceTraceRequest) (run : TraceRun) : Nat :=
  backlog sources run + waits run

theorem waits_le_one (run : TraceRun) : waits run ≤ 1 := by
  unfold waits
  split_ifs <;> omega

theorem waits_mono {run run' : TraceRun} (hpending : run'.pending = run.pending)
    (hnow : run.now ≤ run'.now) : waits run' ≤ waits run := by
  unfold waits
  rw [hpending]
  cases run.pending.head? with
  | none => exact le_rfl
  | some head =>
    simp only [Option.any_some, decide_eq_true_eq]
    split_ifs <;> omega

theorem AllArrived.waits_eq (h : AllArrived run.now run) (hne : run.pending ≠ []) :
    waits run = 1 := by
  unfold waits
  obtain ⟨head, rest, heq⟩ := List.exists_cons_of_ne_nil hne
  have hlate := h head (by simp [heq])
  rw [heq, List.head?_cons, Option.any_some, if_pos (by simpa using hlate)]

theorem TraceOk.at_time (h : TraceOk trace ordered sources run) (nowNs : Nat) :
    TraceOk trace ordered sources { run with now := nowNs } :=
  ⟨h.inv, h.policy, h.served, h.outputs, h.pending, h.waiting, h.arrived, h.replayed, h.overshoot⟩

/-- Without a dispatch the loop waits for the next arrival, or it has ended. -/
theorem awaitArrival_ends (h : TraceOk trace ordered sources run)
    (hidle : run.scheduler.running.isEmpty)
    (hsettled : ∀ id state, run.scheduler.requests.get? id = some state → state.status ≠ .queued) :
    awaitArrival.Ends run
      (fun again run' => TraceOk trace ordered sources run' ∧ run'.scheduler.running.isEmpty ∧
        if again then run.pending ≠ [] ∧ run'.pending = run.pending ∧ waits run' = 0 ∧
          backlog sources run' = backlog sources run
        else Ended run') Overflowed := by
  simp only [awaitArrival, ends_bind, ends_get]
  cases hpending : run.pending with
  | nil =>
    refine ⟨h, hidle, hpending, fun id state hget => ?_⟩
    have hrunning : state.status ≠ .running := by
      intro hstatus
      obtain ⟨dispatch, hrun⟩ := (h.inv.running_iff hget).mp hstatus
      rw [SortedMap.isEmpty_iff.mp hidle id] at hrun
      cases hrun
    have hqueued := hsettled id state hget
    cases hstatus : state.status <;> simp_all [RequestStatus.isTerminal]
  | cons head rest =>
    refine ⟨h.at_time _, hidle, by simp, ?_, ?_, rfl⟩
    · simpa using hpending
    · unfold waits
      simp [hpending]

theorem settled_of_not_runnable {s : ContinuousScheduler} (h : ¬ s.hasRunnableRequests)
    (id : RequestId) (state : RequestState) (hget : s.requests.get? id = some state) :
    state.status.isTerminal := by
  have hvalue := SortedMap.mem_values_iff.mpr ⟨id, hget⟩
  rw [ContinuousScheduler.hasRunnableRequests, List.any_eq_true] at h
  by_contra hlive
  apply h
  refine ⟨state, hvalue, ?_⟩
  cases hstatus : state.status <;> simp_all [RequestStatus.isTerminal]

/-- The part of a turn from its dispatch on. -/
theorem dispatchTurn_ends (hsources : SourcesOf ordered sources) (nowNs : Nat)
    (h : TraceOk trace ordered sources run) (hidle : run.scheduler.running.isEmpty) :
    (do
      let dispatch ← onScheduler (Scheduler.dispatch nowNs)
      recordTraceExpirations (traceExpiredRequests sources run.scheduler nowNs) nowNs
      match dispatch with
      | some dispatch => do
        let endNs ← completeTraceQuantum trace sources dispatch nowNs
        modify fun run => { run with now := endNs }
        return true
      | none => awaitArrival : TraceM Bool).Ends run
      (fun again run' => TraceOk trace ordered sources run' ∧ run'.scheduler.running.isEmpty ∧
        if again then run'.pending = run.pending ∧
          (nowNs ≤ run'.now ∧ backlog sources run' + 1 ≤ backlog sources run ∨
            run.pending ≠ [] ∧ waits run' = 0 ∧ backlog sources run' ≤ backlog sources run)
        else Ended run') Overflowed := by
  simp only [ends_bind, ends_onScheduler]
  apply (dispatch_ends h.inv hidle nowNs).mono ?_ (fun _ _ hfault => hfault)
  intro dispatch s' hdispatch
  obtain ⟨hinv', batch, expired, started, rfl, hr⟩ := hdispatch
  obtain ⟨replay, middle, hmatches, hfreed, hsteps, hsum⟩ := h.expirations hsources hinv' hr
  have hids := h.mem_expired_ids hsources nowNs
  have hcapacity := h.inv.capacity
  have hmax := run.scheduler.policy.maxReservedKvBytes.isLt
  apply (recordTraceExpirations_ends nowNs (by omega) hsum).mono ?_ (fun _ _ hfault => hfault.elim)
  intro _ recorded hrecorded
  subst hrecorded
  rcases dispatch_batch hr with rfl | ⟨id, state, rfl, hget, hqueued, -⟩
  · have hmatches' := hmatches.waited h.inv hinv' hr hids hfreed
    have hok := h.opened hinv' hr _ ⟨middle, hsteps, hmatches'⟩
    have hidle' : s'.running.isEmpty := by
      rw [SortedMap.isEmpty_iff]
      intro id
      rw [dispatch_running hr, List.map_nil, if_neg List.not_mem_nil]
    apply (awaitArrival_ends hok hidle' (dispatch_none hr h.inv.policy.batch)).mono
    · intro again run' hrun
      obtain ⟨hok', hidle'', hagain⟩ := hrun
      refine ⟨hok', hidle'', ?_⟩
      cases again with
      | true =>
        obtain ⟨hne, hpending, hwaits, hbacklog⟩ := hagain
        exact ⟨hpending, .inr ⟨hne, hwaits, hbacklog.le.trans (backlog_opened h hr _)⟩⟩
      | false => exact hagain
    · exact fun _ _ hfault => hfault
  · have hlive : ¬ state.status.isTerminal := by simp [hqueued, RequestStatus.isTerminal]
    obtain ⟨source, -, hserves⟩ := h.served id state hget
    generalize hd : openDispatch run.scheduler.policy nowNs id state = dispatch at hr
    have hbudget : dispatch.tokenBudget ≤ trace.policy.maxReservedKvBytes := by
      have hreserved := h.inv.reserved_le hget
      have hprefill := hserves.covers_prefill hlive
      have hdecode := hserves.covers_decode hlive
      rw [← h.policy, ← hd, openDispatch, nextQuantum]
      split_ifs
      · simp only
        omega
      · simp only
        omega
    have hphase : dispatch.kind = .prefill →
        1 ≤ state.remainingPrefillTokens ∧ dispatch.tokenBudget ≤ state.remainingPrefillTokens := by
      intro hkind
      rw [← hd, openDispatch, nextQuantum] at hkind ⊢
      split_ifs at hkind ⊢ with hsome
      exact ⟨hsome, min_le_left _ _⟩
    have hid : dispatch.requestId = id := by rw [← hd]; rfl
    subst hd
    obtain ⟨replay', hstep, hmatches'⟩ := hmatches.dispatched h.inv hinv' hr hids hfreed hget hlive
      (hserves.unflagged hqueued) hbudget
    have hok := h.opened hinv' hr _ ⟨replay', hsteps.snoc hstep (by
      rw [hmatches'.reserved, ← h.policy, ← (dispatch_policy hr).1]
      exact hinv'.capacity), hmatches'⟩
    have hsel : id ∈ [openDispatch run.scheduler.policy nowNs id state].map Dispatch.requestId :=
      List.mem_singleton_self _
    have hopen : Open { run with
        scheduler := s'
        events := run.events ++ expireEvents nowNs run.scheduler.reservedKvBytes
          (traceExpiredRequests sources run.scheduler nowNs) }
        (openDispatch run.scheduler.policy nowNs id state) (startedRecord state) := by
      refine ⟨?_, ?_, hphase⟩
      · exact (dispatch_running hr id).trans (by rw [if_pos hsel, hget]; rfl)
      · exact (dispatch_record hr id).trans (by rw [if_pos hsel, hget]; rfl)
    simp only [List.head?_cons, ends_bind, ends_modify, ends_pure]
    apply (completeTraceQuantum_ends hok hopen).mono ?_ (fun _ _ hfault => hfault)
    intro endNs run' hrun
    obtain ⟨hok', hidle', hlater, hpending, hless⟩ := hrun
    refine ⟨hok'.at_time endNs, hidle', hpending, .inl ⟨hlater, ?_⟩⟩
    exact hless.trans (backlog_opened h hr _)

/-- One turn keeps the invariant. It leaves less work, or the execution has ended. -/
theorem serviceTurn_ends (hsources : SourcesOf ordered sources)
    (h : TraceOk trace ordered sources run ∧ run.scheduler.running.isEmpty) :
    (serviceTurn trace sources).Ends run
      (fun again run' => if again then
          (TraceOk trace ordered sources run' ∧ run'.scheduler.running.isEmpty) ∧
            work sources run' < work sources run
        else (TraceOk trace ordered sources run' ∧ run'.scheduler.running.isEmpty) ∧ Ended run')
      Overflowed := by
  obtain ⟨hok, hidle⟩ := h
  rw [serviceTurn, ends_bind, ends_get, ends_ite]
  refine ⟨fun hdone => ?_, fun _ => ?_⟩
  · exact ⟨⟨hok, hidle⟩, List.isEmpty_iff.mp hdone.1, settled_of_not_runnable hdone.2⟩
  rw [ends_bind]
  apply (admitTraceArrivals_ends hsources run.now hok hidle).mono ?_ (fun _ _ hfault => hfault)
  intro _ arrived harrived
  obtain ⟨hok, hidle, hnow, hlate, hadmitted⟩ := harrived
  rw [ends_bind]
  apply (applyCancellations_ends run.now hok).mono ?_ (fun _ _ hfault => hfault.elim)
  intro _ cancelled hcancelled
  obtain ⟨hok, hframe⟩ := hcancelled
  rw [ends_bind, ends_get]
  apply (dispatchTurn_ends hsources run.now hok (hframe.running ▸ hidle)).mono ?_
    (fun _ _ hfault => hfault)
  intro again run' hrun
  obtain ⟨hok', hidle', hagain⟩ := hrun
  cases again with
  | false => exact ⟨⟨hok', hidle'⟩, hagain⟩
  | true =>
    refine ⟨⟨hok', hidle'⟩, ?_⟩
    obtain ⟨hpending, hprogress⟩ := hagain
    have hcancelledWork : backlog sources cancelled ≤ backlog sources arrived := hframe.backlog_le
    have hone := waits_le_one run'
    unfold work
    rcases hadmitted with hsome | ⟨hsame, hnone⟩
    · rcases hprogress with ⟨-, hless⟩ | ⟨-, hzero, hle⟩ <;> omega
    · have hpending' : run'.pending = run.pending := hpending.trans (hframe.pending.trans hsame)
      rcases hprogress with ⟨hlater, hless⟩ | ⟨hne, hzero, hle⟩
      · have hmono := waits_mono hpending' hlater
        omega
      · have hwaits : waits run = 1 := by
          refine AllArrived.waits_eq ?_ ?_
          · intro head hhead
            exact hlate head (hsame ▸ hhead)
          · rwa [← hpending', hpending]
        omega

end Turns

end Leone.Trace
