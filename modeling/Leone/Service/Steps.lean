import Leone.Scheduler.Accounting
import Leone.Service.Model

/-!
# What one service call can do

Rules for the calls that the service makes to the scheduler and to the executor, and for the
parts of a batch: the outputs that reach a commit, one commit, one abort, and the tick around
them.
-/

namespace Leone.Service

open Framework Framework.Method Scheduler

variable {σ ρ ε α : Type} {s : ScheduledService σ ε}

/-! ## Calls to the scheduler and the executor -/

/-- A scheduler fault, as the service returns it. -/
def serviceFault : Fault SchedulerError → Fault (ServiceError ε)
  | .error e => .error (.scheduler e)
  | .panic => .panic

section Rules

variable {F : Fault (ServiceError ε) → ScheduledService σ ε → Prop}

@[simp] theorem ends_onScheduler {Q : Except SchedulerError α → ScheduledService σ ε → Prop}
    (m : SchedulerM α) : (onScheduler m).Ends s Q F ↔
      m.Ends s.scheduler (fun a scheduler => Q (.ok a) { s with scheduler })
        (fun fault scheduler => (∀ e, fault = .error e → Q (.error e) { s with scheduler }) ∧
          (fault = .panic → F .panic { s with scheduler })) :=
  ends_attempt _ _ _

@[simp] theorem ends_onExecutor {Q : Except ε α → ScheduledService σ ε → Prop}
    (m : ExecutorM σ ε α) : (onExecutor m).Ends s Q F ↔
      Q (answer m s.executor).1 { s with executor := (answer m s.executor).2 } := Iff.rfl

@[simp] theorem ends_schedulerCall {Q : α → ScheduledService σ ε → Prop} (m : SchedulerM α) :
    (schedulerCall m).Ends s Q F ↔
      m.Ends s.scheduler (fun a scheduler => Q a { s with scheduler })
        (fun fault scheduler => F (serviceFault fault) { s with scheduler }) := by
  simp only [schedulerCall, ends_bind, ends_onScheduler, orScheduler, ends_pure, ends_raise]
  constructor
  · intro h
    refine h.mono (fun _ _ hq => hq) ?_
    rintro (e | _) _ ⟨he, hp⟩
    · exact he e rfl
    · exact hp rfl
  · intro h
    refine h.mono (fun _ _ hq => hq) ?_
    rintro (e | _) _ hf
    · exact ⟨fun e' he => Fault.error.inj he ▸ hf, fun hp => by simp at hp⟩
    · exact ⟨fun e' he => by simp at he, fun _ => hf⟩

@[simp] theorem ends_caught {Q : Except (ServiceError ε) α → ScheduledService σ ε → Prop}
    (m : ServiceM σ ε α) : (caught m).Ends s Q F ↔
      m.Ends s (fun a s' => Q (.ok a) s') (fun fault s' =>
        (∀ e, fault = .error e → Q (.error e) s') ∧ (fault = .panic → F .panic s')) :=
  ends_attempt _ _ _

end Rules

/-- An admitted request is begun, or cancelled again when the executor cannot start it. -/
theorem beginRequest_ends {E : QuantumExecutor σ ρ ε} {id : RequestId} {request : ρ}
    {state : RequestState} {Q : Unit → ScheduledService σ ε → Prop}
    {F : Fault (ServiceError ε) → ScheduledService σ ε → Prop}
    (hget : s.scheduler.requests.get? id = some state) (hqueued : state.status = .queued)
    (hbegun : ∀ u, (answer (E.begin id request) s.executor).1 = .ok u → Q () { s with
      executor := (answer (E.begin id request) s.executor).2
      outputs := s.outputs.insert id [] })
    (hfailed : ∀ error, (answer (E.begin id request) s.executor).1 = .error error →
      F (.error (.executor error)) { s with
        scheduler := cancelledState s.scheduler id state
        executor := (answer (E.begin id request) s.executor).2 })
    (hF : s.scheduler.reservedKvBytes < state.reservedKvBytes → ∀ s', F .panic s') :
    (beginRequest E id request).Ends s Q F := by
  simp only [beginRequest, ends_bind, ends_onExecutor]
  split
  · rename_i error herror
    simp only [ends_bind, ends_schedulerCall, ends_raise]
    refine (cancel_ends s.scheduler id).mono ?_ ?_
    · rintro status scheduler ⟨state', hget', hr⟩
      obtain rfl : state' = state := Option.some.inj (hget'.symm.trans hget)
      simp only [CancelReturns, hqueued] at hr
      obtain ⟨-, rfl⟩ := hr
      exact hfailed error herror
    · rintro fault _ ⟨rfl, hf⟩
      cases hf with
      | unknown hnone => exact absurd (hnone.symm.trans hget) (by simp)
      | panic state' hget' hlt =>
        obtain rfl : state' = state := Option.some.inj (hget'.symm.trans hget)
        exact hF hlt _
  · rename_i u hok
    exact hbegun u hok

/-! ## Outputs -/

/-- An output that passes the checks for its dispatch. -/
structure ValidOutput (dispatch : Dispatch) (output : QuantumOutput) : Prop where
  budget : output.tokens.length ≤ dispatch.tokenBudget
  prefill : dispatch.kind = .prefill → ∃ progress, output.prefill = some progress ∧
    output.tokens = [] ∧ progress.processedTokens ≤ dispatch.tokenBudget ∧
    (progress.processedTokens = 0 → progress.ready ∨ output.cancelled)
  decode : dispatch.kind = .decode → output.prefill = none ∧
    (output.tokens = [] → output.eos ∨ output.cancelled)

theorem invalidOutputForDispatch_eq_none {dispatch : Dispatch} {output : QuantumOutput} :
    invalidOutputForDispatch dispatch output = (none : Option (ServiceError ε)) ∧
      output.tokens.length ≤ dispatch.tokenBudget ↔ ValidOutput dispatch output := by
  constructor
  · rintro ⟨hphase, hbudget⟩
    refine ⟨hbudget, fun hk => ?_, fun hk => ?_⟩
    · simp only [invalidOutputForDispatch, hk, invalidPrefillOutput] at hphase
      split at hphase
      · cases hphase
      · rename_i progress hprogress
        split_ifs at hphase with hempty hover hidle
        refine ⟨progress, hprogress, by simpa using hempty, not_lt.mp hover, fun hzero => ?_⟩
        by_contra hnone
        rw [not_or] at hnone
        exact hidle ⟨hzero, hnone⟩
    · simp only [invalidOutputForDispatch, hk, invalidDecodeOutput] at hphase
      split_ifs at hphase with hprefill hidle
      refine ⟨by simpa using hprefill, fun hempty => ?_⟩
      by_contra hnone
      rw [not_or] at hnone
      exact hidle ⟨by simp [hempty], hnone⟩
  · intro h
    refine ⟨?_, h.budget⟩
    cases hk : dispatch.kind with
    | prefill =>
      obtain ⟨progress, hprogress, hempty, hle, hidle⟩ := h.prefill hk
      simp only [invalidOutputForDispatch, hk, invalidPrefillOutput, hprogress, hempty]
      rw [if_neg (by simp), if_neg (not_lt.mpr hle), if_neg]
      rintro ⟨hzero, hnready, hncancelled⟩
      exact (hidle hzero).elim hnready hncancelled
    | decode =>
      obtain ⟨hprefill, hidle⟩ := h.decode hk
      simp only [invalidOutputForDispatch, hk, invalidDecodeOutput, hprefill]
      rw [if_neg (by simp), if_neg]
      rintro ⟨hempty, hneos, hncancelled⟩
      exact (hidle (by simpa using hempty)).elim hneos hncancelled

/-- The checks on a whole batch are the checks on each output. -/
theorem forall₂_validOutput {dispatches : List Dispatch} {outputs : List QuantumOutput}
    (hlength : outputs.length = dispatches.length) :
    overBudgetOutput dispatches outputs = none ∧
      invalidOutputPhase dispatches outputs = (none : Option (ServiceError ε)) ↔
    List.Forall₂ ValidOutput dispatches outputs := by
  simp only [overBudgetOutput, invalidOutputPhase, Option.map_eq_none_iff, List.find?_eq_none,
    List.findSome?_eq_none_iff, List.forall₂_iff_zip, hlength, true_and]
  constructor
  · rintro ⟨hbudget, hphase⟩ dispatch output hmem
    refine invalidOutputForDispatch_eq_none.mp ⟨hphase (dispatch, output) hmem, ?_⟩
    simpa using hbudget (dispatch, output) hmem
  · intro h
    refine ⟨fun p hp => ?_, fun p hp => ?_⟩
    · simpa using (h hp).budget
    · exact (invalidOutputForDispatch_eq_none.mpr (h hp)).1

/-- The outputs of a batch reach the commit exactly when every one is valid. -/
theorem executeBatchOutputs_ends {E : QuantumExecutor σ ρ ε} {dispatches : List Dispatch}
    {Q : List QuantumOutput → ScheduledService σ ε → Prop}
    {F : Fault (ServiceError ε) → ScheduledService σ ε → Prop}
    (hvalid : ∀ outputs, (answer (E.executeBatch dispatches) s.executor).1 = .ok outputs →
      List.Forall₂ ValidOutput dispatches outputs →
      Q outputs { s with executor := (answer (E.executeBatch dispatches) s.executor).2 })
    (habort : ∀ error, (∀ outputs,
        (answer (E.executeBatch dispatches) s.executor).1 = .ok outputs →
        ¬ List.Forall₂ ValidOutput dispatches outputs) →
      (abortBatch E dispatches).Ends
        { s with executor := (answer (E.executeBatch dispatches) s.executor).2 }
        (fun _ s' => F (.error error) s') F) :
    (executeBatchOutputs E dispatches).Ends s Q F := by
  simp only [executeBatchOutputs, ends_bind, ends_onExecutor]
  split
  · rename_i error herror
    simp only [abortWithError, ends_bind, ends_raise]
    exact habort _ fun outputs hok => by rw [herror] at hok; cases hok
  · rename_i outputs houtputs
    have hrefuse (error : ServiceError ε) (hbad : ¬ List.Forall₂ ValidOutput dispatches outputs) :
        (abortWithError E dispatches error).Ends
          { s with executor := (answer (E.executeBatch dispatches) s.executor).2 } Q F := by
      simp only [abortWithError, ends_bind, ends_raise]
      refine habort _ fun outputs' hok => ?_
      rw [houtputs] at hok
      cases hok
      exact hbad
    simp only [ends_ite]
    refine ⟨fun hlength => ?_, fun hlength => ?_⟩
    · exact hrefuse _ fun hall => hlength hall.length_eq.symm
    · have hiff := forall₂_validOutput (ε := ε) (not_not.mp hlength)
      split
      · rename_i outside hover
        exact hrefuse _ fun hall => by simp [(hiff.mpr hall).1] at hover
      · rename_i hbudget
        split
        · rename_i error herror
          exact hrefuse _ fun hall => by simp [(hiff.mpr hall).2] at herror
        · rename_i hphase
          exact hvalid outputs houtputs (hiff.mp ⟨hbudget, hphase⟩)

theorem ValidOutput.length_lt {dispatch : Dispatch} {output : QuantumOutput}
    (h : ValidOutput dispatch output) (hbudget : dispatch.tokenBudget < 2 ^ 32) :
    tryFrom 32 output.tokens.length = some output.tokens.length :=
  tryFrom_eq_some.mpr ⟨lt_of_le_of_lt h.budget hbudget, rfl⟩

/-- The scheduler accepts the completion of a valid output. -/
theorem ValidOutput.validates {dispatch : Dispatch} {output : QuantumOutput}
    (h : ValidOutput dispatch output) (hbudget : dispatch.tokenBudget < 2 ^ 32) (id : RequestId) :
    validateQuantumCompletion dispatch id output.tokens.length (quantumProgress dispatch output) =
      .ok () := by
  have hle := h.budget
  cases hk : dispatch.kind with
  | prefill =>
    obtain ⟨progress, hprogress, hempty, hfits, -⟩ := h.prefill hk
    simp [validateQuantumCompletion, quantumProgress, hk, hprogress, hempty, not_lt.mpr hfits]
  | decode =>
    simp [validateQuantumCompletion, quantumProgress, hk, h.length_lt hbudget, not_lt.mpr hle]

/-! ## Committing one quantum -/

/-- A record whose cancellation was requested at this boundary or before. -/
def marked (state : RequestState) (cancelled : Bool) : RequestState :=
  { state with cancellationRequested := state.cancellationRequested || cancelled }

def markedState (s : ContinuousScheduler) (id : RequestId) (state : RequestState)
    (cancelled : Bool) : ContinuousScheduler :=
  { s with requests := s.requests.insert id (marked state cancelled) }

theorem coherent_marked {s : ContinuousScheduler} {id : RequestId} {state : RequestState}
    (h : Coherent s) (hget : s.requests.get? id = some state) (cancelled : Bool) :
    Coherent (markedState s id state cancelled) := by
  cases cancelled with
  | false =>
    have hsame : s.requests.insert id (marked state false) = s.requests :=
      SortedMap.insert_self (by simpa [marked] using hget)
    exact h.congr rfl hsame rfl rfl
  | true =>
    have hflagged := h.flagged hget
    simpa [markedState, marked, flaggedState] using hflagged

theorem inv_marked {s : ContinuousScheduler} {id : RequestId} {state : RequestState} (h : Inv s)
    (hget : s.requests.get? id = some state) (cancelled : Bool) :
    Inv (markedState s id state cancelled) :=
  h.update (coherent_marked h.toCoherent hget cancelled) hget rfl rfl rfl le_rfl fun ht => ht

/-- A commit of a valid output that returned, seen from the scheduler. -/
def CommitReturns (s : ContinuousScheduler) (dispatch : Dispatch) (output : QuantumOutput)
    (state : RequestState) (completion : QuantumCompletion) (s' : ContinuousScheduler) : Prop :=
  CompleteReturns (markedState s dispatch.requestId state output.cancelled) dispatch.requestId
    output.tokens.length (quantumProgress dispatch output) (output.prefill.any (·.ready))
    output.eos completion s' dispatch (marked state output.cancelled)

theorem CommitReturns.inv {s s' : ContinuousScheduler} {dispatch : Dispatch}
    {output : QuantumOutput} {state : RequestState} {completion : QuantumCompletion}
    (hr : CommitReturns s dispatch output state completion s') (h : Inv s)
    (hget : s.requests.get? dispatch.requestId = some state) : Inv s' :=
  (inv_marked h hget output.cancelled).completeReturns hr

/-- A commit replaces the record by one with the status of the completion, and closes the
quantum. -/
theorem CommitReturns.stored {s s' : ContinuousScheduler} {dispatch : Dispatch}
    {output : QuantumOutput} {state : RequestState} {completion : QuantumCompletion}
    (hr : CommitReturns s dispatch output state completion s') :
    ∃ record, s'.requests = s.requests.insert dispatch.requestId record ∧
      record.status = completion.status ∧
      (¬ completion.status.isTerminal → completion.status = .queued) ∧
      s'.running = s.running.remove dispatch.requestId ∧ s'.expired = s.expired := by
  have heq := hr.state_eq
  refine ⟨_, (congrArg ContinuousScheduler.requests heq).trans (SortedMap.insert_insert _ _ _ _),
    ?_, ?_, by rw [heq]; rfl, by rw [heq]; rfl⟩
  · rw [hr.completion_eq]
    split_ifs <;> rfl
  · rw [hr.completion_eq]
    exact settledStatus_live

/-- A commit of a valid output that found a counter exhausted, seen from the scheduler. -/
structure CommitStalls (s : ContinuousScheduler) (dispatch : Dispatch) (output : QuantumOutput)
    (state state' : RequestState) (stats : SchedulerStats) : Prop where
  noFit : ¬ QuantumFits dispatch.kind output.tokens.length (quantumProgress dispatch output)
    (output.prefill.any (·.ready)) (marked state output.cancelled) s.stats
  partly : PartlyCommitted dispatch.kind output.tokens.length (marked state output.cancelled)
    s.stats state' stats

/-- The scheduler with a record that a stalled commit left behind. -/
def stalledState (s : ContinuousScheduler) (id : RequestId) (state' : RequestState)
    (stats : SchedulerStats) : ContinuousScheduler :=
  { s with requests := s.requests.insert id state', stats }

/-- The service after a commit: the output grows, and a terminal request is released. -/
def committedService (E : QuantumExecutor σ ρ ε) (s : ScheduledService σ ε) (dispatch : Dispatch)
    (tokens : List Nat) (status : RequestStatus) (scheduler : ContinuousScheduler)
    (finishError : Option (ServiceError ε)) : ScheduledService σ ε where
  scheduler
  executor :=
    if status.isTerminal then (answer (E.finish dispatch.requestId status) s.executor).2
    else s.executor
  outputs := s.outputs.insert dispatch.requestId tokens
  finishError

theorem commitCalls_ends {sched : ContinuousScheduler} {dispatch : Dispatch}
    {output : QuantumOutput} {state : RequestState} (h : Coherent sched)
    (hrun : sched.running.get? dispatch.requestId = some dispatch)
    (hget : sched.requests.get? dispatch.requestId = some state)
    (hvalid : ValidOutput dispatch output) (hbudget : dispatch.tokenBudget < 2 ^ 32) :
    (completeQuantumWithProgress dispatch.requestId output.tokens.length
        (quantumProgress dispatch output) (output.prefill.any (·.ready)) output.eos).Ends
      (markedState sched dispatch.requestId state output.cancelled)
      (CommitReturns sched dispatch output state)
      (fun fault s' =>
        (fault = .panic ∧ sched.reservedKvBytes < state.reservedKvBytes) ∨
        (fault = .error .accountingOverflow ∧ ∃ state' stats,
          CommitStalls sched dispatch output state state' stats ∧
          s' = stalledState sched dispatch.requestId state' stats)) := by
  have hmarked := coherent_marked h hget output.cancelled
  have hget' : (markedState sched dispatch.requestId state output.cancelled).requests.get?
      dispatch.requestId = some (marked state output.cancelled) := SortedMap.get?_insert_self _ _ _
  have hok := hvalid.validates hbudget dispatch.requestId
  refine (completeQuantumWithProgress_ends _ _ _ _ _ _).mono ?_ ?_
  · rintro completion s' ⟨dispatch', state', hr⟩
    have hd : dispatch' = dispatch := Option.some.inj (hr.running.symm.trans hrun)
    have hs : state' = marked state output.cancelled :=
      Option.some.inj (hr.request.symm.trans hget')
    subst hd hs
    exact hr
  · rintro fault s' hf
    cases hf with
    | notRunning hnone => exact absurd (hnone.symm.trans hrun) (by simp)
    | unknown _ _ hnone => exact absurd (hnone.symm.trans hget') (by simp)
    | invalid dispatch' error hd herror =>
      obtain rfl : dispatch' = dispatch := Option.some.inj (hd.symm.trans hrun)
      exact absurd (hok.symm.trans herror) (by simp)
    | overflow dispatch' state₁ state' stats hd hs _ hover hpartly =>
      obtain rfl : dispatch' = dispatch := Option.some.inj (hd.symm.trans hrun)
      obtain rfl := Option.some.inj (hs.symm.trans hget')
      refine .inr ⟨rfl, state', stats, ⟨hover, hpartly⟩, ?_⟩
      simp [stalledState, markedState]
    | panic dispatch' state₁ _ hd hs hv hcause =>
      have hlt := hmarked.panic_cause hd hs hv hcause
      obtain rfl := Option.some.inj (hs.symm.trans hget')
      exact .inl ⟨rfl, hlt⟩

theorem finishRequest_ends {E : QuantumExecutor σ ρ ε} {id : RequestId} {status : RequestStatus}
    {Q : Unit → ScheduledService σ ε → Prop}
    {F : Fault (ServiceError ε) → ScheduledService σ ε → Prop}
    (h : ∀ finishError, Q () { s with
      executor := (answer (E.finish id status) s.executor).2, finishError }) :
    (finishRequest E id status).Ends s Q F := by
  simp only [finishRequest, ends_bind, ends_onExecutor]
  split
  · simp only [rememberFinishError, ends_modify]
    split
    · exact h _
    · exact h _
  · exact h _

/-- What a commit of a valid output that returned has done. -/
def Committed (E : QuantumExecutor σ ρ ε) (s : ScheduledService σ ε) (dispatch : Dispatch)
    (output : QuantumOutput) (state : RequestState) (s' : ScheduledService σ ε) : Prop :=
  ∃ tokens completion scheduler finishError,
    s.outputs.get? dispatch.requestId = some tokens ∧
    CommitReturns s.scheduler dispatch output state completion scheduler ∧
    s' = committedService E s dispatch (tokens ++ output.tokens) completion.status scheduler
      finishError

/-- Why a commit of a valid output can fail, and the service it leaves. -/
inductive CommitFails (s : ScheduledService σ ε) (dispatch : Dispatch) (output : QuantumOutput)
    (state : RequestState) : Fault (ServiceError ε) → ScheduledService σ ε → Prop
  | reservation (s' : ScheduledService σ ε)
      (h : s.scheduler.reservedKvBytes < state.reservedKvBytes) :
      CommitFails s dispatch output state .panic s'
  | output (s' : ScheduledService σ ε) (h : s.outputs.get? dispatch.requestId = none) :
      CommitFails s dispatch output state .panic s'
  | stalled (error : ServiceError ε) (record : RequestState) (stats : SchedulerStats)
      (h : CommitStalls s.scheduler dispatch output state record stats) :
      CommitFails s dispatch output state (.error error)
        { s with scheduler := stalledState s.scheduler dispatch.requestId record stats }

section Commit

variable {E : QuantumExecutor σ ρ ε} {dispatch : Dispatch} {output : QuantumOutput}
  {state : RequestState}

theorem commitOutput_ends (h : Coherent s.scheduler)
    (hrun : s.scheduler.running.get? dispatch.requestId = some dispatch)
    (hget : s.scheduler.requests.get? dispatch.requestId = some state)
    (hvalid : ValidOutput dispatch output) (hbudget : dispatch.tokenBudget < 2 ^ 32) :
    (commitOutput E dispatch output).Ends
      { s with scheduler := markedState s.scheduler dispatch.requestId state output.cancelled }
      (fun _ s' => Committed E s dispatch output state s')
      (CommitFails s dispatch output state) := by
  simp only [commitOutput, ends_bind, hvalid.length_lt hbudget, ends_orPanic, Option.some.injEq,
    forall_eq', reduceCtorEq, false_implies, and_true, ends_schedulerCall]
  refine (commitCalls_ends h hrun hget hvalid hbudget).mono ?_ ?_
  · intro completion scheduler hr
    simp only [extendOutput, ends_bind, ends_get, ends_orPanic, ends_modify, ends_ite, ends_pure]
    refine ⟨fun tokens htokens => ⟨fun hterm => finishRequest_ends fun finishError => ?_,
      fun hterm => ?_⟩, fun hnone => .output _ hnone⟩
    · refine ⟨tokens, completion, scheduler, finishError, htokens, hr, ?_⟩
      simp [committedService, hterm]
    · refine ⟨tokens, completion, scheduler, s.finishError, htokens, hr, ?_⟩
      simp [committedService, hterm]
  · rintro fault scheduler (⟨rfl, hlt⟩ | ⟨rfl, record, stats, hstall, rfl⟩)
    · exact .reservation _ hlt
    · exact .stalled _ record stats hstall

/-- The ways one commit of a valid output can end. -/
theorem commitQuantum_ends (h : Coherent s.scheduler)
    (hrun : s.scheduler.running.get? dispatch.requestId = some dispatch)
    (hget : s.scheduler.requests.get? dispatch.requestId = some state)
    (hvalid : ValidOutput dispatch output) (hbudget : dispatch.tokenBudget < 2 ^ 32) :
    (commitQuantum E dispatch output).Ends s (fun _ s' => Committed E s dispatch output state s')
      (CommitFails s dispatch output state) := by
  have hrunning := (h.dispatched hget hrun).1
  have hphase := ((invalidOutputForDispatch_eq_none (ε := ε)).mpr hvalid).1
  have hcommit := commitOutput_ends (E := E) h hrun hget hvalid hbudget
  rw [commitQuantum, if_neg (not_lt.mpr hvalid.budget), hphase]
  cases hcancelled : output.cancelled with
  | false =>
    have hsame : markedState s.scheduler dispatch.requestId state output.cancelled =
        s.scheduler := by
      simp [markedState, marked, hcancelled, SortedMap.insert_self hget]
    rw [hsame] at hcommit
    simpa [hcancelled] using hcommit
  | true =>
    simp only [if_true, ends_bind, ends_schedulerCall]
    refine (cancel_ends s.scheduler dispatch.requestId).mono ?_ ?_
    · rintro status scheduler ⟨state', hget', hr⟩
      obtain rfl : state' = state := Option.some.inj (hget'.symm.trans hget)
      simp only [CancelReturns, hrunning] at hr
      have hsame : scheduler =
          markedState s.scheduler dispatch.requestId state' output.cancelled := by
        rw [hr.2, hcancelled, markedState, marked, Bool.or_true]
        rfl
      rw [hsame]
      exact hcommit
    · rintro fault _ ⟨rfl, hf⟩
      cases hf with
      | unknown hnone => exact absurd (hnone.symm.trans hget) (by simp)
      | panic state' hget' hlt =>
        obtain rfl : state' = state := Option.some.inj (hget'.symm.trans hget)
        exact .reservation _ hlt

end Commit

/-! ## Aborting one quantum -/

/-- The service after a running quantum was aborted and its request released. -/
def abortedService (E : QuantumExecutor σ ρ ε) (s : ScheduledService σ ε) (id : RequestId)
    (state : RequestState) : ScheduledService σ ε :=
  { s with
    scheduler := abortedState s.scheduler id state
    executor := (answer (E.finish id .cancelled) s.executor).2 }

section Abort

variable {E : QuantumExecutor σ ρ ε} {dispatch opened : Dispatch} {state : RequestState}
  {F : Fault (ServiceError ε) → ScheduledService σ ε → Prop}

theorem abortQuantum_running_ends {s : ContinuousScheduler} {id : RequestId}
    (hrun : s.running.get? id = some opened) (hget : s.requests.get? id = some state) :
    (abortQuantum id).Ends s
      (fun status s' => status = .cancelled ∧ s' = abortedState s id state)
      (fun fault _ => fault = .panic ∧ s.reservedKvBytes < state.reservedKvBytes) := by
  refine (abortQuantum_ends s id).mono ?_ ?_
  · rintro _ _ ⟨_, state', _, hget', rfl, rfl⟩
    obtain rfl : state' = state := Option.some.inj (hget'.symm.trans hget)
    exact ⟨rfl, rfl⟩
  · rintro _ _ ⟨rfl, hf⟩
    cases hf with
    | notRunning hnone => exact absurd (hnone.symm.trans hrun) (by simp)
    | unknown _ _ hnone => exact absurd (hnone.symm.trans hget) (by simp)
    | panic state' hget' hlt =>
      obtain rfl : state' = state := Option.some.inj (hget'.symm.trans hget)
      exact ⟨rfl, hlt⟩

theorem abortOne_ends {Q : Option (ServiceError ε) → ScheduledService σ ε → Prop}
    {firstError : Option (ServiceError ε)}
    (hrun : s.scheduler.running.get? dispatch.requestId = some opened)
    (hget : s.scheduler.requests.get? dispatch.requestId = some state)
    (hQ : ∀ error, Q error (abortedService E s dispatch.requestId state))
    (hF : s.scheduler.reservedKvBytes < state.reservedKvBytes → ∀ s', F .panic s') :
    (abortOne E firstError dispatch).Ends s Q F := by
  simp only [abortOne, ends_bind, ends_onScheduler]
  refine (abortQuantum_running_ends hrun hget).mono ?_ ?_
  · rintro _ _ ⟨rfl, rfl⟩
    simp only [ends_onExecutor]
    split
    · exact hQ _
    · exact hQ _
  · rintro _ _ ⟨rfl, hlt⟩
    exact ⟨by simp, fun _ => hF hlt _⟩

theorem abortRunning_ends {Q : Unit → ScheduledService σ ε → Prop}
    (hrun : s.scheduler.running.get? dispatch.requestId = some opened)
    (hget : s.scheduler.requests.get? dispatch.requestId = some state)
    (hstatus : state.status = .running)
    (hQ : Q () (abortedService E s dispatch.requestId state))
    (hF : s.scheduler.reservedKvBytes < state.reservedKvBytes → ∀ s', F .panic s') :
    (abortRunning E dispatch).Ends s Q F := by
  have hrunning : s.scheduler.status dispatch.requestId = some .running := by
    rw [ContinuousScheduler.status, hget, ← hstatus]
    rfl
  simp only [abortRunning, ends_bind, ends_get, hrunning, ne_eq, not_true_eq_false, if_false,
    ends_onScheduler]
  refine (abortQuantum_running_ends hrun hget).mono ?_ ?_
  · rintro _ _ ⟨rfl, rfl⟩
    exact hQ
  · rintro _ _ ⟨rfl, hlt⟩
    exact ⟨by simp, fun _ => hF hlt _⟩

end Abort

/-! ## Batches and ticks -/

/-- The loop over expired requests keeps an invariant of the requests still to release. -/
theorem finishExpiredRequests_ends {E : QuantumExecutor σ ρ ε} {nowNs : Nat}
    {I : List RequestId → ScheduledService σ ε → Prop}
    {F : Fault (ServiceError ε) → ScheduledService σ ε → Prop}
    (h : ∀ scheduler, scheduler = { s.scheduler with expired := [] } →
      I s.scheduler.expired { s with scheduler })
    (hstep : ∀ id ids (s : ScheduledService σ ε) finishError, I (id :: ids) s → I ids { s with
      executor := (answer (E.finishAt id .deadlineExpired nowNs) s.executor).2, finishError }) :
    (finishExpiredRequests E nowNs).Ends s (fun _ s' => I [] s') F := by
  simp only [finishExpiredRequests, ends_bind, ends_schedulerCall, takeExpiredDeadlines, ends_get,
    ends_set, ends_pure]
  refine ends_forM (h _ rfl) fun id ids s hI => ?_
  simp only [finishExpired, ends_bind, ends_onExecutor]
  split
  · simp only [rememberFinishError, ends_modify]
    split
    · exact hstep id ids s _ hI
    · exact hstep id ids s _ hI
  · exact hstep id ids s _ hI

/-- Committing valid outputs in order keeps an invariant of the quanta still to commit. -/
theorem commitBatch_ends {E : QuantumExecutor σ ρ ε}
    {I : List Dispatch → List QuantumOutput → ScheduledService σ ε → Prop}
    {F : Fault (ServiceError ε) → ScheduledService σ ε → Prop}
    (hcommit : ∀ dispatch dispatches output outputs s,
      I (dispatch :: dispatches) (output :: outputs) s → ValidOutput dispatch output →
      (commitQuantum E dispatch output).Ends s (fun _ s' => I dispatches outputs s')
        (fun fault s' => (∀ error, fault = .error error →
            (abortRunningBatch E (dispatch :: dispatches)).Ends s'
              (fun _ s'' => F (.error error) s'') F) ∧
          (fault = .panic → F .panic s')))
    {dispatches : List Dispatch} {outputs : List QuantumOutput} (h : I dispatches outputs s)
    (hvalid : List.Forall₂ ValidOutput dispatches outputs) :
    (commitBatch E dispatches outputs).Ends s (fun _ s' => I [] [] s') F := by
  induction hvalid generalizing s with
  | nil => exact h
  | cons hhead _ ih =>
    simp only [commitBatch, ends_bind, ends_caught]
    refine (hcommit _ _ _ _ s h hhead).mono ?_ ?_
    · intro quantum s' hs'
      simp only [ends_pure]
      exact ih hs'
    · rintro fault s' ⟨habort, hpanic⟩
      refine ⟨fun error herror => ?_, hpanic⟩
      simp only [ends_raise]
      exact habort error herror

/-- Opening a batch dispatches and then releases what expired. -/
theorem openBatch_ends {E : QuantumExecutor σ ρ ε} {nowNs limit : Nat}
    {Q : List Dispatch → ScheduledService σ ε → Prop}
    {F : Fault (ServiceError ε) → ScheduledService σ ε → Prop}
    (h : (dispatchBatch nowNs limit).Ends s.scheduler
      (fun batch scheduler => (finishExpiredRequests E nowNs).Ends { s with scheduler }
        (fun _ s' => Q batch s') (fun _ _ => False))
      (fun fault scheduler => (fault = .panic → F .panic { s with scheduler }) ∧
        (fault ≠ .panic → (finishExpiredRequests E nowNs).Ends { s with scheduler }
          (fun _ s' => ∀ error, F (.error error) s') (fun _ _ => False)))) :
    (openBatch E nowNs limit).Ends s Q F := by
  simp only [openBatch, ends_bind, ends_onScheduler]
  refine h.mono ?_ ?_
  · intro batch scheduler hbatch
    simp only [ends_pure]
    exact hbatch.mono (fun _ _ hs' => hs') fun _ _ hf => hf.elim
  · rintro fault scheduler ⟨hpanic, hreturned⟩
    refine ⟨fun error herror => ?_, hpanic⟩
    simp only [ends_raise]
    exact (hreturned (by simp [herror])).mono (fun _ _ hs' => hs' _) fun _ _ hf => hf.elim

/-- A tick opens a batch, executes it and commits it. What its parts leave, the tick leaves. -/
theorem tickBatchWithLimit_leaves {E : QuantumExecutor σ ρ ε} {nowNs limit : Nat}
    {P : ScheduledService σ ε → Prop} {R : Prop}
    (hP : ∀ (s : ScheduledService σ ε) finishError, P s → P { s with finishError })
    (hopen : (openBatch E nowNs limit).Ends { s with finishError := none }
      (fun batch s' => (batch = [] → P s') ∧ (batch ≠ [] →
        (executeBatchOutputs E batch >>= commitBatch E batch).Leaves s' P R))
      (fun fault s' => (fault = .panic → R) ∧ (fault ≠ .panic → P s'))) :
    (tickBatchWithLimit E nowNs limit).Leaves s P R := by
  simp only [Leaves, tickBatchWithLimit, ends_bind, ends_modify]
  refine hopen.mono ?_ (fun _ _ hf => hf)
  intro batch s' hs'
  by_cases hempty : batch = []
  · simp only [hempty, List.isEmpty_nil, if_true, takeFinishError, ends_bind, ends_get,
      ends_modify, ends_pure]
    have hkeep := hP s' none (hs'.1 hempty)
    split
    · simpa using hkeep
    · exact hkeep
  · simp only [List.isEmpty_iff, hempty, if_false, ends_bind, ends_caught, takeFinishError,
      ends_get, ends_modify, ends_pure]
    refine (ends_bind _ _).mp ((hs'.2 hempty).mono ?_ ?_)
    · intro quanta s'' hs''
      have hkeep := hP s'' none hs''
      split
      · simpa using hkeep
      · simpa using hkeep
      · exact hkeep
    · rintro fault s'' ⟨hpanic, hreturned⟩
      refine ⟨fun error herror => ?_, fun herror => ⟨fun _ => hpanic herror, fun hne => ?_⟩⟩
      · have hkeep := hP s'' none (hreturned (by simp [herror]))
        simpa using hkeep
      · exact absurd rfl hne

end Leone.Service
