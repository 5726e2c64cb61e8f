import Leone.Service.Steps

/-!
# Calls, one quantum at a time

What a call does to one property of the service, given what each of its parts does: opening the
batch of a tick, executing it, committing or aborting one quantum, and beginning or cancelling a
request. The scheduler stays coherent throughout, whatever its counters hold.
-/

namespace Leone.Service

open Framework Framework.Method Scheduler

variable {σ ρ ε : Type}

/-! ## Open batches -/

/-- A coherent scheduler in which the quanta of a batch are open. -/
structure OpenBatch (batch : List Dispatch) (s : ContinuousScheduler) : Prop where
  coherent : Coherent s
  nodup : (batch.map Dispatch.requestId).Nodup
  running : ∀ dispatch ∈ batch, s.running.get? dispatch.requestId = some dispatch

namespace OpenBatch

variable {batch : List Dispatch} {s s' : ContinuousScheduler} {dispatch : Dispatch}
  {output : QuantumOutput} {state record : RequestState} {completion : QuantumCompletion}
  {stats : SchedulerStats}

theorem of_dispatch {expired started : ContinuousScheduler} {nowNs limit : Nat}
    (h : Coherent s) (hcoh : Coherent s')
    (hr : DispatchReturns s nowNs limit batch s' expired started) : OpenBatch batch s' where
  coherent := hcoh
  nodup := (hr.dispatched h).nodup_batch
  running dispatch hd := ((hr.dispatched h).batch_status dispatch hd).2.2

theorem exists_record (h : OpenBatch (dispatch :: batch) s) :
    ∃ state, s.requests.get? dispatch.requestId = some state ∧ state.status = .running ∧
      DispatchOk s.policy dispatch.requestId state dispatch := by
  have hrun := h.running dispatch List.mem_cons_self
  obtain ⟨state, hget⟩ := h.coherent.exists_record hrun
  exact ⟨state, hget, h.coherent.dispatched hget hrun⟩

theorem tail_of_remove (h : OpenBatch (dispatch :: batch) s) (hcoh : Coherent s')
    (hrun : s'.running = s.running.remove dispatch.requestId) : OpenBatch batch s' := by
  obtain ⟨hfresh, hnodup⟩ := List.nodup_cons.mp h.nodup
  refine ⟨hcoh, hnodup, fun other hd => ?_⟩
  have hne : other.requestId ≠ dispatch.requestId := fun heq =>
    hfresh (heq ▸ List.mem_map_of_mem hd)
  rw [hrun, SortedMap.get?_remove, if_neg hne]
  exact h.running other (List.mem_cons_of_mem _ hd)

theorem committed (h : OpenBatch (dispatch :: batch) s)
    (hget : s.requests.get? dispatch.requestId = some state)
    (hr : CommitReturns s dispatch output state completion s') : OpenBatch batch s' := by
  obtain ⟨_, -, -, -, hrun, -⟩ := hr.stored
  exact h.tail_of_remove ((coherent_marked h.coherent hget output.cancelled).completeReturns hr) hrun

theorem aborted (h : OpenBatch (dispatch :: batch) s)
    (hget : s.requests.get? dispatch.requestId = some state) (hstatus : state.status = .running)
    (hspec : record.spec = state.spec)
    (hemitted : stats.emittedTokens = s.stats.emittedTokens) :
    OpenBatch batch
      (abortedState (stalledState s dispatch.requestId record stats) dispatch.requestId record) :=
  h.tail_of_remove (h.coherent.aborted hget hstatus hspec hemitted) rfl

theorem aborted_running (h : OpenBatch (dispatch :: batch) s)
    (hget : s.requests.get? dispatch.requestId = some state) (hstatus : state.status = .running) :
    OpenBatch batch (abortedState s dispatch.requestId state) := by
  have hsame : stalledState s dispatch.requestId state s.stats = s := by
    rw [stalledState, SortedMap.insert_self hget]
  have haborted := h.aborted hget hstatus (rfl : state.spec = _) (rfl : s.stats.emittedTokens = _)
  rwa [hsame] at haborted

end OpenBatch

/-! ## Disciplines -/

/-- What the parts of a tick do to a property `P` of the service. `opened` holds of a batch that
was selected, `executed` of the outputs still to commit, and `aborting` of the quanta still to
abort; `guard` is what the run at hand provides about the selected batch. -/
structure Discipline (E : QuantumExecutor σ ρ ε) (P : ScheduledService σ ε → Prop)
    (guard opened : List Dispatch → ScheduledService σ ε → Prop)
    (executed : List Dispatch → List QuantumOutput → ScheduledService σ ε → Prop)
    (aborting : List Dispatch → ScheduledService σ ε → Prop) : Prop where
  /-- The remembered error plays no part. -/
  forget : ∀ s finishError, P s → P { s with finishError }
  opens : ∀ s nowNs limit batch scheduler expired started, Coherent s.scheduler → P s →
    DispatchReturns s.scheduler nowNs limit batch scheduler expired started →
    ∀ finishError, opened batch
      { s with scheduler := { scheduler with expired := [] }, finishError }
  fails : ∀ s nowNs limit fault scheduler, Coherent s.scheduler → P s →
    DispatchFails s.scheduler nowNs limit fault scheduler →
    ∀ finishError, opened []
      { s with scheduler := { scheduler with expired := [] }, finishError }
  finishes : ∀ batch s id nowNs finishError, opened batch s → opened batch { s with
    executor := (answer (E.finishAt id .deadlineExpired nowNs) s.executor).2, finishError }
  idle : ∀ s, opened [] s → P s
  executes : ∀ batch s outputs, OpenBatch batch s.scheduler → opened batch s → guard batch s →
    (answer (E.executeBatch batch) s.executor).1 = .ok outputs →
    List.Forall₂ ValidOutput batch outputs →
    executed batch outputs { s with executor := (answer (E.executeBatch batch) s.executor).2 }
  refuses : ∀ batch s, OpenBatch batch s.scheduler → opened batch s → guard batch s →
    (∀ outputs, (answer (E.executeBatch batch) s.executor).1 = .ok outputs →
      ¬ List.Forall₂ ValidOutput batch outputs) →
    aborting batch { s with executor := (answer (E.executeBatch batch) s.executor).2 }
  commits : ∀ dispatch batch output outputs s s' state,
    OpenBatch (dispatch :: batch) s.scheduler →
    s.scheduler.requests.get? dispatch.requestId = some state →
    ValidOutput dispatch output → executed (dispatch :: batch) (output :: outputs) s →
    Committed E s dispatch output state s' → executed batch outputs s'
  stalls : ∀ dispatch batch output outputs s state record stats,
    OpenBatch (dispatch :: batch) s.scheduler →
    s.scheduler.requests.get? dispatch.requestId = some state →
    executed (dispatch :: batch) (output :: outputs) s →
    CommitStalls s.scheduler dispatch output state record stats →
    aborting batch (abortedService E
      { s with scheduler := stalledState s.scheduler dispatch.requestId record stats }
      dispatch.requestId record)
  aborts : ∀ dispatch batch s state, OpenBatch (dispatch :: batch) s.scheduler →
    s.scheduler.requests.get? dispatch.requestId = some state →
    aborting (dispatch :: batch) s →
    aborting batch (abortedService E s dispatch.requestId state)
  commits_done : ∀ s, executed [] [] s → P s
  aborts_done : ∀ s, aborting [] s → P s

namespace Discipline

variable {E : QuantumExecutor σ ρ ε} {P : ScheduledService σ ε → Prop}
  {guard opened aborting : List Dispatch → ScheduledService σ ε → Prop}
  {executed : List Dispatch → List QuantumOutput → ScheduledService σ ε → Prop}
  {s : ScheduledService σ ε} {batch : List Dispatch}

/-- A coherent service with `P`, as a discipline leaves it. -/
def Rest (P : ScheduledService σ ε → Prop) (s : ScheduledService σ ε) : Prop :=
  Coherent s.scheduler ∧ P s

theorem abortBatch (D : Discipline E P guard opened executed aborting)
    (h : OpenBatch batch s.scheduler) (ha : aborting batch s) :
    (abortBatch E batch).Leaves s (Rest P) True := by
  simp only [Leaves, Service.abortBatch, ends_bind]
  refine (ends_foldlM (I := fun batch (s : ScheduledService σ ε) =>
    OpenBatch batch s.scheduler ∧ aborting batch s) (E := fun fault s' =>
      (fault = .panic → True) ∧ (fault ≠ .panic → Rest P s')) ⟨h, ha⟩
    (fun firstError dispatch batch s hI => ?_) none).mono ?_ (fun _ _ hf => hf)
  · obtain ⟨state, hget, hstatus, -⟩ := hI.1.exists_record
    refine abortOne_ends (hI.1.running dispatch List.mem_cons_self) hget (fun _ => ?_)
      (fun _ s' => ⟨fun _ => trivial, fun hne => absurd rfl hne⟩)
    exact ⟨hI.1.aborted_running hget hstatus, D.aborts dispatch batch s state hI.1 hget hI.2⟩
  · intro firstError s' hs'
    have hrest : Rest P s' := ⟨hs'.1.coherent, D.aborts_done s' hs'.2⟩
    split
    · exact hrest
    · exact ⟨fun _ => trivial, fun _ => hrest⟩

theorem abortRunningBatch (D : Discipline E P guard opened executed aborting)
    {Q : Unit → ScheduledService σ ε → Prop}
    {F : Fault (ServiceError ε) → ScheduledService σ ε → Prop}
    (h : OpenBatch batch s.scheduler) (ha : aborting batch s)
    (hQ : ∀ s', Rest P s' → Q () s') (hF : ∀ s', F .panic s') :
    (abortRunningBatch E batch).Ends s Q F := by
  refine (ends_forM (I := fun batch (s : ScheduledService σ ε) =>
    OpenBatch batch s.scheduler ∧ aborting batch s) (E := F) ⟨h, ha⟩
    fun dispatch batch s hI => ?_).mono ?_ (fun _ _ hf => hf)
  · obtain ⟨state, hget, hstatus, -⟩ := hI.1.exists_record
    exact abortRunning_ends (hI.1.running dispatch List.mem_cons_self) hget hstatus
      ⟨hI.1.aborted_running hget hstatus, D.aborts dispatch batch s state hI.1 hget hI.2⟩
      fun _ s' => hF s'
  · exact fun _ s' hs' => hQ s' ⟨hs'.1.coherent, D.aborts_done s' hs'.2⟩

theorem commitBatch (D : Discipline E P guard opened executed aborting)
    {outputs : List QuantumOutput} (h : OpenBatch batch s.scheduler)
    (he : executed batch outputs s) (hvalid : List.Forall₂ ValidOutput batch outputs) :
    (commitBatch E batch outputs).Leaves s (Rest P) True := by
  refine (commitBatch_ends (I := fun batch outputs (s : ScheduledService σ ε) =>
    OpenBatch batch s.scheduler ∧ executed batch outputs s) (F := fun fault s' =>
      (fault = .panic → True) ∧ (fault ≠ .panic → Rest P s'))
    (fun dispatch batch output outputs s hI hhead => ?_) ⟨h, he⟩ hvalid).mono ?_
    (fun _ _ hf => hf)
  · obtain ⟨hopen, he⟩ := hI
    obtain ⟨state, hget, hstatus, hdispatch⟩ := hopen.exists_record
    have hrun := hopen.running dispatch List.mem_cons_self
    refine (commitQuantum_ends hopen.coherent hrun hget hhead hdispatch.budget_lt).mono ?_ ?_
    · intro quantum s' hs'
      have hnext := D.commits dispatch batch output outputs s s' state hopen hget hhead he hs'
      obtain ⟨_, _, _, _, -, hr, rfl⟩ := hs'
      exact ⟨hopen.committed hget hr, hnext⟩
    · intro fault s' hf
      cases hf with
      | reservation | output =>
        exact ⟨by simp, fun _ => ⟨fun _ => trivial, fun hne => absurd rfl hne⟩⟩
      | stalled error record stats hstall =>
        have hstanding := hstall.partly.standing
        refine ⟨fun error herror => ?_, by simp⟩
        simp only [Service.abortRunningBatch, List.forM_cons, ends_bind]
        refine abortRunning_ends hrun (SortedMap.get?_insert_self _ _ record)
          (hstanding.status.trans hstatus) ?_
          (fun _ s' => ⟨fun _ => trivial, fun hne => absurd rfl hne⟩)
        exact D.abortRunningBatch
          (hopen.aborted hget hstatus hstanding.spec hstall.partly.total.emittedTokens)
          (D.stalls dispatch batch output outputs s state record stats hopen hget he hstall)
          (fun s' hs' => ⟨by simp, fun _ => hs'⟩)
          (fun s' => ⟨fun _ => trivial, fun hne => absurd rfl hne⟩)
  · exact fun _ s' hs' => ⟨hs'.1.coherent, D.commits_done s' hs'.2⟩

theorem executeBatch (D : Discipline E P guard opened executed aborting)
    (h : OpenBatch batch s.scheduler) (ho : opened batch s) (hguard : guard batch s) :
    (executeBatchOutputs E batch >>= Service.commitBatch E batch).Leaves s (Rest P) True := by
  rw [Leaves, ends_bind]
  refine executeBatchOutputs_ends (fun outputs hok hvalid => ?_) fun error hbad => ?_
  · exact D.commitBatch h (D.executes batch s outputs h ho hguard hok hvalid) hvalid
  · refine (D.abortBatch (s := { s with
      executor := (answer (E.executeBatch batch) s.executor).2 }) h
      (D.refuses batch s h ho hguard hbad)).mono ?_ (fun _ _ hf => hf)
    exact fun _ s' hs' => ⟨fun _ => trivial, fun _ => hs'⟩

/-- Releasing expired requests leaves a selected batch as it is. -/
theorem finishExpiredRequests (D : Discipline E P guard opened executed aborting) {nowNs : Nat}
    {scheduler : ContinuousScheduler} {finishError : Option (ServiceError ε)}
    {F : Fault (ServiceError ε) → ScheduledService σ ε → Prop} (h : OpenBatch batch scheduler)
    (ho : opened batch { s with scheduler := { scheduler with expired := [] }, finishError }) :
    (finishExpiredRequests E nowNs).Ends { s with scheduler, finishError }
      (fun _ s' => OpenBatch batch s'.scheduler ∧ opened batch s') F := by
  refine finishExpiredRequests_ends (I := fun _ s' => OpenBatch batch s'.scheduler ∧
    opened batch s') ?_ ?_
  · rintro _ rfl
    exact ⟨⟨h.coherent.congr rfl rfl rfl rfl, h.nodup, h.running⟩, ho⟩
  · intro id _ s' finishError hI
    exact ⟨hI.1, D.finishes batch s' id nowNs finishError hI.2⟩

theorem openBatch (D : Discipline E P guard opened executed aborting) {nowNs limit : Nat}
    (h : Rest P s) : (openBatch E nowNs limit).Ends { s with finishError := none }
      (fun batch s' => OpenBatch batch s'.scheduler ∧ opened batch s')
      (fun fault s' => fault ≠ .panic → Rest P s') := by
  refine openBatch_ends ((dispatchBatch_ends h.1 nowNs limit).mono ?_ ?_)
  · rintro batch scheduler ⟨hcoh, expired, started, hr⟩
    exact D.finishExpiredRequests (.of_dispatch h.1 hcoh hr)
      (D.opens s nowNs limit batch scheduler expired started h.1 h.2 hr none)
  · rintro fault scheduler hcause
    refine ⟨fun _ hne => absurd rfl hne, fun hne => ?_⟩
    rcases hcause with hpanic | ⟨hcoh, hf⟩
    · exact absurd hpanic hne
    refine (D.finishExpiredRequests (⟨hcoh, List.nodup_nil, by simp⟩ : OpenBatch [] scheduler)
      (D.fails s nowNs limit fault scheduler h.1 h.2 hf none)).mono ?_ (fun _ _ hf => hf)
    exact fun _ s' hs' error _ => ⟨hs'.1.coherent, D.idle s' hs'.2⟩

/-- A tick keeps the property of a discipline, if the batch that it selects meets the guard. -/
theorem tick (D : Discipline E P guard opened executed aborting) {nowNs limit : Nat}
    (h : Rest P s)
    (hguard : (Service.openBatch E nowNs limit).Ends { s with finishError := none }
      (fun batch s' => batch ≠ [] → guard batch s') (fun _ _ => True)) :
    (tickBatchWithLimit E nowNs limit).Leaves s (Rest P) True := by
  refine tickBatchWithLimit_leaves
    (fun s finishError hs => ⟨hs.1, D.forget s finishError hs.2⟩) ?_
  refine ((D.openBatch h).and hguard).mono ?_ ?_
  · rintro batch s' ⟨⟨hopen, ho⟩, hg⟩
    refine ⟨fun hempty => ?_, fun hne => D.executeBatch hopen ho (hg hne)⟩
    subst hempty
    exact ⟨hopen.coherent, D.idle s' ho⟩
  · rintro fault s' ⟨hf, -⟩
    exact ⟨fun _ => trivial, hf⟩

end Discipline

/-! ## Admissions and cancellations -/

namespace Discipline.Rest

variable {E : QuantumExecutor σ ρ ε} {P : ScheduledService σ ε → Prop}
  {s : ScheduledService σ ε} {spec : RequestSpec} {request : ρ} {nowNs : Nat}

/-- An admission stores a record that it then begins, or that nothing begins. -/
theorem admitRequest (h : Rest P s)
    (hsame : ∀ scheduler, scheduler.requests = s.scheduler.requests → P { s with scheduler })
    (hstored : ∀ scheduler record, s.scheduler.requests.get? spec.id = none →
      scheduler.requests = s.scheduler.requests.insert spec.id record → P { s with scheduler })
    (hbegun : ∀ bytes u, s.scheduler.requests.get? spec.id = none →
      (answer (E.begin spec.id request) s.executor).1 = .ok u → P { s with
        scheduler := admittedState s.scheduler spec bytes
        executor := (answer (E.begin spec.id request) s.executor).2
        outputs := s.outputs.insert spec.id [] })
    (hfailed : ∀ scheduler record error, s.scheduler.requests.get? spec.id = none →
      scheduler.requests = s.scheduler.requests.insert spec.id record →
      (answer (E.begin spec.id request) s.executor).1 = .error error →
      P { s with scheduler, executor := (answer (E.begin spec.id request) s.executor).2 }) :
    (admitRequest E spec request nowNs).Leaves s (Rest P) True := by
  obtain ⟨hcoh, hP⟩ := h
  simp only [Leaves, Service.admitRequest, ends_bind, ends_schedulerCall]
  refine (admit_ends spec nowNs hcoh.policy.page).mono ?_ ?_
  · intro outcome scheduler hr
    have hcoh' := hcoh.admitReturns hr
    obtain ⟨hnone, -, -, hr⟩ := hr
    cases outcome with
    | rejected reason =>
      obtain ⟨-, rfl⟩ := hr
      exact ⟨hcoh', hstored _ _ hnone rfl⟩
    | admitted bytes =>
      obtain ⟨-, rfl⟩ := hr
      simp only [ends_bind, ends_pure]
      have hget : (admittedState s.scheduler spec bytes).requests.get? spec.id =
          some (queuedRecord s.scheduler spec bytes) := SortedMap.get?_insert_self _ _ _
      refine beginRequest_ends hget rfl (fun u hok => ?_) (fun error herror => ?_)
        (fun _ s' => ⟨fun _ => trivial, fun hne => absurd rfl hne⟩)
      · exact ⟨hcoh', hbegun bytes u hnone hok⟩
      · refine ⟨fun _ => trivial, fun _ => ⟨hcoh'.cancelled hget rfl, ?_⟩⟩
        exact hfailed _ _ error hnone (SortedMap.insert_insert _ _ _ _) herror
  · intro fault scheduler hf
    obtain ⟨hcoh', -⟩ := hcoh.admitFails hf
    refine ⟨fun _ => trivial, fun _ => ⟨hcoh', ?_⟩⟩
    cases hf with
    | duplicate | future => exact hP
    | reservation => exact hsame _ rfl
    | strandedRejected hnone => exact hstored _ _ hnone rfl
    | strandedQueued bytes hnone => exact hstored _ _ hnone rfl

/-- Cancelling a queued request releases it, and a running one is asked to stop. -/
theorem cancel {id : RequestId} (h : Rest P s)
    (hqueued : ∀ state, s.scheduler.requests.get? id = some state → state.status = .queued →
      P { s with
        scheduler := cancelledState s.scheduler id state
        executor := (answer (E.finish id .cancelled) s.executor).2 })
    (hflagged : ∀ state, s.scheduler.requests.get? id = some state → state.status = .running →
      P { s with scheduler := flaggedState s.scheduler id state }) :
    (cancel E id).Leaves s (Rest P) True := by
  obtain ⟨hcoh, hP⟩ := h
  simp only [Leaves, Service.cancel, ends_bind, ends_get, ends_orErr, ends_schedulerCall]
  refine ⟨fun before hbefore => ?_, fun _ => ⟨fun _ => trivial, fun _ => ⟨hcoh, hP⟩⟩⟩
  refine (cancel_ends s.scheduler id).mono ?_ ?_
  · intro status scheduler hr
    obtain ⟨state, hget, hr⟩ := hr
    have hcoh' := hcoh.cancelReturns hget hr
    have hstatus : before = state.status := by
      simpa [ContinuousScheduler.status, hget] using hbefore.symm
    unfold CancelReturns at hr
    split at hr
    · rename_i hstate
      obtain ⟨rfl, rfl⟩ := hr
      have hrest : Rest P { s with
          scheduler := cancelledState s.scheduler id state
          executor := (answer (E.finish id .cancelled) s.executor).2 } :=
        ⟨hcoh', hqueued state hget hstate⟩
      simp only [hstatus, hstate, and_self, if_true, ends_bind, ends_onExecutor]
      split
      · exact ⟨fun _ => trivial, fun _ => hrest⟩
      · exact hrest
    · rename_i hstate
      obtain ⟨rfl, rfl⟩ := hr
      rw [if_neg (by simp)]
      exact ⟨hcoh', hflagged state hget hstate⟩
    · rename_i hne _
      obtain ⟨rfl, rfl⟩ := hr
      rw [if_neg fun hboth => hne (hstatus ▸ hboth.1)]
      exact ⟨hcoh', hP⟩
  · intro fault scheduler hf
    obtain ⟨rfl, hf⟩ := hf
    exact ⟨fun _ => trivial, fun _ => ⟨hcoh, hP⟩⟩

end Discipline.Rest

/-! ## Runs of calls that return -/

/-- A call that does not stop in a panic. -/
def ServiceCall.Returns (E : QuantumExecutor σ ρ ε) (s : ScheduledService σ ε)
    (call : ServiceCall ρ) : Prop :=
  (call.exec E).Ends s (fun _ _ => True) (fun fault _ => fault ≠ .panic)

instance [DecidableEq ε] (E : QuantumExecutor σ ρ ε) (s : ScheduledService σ ε)
    (call : ServiceCall ρ) : Decidable (call.Returns E s) :=
  inferInstanceAs (Decidable (Ends _ _ _ _))

/-- What a call leaves if it returns, it leaves. -/
theorem ServiceCall.Returns.after {E : QuantumExecutor σ ρ ε} {P : ScheduledService σ ε → Prop}
    {s : ScheduledService σ ε} {call : ServiceCall ρ} (hreturns : call.Returns E s)
    (h : (call.exec E).Leaves s P True) : P (serviceStep E s call) := by
  refine Ends.after ((Ends.and h hreturns).mono ?_ ?_)
  · exact fun _ _ hs' => hs'.1
  · exact fun _ _ hs' => hs'.1.2 hs'.2

end Leone.Service
