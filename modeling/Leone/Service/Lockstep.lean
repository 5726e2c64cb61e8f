import Leone.Framework.Machine
import Leone.Service.Steps

/-!
# Scheduler and executor in step

The service begins executor state for exactly the requests that the scheduler still serves, and
finishes it once, with their terminal status. A log of the executor calls makes this a statement
about states: every request's place in the log agrees with its status.
-/

namespace Leone.Service

open Framework Framework.Method Scheduler

variable {σ ρ ε α : Type}

/-! ## The log of executor calls -/

/-- A begin that succeeded, a finish, or the removal of all terminal records. -/
inductive Event
  | began (id : RequestId)
  | finished (id : RequestId) (status : RequestStatus)
  | pruned
  deriving DecidableEq, Repr

/-- An executor call that also logs what it did. -/
def logging (m : ExecutorM σ ε α) (returned failed : List Event) :
    ExecutorM (σ × List Event) ε α := fun p =>
  match m.run p.1 with
  | .ok a x => .ok a (x, p.2 ++ returned)
  | .error e x => .error e (x, p.2 ++ failed)

/-- An executor that logs its begins and finishes. It behaves as the original otherwise. -/
def QuantumExecutor.logged (E : QuantumExecutor σ ρ ε) :
    QuantumExecutor (σ × List Event) ρ ε where
  begin id request := logging (E.begin id request) [.began id] []
  executeBatch dispatches := logging (E.executeBatch dispatches) [] []
  finish id status := logging (E.finish id status) [.finished id status] [.finished id status]
  finishAt id status nowNs :=
    logging (E.finishAt id status nowNs) [.finished id status] [.finished id status]

theorem answer_logging_log (m : ExecutorM σ ε α) (events : List Event)
    (p : σ × List Event) : (answer (logging m events events) p).2.2 = p.2 ++ events := by
  simp only [answer, logging, EStateM.run]
  cases m p.1 <;> rfl

theorem answer_logging_ok {m : ExecutorM σ ε α} {events : List Event} {p : σ × List Event} {a : α}
    (h : (answer (logging m events []) p).1 = .ok a) :
    (answer (logging m events []) p).2.2 = p.2 ++ events := by
  simp only [answer, logging, EStateM.run] at *
  cases hm : m p.1 <;> simp_all

theorem answer_logging_error {m : ExecutorM σ ε α} {events : List Event} {p : σ × List Event}
    {e : ε} (h : (answer (logging m events []) p).1 = .error e) :
    (answer (logging m events []) p).2.2 = p.2 := by
  simp only [answer, logging, EStateM.run] at *
  cases hm : m p.1 <;> simp_all

/-! ## Standings -/

/-- Where a request stands with the executor. -/
inductive Standing
  | idle
  | opened
  | closed (status : RequestStatus)
  | broken
  deriving DecidableEq, Repr

/-- The standing of `id` after one more event. A begin of a request that was not idle, or a
finish of one that was not open, breaks the protocol for good. -/
def Standing.next (id : RequestId) : Standing → Event → Standing
  | standing, .began id' =>
    if id ≠ id' then standing else if standing = .idle then .opened else .broken
  | standing, .finished id' status =>
    if id ≠ id' then standing else if standing = .opened then .closed status else .broken
  | .closed _, .pruned => .idle
  | standing, .pruned => standing

def standing (log : List Event) (id : RequestId) : Standing := log.foldl (Standing.next id) .idle

@[simp] theorem standing_append (log : List Event) (event : Event) (id : RequestId) :
    standing (log ++ [event]) id = (standing log id).next id event := by
  simp [standing]

/-- A service whose executor logs its calls. -/
abbrev LoggedService (σ ε : Type) := ScheduledService (σ × List Event) ε

/-- The service with a mark in its log that terminal records were removed. -/
def ScheduledService.markPruned (s : LoggedService σ ε) : LoggedService σ ε :=
  { s with executor := (s.executor.1, s.executor.2 ++ [.pruned]) }

def ScheduledService.standing (s : LoggedService σ ε) (id : RequestId) : Standing :=
  Service.standing s.executor.2 id

/-- The service and the executor agree on every request that the scheduler knows. -/
structure InLockstep (s : LoggedService σ ε) : Prop where
  none_running : ∀ id, s.scheduler.status id ≠ some .running
  open_iff : ∀ id, s.standing id = .opened ↔
    ∃ status, s.scheduler.status id = some status ∧ ¬ status.isTerminal
  released : ∀ id status, s.scheduler.status id = some status → status.isTerminal →
    s.standing id = .idle ∨ s.standing id = .closed status
  sound : ∀ id, s.standing id ≠ .broken

/-- The standings that a status allows between two calls. -/
def Agrees : Option RequestStatus → Standing → Prop
  | none, standing => standing = .idle
  | some .queued, standing => standing = .opened
  | some .running, _ => False
  | some status, standing => standing = .idle ∨ standing = .closed status

theorem agrees_terminal {status : RequestStatus} {standing : Standing} (h : status.isTerminal) :
    Agrees (some status) standing ↔ standing = .idle ∨ standing = .closed status := by
  cases status <;> first | exact Iff.rfl | cases h

theorem InLockstep.of_agrees {s : LoggedService σ ε}
    (h : ∀ id, Agrees (s.scheduler.status id) (s.standing id)) : InLockstep s := by
  refine ⟨fun id hrunning => ?_, fun id => ?_, fun id status hstatus hterm => ?_, fun id => ?_⟩
  · have hid := h id
    rw [hrunning] at hid
    exact hid
  · have hid := h id
    cases hstatus : s.scheduler.status id with
    | none =>
      rw [hstatus] at hid
      simp [show s.standing id = .idle from hid]
    | some status =>
      rw [hstatus] at hid
      cases hterm : status.isTerminal with
      | true => rcases (agrees_terminal hterm).mp hid with hs | hs <;> simp [hs, hterm]
      | false =>
        have hopen : s.standing id = .opened := by
          cases status <;> first | exact hid | exact hid.elim | cases hterm
        simp [hopen, hterm]
  · have hid := h id
    rw [hstatus] at hid
    exact (agrees_terminal hterm).mp hid
  · intro hbroken
    have hid := h id
    rw [hbroken] at hid
    cases hstatus : s.scheduler.status id with
    | none =>
      rw [hstatus] at hid
      cases hid
    | some status =>
      rw [hstatus] at hid
      cases status <;> simp [Agrees] at hid

/-! ## The invariant inside a call -/

/-- In the middle of a call, the requests in `due` have expired and those of `batch` run, and
the executor has finished none of them. Every other request agrees with its status. -/
structure Stage (due : List RequestId) (batch : List Dispatch) (s : LoggedService σ ε) :
    Prop where
  inv : Inv s.scheduler
  expired : s.scheduler.expired = []
  due_open : ∀ id ∈ due, s.scheduler.status id = some .deadlineExpired ∧ s.standing id = .opened
  batch_open : ∀ dispatch ∈ batch,
    s.scheduler.running.get? dispatch.requestId = some dispatch ∧
    s.standing dispatch.requestId = .opened
  rest : ∀ id, id ∉ due → id ∉ batch.map Dispatch.requestId →
    Agrees (s.scheduler.status id) (s.standing id)
  output : ∀ id status, s.scheduler.status id = some status → ¬ status.isTerminal →
    ∃ tokens, s.outputs.get? id = some tokens

theorem status_insert {s s' : ContinuousScheduler} {id : RequestId} {record : RequestState}
    (h : s'.requests = s.requests.insert id record) (id' : RequestId) :
    s'.status id' = if id' = id then some record.status else s.status id' := by
  rw [ContinuousScheduler.status, h, SortedMap.get?_insert]
  split_ifs <;> rfl

namespace Stage

variable {E : QuantumExecutor σ ρ ε} {due : List RequestId} {batch batch' : List Dispatch}
  {s s' : LoggedService σ ε} {id : RequestId} {record state : RequestState} {dispatch : Dispatch}

theorem inLockstep (h : Stage [] [] s) : InLockstep s :=
  .of_agrees fun id => h.rest id List.not_mem_nil List.not_mem_nil

/-- The remembered error plays no part. -/
theorem congr_finishError (h : Stage due batch s) (finishError : Option (ServiceError ε)) :
    Stage due batch { s with finishError } :=
  ⟨h.inv, h.expired, h.due_open, h.batch_open, h.rest, h.output⟩

theorem exists_record (h : Stage due batch s) (hd : dispatch ∈ batch) :
    ∃ state, s.scheduler.requests.get? dispatch.requestId = some state ∧
      state.status = .running := by
  obtain ⟨hrun, -⟩ := h.batch_open dispatch hd
  obtain ⟨state, hget⟩ := h.inv.exists_record hrun
  exact ⟨state, hget, (h.inv.dispatched hget hrun).1⟩

/-- One request leaves the batch, or changes outside of it, and agrees with its new status. -/
theorem change (h : Stage due batch s) (hinv : Inv s'.scheduler)
    (hexpired : s'.scheduler.expired = [])
    (hreq : s'.scheduler.requests = s.scheduler.requests.insert id record)
    (hrun : ∀ id', id' ≠ id →
      s'.scheduler.running.get? id' = s.scheduler.running.get? id')
    (hstanding : ∀ id', id' ≠ id → s'.standing id' = s.standing id')
    (hagrees : Agrees (some record.status) (s'.standing id))
    (houtputs : ∀ id' tokens, s.outputs.get? id' = some tokens →
      ∃ tokens', s'.outputs.get? id' = some tokens')
    (hnew : ¬ record.status.isTerminal → ∃ tokens, s'.outputs.get? id = some tokens)
    (hdue : id ∉ due) (hkeep : ∀ dispatch ∈ batch', dispatch ∈ batch ∧ dispatch.requestId ≠ id)
    (hleave : ∀ dispatch ∈ batch, dispatch ∉ batch' → dispatch.requestId = id) :
    Stage due batch' s' := by
  have hstatus := status_insert hreq
  refine ⟨hinv, hexpired, fun id' hid' => ?_, fun dispatch hd => ?_, fun id' hid' hbatch => ?_,
    fun id' status hs hlive => ?_⟩
  · have hne : id' ≠ id := fun heq => hdue (heq ▸ hid')
    rw [hstatus, if_neg hne, hstanding id' hne]
    exact h.due_open id' hid'
  · obtain ⟨hmem, hne⟩ := hkeep dispatch hd
    rw [hrun _ hne, hstanding _ hne]
    exact h.batch_open dispatch hmem
  · rw [hstatus]
    split_ifs with heq
    · exact heq ▸ hagrees
    · rw [hstanding id' heq]
      refine h.rest id' hid' fun hmem => ?_
      obtain ⟨dispatch, hd, rfl⟩ := List.mem_map.mp hmem
      refine heq (hleave dispatch hd fun hd' => hbatch (List.mem_map_of_mem hd'))
  · rw [hstatus] at hs
    split_ifs at hs with heq
    · cases hs
      exact heq ▸ hnew hlive
    · obtain ⟨tokens, htokens⟩ := h.output id' status hs hlive
      exact houtputs id' tokens htokens

/-! ### The quanta of a batch -/

theorem standing_finished (s' : LoggedService σ ε) {status : RequestStatus}
    (h : s'.executor.2 = s.executor.2 ++ [.finished id status]) (id' : RequestId) :
    s'.standing id' = (s.standing id').next id' (.finished id status) := by
  rw [ScheduledService.standing, h, standing_append]
  rfl

/-- The head of a batch changes and the rest of the batch stays open. -/
theorem change_head (h : Stage [] (dispatch :: batch) s)
    (hnodup : ((dispatch :: batch).map Dispatch.requestId).Nodup) (hinv : Inv s'.scheduler)
    (hexpired : s'.scheduler.expired = [])
    (hreq : s'.scheduler.requests = s.scheduler.requests.insert dispatch.requestId record)
    (hrun : s'.scheduler.running = s.scheduler.running.remove dispatch.requestId)
    (hstanding : ∀ id', id' ≠ dispatch.requestId → s'.standing id' = s.standing id')
    (hagrees : Agrees (some record.status) (s'.standing dispatch.requestId))
    (houtputs : ∀ id' tokens, s.outputs.get? id' = some tokens →
      ∃ tokens', s'.outputs.get? id' = some tokens') : Stage [] batch s' := by
  rw [List.map_cons, List.nodup_cons] at hnodup
  obtain ⟨state, hget, hrunning⟩ := h.exists_record List.mem_cons_self
  obtain ⟨tokens, htokens⟩ := h.output dispatch.requestId .running
    (by simp [ContinuousScheduler.status, hget, hrunning]) (by simp [RequestStatus.isTerminal])
  refine h.change hinv hexpired hreq (fun id' hne => ?_) hstanding hagrees houtputs
    (fun _ => houtputs _ _ htokens) List.not_mem_nil (fun other hd => ?_) (fun other hd hleft => ?_)
  · rw [hrun, SortedMap.get?_remove, if_neg hne]
  · refine ⟨List.mem_cons_of_mem _ hd, fun heq => hnodup.1 ?_⟩
    exact heq ▸ List.mem_map_of_mem hd
  · rcases List.mem_cons.mp hd with rfl | hd
    · rfl
    · exact absurd hd hleft

/-- Aborting the head of a batch closes it, also after a commit of it that stopped half-way. -/
theorem aborted {stats : SchedulerStats} (h : Stage [] (dispatch :: batch) s)
    (hnodup : ((dispatch :: batch).map Dispatch.requestId).Nodup)
    (hget : s.scheduler.requests.get? dispatch.requestId = some state)
    (hspec : record.spec = state.spec)
    (hreserved : record.reservedKvBytes = state.reservedKvBytes)
    (hemitted : stats.emittedTokens = s.scheduler.stats.emittedTokens) :
    Stage [] batch (abortedService E.logged
      { s with scheduler := stalledState s.scheduler dispatch.requestId record stats }
      dispatch.requestId record) := by
  obtain ⟨hrun, hopened⟩ := h.batch_open dispatch List.mem_cons_self
  have hrunning := (h.inv.dispatched hget hrun).1
  have hstanding := standing_finished (s := s) (abortedService E.logged
    { s with scheduler := stalledState s.scheduler dispatch.requestId record stats }
    dispatch.requestId record) (answer_logging_log _ _ _)
  refine h.change_head hnodup ?_ h.expired (SortedMap.insert_insert _ _ _ _) rfl
    (fun id' hne => ?_) ?_ (fun id' tokens htokens => ⟨tokens, htokens⟩)
  · exact h.inv.aborted_of_partly hget hrunning hspec hreserved hemitted
  · rw [hstanding]
    simp [Standing.next, hne]
  · rw [hstanding, hopened]
    simp [Standing.next, abortedRecord, Agrees]

theorem aborted_running (h : Stage [] (dispatch :: batch) s)
    (hnodup : ((dispatch :: batch).map Dispatch.requestId).Nodup)
    (hget : s.scheduler.requests.get? dispatch.requestId = some state) :
    Stage [] batch (abortedService E.logged s dispatch.requestId state) := by
  have hsame : stalledState s.scheduler dispatch.requestId state s.scheduler.stats =
      s.scheduler := by
    rw [stalledState, SortedMap.insert_self hget]
  have haborted := h.aborted (E := E) hnodup hget rfl rfl (rfl : s.scheduler.stats.emittedTokens = _)
  rwa [hsame] at haborted

theorem abortOne (h : Stage [] (dispatch :: batch) s)
    (hnodup : ((dispatch :: batch).map Dispatch.requestId).Nodup)
    (firstError : Option (ServiceError ε)) :
    (abortOne E.logged firstError dispatch).Ends s (fun _ s' => Stage [] batch s')
      (fun _ _ => False) := by
  obtain ⟨state, hget, -⟩ := h.exists_record List.mem_cons_self
  refine abortOne_ends (h.batch_open dispatch List.mem_cons_self).1 hget
    (fun _ => h.aborted_running hnodup hget) fun hlt => ?_
  exact absurd (h.inv.reserved_le hget) (not_le.mpr hlt)

theorem abortBatch (h : Stage [] batch s) (hnodup : (batch.map Dispatch.requestId).Nodup) :
    (abortBatch E.logged batch).Ends s (fun _ s' => Stage [] [] s')
      (fun fault s' => fault ≠ .panic ∧ Stage [] [] s') := by
  simp only [Service.abortBatch, ends_bind]
  have hloop := ends_foldlM (ε := ServiceError ε) (f := Service.abortOne E.logged)
    (I := fun batch s => Stage [] batch s ∧ (batch.map Dispatch.requestId).Nodup)
    (E := fun _ _ => False) ⟨h, hnodup⟩ (fun firstError dispatch batch s hI => ?_) none
  · refine hloop.mono ?_ (fun _ _ hf => hf.elim)
    intro error s' hs'
    split
    · exact hs'.1
    · exact ⟨by simp, hs'.1⟩
  · refine (hI.1.abortOne hI.2 firstError).mono (fun _ s' hs' => ⟨hs', ?_⟩) (fun _ _ hf => hf)
    exact (List.nodup_cons.mp hI.2).2

theorem abortRunningBatch (h : Stage [] batch s) (hnodup : (batch.map Dispatch.requestId).Nodup) :
    (abortRunningBatch E.logged batch).Ends s (fun _ s' => Stage [] [] s')
      (fun _ _ => False) := by
  refine (ends_forM (I := fun batch s => Stage [] batch s ∧ (batch.map Dispatch.requestId).Nodup)
    ⟨h, hnodup⟩ fun dispatch batch s hI => ?_).mono (fun _ _ hs' => hs'.1) (fun _ _ hf => hf)
  obtain ⟨state, hget, hrunning⟩ := hI.1.exists_record List.mem_cons_self
  refine abortRunning_ends (hI.1.batch_open dispatch List.mem_cons_self).1 hget hrunning
    ⟨hI.1.aborted_running hI.2 hget, (List.nodup_cons.mp hI.2).2⟩ fun hlt => ?_
  exact absurd (hI.1.inv.reserved_le hget) (not_le.mpr hlt)

/-- A commit that returned leaves its request queued, or closed with its terminal status. -/
theorem committed {output : QuantumOutput} {completion : QuantumCompletion}
    {scheduler : ContinuousScheduler} {tokens : List Nat}
    (h : Stage [] (dispatch :: batch) s)
    (hnodup : ((dispatch :: batch).map Dispatch.requestId).Nodup)
    (hget : s.scheduler.requests.get? dispatch.requestId = some state)
    (hr : CommitReturns s.scheduler dispatch output state completion scheduler)
    (finishError : Option (ServiceError ε)) :
    Stage [] batch (committedService E.logged s dispatch tokens completion.status scheduler
      finishError) := by
  obtain ⟨record, hreq, hstatus, hlive, hrunning, hexpired⟩ := hr.stored
  obtain ⟨hrun, hopened⟩ := h.batch_open dispatch List.mem_cons_self
  have hgrow : ∀ id' tokens', s.outputs.get? id' = some tokens' →
      ∃ tokens'', (s.outputs.insert dispatch.requestId tokens).get? id' = some tokens'' := by
    intro id' tokens' htokens
    rw [SortedMap.get?_insert]
    split_ifs
    · exact ⟨_, rfl⟩
    · exact ⟨_, htokens⟩
  have hfinished : completion.status.isTerminal →
      (committedService E.logged s dispatch tokens completion.status scheduler
        finishError).executor.2 =
        s.executor.2 ++ [.finished dispatch.requestId completion.status] := by
    intro hterm
    rw [committedService, if_pos hterm]
    exact answer_logging_log _ _ _
  have hstays : ¬ completion.status.isTerminal →
      (committedService E.logged s dispatch tokens completion.status scheduler
        finishError).executor = s.executor := fun hterm => if_neg hterm
  refine h.change_head hnodup (hr.inv h.inv hget) (hexpired.trans h.expired) hreq hrunning
    (fun id' hne => ?_) ?_ hgrow
  · by_cases hterm : completion.status.isTerminal
    · rw [standing_finished _ (hfinished hterm)]
      simp [Standing.next, hne]
    · rw [ScheduledService.standing, hstays hterm]
      rfl
  · rw [hstatus]
    by_cases hterm : completion.status.isTerminal
    · rw [standing_finished _ (hfinished hterm), hopened, agrees_terminal hterm]
      simp [Standing.next]
    · rw [ScheduledService.standing, hstays hterm, hlive hterm]
      exact hopened

theorem commitQuantum {output : QuantumOutput} (h : Stage [] (dispatch :: batch) s)
    (hnodup : ((dispatch :: batch).map Dispatch.requestId).Nodup)
    (hvalid : ValidOutput dispatch output) :
    (commitQuantum E.logged dispatch output).Ends s (fun _ s' => Stage [] batch s')
      (fun fault s' => fault ≠ .panic ∧
        (Service.abortRunningBatch E.logged (dispatch :: batch)).Ends s' (fun _ s'' => Stage [] [] s'')
          (fun _ _ => False)) := by
  obtain ⟨state, hget, hrunning⟩ := h.exists_record List.mem_cons_self
  obtain ⟨hrun, -⟩ := h.batch_open dispatch List.mem_cons_self
  obtain ⟨tokens, htokens⟩ := h.output dispatch.requestId .running
    (by simp [ContinuousScheduler.status, hget, hrunning]) (by simp [RequestStatus.isTerminal])
  have hle := h.inv.reserved_le hget
  have hbudget := (h.inv.dispatched hget hrun).2.budget_lt
  refine (commitQuantum_ends h.inv.toCoherent hrun hget hvalid hbudget).mono ?_ ?_
  · rintro _ _ ⟨_, completion, scheduler, finishError, -, hr, rfl⟩
    exact h.committed hnodup hget hr finishError
  · intro fault s' hf
    cases hf with
    | reservation _ hlt => omega
    | output _ hnone => exact absurd (hnone.symm.trans htokens) (by simp)
    | stalled error record stats hstall =>
    refine ⟨by simp, ?_⟩
    have hstanding := hstall.partly.standing
    simp only [Service.abortRunningBatch, List.forM_cons, ends_bind]
    refine abortRunning_ends hrun (SortedMap.get?_insert_self _ _ record)
      (hstanding.status.trans hrunning) ?_ fun hlt => ?_
    · exact (h.aborted hnodup hget hstanding.spec hstanding.reserved
        hstall.partly.total.emittedTokens).abortRunningBatch (List.nodup_cons.mp hnodup).2
    · have hreserved : record.reservedKvBytes = state.reservedKvBytes := hstanding.reserved
      have hlt' : s.scheduler.reservedKvBytes < record.reservedKvBytes := hlt
      omega

theorem commitBatch {outputs : List QuantumOutput} (h : Stage [] batch s)
    (hnodup : (batch.map Dispatch.requestId).Nodup)
    (hvalid : List.Forall₂ ValidOutput batch outputs) :
    (commitBatch E.logged batch outputs).Leaves s (Stage [] []) False := by
  refine (commitBatch_ends (I := fun batch _ s => Stage [] batch s ∧
    (batch.map Dispatch.requestId).Nodup) (F := fun fault s' => (fault = .panic → False) ∧
    (fault ≠ .panic → Stage [] [] s')) (fun dispatch batch output outputs s hI hhead => ?_)
    ⟨h, hnodup⟩ hvalid).mono (fun _ _ hs' => hs'.1) (fun _ _ hf => hf)
  refine (hI.1.commitQuantum hI.2 hhead).mono ?_ ?_
  · exact fun _ s' hs' => ⟨hs', (List.nodup_cons.mp hI.2).2⟩
  · rintro fault s' ⟨hne, habort⟩
    refine ⟨fun error herror => habort.mono (fun _ s'' hs'' => ?_) (fun _ _ hf => hf.elim),
      fun hpanic => absurd hpanic hne⟩
    exact ⟨by simp, fun _ => hs''⟩

/-- Executing and committing a batch closes or requeues every request of it. -/
theorem executeBatch (h : Stage [] batch s) (hnodup : (batch.map Dispatch.requestId).Nodup) :
    (executeBatchOutputs E.logged batch >>= Service.commitBatch E.logged batch).Leaves s
      (Stage [] []) False := by
  have hexecuted : Stage [] batch { s with
      executor := (answer (E.logged.executeBatch batch) s.executor).2 } := by
    have hlog : (answer (E.logged.executeBatch batch) s.executor).2.2 = s.executor.2 :=
      (answer_logging_log _ _ _).trans (List.append_nil _)
    refine ⟨h.inv, h.expired, by simp, ?_, ?_, h.output⟩
    · simpa [ScheduledService.standing, hlog] using h.batch_open
    · simpa [ScheduledService.standing, hlog] using h.rest
  rw [Leaves, ends_bind]
  refine executeBatchOutputs_ends (fun outputs _ hvalid => hexecuted.commitBatch hnodup hvalid) ?_
  intro error _
  refine (hexecuted.abortBatch hnodup).mono (fun _ _ hs' => ⟨by simp, fun _ => hs'⟩) ?_
  exact fun fault s' hs' => ⟨fun hpanic => hs'.1 hpanic, fun _ => hs'.2⟩

/-! ### Ticks -/

/-- Expiring and selecting puts the queued requests of both lists into the middle of a call. -/
theorem dispatched {scheduler : ContinuousScheduler} (h : Stage [] [] s)
    (hinv : Inv scheduler) (hd : Dispatched due batch s.scheduler scheduler)
    (finishError : Option (ServiceError ε)) :
    Stage due batch
      { s with scheduler := { scheduler with expired := [] }, finishError } := by
  have hopened : ∀ id, s.scheduler.status id = some .queued → s.standing id = .opened := by
    intro id hqueued
    have hrest := h.rest id List.not_mem_nil List.not_mem_nil
    rwa [hqueued] at hrest
  refine ⟨hinv.congr rfl rfl rfl rfl rfl, rfl, fun id hid => ?_, fun dispatch hmem => ?_,
    fun id hdue hbatch => ?_, fun id status hstatus hlive => ?_⟩
  · obtain ⟨hqueued, hexpired⟩ := hd.due_status id hid
    exact ⟨hexpired, hopened id hqueued⟩
  · obtain ⟨hqueued, -, hrun⟩ := hd.batch_status dispatch hmem
    exact ⟨hrun, hopened _ hqueued⟩
  · have hsame : scheduler.status id = s.scheduler.status id := hd.rest id hdue hbatch
    have hrest := h.rest id List.not_mem_nil List.not_mem_nil
    rw [← hsame] at hrest
    exact hrest
  · have hstatus' : scheduler.status id = some status := hstatus
    have hbefore : ∃ status, s.scheduler.status id = some status ∧ ¬ status.isTerminal := by
      by_cases hdue : id ∈ due
      · exact ⟨.queued, (hd.due_status id hdue).1, by simp [RequestStatus.isTerminal]⟩
      by_cases hbatch : id ∈ batch.map Dispatch.requestId
      · obtain ⟨dispatch, hmem, rfl⟩ := List.mem_map.mp hbatch
        exact ⟨.queued, (hd.batch_status dispatch hmem).1, by simp [RequestStatus.isTerminal]⟩
      · exact ⟨status, (hd.rest id hdue hbatch).symm.trans hstatus', hlive⟩
    obtain ⟨status', hs', hlive'⟩ := hbefore
    exact h.output id status' hs' hlive'

theorem finishedAt {nowNs : Nat} (h : Stage (id :: due) batch s) (hnodup : (id :: due).Nodup)
    (hbatch : id ∉ batch.map Dispatch.requestId) (finishError : Option (ServiceError ε)) :
    Stage due batch { s with
      executor := (answer (E.logged.finishAt id .deadlineExpired nowNs) s.executor).2,
      finishError } := by
  obtain ⟨hfresh, -⟩ := List.nodup_cons.mp hnodup
  obtain ⟨hexpired, hopened⟩ := h.due_open id List.mem_cons_self
  have hstanding := standing_finished (s := s) { s with
      executor := (answer (E.logged.finishAt id .deadlineExpired nowNs) s.executor).2,
      finishError } (answer_logging_log _ _ _)
  refine ⟨h.inv, h.expired, fun id' hid' => ?_, fun dispatch hd => ?_, fun id' hdue hid' => ?_,
    h.output⟩
  · have hne : id' ≠ id := fun heq => hfresh (heq ▸ hid')
    rw [hstanding]
    simpa [Standing.next, hne] using h.due_open id' (List.mem_cons_of_mem _ hid')
  · have hne : dispatch.requestId ≠ id := fun heq => hbatch (heq ▸ List.mem_map_of_mem hd)
    rw [hstanding]
    simpa [Standing.next, hne] using h.batch_open dispatch hd
  · rw [hstanding]
    by_cases heq : id' = id
    · subst heq
      change Agrees (s.scheduler.status id') _
      rw [hexpired, hopened]
      simp [Standing.next, Agrees]
    · have hnot : id' ∉ id :: due := by simp [heq, hdue]
      simpa [Standing.next, heq] using h.rest id' hnot hid'

theorem finishExpiredRequests {s : LoggedService σ ε} (batch : List Dispatch) {nowNs : Nat}
    (h : Stage s.scheduler.expired batch
      { s with scheduler := { s.scheduler with expired := [] } })
    (hnodup : s.scheduler.expired.Nodup)
    (hbatch : ∀ id ∈ s.scheduler.expired, id ∉ batch.map Dispatch.requestId) :
    (finishExpiredRequests E.logged nowNs).Ends s (fun _ s' => Stage [] batch s')
      (fun _ _ => False) := by
  refine (finishExpiredRequests_ends (I := fun due s => Stage due batch s ∧ due.Nodup ∧
    ∀ id ∈ due, id ∉ batch.map Dispatch.requestId) ?_ ?_).mono (fun _ _ hs' => hs'.1)
    (fun _ _ hf => hf)
  · rintro _ rfl
    exact ⟨h, hnodup, hbatch⟩
  · intro id due s finishError hI
    obtain ⟨hstage, hnodup, hbatch⟩ := hI
    exact ⟨hstage.finishedAt hnodup (hbatch id List.mem_cons_self) finishError,
      (List.nodup_cons.mp hnodup).2, fun id' hid' => hbatch id' (List.mem_cons_of_mem _ hid')⟩

end Stage

/-- The counter of dispatched quanta has room for the batch that a tick opens. -/
def DispatchRoom (s : ContinuousScheduler) (nowNs limit : Nat) : Prop :=
  0 < batchWidth s nowNs limit → s.stats.dispatchedQuanta + batchWidth s nowNs limit < 2 ^ 64

instance (s : ContinuousScheduler) (nowNs limit : Nat) : Decidable (DispatchRoom s nowNs limit) :=
  inferInstanceAs (Decidable (0 < _ → _))

theorem DispatchRoom.not_overflow {s expired started : ContinuousScheduler} {nowNs limit : Nat}
    {batch : List Dispatch} (hroom : DispatchRoom s nowNs limit) (h : Coherent s)
    (he : ExpiredBy (dueIds s nowNs) s expired)
    (hs : StartedBy nowNs (selectBatchIds expired nowNs (batchLimit s limit)) expired started
      batch) (hbatch : batch ≠ []) : started.stats.dispatchedQuanta + batch.length < 2 ^ 64 := by
  have hlength := hs.length_eq h.keyed he
  have hquanta : started.stats.dispatchedQuanta = s.stats.dispatchedQuanta := by
    rw [hs.stats, he.stats]
  rw [hquanta, hlength]
  refine hroom ?_
  rw [← hlength]
  exact List.length_pos_iff.mpr hbatch

namespace Stage

variable {E : QuantumExecutor σ ρ ε} {s : LoggedService σ ε}

theorem tickBatchWithLimit {nowNs limit : Nat} (h : Stage [] [] s)
    (hroom : DispatchRoom s.scheduler nowNs limit) :
    (tickBatchWithLimit E.logged nowNs limit).Leaves s (Stage [] []) False := by
  refine tickBatchWithLimit_leaves (fun s finishError hs => hs.congr_finishError finishError)
    (openBatch_ends ?_)
  refine ((dispatchBatch_ends h.inv.toCoherent nowNs limit).and
    (h.inv.dispatchBatch nowNs limit)).mono ?_ ?_
  · rintro batch scheduler ⟨⟨-, expired, started, hr⟩, hinv⟩
    have hd := hr.dispatched h.inv.toCoherent
    have hexpired : scheduler.expired = dueIds s.scheduler nowNs := by
      rw [hd.expired, h.expired, List.nil_append]
    refine (finishExpiredRequests batch ?_ ?_ ?_).mono ?_ (fun _ _ hf => hf)
    · change Stage scheduler.expired batch _
      rw [hexpired]
      exact h.dispatched hinv hd none
    · change scheduler.expired.Nodup
      rw [hexpired]
      exact hd.nodup_due
    · change ∀ id ∈ scheduler.expired, _
      rw [hexpired]
      exact hd.disjoint
    · intro _ s' hs'
      refine ⟨fun hempty => ?_, fun _ => hs'.executeBatch hd.nodup_batch⟩
      rwa [hempty] at hs'
  · rintro fault scheduler ⟨hcause, hinv, hne⟩
    refine ⟨fun hpanic => absurd hpanic hne, fun _ => ?_⟩
    have hsame : scheduler = s.scheduler := by
      rcases hcause with hpanic | ⟨-, hf⟩
      · exact absurd hpanic hne
      · cases hf with
        | inFlight | zeroLimit => rfl
        | overflow expired started batch _ _ _ he hs hbatch hover =>
          exact absurd hover (not_le.mpr (hroom.not_overflow h.inv.toCoherent he hs hbatch))
    subst hsame
    have hnone : ({ s.scheduler with expired := [] } : ContinuousScheduler) = s.scheduler := by
      rw [← h.expired]
    have hquiet := h.congr_finishError none
    refine (finishExpiredRequests _ ?_ (by simp [h.expired]) (by simp)).mono
      (fun _ s' hs' error => ⟨by simp, fun _ => hs'⟩) (fun _ _ hf => hf)
    dsimp only
    rw [hnone, h.expired]
    exact hquiet

end Stage

/-! ### Admissions, cancellations and pruning -/

namespace Stage

variable {E : QuantumExecutor σ ρ ε} {s s' : LoggedService σ ε} {id : RequestId}
  {record : RequestState}

/-- Counters of the scheduler play no part. -/
theorem congr_scheduler {scheduler : ContinuousScheduler} (h : Stage [] [] s)
    (hinv : Inv scheduler) (hreq : scheduler.requests = s.scheduler.requests)
    (hexpired : scheduler.expired = s.scheduler.expired) :
    Stage [] [] { s with scheduler } := by
  have hstatus (id : RequestId) : scheduler.status id = s.scheduler.status id := by
    rw [ContinuousScheduler.status, hreq]
    rfl
  refine ⟨hinv, hexpired.trans h.expired, by simp, by simp, fun id hdue hbatch => ?_,
    fun id status hs hlive => ?_⟩
  · change Agrees (scheduler.status id) _
    rw [hstatus]
    exact h.rest id hdue hbatch
  · exact h.output id status ((hstatus id).symm.trans hs) hlive

/-- A change of one request between two quanta. -/
theorem change_idle (h : Stage [] [] s) (hinv : Inv s'.scheduler)
    (hexpired : s'.scheduler.expired = s.scheduler.expired)
    (hreq : s'.scheduler.requests = s.scheduler.requests.insert id record)
    (hstanding : ∀ id', id' ≠ id → s'.standing id' = s.standing id')
    (hagrees : Agrees (some record.status) (s'.standing id))
    (houtputs : ∀ id' tokens, s.outputs.get? id' = some tokens →
      ∃ tokens', s'.outputs.get? id' = some tokens')
    (hnew : ¬ record.status.isTerminal → ∃ tokens, s'.outputs.get? id = some tokens)
    (hrun : s'.scheduler.running = s.scheduler.running) : Stage [] [] s' := by
  refine h.change hinv (hexpired.trans h.expired) hreq (fun _ _ => by rw [hrun]) hstanding hagrees
    houtputs hnew List.not_mem_nil ?_ ?_
  · intro dispatch hd
    cases hd
  · intro dispatch hd
    cases hd

/-- A rejected request is terminal and was never begun. -/
theorem rejected {spec : RequestSpec} {scheduler : ContinuousScheduler} (h : Stage [] [] s)
    (hnone : s.scheduler.requests.get? spec.id = none) (hinv : Inv scheduler)
    (hexpired : scheduler.expired = s.scheduler.expired)
    (hrun : scheduler.running = s.scheduler.running)
    (hreq : scheduler.requests = s.scheduler.requests.insert spec.id
      (newRecord s.scheduler spec .rejected 0 0)) : Stage [] [] { s with scheduler } := by
  have hidle := h.rest spec.id List.not_mem_nil List.not_mem_nil
  rw [ContinuousScheduler.status, hnone] at hidle
  refine h.change_idle hinv hexpired hreq (fun _ _ => rfl) (.inl hidle)
    (fun id' tokens htokens => ⟨tokens, htokens⟩) (fun hlive => ?_) hrun
  exact absurd rfl hlive

/-- Beginning an admitted request opens it. A begin that fails leaves it cancelled and idle. -/
theorem beginRequest {spec : RequestSpec} {request : ρ} {bytes : Nat} (h : Stage [] [] s)
    (hnone : s.scheduler.requests.get? spec.id = none)
    (hinv : Inv (admittedState s.scheduler spec bytes)) :
    (beginRequest E.logged spec.id request).Leaves
      { s with scheduler := admittedState s.scheduler spec bytes } (Stage [] []) False := by
  have hidle : s.standing spec.id = .idle := by
    have hrest := h.rest spec.id List.not_mem_nil List.not_mem_nil
    rwa [ContinuousScheduler.status, hnone] at hrest
  have hget : (admittedState s.scheduler spec bytes).requests.get? spec.id =
      some (queuedRecord s.scheduler spec bytes) := SortedMap.get?_insert_self _ _ _
  refine beginRequest_ends hget rfl (fun u hok => ?_) (fun error herror => ?_) (fun hlt => ?_)
  · have hlog : (answer (E.logged.begin spec.id request) s.executor).2.2 =
        s.executor.2 ++ [.began spec.id] := answer_logging_ok hok
    have hreq : (admittedState s.scheduler spec bytes).requests =
        s.scheduler.requests.insert spec.id (queuedRecord s.scheduler spec bytes) := rfl
    refine h.change_idle hinv rfl hreq
      (fun id' hne => ?_) ?_ (fun id' tokens htokens => ?_) (fun _ => ?_) rfl
    · simp only [ScheduledService.standing]
      rw [hlog, standing_append]
      simp [Standing.next, hne]
    · simp only [ScheduledService.standing]
      rw [hlog, standing_append, show standing s.executor.2 spec.id = .idle from hidle]
      simp [Standing.next, Agrees, queuedRecord, newRecord]
    · rw [SortedMap.get?_insert]
      split_ifs
      · exact ⟨_, rfl⟩
      · exact ⟨tokens, htokens⟩
    · exact ⟨[], SortedMap.get?_insert_self _ _ _⟩
  · have hlog : (answer (E.logged.begin spec.id request) s.executor).2.2 = s.executor.2 :=
      answer_logging_error herror
    refine ⟨by simp, fun _ => ?_⟩
    refine h.change_idle (hinv.cancelled hget rfl) rfl (SortedMap.insert_insert _ _ _ _)
      (fun id' _ => ?_) (.inl ?_) (fun id' tokens htokens => ⟨tokens, htokens⟩)
      (fun hlive => absurd rfl hlive) rfl
    · simp only [ScheduledService.standing]
      rw [hlog]
    · simp only [ScheduledService.standing]
      rw [hlog]
      exact hidle
  · exact absurd (hinv.reserved_le hget) (not_le.mpr hlt)

theorem admitRequest {spec : RequestSpec} {request : ρ} {nowNs : Nat} (h : Stage [] [] s)
    (hroom : AdmissionRoom s.scheduler spec nowNs) :
    (admitRequest E.logged spec request nowNs).Leaves s (Stage [] []) False := by
  simp only [Leaves, Service.admitRequest, ends_bind, ends_schedulerCall]
  refine (admit_ends spec nowNs h.inv.policy.page).mono ?_ ?_
  · intro outcome scheduler hr
    have hinv := h.inv.admitReturns hr
    obtain ⟨hnone, -, hseq, hr⟩ := hr
    cases outcome with
    | rejected reason =>
      obtain ⟨-, rfl⟩ := hr
      exact h.rejected hnone hinv rfl rfl rfl
    | admitted bytes =>
      obtain ⟨-, rfl⟩ := hr
      simp only [ends_bind, ends_pure]
      exact h.beginRequest hnone hinv
  · intro fault scheduler hf
    have hne : serviceFault (ε := ε) fault ≠ .panic := by
      have hne := (h.inv.toCoherent.admitFails hf).2
      cases fault <;> simp_all [serviceFault]
    refine ⟨fun hpanic => absurd hpanic hne, fun _ => ?_⟩
    cases hf with
    | duplicate | future => exact h
    | reservation => exact h.congr_scheduler (h.inv.congr rfl rfl rfl rfl rfl) rfl rfl
    | strandedRejected hnone =>
      have hcoh : Coherent
          (strandedState s.scheduler (newRecord s.scheduler spec .rejected 0 0)) :=
        h.inv.toCoherent.stored hnone rfl rfl rfl
        (rejectedRecord_ok s.scheduler spec) (by simp [newRecord]) rfl
      exact h.rejected hnone (h.inv.store hcoh hnone rfl rfl rfl h.inv.capacity
        (by simp [newRecord, RequestStatus.isTerminal])) rfl rfl rfl
    | strandedQueued bytes hnone hover hadm harrived =>
      have hfits := hroom bytes hadm hnone harrived
      omega

theorem cancel (h : Stage [] [] s) (id : RequestId) :
    (cancel E.logged id).Leaves s (Stage [] []) False := by
  simp only [Leaves, Service.cancel, ends_bind, ends_get, ends_orErr, ends_schedulerCall]
  refine ⟨fun before hbefore => ?_, fun _ => ⟨by simp, fun _ => h⟩⟩
  refine (cancel_ends s.scheduler id).mono ?_ ?_
  · rintro status scheduler ⟨state, hget, hr⟩
    have hinv := h.inv.cancelReturns hget hr
    have hstatus : before = state.status := by
      simpa [ContinuousScheduler.status, hget] using hbefore.symm
    have hagrees := h.rest id List.not_mem_nil List.not_mem_nil
    rw [hbefore, hstatus] at hagrees
    unfold CancelReturns at hr
    split at hr
    · rename_i hqueued
      obtain ⟨rfl, rfl⟩ := hr
      rw [hqueued] at hagrees
      have hopened : s.standing id = .opened := hagrees
      have hclosed : Stage [] [] { s with
          scheduler := cancelledState s.scheduler id state
          executor := (answer (E.logged.finish id .cancelled) s.executor).2 } := by
        have hstanding := standing_finished (s := s) { s with
          scheduler := cancelledState s.scheduler id state
          executor := (answer (E.logged.finish id .cancelled) s.executor).2 }
          (answer_logging_log _ _ _)
        refine h.change_idle hinv rfl rfl (fun id' hne => ?_) ?_
          (fun id' tokens htokens => ⟨tokens, htokens⟩) (fun hlive => absurd rfl hlive) rfl
        · rw [hstanding]
          simp [Standing.next, hne]
        · rw [hstanding, hopened]
          simp [Standing.next, Agrees]
      simp only [hstatus, hqueued, and_self, if_true, ends_bind, ends_onExecutor]
      split
      · exact ⟨by simp, fun _ => hclosed⟩
      · exact hclosed
    · rename_i hrunning
      rw [hrunning] at hagrees
      exact hagrees.elim
    · obtain ⟨rfl, rfl⟩ := hr
      rename_i hqueued _
      rw [if_neg fun hboth => hqueued (hstatus ▸ hboth.1)]
      exact h
  · rintro fault _ ⟨rfl, hf⟩
    cases hf with
    | unknown => exact ⟨by simp [serviceFault], fun _ => h⟩
    | panic state hget hlt => exact absurd (h.inv.reserved_le hget) (not_le.mpr hlt)

/-- Pruning drops terminal records, whose standing the log then forgets. -/
theorem pruneTerminal (h : Stage [] [] s) :
    (pruneTerminal (ε := ε)).Ends s (fun _ s' => Stage [] [] s'.markPruned)
      (fun _ _ => False) := by
  simp only [Service.pruneTerminal, ends_bind, ends_modify, ends_schedulerCall,
    Scheduler.pruneTerminal, ScheduledService.markPruned]
  have hstatus (id : RequestId) : (s.scheduler.requests.retain
      fun _ state => !state.status.isTerminal).get? id =
      (s.scheduler.requests.get? id).filter fun state => !state.status.isTerminal :=
    SortedMap.get?_retain _ _ _
  refine ⟨h.inv.prune rfl rfl rfl rfl rfl, h.expired, by simp, by simp, fun id hdue hbatch => ?_,
    fun id status hs hlive => ?_⟩
  · have hagrees := h.rest id hdue hbatch
    simp only [ScheduledService.standing, standing_append, ContinuousScheduler.status] at hagrees ⊢
    rw [hstatus]
    cases hget : s.scheduler.requests.get? id with
    | none =>
      rw [hget] at hagrees
      have hidle : standing s.executor.2 id = .idle := hagrees
      simp [hidle, Standing.next, Agrees]
    | some state =>
      rw [hget] at hagrees
      by_cases hterm : state.status.isTerminal
      · rcases (agrees_terminal hterm).mp hagrees with hs | hs
        · simp [hs, hterm, Option.filter, Standing.next, Agrees]
        · simp [hs, hterm, Option.filter, Standing.next, Agrees]
      · have hkeep : Standing.next id (standing s.executor.2 id) .pruned =
            standing s.executor.2 id := by
          cases hst : state.status <;> simp_all [Agrees, Standing.next, RequestStatus.isTerminal]
        rw [hkeep]
        simpa [hterm, Option.filter] using hagrees
  · have hbefore : s.scheduler.status id = some status := by
      simp only [ContinuousScheduler.status, hstatus, Option.map_eq_some_iff,
        Option.filter_eq_some_iff] at hs ⊢
      obtain ⟨state, ⟨hget, -⟩, hstate⟩ := hs
      exact ⟨state, hget, hstate⟩
    obtain ⟨tokens, htokens⟩ := h.output id status hbefore hlive
    refine ⟨tokens, ?_⟩
    rw [SortedMap.get?_retain, htokens, hbefore]
    simp [Option.filter, hlive]

end Stage

/-! ## Whole runs -/

/-- A service call, with a mark in the log where it removes terminal records. -/
def loggedStep (E : QuantumExecutor σ ρ ε) (s : LoggedService σ ε) : ServiceCall ρ →
    LoggedService σ ε
  | .pruneTerminal => (serviceStep E.logged s .pruneTerminal).markPruned
  | call => serviceStep E.logged s call

/-- What a call needs for scheduler and executor to stay in step: a counter that the call
advances is not exhausted. -/
def ServiceCall.HasRoom (s : ScheduledService σ ε) : ServiceCall ρ → Prop
  | .admitRequest spec _ nowNs => AdmissionRoom s.scheduler spec nowNs
  | .tick nowNs => DispatchRoom s.scheduler nowNs 1
  | .tickBatch nowNs => DispatchRoom s.scheduler nowNs s.scheduler.policy.maxBatchRequests
  | .cancel _ | .pruneTerminal => True

theorem Stage.step {E : QuantumExecutor σ ρ ε} {s : LoggedService σ ε} {call : ServiceCall ρ}
    (h : Stage [] [] s) (hroom : call.HasRoom s) : Stage [] [] (loggedStep E s call) := by
  have hreturned {m : ServiceM (σ × List Event) ε Unit} (hm : m.Leaves s (Stage [] []) False) :
      Stage [] [] (m.after s) := by
    refine Ends.after (hm.mono (fun _ _ hs' => hs') fun fault s' hs' => ?_)
    exact hs'.2 fun hpanic => (hs'.1 hpanic).elim
  cases call with
  | admitRequest spec request nowNs =>
    refine hreturned ?_
    simpa only [Leaves, ServiceCall.exec, ends_discard] using h.admitRequest hroom
  | tick nowNs =>
    refine hreturned ?_
    simpa only [Leaves, ServiceCall.exec, tick, ends_discard, ends_bind, ends_pure] using
      h.tickBatchWithLimit hroom
  | tickBatch nowNs =>
    refine hreturned ?_
    simpa only [Leaves, ServiceCall.exec, tickBatch, ends_discard, ends_bind, ends_get] using
      h.tickBatchWithLimit hroom
  | cancel id =>
    refine hreturned ?_
    simpa only [Leaves, ServiceCall.exec, ends_discard] using h.cancel id
  | pruneTerminal =>
    refine Ends.after (P := fun s' : LoggedService σ ε => Stage [] [] s'.markPruned) ?_
    exact h.pruneTerminal.mono (fun _ _ hs' => hs') fun _ _ hf => hf.elim

theorem Stage.new {policy : SchedulerPolicy} {executor : σ} {s : LoggedService σ ε}
    (h : ScheduledService.new policy (executor, []) = .ok s) : Stage [] [] s := by
  cases hnew : ContinuousScheduler.new policy with
  | error e =>
    rw [ScheduledService.new, hnew] at h
    cases h
  | ok scheduler =>
    rw [ScheduledService.new, hnew] at h
    cases h
    have hinv := Inv.new hnew
    obtain ⟨rfl, -⟩ := ContinuousScheduler.new_eq_ok hnew
    refine ⟨hinv, rfl, by simp, by simp, fun id _ _ => rfl, fun id status hs => ?_⟩
    cases hs

/-- Scheduler and executor are in step after every call, in every run whose admissions find a
sequence number and whose dispatches find room in the counter of quanta. -/
theorem lockstep_along (policy : SchedulerPolicy) (E : QuantumExecutor σ ρ ε) (executor : σ)
    (s : LoggedService σ ε) (calls : List (ServiceCall ρ))
    (hnew : ScheduledService.new policy (executor, []) = .ok s)
    (hroom : Along (loggedStep E) (fun s call => call.HasRoom s) s calls) :
    Along (loggedStep E) (fun s call => InLockstep (loggedStep E s call)) s calls :=
  along_of_invariant (Stage.new hnew) (fun _ _ h hcall => h.step hcall) hroom
    fun _ _ h hcall => (h.step hcall).inLockstep

/-- An executor that answers every dispatch with the tokens it asks for. -/
def echoExecutor : QuantumExecutor Unit Unit Unit where
  begin _ _ := pure ()
  executeBatch dispatches := pure (dispatches.map fun dispatch => match dispatch.kind with
    | .prefill => .ofPrefill dispatch.tokenBudget false false
    | .decode => .decode (List.replicate dispatch.tokenBudget 0) false false)
  finish _ _ := pure ()
  finishAt _ _ _ := pure ()

theorem lockstep_along_echo :
    Along (loggedStep echoExecutor)
      (fun s call => InLockstep (loggedStep echoExecutor s call))
      (⟨⟨smallPolicy, ∅, ∅, [], 0, 0, .default⟩, ((), []), ∅, none⟩ : LoggedService Unit Unit)
      [.admitRequest ⟨1, 0, 3, 0, 4, 1, none⟩ () 0, .tickBatch 0, .tick 1, .tick 2, .cancel 1,
        .pruneTerminal] := by
  refine lockstep_along smallPolicy echoExecutor () _ _ rfl
    ⟨fun _ _ _ _ => by decide +kernel, ?_, ?_, ?_, trivial, trivial, trivial⟩
  · change DispatchRoom _ _ _
    decide +kernel
  · change DispatchRoom _ _ _
    decide +kernel
  · change DispatchRoom _ _ _
    decide +kernel

/-! ## An admission without a sequence number -/

/-- A request that is rejected for its priority, and one that is not. -/
def oneTokenSpec (priority : U16) : RequestSpec := ⟨1, 0, 0, 0, 1, priority, none⟩

/-- The service after `k` rejected requests that were pruned again. -/
structure Worn (k : Nat) (s : LoggedService Unit Unit) : Prop where
  stage : Stage [] [] s
  policy : s.scheduler.policy = smallPolicy
  requests : s.scheduler.requests = ∅
  nextSequence : s.scheduler.nextSequence = k

def wearCalls : List (ServiceCall Unit) := [.admitRequest (oneTokenSpec 0) () 0, .pruneTerminal]

theorem Worn.reserved {k : Nat} {s : LoggedService Unit Unit} (h : Worn k s) :
    s.scheduler.reservedKvBytes = 0 := by
  rw [h.stage.inv.reserved, h.requests]
  rfl

theorem Worn.not_overflows {k : Nat} {s : LoggedService Unit Unit} (h : Worn k s)
    {spec : RequestSpec} (hspec : reservation? smallPolicy spec = some 4) :
    ¬ ReservationOverflows s.scheduler spec := by
  intro hover
  have hbytes := hover 4 (h.policy ▸ hspec)
  rw [h.reserved] at hbytes
  omega

theorem Worn.fresh {k : Nat} {s : LoggedService Unit Unit} (h : Worn k s) (id : RequestId) :
    s.scheduler.requests.get? id = none := by
  rw [h.requests]
  rfl

theorem Worn.refused {k : Nat} {s : LoggedService Unit Unit} (h : Worn k s) (bytes : Nat) :
    ¬ Admissible s.scheduler (oneTokenSpec 0) 0 bytes := by
  intro hadm
  have hbasic := hadm.basic
  rw [h.policy] at hbasic
  cases hbasic

theorem Worn.wear {k : Nat} {s : LoggedService Unit Unit} (h : Worn k s)
    (hk : k + 1 < 2 ^ 64) : Worn (k + 1) (run (loggedStep echoExecutor) s wearCalls) := by
  have hroom : (ServiceCall.admitRequest (oneTokenSpec 0) () 0).HasRoom s :=
    fun bytes hadm => absurd hadm (h.refused bytes)
  have hstage : Stage [] [] (run (loggedStep echoExecutor) s wearCalls) :=
    run_invariant _ h.stage (fun _ _ hs hcall => hs.step hcall) ⟨hroom, trivial, trivial⟩
  have hrejected : (loggedStep echoExecutor s
      (.admitRequest (oneTokenSpec 0) () 0)).scheduler =
      rejectedState s.scheduler (oneTokenSpec 0) := by
    refine Ends.after (P := fun s' : LoggedService Unit Unit =>
      s'.scheduler = rejectedState s.scheduler (oneTokenSpec 0)) ?_
    simp only [ServiceCall.exec, ends_discard, Service.admitRequest, ends_bind,
      ends_schedulerCall]
    refine (admit_ends _ _ h.stage.inv.policy.page).mono ?_ ?_
    · intro outcome scheduler hr
      cases outcome with
      | rejected reason => exact hr.2.2.2.2
      | admitted bytes => exact absurd hr.2.2.2.1 (h.refused bytes)
    · intro fault scheduler hf
      cases hf with
      | duplicate hdup => simp [SortedMap.contains, h.fresh] at hdup
      | future hlate => cases hlate
      | reservation _ hover => exact absurd hover (h.not_overflows (by decide))
      | strandedRejected _ hover =>
        rw [h.nextSequence] at hover
        omega
      | strandedQueued bytes _ _ hadm => exact absurd hadm (h.refused bytes)
  simp only [wearCalls, run_cons, run_nil] at hstage ⊢
  generalize loggedStep echoExecutor s (.admitRequest (oneTokenSpec 0) () 0) = s₁ at *
  have hpruned : (loggedStep echoExecutor s₁ .pruneTerminal).scheduler = { s₁.scheduler with
      requests := s₁.scheduler.requests.retain fun _ state => !state.status.isTerminal } := rfl
  refine ⟨hstage, ?_, ?_, ?_⟩
  · rw [hpruned, hrejected]
    exact h.policy
  · rw [hpruned, hrejected, rejectedState, h.requests]
    rfl
  · rw [hpruned, hrejected, rejectedState, h.nextSequence]

theorem Worn.replicate {k : Nat} {s : LoggedService Unit Unit} (h : Worn 0 s)
    (hk : k < 2 ^ 64) :
    Worn k (run (loggedStep echoExecutor) s (List.replicate k wearCalls).flatten) := by
  induction k with
  | zero => exact h
  | succ k ih =>
    rw [List.replicate_succ', List.flatten_append, run_append]
    simpa using (ih (by omega)).wear hk

/-- The admission after the last sequence number leaves a queued request that was never begun. -/
theorem Worn.strands {k : Nat} {s : LoggedService Unit Unit} (h : Worn k s)
    (hk : k + 1 = 2 ^ 64) :
    ¬ InLockstep (loggedStep echoExecutor s (.admitRequest (oneTokenSpec 1) () 0)) := by
  have hadm : Admissible s.scheduler (oneTokenSpec 1) 0 4 := by
    have hcounts : requestCounts s.scheduler.requests = (0, 0) := by
      rw [h.requests]
      rfl
    constructor
    · rw [h.policy]
      decide
    · rw [hcounts, h.policy]
      decide
    · rw [hcounts, h.policy]
      decide
    · rw [h.policy]
      decide
    · rw [h.policy, h.reserved]
      decide
  let stranded (bytes : Nat) : LoggedService Unit Unit := { s with
    scheduler :=
      strandedState s.scheduler (queuedRecord s.scheduler (oneTokenSpec 1) bytes) }
  have hstranded : ∃ bytes, loggedStep echoExecutor s (.admitRequest (oneTokenSpec 1) () 0) =
      stranded bytes := by
    refine Ends.after (P := fun s' => ∃ bytes, s' = stranded bytes) ?_
    simp only [ServiceCall.exec, ends_discard, Service.admitRequest, ends_bind,
      ends_schedulerCall]
    refine (admit_ends _ _ h.stage.inv.policy.page).mono ?_ ?_
    · intro outcome scheduler hr
      have hseq := hr.2.2.1
      rw [h.nextSequence] at hseq
      omega
    · intro fault scheduler hf
      cases hf with
      | duplicate hdup => simp [SortedMap.contains, h.fresh] at hdup
      | future hlate => cases hlate
      | reservation _ hover => exact absurd hover (h.not_overflows (by decide))
      | strandedRejected _ _ hrefused => exact absurd hadm (hrefused 4)
      | strandedQueued bytes => exact ⟨bytes, rfl⟩
  obtain ⟨bytes, hstranded⟩ := hstranded
  rw [hstranded]
  intro hlockstep
  have hidle : s.standing 1 = .idle := by
    have hrest := h.stage.rest 1 List.not_mem_nil List.not_mem_nil
    rwa [ContinuousScheduler.status, h.fresh] at hrest
  have hopened := (hlockstep.open_iff 1).mpr ⟨.queued, by
    rw [ContinuousScheduler.status]
    exact congrArg (Option.map RequestState.status) (SortedMap.get?_insert_self _ _ _),
    by simp [RequestStatus.isTerminal]⟩
  have hboth : s.standing 1 = .opened := hopened
  rw [hidle] at hboth
  cases hboth

/-- Scheduler and executor fall out of step when the sequence numbers run out. -/
theorem lockstep_fails : ¬ ∀ (policy : SchedulerPolicy) (E : QuantumExecutor Unit Unit Unit)
    (s : LoggedService Unit Unit) (calls : List (ServiceCall Unit)),
    ScheduledService.new policy ((), []) = .ok s →
    Along (loggedStep E) (fun s call => InLockstep (loggedStep E s call)) s calls := by
  intro hall
  obtain ⟨s, hnew⟩ : ∃ s : LoggedService Unit Unit,
      ScheduledService.new smallPolicy ((), []) = .ok s := ⟨_, rfl⟩
  obtain ⟨k, hk⟩ : ∃ k : Nat, k + 1 = 2 ^ 64 := ⟨2 ^ 64 - 1, by omega⟩
  have hworn : Worn 0 s := by
    have hstage := Stage.new hnew
    cases hnew
    exact ⟨hstage, rfl, rfl, rfl⟩
  have halong := hall smallPolicy echoExecutor s
    ((List.replicate k wearCalls).flatten ++ [.admitRequest (oneTokenSpec 1) () 0]) hnew
  rw [along_append] at halong
  exact (hworn.replicate (by omega)).strands hk halong.2.1

end Leone.Service
