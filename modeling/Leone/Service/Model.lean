import Leone.Scheduler.Model

/-!
# The scheduled service

The service connects the scheduler to a quantum executor: it admits requests, executes the
batches that the scheduler selects, commits or aborts them, and tells the executor when a
request is over. The executor is any state machine with the four calls that the service makes.
-/

namespace Leone.Service

open Framework Framework.Method Scheduler

/-! ## Executors -/

/-- Prompt positions evaluated by one prefill dispatch. -/
structure PrefillProgress where
  processedTokens : Nat
  ready : Bool
  deriving DecidableEq, Repr

/-- The tokens and terminal state returned by one executor quantum. -/
structure QuantumOutput where
  tokens : List Nat
  eos : Bool
  cancelled : Bool
  prefill : Option PrefillProgress
  deriving DecidableEq, Repr

/-- Output from a decode dispatch. -/
def QuantumOutput.decode (tokens : List Nat) (eos cancelled : Bool) : QuantumOutput :=
  ⟨tokens, eos, cancelled, none⟩

/-- Progress from a prefill dispatch. -/
def QuantumOutput.ofPrefill (processedTokens : Nat) (ready cancelled : Bool) : QuantumOutput :=
  ⟨[], false, cancelled, some ⟨processedTokens, ready⟩⟩

/-- A call of an executor. Writes made before an error persist. -/
abbrev ExecutorM (σ ε α : Type) := EStateM ε σ α

/-- Executes bounded inference quanta selected by the service scheduler. -/
structure QuantumExecutor (σ ρ ε : Type) where
  /-- Creates executor state after the scheduler admits a request. -/
  begin : RequestId → ρ → ExecutorM σ ε Unit
  /-- Executes one scheduler-selected request set in dispatch order. -/
  executeBatch : List Dispatch → ExecutorM σ ε (List QuantumOutput)
  /-- Releases executor state after any terminal scheduler result. -/
  finish : RequestId → RequestStatus → ExecutorM σ ε Unit
  /-- Releases executor state with the scheduler timestamp for deadline expiry. -/
  finishAt : RequestId → RequestStatus → Nat → ExecutorM σ ε Unit

/-! ## The service -/

/-- An invalid transition across the scheduler and executor boundary. -/
inductive ServiceError (ε : Type)
  | scheduler (error : SchedulerError)
  | executor (error : ε)
  | executorBudget (emitted budget : Nat)
  | executorBatchSize (expected actual : Nat)
  | prefillOutput (id : RequestId) (emitted : Nat)
  | prefillNoProgress (id : RequestId)
  | prefillProgressMissing (id : RequestId)
  | prefillProgressOverBudget (id : RequestId) (progress budget : Nat)
  | decodePrefillProgress (id : RequestId)
  | noProgress (id : RequestId)
  deriving DecidableEq

/-- The committed result of one scheduled executor quantum. -/
structure ServiceQuantum where
  completion : QuantumCompletion
  kind : DispatchKind
  progressTokens : Nat
  tokens : List Nat
  deriving DecidableEq

/-- Connects bounded admission and scheduling to a quantum executor. -/
structure ScheduledService (σ ε : Type) where
  scheduler : ContinuousScheduler
  executor : σ
  outputs : SortedMap RequestId (List Nat)
  finishError : Option (ServiceError ε)

abbrev ServiceM (σ ε α : Type) := Method (ScheduledService σ ε) (ServiceError ε) α

variable {σ ρ ε α : Type}

def ScheduledService.new (policy : SchedulerPolicy) (executor : σ) :
    Except SchedulerError (ScheduledService σ ε) := do
  return ⟨← ContinuousScheduler.new policy, executor, ∅, none⟩

/-- A scheduler call, with its error as a value. -/
def onScheduler (m : SchedulerM α) : ServiceM σ ε (Except SchedulerError α) :=
  attempt ScheduledService.scheduler (fun scheduler s => { s with scheduler }) m

/-- What an executor call returned, with the executor state it left. -/
def answer (m : ExecutorM σ ε α) (executor : σ) : Except ε α × σ :=
  match m.run executor with
  | .ok a executor => (.ok a, executor)
  | .error e executor => (.error e, executor)

/-- An executor call, with its error as a value. -/
def onExecutor (m : ExecutorM σ ε α) : ServiceM σ ε (Except ε α) := fun s =>
  .ok (answer m s.executor).1 { s with executor := (answer m s.executor).2 }

/-- The value of a scheduler call, or its error as the service's. -/
def orScheduler (r : Except SchedulerError α) : ServiceM σ ε α :=
  match r with
  | .ok a => pure a
  | .error e => raise (.scheduler e)

/-- A scheduler call whose error the service returns. -/
def schedulerCall (m : SchedulerM α) : ServiceM σ ε α := do
  orScheduler (← onScheduler m)

/-- Run a part of a service call and hand its error over as a value. -/
def caught (m : ServiceM σ ε α) : ServiceM σ ε (Except (ServiceError ε) α) :=
  attempt (fun s => s) (fun s _ => s) m

/-- Create executor state for an admitted request. -/
def beginRequest (E : QuantumExecutor σ ρ ε) (requestId : RequestId) (request : ρ) :
    ServiceM σ ε Unit := do
  match ← onExecutor (E.begin requestId request) with
  | .error error => do
    -- admission reserved KV, which is released if the executor cannot start
    let _ ← schedulerCall (Scheduler.cancel requestId)
    raise (.executor error)
  | .ok _ => modify fun s => { s with outputs := s.outputs.insert requestId [] }

/-- Admit a request and create executor state only after admission passes. -/
def admitRequest (E : QuantumExecutor σ ρ ε) (spec : RequestSpec) (request : ρ) (nowNs : Nat) :
    ServiceM σ ε AdmissionOutcome := do
  let outcome ← schedulerCall (Scheduler.admitRequest spec nowNs)
  match outcome with
  | .rejected _ => return outcome
  | .admitted _ => do
    beginRequest E spec.id request
    return outcome

/-- Keep the first error that finishing a request returned. -/
def rememberFinishError (error : ε) : ServiceM σ ε Unit :=
  modify fun s =>
    if s.finishError.isNone then { s with finishError := some (.executor error) } else s

def finishExpired (E : QuantumExecutor σ ρ ε) (nowNs : Nat) (requestId : RequestId) :
    ServiceM σ ε Unit := do
  match ← onExecutor (E.finishAt requestId .deadlineExpired nowNs) with
  | .error error => rememberFinishError error
  | .ok _ => pure ()

def finishExpiredRequests (E : QuantumExecutor σ ρ ε) (nowNs : Nat) : ServiceM σ ε Unit := do
  let ids ← schedulerCall takeExpiredDeadlines
  forM ids (finishExpired E nowNs)

/-! ## Checking outputs -/

/-- The first output longer than its budget, with the budget. -/
def overBudgetOutput (dispatches : List Dispatch) (outputs : List QuantumOutput) :
    Option (Nat × Nat) :=
  ((dispatches.zip outputs).find? fun p => p.1.tokenBudget < p.2.tokens.length).map fun p =>
    (p.2.tokens.length, p.1.tokenBudget)

def invalidPrefillOutput (dispatch : Dispatch) (output : QuantumOutput) :
    Option (ServiceError ε) :=
  match output.prefill with
  | none => some (.prefillProgressMissing dispatch.requestId)
  | some progress =>
    if ¬ output.tokens.isEmpty then
      some (.prefillOutput dispatch.requestId output.tokens.length)
    else if dispatch.tokenBudget < progress.processedTokens then
      some (.prefillProgressOverBudget dispatch.requestId progress.processedTokens
        dispatch.tokenBudget)
    else if progress.processedTokens = 0 ∧ ¬ progress.ready ∧ ¬ output.cancelled then
      some (.prefillNoProgress dispatch.requestId)
    else none

def invalidDecodeOutput (dispatch : Dispatch) (output : QuantumOutput) :
    Option (ServiceError ε) :=
  if output.prefill.isSome then some (.decodePrefillProgress dispatch.requestId)
  else if output.tokens.isEmpty ∧ ¬ output.eos ∧ ¬ output.cancelled then
    some (.noProgress dispatch.requestId)
  else none

def invalidOutputForDispatch (dispatch : Dispatch) (output : QuantumOutput) :
    Option (ServiceError ε) :=
  match dispatch.kind with
  | .prefill => invalidPrefillOutput dispatch output
  | .decode => invalidDecodeOutput dispatch output

def invalidOutputPhase (dispatches : List Dispatch) (outputs : List QuantumOutput) :
    Option (ServiceError ε) :=
  (dispatches.zip outputs).findSome? fun p => invalidOutputForDispatch p.1 p.2

def quantumProgress (dispatch : Dispatch) (output : QuantumOutput) : Nat :=
  match dispatch.kind with
  | .prefill => (output.prefill.map PrefillProgress.processedTokens).getD 0
  | .decode => (tryFrom 32 output.tokens.length).getD (2 ^ 32 - 1)

/-! ## Batches -/

/-- Abort one quantum of a failed batch. Only the first error is kept. -/
def abortOne (E : QuantumExecutor σ ρ ε) (firstError : Option (ServiceError ε))
    (dispatch : Dispatch) : ServiceM σ ε (Option (ServiceError ε)) := do
  match ← onScheduler (abortQuantum dispatch.requestId) with
  | .ok status => do
    match ← onExecutor (E.finish dispatch.requestId status) with
    | .error error => return firstError.or (some (.executor error))
    | .ok _ => return firstError
  | .error error => return firstError.or (some (.scheduler error))

def abortBatch (E : QuantumExecutor σ ρ ε) (dispatches : List Dispatch) : ServiceM σ ε Unit := do
  match ← dispatches.foldlM (abortOne E) none with
  | none => pure ()
  | some error => raise error

def abortWithError (E : QuantumExecutor σ ρ ε) (dispatches : List Dispatch)
    (error : ServiceError ε) : ServiceM σ ε α := do
  abortBatch E dispatches
  raise error

def executeBatchOutputs (E : QuantumExecutor σ ρ ε) (dispatches : List Dispatch) :
    ServiceM σ ε (List QuantumOutput) := do
  match ← onExecutor (E.executeBatch dispatches) with
  | .error error => abortWithError E dispatches (.executor error)
  | .ok outputs =>
    if outputs.length ≠ dispatches.length then
      abortWithError E dispatches (.executorBatchSize dispatches.length outputs.length)
    else match overBudgetOutput dispatches outputs with
      | some outside => abortWithError E dispatches (.executorBudget outside.1 outside.2)
      | none =>
        match invalidOutputPhase dispatches outputs with
        | some error => abortWithError E dispatches error
        | none => return outputs

/-- Abort one quantum of a batch that a failed commit left behind. Errors are dropped. -/
def abortRunning (E : QuantumExecutor σ ρ ε) (dispatch : Dispatch) : ServiceM σ ε Unit := do
  if (← get).scheduler.status dispatch.requestId ≠ some .running then pure ()
  else
    match ← onScheduler (abortQuantum dispatch.requestId) with
    | .error _ => pure ()
    | .ok status => do
      let _ ← onExecutor (E.finish dispatch.requestId status)

def abortRunningBatch (E : QuantumExecutor σ ρ ε) (dispatches : List Dispatch) :
    ServiceM σ ε Unit :=
  forM dispatches (abortRunning E)

/-- Release the executor state of a request. An error is remembered. -/
def finishRequest (E : QuantumExecutor σ ρ ε) (requestId : RequestId) (status : RequestStatus) :
    ServiceM σ ε Unit := do
  match ← onExecutor (E.finish requestId status) with
  | .error error => rememberFinishError error
  | .ok _ => pure ()

def rejectQuantum (E : QuantumExecutor σ ρ ε) (dispatch : Dispatch) (error : ServiceError ε) :
    ServiceM σ ε α := do
  let status ← schedulerCall (abortQuantum dispatch.requestId)
  finishRequest E dispatch.requestId status
  raise error

/-- Append the tokens of a committed quantum to the output of its request. -/
def extendOutput (requestId : RequestId) (tokens : List Nat) : ServiceM σ ε Unit := do
  let output ← orPanic ((← get).outputs.get? requestId)
  modify fun s => { s with outputs := s.outputs.insert requestId (output ++ tokens) }

/-- Commit an output that passed its checks, after the scheduler saw its cancellation. -/
def commitOutput (E : QuantumExecutor σ ρ ε) (dispatch : Dispatch) (output : QuantumOutput) :
    ServiceM σ ε ServiceQuantum := do
  let emittedTokens ← orPanic (tryFrom 32 output.tokens.length)
  let completion ← schedulerCall (completeQuantumWithProgress dispatch.requestId emittedTokens
    (quantumProgress dispatch output) (output.prefill.any (·.ready)) output.eos)
  extendOutput dispatch.requestId output.tokens
  if completion.status.isTerminal then finishRequest E dispatch.requestId completion.status
  return ⟨completion, dispatch.kind, quantumProgress dispatch output, output.tokens⟩

def commitQuantum (E : QuantumExecutor σ ρ ε) (dispatch : Dispatch) (output : QuantumOutput) :
    ServiceM σ ε ServiceQuantum :=
  if dispatch.tokenBudget < output.tokens.length then
    rejectQuantum E dispatch (.executorBudget output.tokens.length dispatch.tokenBudget)
  else match invalidOutputForDispatch dispatch output with
    | some error => rejectQuantum E dispatch error
    | none => do
      if output.cancelled then
        let _ ← schedulerCall (Scheduler.cancel dispatch.requestId)
      commitOutput E dispatch output

/-- Commit the outputs in dispatch order. A failed commit aborts the quanta after it. -/
def commitBatch (E : QuantumExecutor σ ρ ε) :
    List Dispatch → List QuantumOutput → ServiceM σ ε (List ServiceQuantum)
  | dispatch :: dispatches, output :: outputs => do
    match ← caught (commitQuantum E dispatch output) with
    | .ok quantum => return quantum :: (← commitBatch E dispatches outputs)
    | .error error => do
      abortRunningBatch E (dispatch :: dispatches)
      raise error
  | _, _ => return []

def takeFinishError : ServiceM σ ε (Option (ServiceError ε)) := do
  let finishError := (← get).finishError
  modify fun s => { s with finishError := none }
  return finishError

/-- Select a batch. Requests that expired meanwhile are released, also when the selection fails. -/
def openBatch (E : QuantumExecutor σ ρ ε) (nowNs limit : Nat) : ServiceM σ ε (List Dispatch) := do
  match ← onScheduler (dispatchBatch nowNs limit) with
  | .error error => do
    finishExpiredRequests E nowNs
    raise (.scheduler error)
  | .ok dispatches => do
    finishExpiredRequests E nowNs
    return dispatches

def tickBatchWithLimit (E : QuantumExecutor σ ρ ε) (nowNs limit : Nat) :
    ServiceM σ ε (List ServiceQuantum) := do
  modify fun s => { s with finishError := none }
  let dispatches ← openBatch E nowNs limit
  if dispatches.isEmpty then
    match ← takeFinishError with
    | some error => raise error
    | none => return []
  else do
    let result ← caught do commitBatch E dispatches (← executeBatchOutputs E dispatches)
    let finishError ← takeFinishError
    match result, finishError with
    | .error error, _ => raise error
    | .ok _, some error => raise error
    | .ok quanta, none => return quanta

/-- Execute one scheduler-selected quantum. -/
def tick (E : QuantumExecutor σ ρ ε) (nowNs : Nat) : ServiceM σ ε (Option ServiceQuantum) := do
  return (← tickBatchWithLimit E nowNs 1).head?

/-- Execute one scheduler-selected request batch. -/
def tickBatch (E : QuantumExecutor σ ρ ε) (nowNs : Nat) : ServiceM σ ε (List ServiceQuantum) := do
  tickBatchWithLimit E nowNs (← get).scheduler.policy.maxBatchRequests

/-- Cancel a request. A queued request releases executor state immediately. A running request
stops at the next quantum boundary. -/
def cancel (E : QuantumExecutor σ ρ ε) (requestId : RequestId) : ServiceM σ ε RequestStatus := do
  let before ← orErr ((← get).scheduler.status requestId)
    (.scheduler (.unknownRequest requestId))
  let status ← schedulerCall (Scheduler.cancel requestId)
  if before = .queued ∧ status = .cancelled then
    match ← onExecutor (E.finish requestId status) with
    | .error error => raise (.executor error)
    | .ok _ => pure ()
  return status

/-- Remove terminal scheduler records and their retained output tokens. -/
def pruneTerminal : ServiceM σ ε Unit := do
  modify fun s => { s with
    outputs := s.outputs.retain fun id _ =>
      (s.scheduler.status id).any fun status => !status.isTerminal }
  schedulerCall Scheduler.pruneTerminal

def ScheduledService.output (s : ScheduledService σ ε) (id : RequestId) : Option (List Nat) :=
  s.outputs.get? id

/-! ## Calls -/

/-- One call of the public interface, with its arguments. -/
inductive ServiceCall (ρ : Type)
  | admitRequest (spec : RequestSpec) (request : ρ) (nowNs : Nat)
  | tick (nowNs : Nat)
  | tickBatch (nowNs : Nat)
  | cancel (id : RequestId)
  | pruneTerminal

/-- Run one call and forget what it returned. -/
def ServiceCall.exec (E : QuantumExecutor σ ρ ε) : ServiceCall ρ → ServiceM σ ε Unit
  | .admitRequest spec request nowNs => discard (Service.admitRequest E spec request nowNs)
  | .tick nowNs => discard (Service.tick E nowNs)
  | .tickBatch nowNs => discard (Service.tickBatch E nowNs)
  | .cancel id => discard (Service.cancel E id)
  | .pruneTerminal => Service.pruneTerminal

/-- The service after one call, whether it returned a value or an error. -/
def serviceStep (E : QuantumExecutor σ ρ ε) (s : ScheduledService σ ε) (call : ServiceCall ρ) :
    ScheduledService σ ε :=
  (call.exec E).after s

end Leone.Service
