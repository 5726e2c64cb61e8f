import Mathlib
import Leone.Framework.SortedMap
import Leone.Scheduler.Types

/-!
# The continuous scheduler

Every method of the scheduler, as a fallible method on its state. An unchecked subtraction that
would underflow, and an `expect` that would fail, panic. An unchecked `+= 1` on a statistic
wraps, as it does in the release profile; a checked build stops there, so its runs are
prefixes of these.
-/

namespace Leone.Scheduler

open Framework Framework.Method

/-- Schedules resident request batches under page-rounded KV admission. -/
structure ContinuousScheduler where
  policy : SchedulerPolicy
  requests : SortedMap RequestId RequestState
  running : SortedMap RequestId Dispatch
  expired : List RequestId
  reservedKvBytes : Nat
  nextSequence : Nat
  stats : SchedulerStats
  deriving DecidableEq

abbrev SchedulerM := Method ContinuousScheduler SchedulerError

/-- A record and the shared counters, as one quantum commit mutates them. -/
abbrev QuantumM := Method (RequestState × SchedulerStats) SchedulerError

def ContinuousScheduler.new (policy : SchedulerPolicy) :
    Except SchedulerError ContinuousScheduler := do
  let policy ← policy.validate
  return ⟨policy, ∅, ∅, [], 0, 0, .default⟩

/-! ## Admission -/

def basicAdmissionRejection (policy : SchedulerPolicy) (spec : RequestSpec) (nowNs : Nat) :
    Option AdmissionReject :=
  if spec.promptTokens < spec.prefixReusedTokens then some .invalidPrefix
  else if policy.maxPromptTokens < spec.promptTokens then some .promptLimit
  else if spec.maxOutputTokens = 0 ∨ policy.maxOutputTokens < spec.maxOutputTokens then
    some .outputLimit
  else if spec.priority = 0 ∨ 100 < spec.priority then some .invalidPriority
  else if spec.deadlineNs.any fun deadline => (deadline : Nat) ≤ nowNs then some .expiredDeadline
  else none

/-- The numbers of nonterminal and of queued requests. -/
def requestCounts (requests : SortedMap RequestId RequestState) : Nat × Nat :=
  (requests.countBy fun state => !state.status.isTerminal,
    requests.countBy fun state => state.status = .queued)

/-- The page-rounded charge of a request. Prefix tokens already occupy KV. -/
def reservationBytes (spec : RequestSpec) : SchedulerM Nat := do
  let policy := (← get).policy
  let tokens ← orErr
    ((checkedSub spec.promptTokens spec.prefixReusedTokens).bind fun tokens =>
      checkedAdd 64 tokens spec.maxOutputTokens) .accountingOverflow
  let round ← orPanic (checkedSub policy.kvPageTokens 1)
  let pages ← orErr
    ((checkedAdd 64 tokens round).bind fun tokens => checkedDiv tokens policy.kvPageTokens)
    .accountingOverflow
  orErr
    ((checkedMul 64 pages policy.kvPageTokens).bind fun tokens =>
      checkedMul 64 tokens policy.kvBytesPerToken) .accountingOverflow

def admissionRejection (spec : RequestSpec) (nowNs : Nat) :
    SchedulerM (Option AdmissionReject) := do
  let s ← get
  match basicAdmissionRejection s.policy spec nowNs with
  | some reason => return some reason
  | none =>
    if s.policy.maxActiveRequests ≤ (requestCounts s.requests).1 then return some .activeLimit
    else if s.policy.maxQueuedRequests ≤ (requestCounts s.requests).2 then
      return some .queueLimit
    else do
      let reservation ← reservationBytes spec
      let reserved ← orErr (checkedAdd 64 s.reservedKvBytes reservation) .accountingOverflow
      if s.policy.maxReservedKvBytes < reserved then return some .kvCapacity
      else return none

/-- The least virtual runtime of a nonterminal request. -/
def baseRuntime (requests : SortedMap RequestId RequestState) : Nat :=
  ((requests.values.filter fun state => !state.status.isTerminal).map
    RequestState.virtualRuntime).min?.getD 0

/-- The virtual time that reused prefix tokens give back. -/
def prefixCredit (policy : SchedulerPolicy) (spec : RequestSpec) : Nat :=
  (checkedDiv
    (saturatingMul 128 (min spec.prefixReusedTokens policy.maxPrefixCreditTokens) 1024)
    (max spec.priority 1)).getD 0

/-- The record of a new request, placed at the head of virtual time less its prefix credit. -/
def newRecord (s : ContinuousScheduler) (spec : RequestSpec) (status : RequestStatus)
    (reservation remainingPrefillTokens : Nat) : RequestState where
  spec
  status
  reservedKvBytes := reservation
  remainingPrefillTokens
  remainingTokens := spec.maxOutputTokens
  emittedTokens := 0
  virtualRuntime := baseRuntime s.requests - prefixCredit s.policy spec
  sequence := s.nextSequence
  cancellationRequested := false

def insertRequest (spec : RequestSpec) (rejection : Option AdmissionReject) :
    SchedulerM Nat := do
  let reservation ← if rejection.isNone then reservationBytes spec else pure 0
  let remainingPrefillTokens ←
    if rejection.isNone then
      orErr (checkedSub spec.promptTokens spec.prefixReusedTokens) .accountingOverflow
    else pure 0
  let status := if rejection.isNone then .queued else .rejected
  modify fun s => { s with
    requests := s.requests.insert spec.id
      (newRecord s spec status reservation remainingPrefillTokens) }
  -- the record stays when the sequence counter is exhausted
  let next ← orErr (checkedAdd 64 (← get).nextSequence 1) .accountingOverflow
  modify fun s => { s with nextSequence := next }
  return reservation

def updateHighWatermarks (s : ContinuousScheduler) : ContinuousScheduler :=
  { s with stats := { s.stats with
    maxQueueDepth := max s.stats.maxQueueDepth
      ((tryFrom 32 (requestCounts s.requests).2).getD (2 ^ 32 - 1))
    maxReservedKvBytes := max s.stats.maxReservedKvBytes s.reservedKvBytes } }

def admitRequest (spec : RequestSpec) (nowNs : Nat) : SchedulerM AdmissionOutcome := do
  ensure (¬ (← get).requests.contains spec.id) (.duplicateRequest spec.id)
  ensure ((spec.arrivalNs : Nat) ≤ nowNs) (.futureArrival spec.id)
  modify fun s => { s with stats := { s.stats with
    admissionAttempts := wrappingAdd 64 s.stats.admissionAttempts 1 } }
  let rejection ← admissionRejection spec nowNs
  let reservation ← insertRequest spec rejection
  match rejection with
  | some reason => do
    modify fun s => { s with stats := { s.stats with
      rejectedRequests := wrappingAdd 64 s.stats.rejectedRequests 1 } }
    return .rejected reason
  | none => do
    let reserved ← orErr (checkedAdd 64 (← get).reservedKvBytes reservation)
      .accountingOverflow
    modify fun s => updateHighWatermarks { s with
      reservedKvBytes := reserved
      stats := { s.stats with
        admittedRequests := wrappingAdd 64 s.stats.admittedRequests 1 } }
    return .admitted reservation

/-! ## Dispatch -/

/-- Deadlines inside the urgent window preempt virtual-runtime order. -/
def urgent (policy : SchedulerPolicy) (nowNs : Nat) (state : RequestState) : Bool :=
  state.spec.deadlineNs.any fun deadline =>
    (deadline : Nat) ≤ saturatingAdd 64 nowNs policy.urgentWindowNs

def compareRequests (policy : SchedulerPolicy) (nowNs : Nat) (left right : RequestState) :
    Ordering :=
  (compare (urgent policy nowNs right) (urgent policy nowNs left)).then <|
    if urgent policy nowNs left && urgent policy nowNs right then
      (compare (left.spec.deadlineNs.map Fin.val) (right.spec.deadlineNs.map Fin.val)).then <|
      (compare left.virtualRuntime right.virtualRuntime).then <|
      compare left.sequence right.sequence
    else
      (compare left.virtualRuntime right.virtualRuntime).then <|
      (compare right.spec.priority.val left.spec.priority.val).then <|
      compare left.sequence right.sequence

/-- The queued requests in service order, cut at the batch limit. -/
def selectBatchIds (s : ContinuousScheduler) (nowNs limit : Nat) : List RequestId :=
  let queued := s.requests.values.filter fun state => state.status = .queued
  let ordered := queued.insertionSort fun left right =>
    compareRequests s.policy nowNs left right ≠ .gt
  (ordered.take limit).map fun state => state.spec.id

/-- Subtract a record's reservation from the scheduler total and clear it in the record. -/
def release (requestId : RequestId) (state : RequestState) : SchedulerM Unit := do
  let reserved ← orPanic (checkedSub (← get).reservedKvBytes state.reservedKvBytes)
  modify fun s => { s with
    reservedKvBytes := reserved
    requests := s.requests.insert requestId { state with reservedKvBytes := 0 } }

def deadlinePassed (nowNs : Nat) (state : RequestState) : Bool :=
  state.status = .queued && state.spec.deadlineNs.any fun deadline => (deadline : Nat) ≤ nowNs

def expireOne (requestId : RequestId) : SchedulerM Unit := do
  let state ← orPanic ((← get).requests.get? requestId)
  release requestId { state with status := .deadlineExpired }
  modify fun s => { s with
    stats := { s.stats with expiredRequests := wrappingAdd 64 s.stats.expiredRequests 1 }
    expired := s.expired ++ [requestId] }

def expireDeadlines (nowNs : Nat) : SchedulerM Unit := do
  let ids := ((← get).requests.values.filter (deadlinePassed nowNs)).map fun state =>
    state.spec.id
  forM ids expireOne

/-- The budget and phase of a request's next quantum. -/
def nextQuantum (policy : SchedulerPolicy) (state : RequestState) : Nat × DispatchKind :=
  if 0 < state.remainingPrefillTokens then
    (min state.remainingPrefillTokens policy.prefillChunkTokens, .prefill)
  else (min state.remainingTokens policy.serviceQuantumTokens, .decode)

def startOne (nowNs : Nat) (requestId : RequestId) : SchedulerM Dispatch := do
  let s ← get
  let state ← orPanic (s.requests.get? requestId)
  let tokenBudget ← orErr (tryFrom 32 (nextQuantum s.policy state).1) .accountingOverflow
  let dispatch : Dispatch :=
    ⟨requestId, tokenBudget, nowNs, (nextQuantum s.policy state).2⟩
  set { s with
    requests := s.requests.insert requestId { state with status := .running }
    running := s.running.insert requestId dispatch }
  return dispatch

def startBatch (requestIds : List RequestId) (nowNs : Nat) : SchedulerM (List Dispatch) :=
  requestIds.mapM' (startOne nowNs)

def recordBatchDispatch (dispatches : List Dispatch) : SchedulerM Unit :=
  if dispatches.isEmpty then pure ()
  else do
    modify fun s => { s with stats := { s.stats with
      dispatchedBatches := wrappingAdd 64 s.stats.dispatchedBatches 1 } }
    let quanta ← orErr
      (checkedAdd 64 (← get).stats.dispatchedQuanta
        ((tryFrom 64 dispatches.length).getD (2 ^ 64 - 1))) .accountingOverflow
    modify fun s => { s with stats := { s.stats with
      dispatchedQuanta := quanta
      maxBatchWidth := max s.stats.maxBatchWidth
        ((tryFrom 32 dispatches.length).getD (2 ^ 32 - 1)) } }

/-- Select at most `limit` requests for one executor batch. -/
def dispatchBatch (nowNs limit : Nat) : SchedulerM (List Dispatch) := do
  ensure ((← get).running.isEmpty) .dispatchInFlight
  ensure (limit ≠ 0) (.invalidPolicy "dispatch batch limit must be nonzero")
  expireDeadlines nowNs
  let s ← get
  let requestIds := selectBatchIds s nowNs (min limit s.policy.maxBatchRequests)
  let dispatches ← startBatch requestIds nowNs
  recordBatchDispatch dispatches
  return dispatches

def dispatch (nowNs : Nat) : SchedulerM (Option Dispatch) := do
  return (← dispatchBatch nowNs 1).head?

/-! ## Completion -/

def validateQuantumCompletion (dispatch : Dispatch) (requestId : RequestId)
    (emittedTokens progressTokens : Nat) : Except SchedulerError Unit :=
  if dispatch.tokenBudget < emittedTokens ∨ dispatch.tokenBudget < progressTokens then
    .error (.quantumExceeded requestId (max emittedTokens progressTokens) dispatch.tokenBudget)
  else if dispatch.kind = .prefill ∧ emittedTokens ≠ 0 then
    .error (.prefillEmittedTokens requestId)
  else if dispatch.kind = .decode ∧ progressTokens ≠ emittedTokens then
    .error (.quantumExceeded requestId progressTokens dispatch.tokenBudget)
  else .ok ()

def applyPrefillProgress (progressTokens : Nat) (ready : Bool) : QuantumM Nat := do
  let remaining ←
    if ready then pure 0
    else orErr (checkedSub (← get).1.remainingPrefillTokens progressTokens) .accountingOverflow
  modify fun p => ({ p.1 with remainingPrefillTokens := remaining }, p.2)
  let chunks ← orErr (checkedAdd 64 (← get).2.prefillChunks 1) .accountingOverflow
  modify fun p => (p.1, { p.2 with prefillChunks := chunks })
  let tokens ← orErr (checkedAdd 64 (← get).2.prefillTokens progressTokens) .accountingOverflow
  modify fun p => (p.1, { p.2 with prefillTokens := tokens })
  return progressTokens

def applyDecodeProgress (emittedTokens : Nat) : QuantumM Nat := do
  let remaining ← orPanic (checkedSub (← get).1.remainingTokens emittedTokens)
  modify fun p => ({ p.1 with remainingTokens := remaining }, p.2)
  let quanta ← orErr (checkedAdd 64 (← get).2.decodeQuanta 1) .accountingOverflow
  modify fun p => (p.1, { p.2 with decodeQuanta := quanta })
  let emitted ← orErr (checkedAdd 64 (← get).1.emittedTokens emittedTokens) .accountingOverflow
  modify fun p => ({ p.1 with emittedTokens := emitted }, p.2)
  return emittedTokens

def applyQuantumStatus (kind : DispatchKind) (emittedTokens : Nat) (eos : Bool)
    (state : RequestState) (stats : SchedulerStats) : RequestState × SchedulerStats :=
  if state.cancellationRequested then
    ({ state with status := .cancelled }, { stats with
      cancelledRequests := wrappingAdd 64 stats.cancelledRequests 1
      maxCancellationOvershootTokens := max stats.maxCancellationOvershootTokens emittedTokens })
  else if kind = .prefill then ({ state with status := .queued }, stats)
  else if eos ∨ state.remainingTokens = 0 then
    ({ state with status := .finished }, { stats with
      completedRequests := wrappingAdd 64 stats.completedRequests 1 })
  else ({ state with status := .queued }, stats)

/-- The virtual time that committed tokens cost a request of the given priority. -/
def runtimeCharge (progressTokens priority : Nat) : Option Nat :=
  divCeil (saturatingMul 128 progressTokens 1024) priority

def applyQuantumState (dispatch : Dispatch) (emittedTokens progressTokens : Nat)
    (prefillReady eos : Bool) : QuantumM Unit := do
  let progressTokens ← match dispatch.kind with
    | .prefill => applyPrefillProgress progressTokens prefillReady
    | .decode => applyDecodeProgress emittedTokens
  let charge ← orPanic (runtimeCharge progressTokens (← get).1.spec.priority)
  let runtime ← orErr (checkedAdd 128 (← get).1.virtualRuntime charge) .accountingOverflow
  modify fun p => ({ p.1 with virtualRuntime := runtime }, p.2)
  let emitted ← orErr (checkedAdd 64 (← get).2.emittedTokens emittedTokens) .accountingOverflow
  modify fun p => (p.1, { p.2 with emittedTokens := emitted })
  modify fun p => applyQuantumStatus dispatch.kind emittedTokens eos p.1 p.2

/-- Commit a dispatch with explicit prompt or decode progress. -/
def completeQuantumWithProgress (requestId : RequestId) (emittedTokens progressTokens : Nat)
    (prefillReady eos : Bool) : SchedulerM QuantumCompletion := do
  let dispatch ← orErr ((← get).running.get? requestId) (.notRunning requestId)
  ofExcept (validateQuantumCompletion dispatch requestId emittedTokens progressTokens)
  let state ← orErr ((← get).requests.get? requestId) (.unknownRequest requestId)
  -- the record and the counters are mutated in place, also when a later check fails
  let state ← zoom (fun s => (state, s.stats))
    (fun p s => { s with requests := s.requests.insert requestId p.1, stats := p.2 })
    (do
      applyQuantumState dispatch emittedTokens progressTokens prefillReady eos
      return (← get).1)
  if state.status.isTerminal then release requestId state else pure ()
  modify fun s => { s with running := s.running.remove requestId }
  return ⟨requestId, emittedTokens, state.status⟩

def completeQuantum (requestId : RequestId) (emittedTokens : Nat) (eos : Bool) :
    SchedulerM QuantumCompletion := do
  let dispatch ← orErr ((← get).running.get? requestId) (.notRunning requestId)
  ensure (dispatch.kind ≠ .prefill) (.prefillProgressRequired requestId)
  completeQuantumWithProgress requestId emittedTokens emittedTokens false eos

/-- Abort one running quantum and release its reservation. -/
def abortQuantum (requestId : RequestId) : SchedulerM RequestStatus := do
  let _ ← orErr ((← get).running.get? requestId) (.notRunning requestId)
  let state ← orErr ((← get).requests.get? requestId) (.unknownRequest requestId)
  release requestId { state with status := .cancelled, cancellationRequested := false }
  modify fun s => { s with
    stats := { s.stats with cancelledRequests := wrappingAdd 64 s.stats.cancelledRequests 1 }
    running := s.running.remove requestId }
  return .cancelled

def cancel (requestId : RequestId) : SchedulerM RequestStatus := do
  let state ← orErr ((← get).requests.get? requestId) (.unknownRequest requestId)
  if state.status = .queued then do
    release requestId { state with status := .cancelled }
    modify fun s => { s with stats := { s.stats with
      cancelledRequests := wrappingAdd 64 s.stats.cancelledRequests 1 } }
    return .cancelled
  else if state.status = .running then do
    modify fun s => { s with
      requests := s.requests.insert requestId { state with cancellationRequested := true } }
    return .running
  else return state.status

/-- Remove terminal request records while retaining cumulative statistics. -/
def pruneTerminal : SchedulerM Unit :=
  modify fun s => { s with
    requests := s.requests.retain fun _ state => !state.status.isTerminal }

/-- Take the requests that expired during the last dispatch attempts. -/
def takeExpiredDeadlines : SchedulerM (List RequestId) := do
  let s ← get
  set { s with expired := [] }
  return s.expired

def ContinuousScheduler.status (s : ContinuousScheduler) (id : RequestId) :
    Option RequestStatus :=
  (s.requests.get? id).map RequestState.status

def ContinuousScheduler.emittedTokens (s : ContinuousScheduler) (id : RequestId) : Option Nat :=
  (s.requests.get? id).map RequestState.emittedTokens

def ContinuousScheduler.hasRunnableRequests (s : ContinuousScheduler) : Bool :=
  s.requests.values.any fun state => state.status = .queued || state.status = .running

/-! ## Calls -/

/-- One call of the public interface, with its arguments. -/
inductive Call
  | admitRequest (spec : RequestSpec) (nowNs : Nat)
  | dispatchBatch (nowNs limit : Nat)
  | completeQuantum (id : RequestId) (emitted : Nat) (eos : Bool)
  | completeQuantumWithProgress (id : RequestId) (emitted progress : Nat) (ready eos : Bool)
  | abortQuantum (id : RequestId)
  | cancel (id : RequestId)
  | takeExpiredDeadlines
  | pruneTerminal
  deriving DecidableEq

/-- What the calls return. -/
inductive Reply
  | admission (outcome : AdmissionOutcome)
  | dispatches (batch : List Dispatch)
  | completion (result : QuantumCompletion)
  | status (status : RequestStatus)
  | expired (ids : List RequestId)
  | unit
  deriving DecidableEq

def Call.exec : Call → SchedulerM Reply
  | .admitRequest spec nowNs => return .admission (← Scheduler.admitRequest spec nowNs)
  | .dispatchBatch nowNs limit => return .dispatches (← Scheduler.dispatchBatch nowNs limit)
  | .completeQuantum id emitted eos =>
    return .completion (← Scheduler.completeQuantum id emitted eos)
  | .completeQuantumWithProgress id emitted progress ready eos =>
    return .completion (← Scheduler.completeQuantumWithProgress id emitted progress ready eos)
  | .abortQuantum id => return .status (← Scheduler.abortQuantum id)
  | .cancel id => return .status (← Scheduler.cancel id)
  | .takeExpiredDeadlines => return .expired (← Scheduler.takeExpiredDeadlines)
  | .pruneTerminal => do Scheduler.pruneTerminal; return .unit

/-- The scheduler after one call, whether it returned a value or an error. -/
def step (s : ContinuousScheduler) (call : Call) : ContinuousScheduler := call.exec.after s

end Leone.Scheduler
