import Mathlib
import Leone.Framework.Loop
import Leone.Framework.Slice
import Leone.Scheduler.Model
import Leone.Receipt.Hex

/-!
# Service traces

A frozen trace is a list of requests with their arrival and cancellation times and the tokens
that each would produce alone. The executor drives the scheduler over it in virtual time and
records an event log; the verifier replays the log with its own accounting. The arrivals that
the source has not reached yet are a list, and its `while` loop is given a number of turns.
-/

namespace Leone.Trace

open Framework Framework.Method Scheduler

/-- One request and its isolated token oracle in a service trace. -/
structure ServiceTraceRequest where
  spec : RequestSpec
  isolatedTokens : List U32
  cancelAtNs : Option U64
  deriving DecidableEq

/-- A frozen concurrent service trace. -/
structure ServiceTrace where
  schemaVersion : U32
  policy : SchedulerPolicy
  tokenDurationNs : U64
  requests : List ServiceTraceRequest
  deriving DecidableEq

/-- One event emitted by a service trace. -/
inductive ServiceEvent
  | admission (atNs : Nat) (requestId : RequestId) (outcome : AdmissionOutcome)
  | dispatch (atNs : Nat) (requestId : RequestId) (tokenBudget : Nat) (kind : DispatchKind)
  | cancel (atNs : Nat) (requestId : RequestId) (running : Bool)
  | expire (atNs : Nat) (requestId : RequestId) (reservedKvBytes : Nat)
  | complete (atNs : Nat) (requestId : RequestId) (emittedTokens : Nat) (status : RequestStatus)
      (reservedKvBytes : Nat) (kind : DispatchKind)
  deriving DecidableEq

/-- One request result from a service trace. -/
structure ServiceTraceResult where
  requestId : RequestId
  status : RequestStatus
  outputTokens : List U32
  deriving DecidableEq

/-- The deterministic report from a concurrent service trace. -/
structure ServiceTraceReport where
  schemaVersion : Nat
  fixtureSha256 : String
  events : List ServiceEvent
  results : List ServiceTraceResult
  stats : SchedulerStats
  oracleVerified : Bool
  deriving DecidableEq

/-! ## Reading a trace -/

/-- The checks on a decoded trace. `fromSlice` is the JSON decoder. -/
def decodeServiceTrace (fromSlice : List UInt8 → Except String ServiceTrace)
    (bytes : List UInt8) : Except SchedulerError ServiceTrace := do
  let trace ← (fromSlice bytes).mapError .json
  if trace.schemaVersion ≠ 1 then .error (.traceSchema trace.schemaVersion)
  else if trace.tokenDurationNs = 0 then
    .error (.invalidTrace "token duration must be nonzero")
  else return trace

/-- Requests arrive in time order, and those of one instant in the order of their identities. -/
def arrivalKey (request : ServiceTraceRequest) : U64 ×ₗ RequestId :=
  toLex (request.spec.arrivalNs, request.spec.id)

/-- The requests by identity. Of two requests with one identity the later one is kept. -/
def collectSources (requests : List ServiceTraceRequest) :
    SortedMap RequestId ServiceTraceRequest :=
  requests.foldl (fun sources request => sources.insert request.spec.id request) ∅

def orderServiceTrace (trace : ServiceTrace) :
    Except SchedulerError
      (List ServiceTraceRequest × SortedMap RequestId ServiceTraceRequest) :=
  let ordered := trace.requests.insertionSort fun left right => arrivalKey left ≤ arrivalKey right
  let sources := collectSources ordered
  if sources.size ≠ ordered.length then .error (.invalidTrace "request IDs must be unique")
  else .ok (ordered, sources)

/-! ## Executing a trace -/

/-- What the executor holds: the scheduler, the requests that have not arrived, the clock, the
cancellations already carried out, and the outputs and events so far. -/
structure TraceRun where
  scheduler : ContinuousScheduler
  pending : List ServiceTraceRequest
  now : Nat
  cancellations : SortedMap RequestId Unit
  outputs : SortedMap RequestId (List U32)
  events : List ServiceEvent
  deriving DecidableEq

abbrev TraceM := Method TraceRun SchedulerError

variable {α : Type}

def onScheduler (call : SchedulerM α) : TraceM α :=
  zoom TraceRun.scheduler (fun scheduler run => { run with scheduler }) call

def pushEvent (event : ServiceEvent) : TraceM Unit :=
  modify fun run => { run with events := run.events ++ [event] }

/-- `outputs.entry(id).or_default()` and the step to the next arrival. -/
def TraceRun.arrived (run : TraceRun) (id : RequestId) (rest : List ServiceTraceRequest) :
    TraceRun :=
  { run with
    outputs := if run.outputs.contains id then run.outputs else run.outputs.insert id []
    pending := rest }

def admitTraceArrivals (nowNs : Nat) : List ServiceTraceRequest → TraceM Unit
  | [] => pure ()
  | request :: rest =>
    if (request.spec.arrivalNs : Nat) ≤ nowNs then do
      let outcome ← onScheduler (admitRequest request.spec nowNs)
      pushEvent (.admission nowNs request.spec.id outcome)
      modify fun run => run.arrived request.spec.id rest
      admitTraceArrivals nowNs rest
    else pure ()

def markCancelled (id : RequestId) : TraceM Unit :=
  modify fun run => { run with cancellations := run.cancellations.insert id () }

def applyCancellation (throughNs : Nat) (source : ServiceTraceRequest) : TraceM Unit := do
  match source.cancelAtNs with
  | none => pure ()
  | some atNs =>
    let run ← get
    if throughNs < atNs ∨ run.cancellations.contains source.spec.id then pure ()
    else match run.scheduler.status source.spec.id with
      | none => pure ()
      | some status =>
        if status.isTerminal then markCancelled source.spec.id
        else do
          let _ ← onScheduler (cancel source.spec.id)
          markCancelled source.spec.id
          pushEvent (.cancel atNs source.spec.id (status = .running))

/-- Cancel the requests whose cancellation time has come, in the order of their identities. -/
def applyCancellations (sources : SortedMap RequestId ServiceTraceRequest) (throughNs : Nat) :
    TraceM Unit :=
  forM sources.values (applyCancellation throughNs)

def traceExpiredRequests (sources : SortedMap RequestId ServiceTraceRequest)
    (scheduler : ContinuousScheduler) (nowNs : Nat) : List (RequestId × Nat) :=
  sources.values.filterMap fun source =>
    (scheduler.requests.get? source.spec.id).bind fun state =>
      if deadlinePassed nowNs state then some (source.spec.id, state.reservedKvBytes) else none

def recordExpiration (nowNs : Nat) (reserved : Nat) (entry : RequestId × Nat) : TraceM Nat := do
  let reserved := reserved - entry.2
  pushEvent (.expire nowNs entry.1 reserved)
  return reserved

/-- One event for each expired request, with the bytes still reserved after it. -/
def recordTraceExpirations (expired : List (RequestId × Nat)) (nowNs : Nat) : TraceM Unit := do
  let reserved := saturatingAdd 64 (← get).scheduler.reservedKvBytes
    ((expired.map Prod.snd).foldl (wrappingAdd 64) 0)
  let _ ← expired.foldlM (recordExpiration nowNs) reserved

def traceIsPrefill (scheduler : ContinuousScheduler) (requestId : RequestId) : Bool :=
  (scheduler.running.get? requestId).any fun dispatch => dispatch.kind = .prefill

/-- The value of an option, or an error. -/
def okOr (o : Option α) (e : SchedulerError) : Except SchedulerError α :=
  match o with
  | some a => .ok a
  | none => .error e

def traceEmittedStart (scheduler : ContinuousScheduler) (requestId : RequestId) :
    Except SchedulerError Nat := do
  let emitted ← okOr (scheduler.emittedTokens requestId) (.unknownRequest requestId)
  okOr (tryFrom 64 emitted) .accountingOverflow

def traceStart (scheduler : ContinuousScheduler) (requestId : RequestId) (isPrefill : Bool) :
    Except SchedulerError Nat :=
  if isPrefill then .ok 0 else traceEmittedStart scheduler requestId

def traceQuantumCount (tokenBudget isolatedTokens start : Nat) : Except SchedulerError Nat := do
  let budget ← okOr (tryFrom 64 tokenBudget) .accountingOverflow
  return min budget (isolatedTokens - start)

def traceCount (tokenBudget isolatedTokens start : Nat) (isPrefill : Bool) :
    Except SchedulerError Nat :=
  if isPrefill then okOr (tryFrom 64 tokenBudget) .accountingOverflow
  else traceQuantumCount tokenBudget isolatedTokens start

def traceEnd (tokenDurationNs count nowNs : Nat) : Except SchedulerError Nat := do
  let count ← okOr (tryFrom 64 count) .accountingOverflow
  let duration ← okOr (checkedMul 64 count tokenDurationNs) .accountingOverflow
  okOr (checkedAdd 64 nowNs duration) .accountingOverflow

/-- The source of a quantum, its first token, its token count and the time it ends. -/
structure QuantumBounds where
  source : ServiceTraceRequest
  start : Nat
  count : Nat
  endNs : Nat

def traceQuantumBounds (trace : ServiceTrace) (scheduler : ContinuousScheduler)
    (sources : SortedMap RequestId ServiceTraceRequest) (requestId : RequestId)
    (tokenBudget nowNs : Nat) : Except SchedulerError QuantumBounds := do
  let source ← okOr (sources.get? requestId) (.unknownRequest requestId)
  let isPrefill := traceIsPrefill scheduler requestId
  let start ← traceStart scheduler requestId isPrefill
  let count ← traceCount tokenBudget source.isolatedTokens.length start isPrefill
  let endNs ← traceEnd trace.tokenDurationNs count nowNs
  return ⟨source, start, count, endNs⟩

/-- `&tokens[start..stop]`, which needs the bounds in order and in range. -/
def tokenSlice (tokens : List U32) (start stop : Nat) : Option (List U32) :=
  if start ≤ stop ∧ stop ≤ tokens.length then some (slice tokens start stop) else none

def appendTraceOutput (dispatch : Dispatch) (source : ServiceTraceRequest)
    (start count : Nat) : TraceM Unit :=
  if dispatch.kind = .decode then do
    let output ← orPanic ((← get).outputs.get? dispatch.requestId)
    let tokens ← orPanic (tokenSlice source.isolatedTokens start (start + count))
    modify fun run => { run with
      outputs := run.outputs.insert dispatch.requestId (output ++ tokens) }
  else pure ()

def traceEmittedTokens (dispatch : Dispatch) (count : Nat) : Except SchedulerError Nat :=
  if dispatch.kind = .prefill then .ok 0 else okOr (tryFrom 32 count) .accountingOverflow

def traceProgressTokens (dispatch : Dispatch) (emittedTokens : Nat) : Nat :=
  if dispatch.kind = .prefill then dispatch.tokenBudget else emittedTokens

def tracePrefillReady (scheduler : ContinuousScheduler) (dispatch : Dispatch) : Bool :=
  dispatch.kind = .prefill &&
    (scheduler.requests.get? dispatch.requestId).any fun state =>
      state.remainingPrefillTokens ≤ dispatch.tokenBudget

def traceEos (dispatch : Dispatch) (start count sourceLen : Nat) : Bool :=
  dispatch.kind = .decode && start + count = sourceLen

section Execution

variable (trace : ServiceTrace) (sources : SortedMap RequestId ServiceTraceRequest)

/-- Run one quantum to its end. Cancellations that come due meanwhile reach it running. -/
def completeTraceQuantum (dispatch : Dispatch) (nowNs : Nat) : TraceM Nat := do
  pushEvent (.dispatch nowNs dispatch.requestId dispatch.tokenBudget dispatch.kind)
  let bounds ← ofExcept (traceQuantumBounds trace (← get).scheduler sources dispatch.requestId
    dispatch.tokenBudget nowNs)
  applyCancellations sources bounds.endNs
  appendTraceOutput dispatch bounds.source bounds.start bounds.count
  let emittedTokens ← ofExcept (traceEmittedTokens dispatch bounds.count)
  let isReady := tracePrefillReady (← get).scheduler dispatch
  let completion ← onScheduler (completeQuantumWithProgress dispatch.requestId emittedTokens
    (traceProgressTokens dispatch emittedTokens) isReady
    (traceEos dispatch bounds.start bounds.count bounds.source.isolatedTokens.length))
  pushEvent (.complete bounds.endNs completion.requestId completion.emittedTokens
    completion.status (← get).scheduler.reservedKvBytes dispatch.kind)
  return bounds.endNs

/-- The end of a turn without a dispatch: wait for the next arrival, or stop. -/
def awaitArrival : TraceM Bool := do
  match (← get).pending with
  | request :: _ => do
    modify fun run => { run with now := max run.now request.spec.arrivalNs }
    return true
  | [] => return false

/-- One turn of the service loop. It returns whether the loop goes on. -/
def serviceTurn : TraceM Bool := do
  let run ← get
  if run.pending.isEmpty ∧ ¬ run.scheduler.hasRunnableRequests then return false
  else do
    admitTraceArrivals run.now run.pending
    applyCancellations sources run.now
    let expired := traceExpiredRequests sources (← get).scheduler run.now
    let dispatch ← onScheduler (dispatch run.now)
    recordTraceExpirations expired run.now
    match dispatch with
    | some dispatch => do
      let endNs ← completeTraceQuantum trace sources dispatch run.now
      modify fun run => { run with now := endNs }
      return true
    | none => awaitArrival

/-- The service loop with at most `turns` turns. `false` means that they ran out. -/
def executeServiceTrace (turns : Nat) : TraceM Bool :=
  repeatWhile (serviceTurn trace sources) turns

end Execution

def TraceRun.start (scheduler : ContinuousScheduler) (ordered : List ServiceTraceRequest) :
    TraceRun where
  scheduler
  pending := ordered
  now := (ordered.head?.map fun request => (request.spec.arrivalNs : Nat)).getD 0
  cancellations := ∅
  outputs := ∅
  events := []

/-- The result of one request. Every identity is taken from the outputs once. -/
def TraceRun.resultOf (run : TraceRun) (id : RequestId) : ServiceTraceResult where
  requestId := id
  status := (run.scheduler.status id).getD .rejected
  outputTokens := (run.outputs.get? id).getD []

def serviceTraceResults (sources : SortedMap RequestId ServiceTraceRequest) (run : TraceRun) :
    List ServiceTraceResult :=
  sources.keys.map run.resultOf

end Leone.Trace
