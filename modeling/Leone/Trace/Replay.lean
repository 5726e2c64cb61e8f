import Leone.Trace.Model

/-!
# Replaying a trace report

The verifier keeps its own reservations, open quantum and token counts, and takes them through
the events of a report. An unchecked subtraction that would underflow panics; the token counts
wrap. The three tables it reads at the end are those of the trace, not of the executor.
-/

namespace Leone.Trace

open Framework Framework.Method Scheduler

/-- The quantum that the replay has open, and whether a cancellation reached it. -/
structure OpenQuantum where
  requestId : RequestId
  tokenBudget : Nat
  kind : DispatchKind
  cancelled : Bool
  deriving DecidableEq

structure TraceReplay where
  reservations : SortedMap RequestId Nat
  reserved : Nat
  running : Option OpenQuantum
  emitted : SortedMap RequestId Nat
  deriving DecidableEq

def TraceReplay.default : TraceReplay := ⟨∅, 0, none, ∅⟩

abbrev ReplayM := Method TraceReplay SchedulerError

namespace TraceReplay

def reserve (requestId : RequestId) (bytes : Nat) : ReplayM Unit := do
  let known := (← get).reservations.contains requestId
  modify fun replay => { replay with reservations := replay.reservations.insert requestId bytes }
  ensure (¬ known) (.invalidTrace "duplicate admission")
  let reserved ← orErr (checkedAdd 64 (← get).reserved bytes) .accountingOverflow
  modify fun replay => { replay with reserved }

def applyAdmissionEvent (requestId : RequestId) (outcome : AdmissionOutcome) : ReplayM Unit :=
  match outcome with
  | .admitted reservedKvBytes => reserve requestId reservedKvBytes
  | .rejected _ => pure ()

def dispatch (requestId : RequestId) (tokenBudget : Nat) (kind : DispatchKind) (quantum : Nat) :
    ReplayM Unit := do
  let replay ← get
  ensure (replay.running = none ∧ replay.reservations.contains requestId ∧ tokenBudget ≠ 0 ∧
    tokenBudget ≤ quantum) (.invalidTrace "invalid dispatch")
  set { replay with running := some ⟨requestId, tokenBudget, kind, false⟩ }

/-- Give back the reservation of a request, if it has one. -/
def releaseReservation (requestId : RequestId) : ReplayM Unit := do
  match (← get).reservations.get? requestId with
  | some bytes => do
    modify fun replay =>
      { replay with reservations := replay.reservations.remove requestId }
    let reserved ← orPanic (checkedSub (← get).reserved bytes)
    modify fun replay => { replay with reserved }
  | none => pure ()

def cancel (requestId : RequestId) (running : Bool) : ReplayM Unit := do
  if running then do
    let active ← orErr (← get).running
      (.invalidTrace "running cancellation without dispatch")
    ensure (active.requestId = requestId) (.invalidTrace "cancellation names another request")
    modify fun replay => { replay with running := some { active with cancelled := true } }
  else releaseReservation requestId

def expire (requestId : RequestId) (reservedKvBytes : Nat) : ReplayM Unit := do
  let bytes ← orErr ((← get).reservations.get? requestId)
    (.invalidTrace "unknown expired request")
  modify fun replay => { replay with reservations := replay.reservations.remove requestId }
  let reserved ← orErr (checkedSub (← get).reserved bytes) (.invalidTrace "expired KV underflow")
  modify fun replay => { replay with reserved }
  ensure ((← get).reserved = reservedKvBytes) (.invalidTrace "expired KV accounting differs")

def validateTraceCompletion (active : OpenQuantum) (requestId : RequestId) (emittedTokens : Nat)
    (kind : DispatchKind) (status : RequestStatus) : Except SchedulerError Unit :=
  if active.requestId ≠ requestId ∨ active.kind ≠ kind ∨ active.tokenBudget < emittedTokens then
    .error (.invalidTrace "completion violates dispatch")
  else if kind = .prefill ∧ emittedTokens ≠ 0 then
    .error (.invalidTrace "completion violates prefill output")
  else if active.cancelled ∧ status ≠ .cancelled then
    .error (.invalidTrace "cancelled completion has another status")
  else .ok ()

/-- The reservation of a request that ended is given back. -/
def releaseTraceReservation (requestId : RequestId) (status : RequestStatus) : ReplayM Unit :=
  if status.isTerminal then releaseReservation requestId else pure ()

def complete (requestId : RequestId) (emittedTokens : Nat) (status : RequestStatus)
    (kind : DispatchKind) (reservedKvBytes : Nat) : ReplayM Unit := do
  let active ← orErr (← get).running (.invalidTrace "completion without dispatch")
  modify fun replay => { replay with running := none }
  ofExcept (validateTraceCompletion active requestId emittedTokens kind status)
  modify fun replay => { replay with
    emitted := replay.emitted.insert requestId
      (wrappingAdd 64 ((replay.emitted.get? requestId).getD 0) emittedTokens) }
  releaseTraceReservation requestId status
  ensure ((← get).reserved = reservedKvBytes) (.invalidTrace "KV event accounting differs")

def applyTraceEvent (capacity : Nat) : ServiceEvent → ReplayM Unit
  | .admission _ requestId outcome => applyAdmissionEvent requestId outcome
  | .dispatch _ requestId tokenBudget kind => dispatch requestId tokenBudget kind capacity
  | .cancel _ requestId running => cancel requestId running
  | .expire _ requestId reservedKvBytes => expire requestId reservedKvBytes
  | .complete _ requestId emittedTokens status reservedKvBytes kind =>
    complete requestId emittedTokens status kind reservedKvBytes

def applyEvent (capacity : Nat) (event : ServiceEvent) : ReplayM Unit := do
  applyTraceEvent capacity event
  ensure ((← get).reserved ≤ capacity) (.invalidTrace "KV capacity exceeded")

end TraceReplay

/-! ## The verdict -/

def verifyTraceResult (sources : SortedMap RequestId ServiceTraceRequest)
    (emitted : SortedMap RequestId Nat) (result : ServiceTraceResult) :
    Except SchedulerError Unit := do
  let source ← okOr (sources.get? result.requestId) (.invalidTrace "unknown result")
  if ¬ result.outputTokens <+: source.isolatedTokens then
    .error (.invalidTrace "transcript differs from isolated oracle")
  else if result.status = .finished ∧ result.outputTokens ≠ source.isolatedTokens then
    .error (.invalidTrace "finished transcript is partial")
  else if result.status = .rejected then .ok ()
  else do
    let length ← okOr (tryFrom 64 result.outputTokens.length) .accountingOverflow
    if some length ≠ emitted.get? result.requestId then
      .error (.invalidTrace "token count differs from event replay")
    else .ok ()

def verifyTraceResults (sources : SortedMap RequestId ServiceTraceRequest)
    (emitted : SortedMap RequestId Nat) (results : List ServiceTraceResult) :
    Except SchedulerError Unit :=
  results.forM (verifyTraceResult sources emitted)

/-- Check capacity, quantum, cancellation and transcript events of a report. -/
def verifyServiceTrace (trace : ServiceTrace) (report : ServiceTraceReport) : ReplayM Unit := do
  forM report.events (TraceReplay.applyEvent trace.policy.maxReservedKvBytes)
  let replay ← get
  ensure (replay.running = none ∧ replay.reserved = 0) (.invalidTrace "trace ends with live state")
  ofExcept (verifyTraceResults (collectSources trace.requests) replay.emitted report.results)
  ensure (report.stats.maxCancellationOvershootTokens ≤ trace.policy.serviceQuantumTokens)
    (.invalidTrace "cancellation bound exceeded")

section Running

variable (fromSlice : List UInt8 → Except String ServiceTrace)
  (sha256 : List UInt8 → List UInt8)

/-- The report of an execution that stopped, before it was verified. -/
def TraceRun.report (bytes : List UInt8) (sources : SortedMap RequestId ServiceTraceRequest)
    (run : TraceRun) : ServiceTraceReport where
  schemaVersion := 1
  fixtureSha256 := Receipt.encodeHex (sha256 bytes)
  events := run.events
  results := serviceTraceResults sources run
  stats := run.scheduler.stats
  oracleVerified := false

/-- Run a frozen trace against isolated token streams, with at most `turns` turns of the service
loop. The value is `none` when the turns ran out. -/
def runServiceTraceJson (turns : Nat) (bytes : List UInt8) :
    Except (Fault SchedulerError) (Option ServiceTraceReport) := do
  let trace ← (decodeServiceTrace fromSlice bytes).mapError .error
  let ordered ← (orderServiceTrace trace).mapError .error
  let scheduler ← (ContinuousScheduler.new trace.policy).mapError .error
  match (executeServiceTrace trace ordered.2 turns).run (TraceRun.start scheduler ordered.1) with
  | .error fault _ => .error fault
  | .ok false _ => return none
  | .ok true run => do
    let report := run.report sha256 bytes ordered.2
    result (verifyServiceTrace trace report) TraceReplay.default
    return some { report with oracleVerified := true }

end Running

end Leone.Trace
