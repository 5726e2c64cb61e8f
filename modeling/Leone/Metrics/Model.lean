import Leone.Framework.Method
import Leone.Framework.SortedMap
import Mathlib

/-!
# Service metrics

A collector with bounded histories. Calls carry timestamps of one clock. Unchecked arithmetic of the
source panics here where it overflows.
-/

namespace Leone.Metrics

open Framework Framework.Method

def defaultReasonBytes : Nat := 128
def maxActiveRequests : Nat := 65536
def maxOutcomeKindsBound : Nat := 4096
def maxTextBytes : Nat := 4096
def maxMemoryClassesBound : Nat := 256
def maxTotalHistoryEntries : Nat := 1000000

inductive MeasurementStatus
  | observed
  | unavailable
  | notApplicable
  deriving DecidableEq

/-- A measurement that does not turn an absent value into zero. -/
structure Measurement (α : Type) where
  value : Option α
  status : MeasurementStatus
  reason : Option String
  deriving DecidableEq

def boundReason (reason : String) : String :=
  if reason.utf8ByteSize ≤ defaultReasonBytes then reason else "reason_exceeds_bound"

namespace Measurement

variable {α : Type}

def ofValue (value : α) : Measurement α := ⟨some value, .observed, none⟩
def missing (reason : String) : Measurement α := ⟨none, .unavailable, some (boundReason reason)⟩

end Measurement

def optionalMeasurement (value : Option Nat) (reason : String) : Measurement Nat :=
  match value with
  | some value => .ofValue value
  | none => .missing reason

inductive MetricsError
  | zeroCapacity (field : String)
  | duplicateRequest (requestId : String)
  | unknownRequest (requestId : String)
  | timestampReversed (requestId : String) (atNs previousNs : Nat)
  | requestCapacity
  | fieldTooLong (field : String) (maxBytes : Nat)
  | entryCapacity (field : String)
  | observationTimestampReversed (field : String) (atNs previousNs : Nat)
  | allocationFailed (field : String)
  | counterOverflow
  | capacityTooLarge (field : String) (max : Nat)
  | emptyTokenBatch
  deriving DecidableEq

/-! ## Bounds -/

structure MetricsConfig where
  maxInFlightRequests : Nat
  maxRequestHistory : Nat
  maxLatencySamples : Nat
  maxObservationHistory : Nat
  maxOutcomeKinds : Nat
  maxIdentifierBytes : Nat
  maxReasonBytes : Nat
  maxMemoryClasses : Nat

def validateCapacity (value max : Nat) (field : String) : Except MetricsError Unit :=
  if value > max then .error (.capacityTooLarge field max) else .ok ()

def validateTotalHistory (config : MetricsConfig) : Except MetricsError Unit :=
  let total := do
    let value ← checkedAdd 64 config.maxRequestHistory (saturatingMul 64 config.maxLatencySamples 3)
    checkedAdd 64 value (saturatingMul 64 config.maxObservationHistory 6)
  match total with
  | none => .error (.allocationFailed "total history capacity")
  | some total =>
    if total > maxTotalHistoryEntries then .error (.allocationFailed "total history capacity")
    else .ok ()

def MetricsConfig.fields (config : MetricsConfig) : List (Nat × String) :=
  [(config.maxInFlightRequests, "max_in_flight_requests"),
    (config.maxRequestHistory, "max_request_history"),
    (config.maxLatencySamples, "max_latency_samples"),
    (config.maxObservationHistory, "max_observation_history"),
    (config.maxOutcomeKinds, "max_outcome_kinds"),
    (config.maxIdentifierBytes, "max_identifier_bytes"),
    (config.maxReasonBytes, "max_reason_bytes"),
    (config.maxMemoryClasses, "max_memory_classes")]

def MetricsConfig.validate (config : MetricsConfig) : Except MetricsError MetricsConfig :=
  match config.fields.find? fun entry => entry.1 = 0 with
  | some (_, field) => .error (.zeroCapacity field)
  | none => do
    validateCapacity config.maxInFlightRequests maxActiveRequests "max_in_flight_requests"
    validateCapacity config.maxOutcomeKinds maxOutcomeKindsBound "max_outcome_kinds"
    validateCapacity config.maxIdentifierBytes maxTextBytes "max_identifier_bytes"
    validateCapacity config.maxReasonBytes maxTextBytes "max_reason_bytes"
    validateCapacity config.maxMemoryClasses maxMemoryClassesBound "max_memory_classes"
    validateTotalHistory config
    return config

def validateText (value : String) (maxBytes : Nat) (field : String) : Except MetricsError Unit :=
  if value.utf8ByteSize > maxBytes then .error (.fieldTooLong field maxBytes) else .ok ()

/-! ## Bounded histories -/

/-- The newest values, with the number of those that were evicted. -/
structure BoundedHistory (α : Type) where
  capacity : Nat
  values : List α
  droppedCount : Nat
  totalCount : Nat

namespace BoundedHistory

variable {α : Type}

/-- An empty history. `allocates` says whether storage for a number of values is to be had. -/
def new (allocates : Nat → Bool) (capacity : Nat) : Except MetricsError (BoundedHistory α) :=
  if capacity = 0 then .error (.zeroCapacity "history capacity")
  else if allocates capacity then .ok ⟨capacity, [], 0, 0⟩
  else .error (.allocationFailed "history capacity")

def canPush (history : BoundedHistory α) : Except MetricsError Unit :=
  match checkedAdd 64 history.totalCount 1 with
  | none => .error .counterOverflow
  | some _ =>
    if history.values.length = history.capacity then
      match checkedAdd 64 history.droppedCount 1 with
      | none => .error .counterOverflow
      | some _ => .ok ()
    else .ok ()

/-- Appends a value and tells whether the oldest one was evicted. -/
def pushValidated (value : α) : Method (BoundedHistory α) MetricsError Bool := do
  let history ← get
  let evicted := decide (history.values.length = history.capacity)
  if evicted then
    modify fun history => { history with values := history.values.tail }
  modify fun history => { history with values := history.values ++ [value] }
  let dropped ← orPanic (checkedAdd 64 history.droppedCount evicted.toNat)
  modify fun history => { history with droppedCount := dropped }
  let total ← orPanic (checkedAdd 64 history.totalCount 1)
  modify fun history => { history with totalCount := total }
  return evicted

end BoundedHistory

/-! ## Samples -/

structure ActiveRequest where
  startedNs : Nat
  firstTokenNs : Option Nat
  lastTokenNs : Option Nat
  tokenCount : Nat

/-- One completed request with its outcome and timings. -/
structure RequestMetric where
  requestId : String
  outcome : String
  tokenCount : Nat
  ttftNs : Measurement Nat
  completionLatencyNs : Measurement Nat
  deriving DecidableEq

structure PhysicalBytesSample where
  atNs : Nat
  bytesByClass : SortedMap String Nat

structure SchedulerReservationSample where
  atNs : Nat
  requestId : Option String
  reservedBytes : Nat

structure ProcessMemorySample where
  atNs : Nat
  residentBytes : Measurement Nat
  virtualBytes : Measurement Nat

structure SystemMemorySample where
  atNs : Nat
  usedBytes : Measurement Nat
  availableBytes : Measurement Nat

/-- A cancellation or a slow client. -/
structure RequestControlSample where
  requestId : String
  latencyNs : Measurement Nat
  reason : String

def emptyProcessMemory : ProcessMemorySample :=
  ⟨0, .missing "process_resident_unavailable", .missing "process_virtual_unavailable"⟩

def emptySystemMemory : SystemMemorySample :=
  ⟨0, .missing "system_used_unavailable", .missing "system_available_unavailable"⟩

/-- The order of optional counts: a missing one is below every other. -/
def optionLt : Option Nat → Option Nat → Bool
  | none, some _ => true
  | some a, some b => decide (a < b)
  | _, none => false

def peakProcessMemory (current candidate : ProcessMemorySample) : ProcessMemorySample :=
  let replace :=
    match current.residentBytes.value, candidate.residentBytes.value with
    | none, none => optionLt current.virtualBytes.value candidate.virtualBytes.value
    | current, candidate => optionLt current candidate
  if replace then candidate else current

def peakSystemMemory (current candidate : SystemMemorySample) : SystemMemorySample :=
  let replace :=
    match current.usedBytes.value, candidate.usedBytes.value with
    | none, none =>
      match current.availableBytes.value, candidate.availableBytes.value with
      | _, none => false
      | none, some _ => true
      | some current, some candidate => decide (candidate < current)
    | current, candidate => optionLt current candidate
  if replace then candidate else current

/-! ## The collector -/

structure ServiceMetrics where
  maxInFlightRequests : Nat
  maxOutcomeKinds : Nat
  maxIdentifierBytes : Nat
  maxReasonBytes : Nat
  maxMemoryClasses : Nat
  active : SortedMap String ActiveRequest
  requestCount : Nat
  outcomes : SortedMap String Nat
  requests : BoundedHistory RequestMetric
  ttft : BoundedHistory Nat
  interTokenLatency : BoundedHistory Nat
  forkLatency : BoundedHistory Nat
  cancellation : BoundedHistory RequestControlSample
  slowClient : BoundedHistory RequestControlSample
  physicalBytes : BoundedHistory PhysicalBytesSample
  schedulerReservations : BoundedHistory SchedulerReservationSample
  processMemory : BoundedHistory ProcessMemorySample
  systemMemory : BoundedHistory SystemMemorySample
  lastPhysicalBytesNs : Option Nat
  lastSchedulerReservationNs : Option Nat
  lastProcessMemoryNs : Option Nat
  lastSystemMemoryNs : Option Nat
  physicalBytesPeakByClass : SortedMap String Nat
  schedulerReservationPeakBytes : Option Nat
  processMemoryPeak : ProcessMemorySample
  systemMemoryPeak : SystemMemorySample

/-- A call on the collector. -/
abbrev Collects (α : Type) := Method ServiceMetrics MetricsError α

namespace ServiceMetrics

def new (allocates : Nat → Bool) (config : MetricsConfig) : Except MetricsError ServiceMetrics := do
  let config ← config.validate
  let requests ← BoundedHistory.new allocates config.maxRequestHistory
  let ttft ← BoundedHistory.new allocates config.maxLatencySamples
  let interTokenLatency ← BoundedHistory.new allocates config.maxLatencySamples
  let forkLatency ← BoundedHistory.new allocates config.maxLatencySamples
  let cancellation ← BoundedHistory.new allocates config.maxObservationHistory
  let slowClient ← BoundedHistory.new allocates config.maxObservationHistory
  let physicalBytes ← BoundedHistory.new allocates config.maxObservationHistory
  let schedulerReservations ← BoundedHistory.new allocates config.maxObservationHistory
  let processMemory ← BoundedHistory.new allocates config.maxObservationHistory
  let systemMemory ← BoundedHistory.new allocates config.maxObservationHistory
  return {
    maxInFlightRequests := config.maxInFlightRequests
    maxOutcomeKinds := config.maxOutcomeKinds
    maxIdentifierBytes := config.maxIdentifierBytes
    maxReasonBytes := config.maxReasonBytes
    maxMemoryClasses := config.maxMemoryClasses
    active := ∅
    requestCount := 0
    outcomes := ∅
    requests, ttft, interTokenLatency, forkLatency, cancellation, slowClient, physicalBytes,
    schedulerReservations, processMemory, systemMemory
    lastPhysicalBytesNs := none
    lastSchedulerReservationNs := none
    lastProcessMemoryNs := none
    lastSystemMemoryNs := none
    physicalBytesPeakByClass := ∅
    schedulerReservationPeakBytes := none
    processMemoryPeak := emptyProcessMemory
    systemMemoryPeak := emptySystemMemory }

/-! ### Requests -/

def preflightOutcome (metrics : ServiceMetrics) (outcome : String) : Except MetricsError Unit := do
  validateText outcome metrics.maxReasonBytes "outcome"
  match checkedAdd 64 metrics.requestCount 1 with
  | none => .error .counterOverflow
  | some _ =>
    match metrics.outcomes.get? outcome with
    | some count =>
      match checkedAdd 64 count 1 with
      | none => .error .counterOverflow
      | some _ => .ok ()
    | none =>
      if metrics.outcomes.size ≥ metrics.maxOutcomeKinds then .error (.entryCapacity "outcomes")
      else .ok ()

def commitOutcome (outcome : String) : Collects Unit := do
  let metrics ← get
  let count ← orPanic (checkedAdd 64 ((metrics.outcomes.get? outcome).getD 0) 1)
  modify fun metrics => { metrics with outcomes := metrics.outcomes.insert outcome count }
  let requestCount ← orPanic (checkedAdd 64 metrics.requestCount 1)
  modify fun metrics => { metrics with requestCount := requestCount }

def requestStarted (requestId : String) (atNs : Nat) : Collects Unit := do
  let metrics ← get
  ofExcept (validateText requestId metrics.maxIdentifierBytes "request_id")
  ensure (metrics.active.contains requestId = false) (.duplicateRequest requestId)
  ensure (metrics.active.size < metrics.maxInFlightRequests) .requestCapacity
  modify fun metrics =>
    { metrics with active := metrics.active.insert requestId ⟨atNs, none, none, 0⟩ }

/-- Records an outcome that has no request timing. -/
def outcomeObserved (outcome : String) : Collects Unit := do
  let metrics ← get
  ofExcept (metrics.preflightOutcome outcome)
  let nextRequestCount ← orErr (checkedAdd 64 metrics.requestCount 1) .counterOverflow
  let count := (metrics.outcomes.get? outcome).getD 0
  modify fun metrics => { metrics with outcomes := metrics.outcomes.insert outcome count }
  let next ← orErr (checkedAdd 64 count 1) .counterOverflow
  modify fun metrics => { metrics with outcomes := metrics.outcomes.insert outcome next }
  modify fun metrics => { metrics with requestCount := nextRequestCount }

/-- Whether a token is the first one, and the time since the one before it or the start. -/
def tokenDelta (requestId : String) (state : ActiveRequest) (atNs : Nat) :
    Collects (Bool × Nat) := do
  let wasFirst := state.lastTokenNs.isNone
  let previousNs := state.lastTokenNs.getD state.startedNs
  ensure (previousNs ≤ atNs) (.timestampReversed requestId atNs previousNs)
  let _ ← orErr (checkedAdd 64 state.tokenCount 1) .counterOverflow
  let interval ← orPanic (checkedSub atNs previousNs)
  return (wasFirst, interval)

def tokenBatchDelta (requestId : String) (state : ActiveRequest) (atNs tokenCount : Nat) :
    Collects (Bool × Nat × Nat) := do
  let previousNs := state.lastTokenNs.getD state.startedNs
  ensure (previousNs ≤ atNs) (.timestampReversed requestId atNs previousNs)
  let nextCount ← orErr (checkedAdd 64 state.tokenCount tokenCount) .counterOverflow
  let sinceStart ← orPanic (checkedSub atNs state.startedNs)
  return (state.lastTokenNs.isNone, sinceStart, nextCount)

def pushTtft (value : Nat) : Collects Unit :=
  discard (zoom ttft (fun ttft metrics => { metrics with ttft }) (BoundedHistory.pushValidated value))

def pushInterTokenLatency (value : Nat) : Collects Unit :=
  discard (zoom interTokenLatency
    (fun interTokenLatency metrics => { metrics with interTokenLatency })
    (BoundedHistory.pushValidated value))

def recordLatencySample (first : Bool) (interval : Nat) : Collects Unit := do
  let metrics ← get
  if first then
    ofExcept metrics.ttft.canPush
    pushTtft interval
  else
    ofExcept metrics.interTokenLatency.canPush
    pushInterTokenLatency interval

def commitTokenDelta (state : ActiveRequest) (atNs : Nat) : Collects ActiveRequest := do
  let first := if state.lastTokenNs.isNone then some atNs else state.firstTokenNs
  let tokenCount ← orPanic (checkedAdd 64 state.tokenCount 1)
  return { state with firstTokenNs := first, lastTokenNs := some atNs, tokenCount }

def commitTokenBatch (state : ActiveRequest) (atNs nextCount : Nat) (first : Bool) :
    ActiveRequest :=
  { state with
    firstTokenNs := if first then some atNs else state.firstTokenNs
    lastTokenNs := some atNs
    tokenCount := nextCount }

/-- Records one token boundary. -/
def tokenObserved (requestId : String) (atNs : Nat) : Collects Unit := do
  let metrics ← get
  ofExcept (validateText requestId metrics.maxIdentifierBytes "request_id")
  let state ← orErr (metrics.active.get? requestId) (.unknownRequest requestId)
  let delta ← tokenDelta requestId state atNs
  recordLatencySample delta.1 delta.2
  let metrics ← get
  let state ← orErr (metrics.active.get? requestId) (.unknownRequest requestId)
  let state ← commitTokenDelta state atNs
  modify fun metrics => { metrics with active := metrics.active.insert requestId state }

/-- Records a batch of tokens without boundaries between them. -/
def tokenBatchObserved (requestId : String) (atNs tokenCount : Nat) : Collects Unit := do
  ensure (tokenCount ≠ 0) .emptyTokenBatch
  let metrics ← get
  ofExcept (validateText requestId metrics.maxIdentifierBytes "request_id")
  let state ← orErr (metrics.active.get? requestId) (.unknownRequest requestId)
  let delta ← tokenBatchDelta requestId state atNs tokenCount
  if delta.1 then
    ofExcept metrics.ttft.canPush
  let state ← orErr (metrics.active.get? requestId) (.unknownRequest requestId)
  modify fun metrics => { metrics with
    active := metrics.active.insert requestId (commitTokenBatch state atNs delta.2.2 delta.1) }
  if delta.1 then
    pushTtft delta.2.1

def completionLatency (requestId : String) (state : ActiveRequest) (completedAtNs : Option Nat) :
    Collects (Measurement Nat) :=
  let minimumNs := state.lastTokenNs.getD state.startedNs
  match completedAtNs with
  | none => return .missing "completion_timestamp_unavailable"
  | some atNs => do
    ensure (minimumNs ≤ atNs) (.timestampReversed requestId atNs minimumNs)
    let latency ← orPanic (checkedSub atNs state.startedNs)
    return .ofValue latency

def requestTtft (state : ActiveRequest) : Collects (Measurement Nat) :=
  match state.firstTokenNs with
  | none => return .missing "no_token_observed"
  | some atNs => do
    let latency ← orPanic (checkedSub atNs state.startedNs)
    return .ofValue latency

/-- Completes one request and records its outcome. -/
def requestFinished (requestId : String) (completedAtNs : Option Nat) (outcome : String) :
    Collects Unit := do
  let metrics ← get
  ofExcept (validateText requestId metrics.maxIdentifierBytes "request_id")
  let state ← orErr (metrics.active.get? requestId) (.unknownRequest requestId)
  ofExcept (metrics.preflightOutcome outcome)
  let completionLatencyNs ← completionLatency requestId state completedAtNs
  ofExcept metrics.requests.canPush
  let ttftNs ← requestTtft state
  commitOutcome outcome
  discard (zoom requests (fun requests metrics => { metrics with requests })
    (BoundedHistory.pushValidated
      ⟨requestId, outcome, state.tokenCount, ttftNs, completionLatencyNs⟩))
  modify fun metrics => { metrics with active := metrics.active.remove requestId }

/-! ### Observations -/

def forkObserved (latencyNs : Nat) : Collects Unit := do
  let metrics ← get
  ofExcept metrics.forkLatency.canPush
  discard (zoom forkLatency (fun forkLatency metrics => { metrics with forkLatency })
    (BoundedHistory.pushValidated latencyNs))

def pushCancellation (sample : RequestControlSample) : Collects Unit := do
  let metrics ← get
  ofExcept metrics.cancellation.canPush
  discard (zoom cancellation (fun cancellation metrics => { metrics with cancellation })
    (BoundedHistory.pushValidated sample))

def validateControl (requestId reason : String) : Collects Unit := do
  let metrics ← get
  ofExcept (validateText requestId metrics.maxIdentifierBytes "request_id")
  ofExcept (validateText reason metrics.maxReasonBytes "reason")

def cancellationObserved (requestId : String) (requestedAtNs : Nat) (completedAtNs : Option Nat)
    (reason : String) : Collects Unit := do
  validateControl requestId reason
  match completedAtNs with
  | none =>
    pushCancellation ⟨requestId, .missing "cancellation_completion_unavailable", reason⟩
  | some atNs =>
    ensure (requestedAtNs ≤ atNs) (.timestampReversed requestId atNs requestedAtNs)
    let latency ← orPanic (checkedSub atNs requestedAtNs)
    pushCancellation ⟨requestId, .ofValue latency, reason⟩

/-- Records a cancellation whose request time is not known. -/
def cancellationUnavailable (requestId reason : String) : Collects Unit := do
  validateControl requestId reason
  pushCancellation ⟨requestId, .missing "cancellation_request_time_unavailable", reason⟩

def slowClientObserved (requestId : String) (blockedNs : Option Nat) (reason : String) :
    Collects Unit := do
  validateControl requestId reason
  let metrics ← get
  ofExcept metrics.slowClient.canPush
  discard (zoom slowClient (fun slowClient metrics => { metrics with slowClient })
    (BoundedHistory.pushValidated
      ⟨requestId, optionalMeasurement blockedNs "slow_client_timing_unavailable", reason⟩))

def validateMemoryClasses (metrics : ServiceMetrics) (values : SortedMap String Nat) :
    Except MetricsError Unit :=
  if values.size > metrics.maxMemoryClasses then
    .error (.entryCapacity "physical_bytes_by_class")
  else
    let newClasses := values.keys.countP fun cls => !metrics.physicalBytesPeakByClass.contains cls
    if metrics.physicalBytesPeakByClass.size + newClasses > metrics.maxMemoryClasses then
      .error (.entryCapacity "physical_bytes_peak_by_class")
    else values.keys.forM fun cls => validateText cls metrics.maxReasonBytes "memory_class"

def validateObservationTimestamp (field : String) (atNs : Nat) (previousNs : Option Nat) :
    Except MetricsError Unit :=
  match previousNs with
  | none => .ok ()
  | some previousNs =>
    if atNs < previousNs then .error (.observationTimestampReversed field atNs previousNs)
    else .ok ()

/-- Raises the peaks of the classes that were observed. -/
def raisePeaks (peaks : SortedMap String Nat) (entries : List (String × Nat)) :
    SortedMap String Nat :=
  entries.foldl (fun peaks entry =>
    peaks.insert entry.1 (max ((peaks.get? entry.1).getD 0) entry.2)) peaks

def physicalBytesObserved (atNs : Nat) (bytesByClass : SortedMap String Nat) : Collects Unit := do
  let metrics ← get
  ofExcept (validateObservationTimestamp "physical_bytes" atNs metrics.lastPhysicalBytesNs)
  ofExcept (metrics.validateMemoryClasses bytesByClass)
  ofExcept metrics.physicalBytes.canPush
  modify fun metrics => { metrics with
    physicalBytesPeakByClass := raisePeaks metrics.physicalBytesPeakByClass bytesByClass.entries }
  discard (zoom physicalBytes (fun physicalBytes metrics => { metrics with physicalBytes })
    (BoundedHistory.pushValidated ⟨atNs, bytesByClass⟩))
  modify fun metrics => { metrics with lastPhysicalBytesNs := some atNs }

def schedulerReservationObserved (atNs : Nat) (requestId : Option String) (reservedBytes : Nat) :
    Collects Unit := do
  let metrics ← get
  ofExcept (validateObservationTimestamp "scheduler_reservation" atNs
    metrics.lastSchedulerReservationNs)
  ofExcept (match requestId with
    | some requestId => validateText requestId metrics.maxIdentifierBytes "request_id"
    | none => .ok ())
  ofExcept metrics.schedulerReservations.canPush
  modify fun metrics => { metrics with
    schedulerReservationPeakBytes :=
      some (max (metrics.schedulerReservationPeakBytes.getD 0) reservedBytes) }
  discard (zoom schedulerReservations
    (fun schedulerReservations metrics => { metrics with schedulerReservations })
    (BoundedHistory.pushValidated ⟨atNs, requestId, reservedBytes⟩))
  modify fun metrics => { metrics with lastSchedulerReservationNs := some atNs }

def processSample (atNs : Nat) (residentBytes virtualBytes : Option Nat) : ProcessMemorySample :=
  ⟨atNs, optionalMeasurement residentBytes "process_resident_unavailable",
    optionalMeasurement virtualBytes "process_virtual_unavailable"⟩

def processMemoryObserved (atNs : Nat) (residentBytes virtualBytes : Option Nat) :
    Collects Unit := do
  let metrics ← get
  ofExcept (validateObservationTimestamp "process_memory" atNs metrics.lastProcessMemoryNs)
  ofExcept metrics.processMemory.canPush
  let sample := processSample atNs residentBytes virtualBytes
  modify fun metrics => { metrics with
    processMemoryPeak := peakProcessMemory metrics.processMemoryPeak sample }
  discard (zoom processMemory (fun processMemory metrics => { metrics with processMemory })
    (BoundedHistory.pushValidated sample))
  modify fun metrics => { metrics with lastProcessMemoryNs := some atNs }

def systemSample (atNs : Nat) (usedBytes availableBytes : Option Nat) : SystemMemorySample :=
  ⟨atNs, optionalMeasurement usedBytes "system_used_unavailable",
    optionalMeasurement availableBytes "system_available_unavailable"⟩

def systemMemoryObserved (atNs : Nat) (usedBytes availableBytes : Option Nat) :
    Collects Unit := do
  let metrics ← get
  ofExcept (validateObservationTimestamp "system_memory" atNs metrics.lastSystemMemoryNs)
  ofExcept metrics.systemMemory.canPush
  let sample := systemSample atNs usedBytes availableBytes
  modify fun metrics => { metrics with
    systemMemoryPeak := peakSystemMemory metrics.systemMemoryPeak sample }
  discard (zoom systemMemory (fun systemMemory metrics => { metrics with systemMemory })
    (BoundedHistory.pushValidated sample))
  modify fun metrics => { metrics with lastSystemMemoryNs := some atNs }

end ServiceMetrics

/-! ## Calls -/

inductive Call
  | requestStarted (requestId : String) (atNs : Nat)
  | tokenObserved (requestId : String) (atNs : Nat)
  | tokenBatchObserved (requestId : String) (atNs tokenCount : Nat)
  | requestFinished (requestId : String) (completedAtNs : Option Nat) (outcome : String)
  | outcomeObserved (outcome : String)
  | forkObserved (latencyNs : Nat)
  | cancellationObserved (requestId : String) (requestedAtNs : Nat) (completedAtNs : Option Nat)
      (reason : String)
  | cancellationUnavailable (requestId reason : String)
  | slowClientObserved (requestId : String) (blockedNs : Option Nat) (reason : String)
  | physicalBytesObserved (atNs : Nat) (bytesByClass : SortedMap String Nat)
  | schedulerReservationObserved (atNs : Nat) (requestId : Option String) (reservedBytes : Nat)
  | processMemoryObserved (atNs : Nat) (residentBytes virtualBytes : Option Nat)
  | systemMemoryObserved (atNs : Nat) (usedBytes availableBytes : Option Nat)

open ServiceMetrics in
def perform : Call → Collects Unit
  | .requestStarted requestId atNs => requestStarted requestId atNs
  | .tokenObserved requestId atNs => tokenObserved requestId atNs
  | .tokenBatchObserved requestId atNs tokenCount => tokenBatchObserved requestId atNs tokenCount
  | .requestFinished requestId completedAtNs outcome =>
    requestFinished requestId completedAtNs outcome
  | .outcomeObserved outcome => outcomeObserved outcome
  | .forkObserved latencyNs => forkObserved latencyNs
  | .cancellationObserved requestId requestedAtNs completedAtNs reason =>
    cancellationObserved requestId requestedAtNs completedAtNs reason
  | .cancellationUnavailable requestId reason => cancellationUnavailable requestId reason
  | .slowClientObserved requestId blockedNs reason =>
    slowClientObserved requestId blockedNs reason
  | .physicalBytesObserved atNs bytesByClass => physicalBytesObserved atNs bytesByClass
  | .schedulerReservationObserved atNs requestId reservedBytes =>
    schedulerReservationObserved atNs requestId reservedBytes
  | .processMemoryObserved atNs residentBytes virtualBytes =>
    processMemoryObserved atNs residentBytes virtualBytes
  | .systemMemoryObserved atNs usedBytes availableBytes =>
    systemMemoryObserved atNs usedBytes availableBytes

end Leone.Metrics
