import Leone.Metrics.Model
import Mathlib

/-!
# The full record

What a collector without bounds would keep: the life of every request, the timestamps of every latency
and every observation. A bounded collector represents such a record.
-/

namespace Leone.Metrics

open Framework

/-! ## Requests -/

/-- When a request started and its token boundaries, each with the number of tokens it ends. -/
structure Life where
  startedNs : Nat
  boundaries : List (Nat × Nat)

namespace Life

def lastNs (life : Life) : Nat := (life.boundaries.getLast?.map Prod.fst).getD life.startedNs

def tokens (life : Life) : Nat := (life.boundaries.map Prod.snd).sum

def seen (life : Life) : Bool := !life.boundaries.isEmpty

def push (life : Life) (atNs count : Nat) : Life :=
  { life with boundaries := life.boundaries ++ [(atNs, count)] }

/-- What the collector keeps of an active request. -/
def state (life : Life) : ActiveRequest where
  startedNs := life.startedNs
  firstTokenNs := life.boundaries.head?.map Prod.fst
  lastTokenNs := life.boundaries.getLast?.map Prod.fst
  tokenCount := life.tokens

/-- No boundary is before the start or after the last one. -/
structure Sound (life : Life) : Prop where
  started : ∀ boundary ∈ life.boundaries, life.startedNs ≤ boundary.1
  last : life.startedNs ≤ life.lastNs
  tokens : life.tokens < 2 ^ 64

end Life

/-- The end of a request. -/
structure Finish where
  requestId : String
  outcome : String
  life : Life
  completedAtNs : Option Nat

/-- The time from the start to a timestamp, if there is one. -/
def since (startedNs : Nat) (atNs : Option Nat) (reason : String) : Measurement Nat :=
  optionalMeasurement (atNs.map (· - startedNs)) reason

def Finish.metric (finish : Finish) : RequestMetric where
  requestId := finish.requestId
  outcome := finish.outcome
  tokenCount := finish.life.tokens
  ttftNs := since finish.life.startedNs (finish.life.boundaries.head?.map Prod.fst)
    "no_token_observed"
  completionLatencyNs := since finish.life.startedNs finish.completedAtNs
    "completion_timestamp_unavailable"

/-- Completion is not before the last boundary. -/
structure Finish.Sound (finish : Finish) : Prop where
  life : finish.life.Sound
  completed : ∀ atNs, finish.completedAtNs = some atNs → finish.life.lastNs ≤ atNs

/-- The requests of a run: those that are active, those that ended, and the pairs of timestamps that
latencies are measured between. -/
structure Timeline where
  current : SortedMap String Life
  ended : List Life
  ttft : List (Nat × Nat)
  intervals : List (Nat × Nat)
  finished : List Finish

namespace Timeline

def empty : Timeline := ⟨∅, [], [], [], []⟩

def start (timeline : Timeline) (requestId : String) (atNs : Nat) : Timeline :=
  { timeline with current := timeline.current.insert requestId ⟨atNs, []⟩ }

/-- A boundary that ends `count` tokens. The first one of a request ends its time to first token. -/
def boundary (timeline : Timeline) (requestId : String) (atNs count : Nat) : Timeline :=
  match timeline.current.get? requestId with
  | none => timeline
  | some life =>
    { timeline with
      current := timeline.current.insert requestId (life.push atNs count)
      ttft := if life.seen then timeline.ttft else timeline.ttft ++ [(life.startedNs, atNs)] }

/-- A boundary of one token. Later ones end an interval. -/
def token (timeline : Timeline) (requestId : String) (atNs : Nat) : Timeline :=
  match timeline.current.get? requestId with
  | none => timeline
  | some life =>
    { timeline.boundary requestId atNs 1 with
      intervals :=
        if life.seen then timeline.intervals ++ [(life.lastNs, atNs)] else timeline.intervals }

def finish (timeline : Timeline) (requestId : String) (completedAtNs : Option Nat)
    (outcome : String) : Timeline :=
  match timeline.current.get? requestId with
  | none => timeline
  | some life =>
    { timeline with
      current := timeline.current.remove requestId
      ended := timeline.ended ++ [life]
      finished := timeline.finished ++ [⟨requestId, outcome, life, completedAtNs⟩] }

/-- The number of requests ever started that have seen a token. -/
def seenCount (timeline : Timeline) : Nat :=
  timeline.ended.countP Life.seen + timeline.current.countBy Life.seen

/-- Timestamps are in order, and every request that has seen a token has its first token measured
once. -/
structure Sound (timeline : Timeline) : Prop where
  current : ∀ requestId life, timeline.current.get? requestId = some life → life.Sound
  ttft : ∀ pair ∈ timeline.ttft, pair.1 ≤ pair.2
  intervals : ∀ pair ∈ timeline.intervals, pair.1 ≤ pair.2
  finished : ∀ finish ∈ timeline.finished, finish.Sound
  seen : timeline.ttft.length = timeline.seenCount

end Timeline

/-! ## Records -/

structure Record where
  timeline : Timeline
  outcomes : List String
  fork : List Nat
  cancellation : List RequestControlSample
  slowClient : List RequestControlSample
  physical : List PhysicalBytesSample
  scheduler : List SchedulerReservationSample
  process : List ProcessMemorySample
  system : List SystemMemorySample

namespace Record

def empty : Record := ⟨.empty, [], [], [], [], [], [], [], []⟩

/-- What an accepted call adds. -/
def step (record : Record) : Call → Record
  | .requestStarted requestId atNs =>
    { record with timeline := record.timeline.start requestId atNs }
  | .tokenObserved requestId atNs =>
    { record with timeline := record.timeline.token requestId atNs }
  | .tokenBatchObserved requestId atNs tokenCount =>
    { record with timeline := record.timeline.boundary requestId atNs tokenCount }
  | .requestFinished requestId completedAtNs outcome =>
    { record with
      timeline := record.timeline.finish requestId completedAtNs outcome
      outcomes := record.outcomes ++ [outcome] }
  | .outcomeObserved outcome => { record with outcomes := record.outcomes ++ [outcome] }
  | .forkObserved latencyNs => { record with fork := record.fork ++ [latencyNs] }
  | .cancellationObserved requestId requestedAtNs completedAtNs reason =>
    { record with
      cancellation := record.cancellation ++ [⟨requestId,
        since requestedAtNs completedAtNs "cancellation_completion_unavailable", reason⟩] }
  | .cancellationUnavailable requestId reason =>
    { record with
      cancellation := record.cancellation ++
        [⟨requestId, .missing "cancellation_request_time_unavailable", reason⟩] }
  | .slowClientObserved requestId blockedNs reason =>
    { record with
      slowClient := record.slowClient ++ [⟨requestId,
        optionalMeasurement blockedNs "slow_client_timing_unavailable", reason⟩] }
  | .physicalBytesObserved atNs bytesByClass =>
    { record with physical := record.physical ++ [⟨atNs, bytesByClass⟩] }
  | .schedulerReservationObserved atNs requestId reservedBytes =>
    { record with scheduler := record.scheduler ++ [⟨atNs, requestId, reservedBytes⟩] }
  | .processMemoryObserved atNs residentBytes virtualBytes =>
    { record with
      process := record.process ++ [ServiceMetrics.processSample atNs residentBytes virtualBytes] }
  | .systemMemoryObserved atNs usedBytes availableBytes =>
    { record with
      system := record.system ++ [ServiceMetrics.systemSample atNs usedBytes availableBytes] }

end Record

/-- The record of the accepted calls. -/
def record (accepted : List Call) : Record := accepted.foldl Record.step .empty

/-! ## Histories and peaks -/

/-- A history has counted every value and retains the newest ones in order. -/
structure Retains {α : Type} (limit : Nat) (all : List α) (history : BoundedHistory α) : Prop where
  capacity : history.capacity = limit
  positive : 0 < limit
  values : history.values = all.drop (all.length - limit)
  total : history.totalCount = all.length
  dropped : history.droppedCount = all.length - limit
  bound : all.length < 2 ^ 64

/-- One of the entries, of which none has a larger key. -/
def Peak {α κ : Type} [LE κ] (key : α → κ) (entries : List α) (peak : α) : Prop :=
  peak ∈ entries ∧ ∀ entry ∈ entries, key entry ≤ key peak

/-- A count that was measured, above one that was not. -/
def measured (measurement : Measurement Nat) : WithBot Nat :=
  match measurement.value with
  | none => ⊥
  | some value => (value : WithBot Nat)

/-- The order of fewer available bytes. -/
def scarcity (measurement : Measurement Nat) : WithBot Natᵒᵈ :=
  match measurement.value with
  | none => ⊥
  | some value => ((OrderDual.toDual value : Natᵒᵈ) : WithBot Natᵒᵈ)

/-- Resident bytes count first. Virtual bytes count where no resident bytes are known. -/
def processKey (sample : ProcessMemorySample) : WithBot Nat ×ₗ WithBot Nat :=
  toLex (measured sample.residentBytes,
    if sample.residentBytes.value.isNone then measured sample.virtualBytes else ⊥)

/-- Used bytes count first. Where none are known, fewer available bytes count. -/
def systemKey (sample : SystemMemorySample) : WithBot Nat ×ₗ WithBot Natᵒᵈ :=
  toLex (measured sample.usedBytes,
    if sample.usedBytes.value.isNone then scarcity sample.availableBytes else ⊥)

/-- The most bytes that any sample has for a class, if one has it. -/
def classPeak (samples : List PhysicalBytesSample) (cls : String) : Option Nat :=
  (samples.filterMap fun sample => sample.bytesByClass.get? cls).max?

/-- The time between two timestamps. -/
def elapsed (pair : Nat × Nat) : Nat := pair.2 - pair.1

/-- A collector that represents a record: nothing is lost in its counts and peaks, and each history
retains the newest values. -/
structure Represents (config : MetricsConfig) (record : Record) (metrics : ServiceMetrics) :
    Prop where
  timeline : record.timeline.Sound
  active : metrics.active = record.timeline.current.mapValues Life.state
  bound : record.outcomes.length < 2 ^ 64
  requestCount : metrics.requestCount = record.outcomes.length
  outcomes : ∀ outcome, metrics.outcomes.get? outcome =
    if outcome ∈ record.outcomes then some (record.outcomes.count outcome) else none
  total : metrics.outcomes.sumBy id = record.outcomes.length
  requests : Retains config.maxRequestHistory (record.timeline.finished.map Finish.metric)
    metrics.requests
  ttft : Retains config.maxLatencySamples (record.timeline.ttft.map elapsed) metrics.ttft
  interTokenLatency : Retains config.maxLatencySamples (record.timeline.intervals.map elapsed)
    metrics.interTokenLatency
  forkLatency : Retains config.maxLatencySamples record.fork metrics.forkLatency
  cancellation : Retains config.maxObservationHistory record.cancellation metrics.cancellation
  slowClient : Retains config.maxObservationHistory record.slowClient metrics.slowClient
  physicalBytes : Retains config.maxObservationHistory record.physical metrics.physicalBytes
  schedulerReservations : Retains config.maxObservationHistory record.scheduler
    metrics.schedulerReservations
  processMemory : Retains config.maxObservationHistory record.process metrics.processMemory
  systemMemory : Retains config.maxObservationHistory record.system metrics.systemMemory
  physicalPeak : ∀ cls, metrics.physicalBytesPeakByClass.get? cls = classPeak record.physical cls
  schedulerPeak : metrics.schedulerReservationPeakBytes =
    (record.scheduler.map SchedulerReservationSample.reservedBytes).max?
  processPeak : Peak processKey (emptyProcessMemory :: record.process) metrics.processMemoryPeak
  systemPeak : Peak systemKey (emptySystemMemory :: record.system) metrics.systemMemoryPeak

end Leone.Metrics
