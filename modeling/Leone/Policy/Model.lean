import Leone.Framework.Method

/-!
# Service memory policy

The limits of a service are resolved before a model is loaded, from requests and from what the
platform reports. The reservation for the cache is resolved after loading.
-/

namespace Leone.Policy

/-- A nonzero 64-bit count. -/
structure NonZeroU64 where
  get : UInt64
  ne_zero : get ≠ 0
  deriving DecidableEq

/-- Reserves a limit automatically or uses an explicit byte count. -/
inductive BudgetRequest
  | auto
  | bytes (count : NonZeroU64)
  deriving DecidableEq

def BudgetRequest.isExplicit : BudgetRequest → Bool
  | .auto => false
  | .bytes _ => true

structure ServiceBudgetArgs where
  memory : BudgetRequest
  host : BudgetRequest
  kvReservation : BudgetRequest

inductive MemoryTopology
  | discrete
  | unified
  | cpu
  deriving DecidableEq

inductive ObservationUnavailable
  | unsupportedPlatform
  | sourceUnavailable
  | malformed
  | inconsistent
  deriving DecidableEq

inductive HostMemorySource
  | linuxMeminfo
  | macVmStat
  deriving DecidableEq

inductive HostMemorySemantics
  | kernelAvailableEstimate
  | reclaimablePagesEstimate
  | freePagesOnly
  deriving DecidableEq

inductive HostMemoryObservation
  | available (totalBytes availableBytes : UInt64) (source : HostMemorySource)
      (semantics : HostMemorySemantics)
  | unavailable (reason : ObservationUnavailable)
  deriving DecidableEq

inductive BackendCapacityObservation
  | discrete (totalBytes availableBytes : UInt64)
  | recommended (workingSetBytes currentAllocatedBytes : UInt64) (unifiedMemory : Bool)
  | cpu
  | unavailable (reason : ObservationUnavailable)
  deriving DecidableEq

/-- Inputs collected before the policy is resolved. -/
structure ServiceMemoryInputs where
  topology : MemoryTopology
  backend : BackendCapacityObservation
  host : HostMemoryObservation
  backendOwnedBytes : UInt64
  hostOwnedBytes : UInt64

/-- Resolved backend and host limits. -/
inductive ServiceMemoryPools
  | discrete (backendBytes hostBytes : NonZeroU64)
  | shared (combinedBytes hostBytes : NonZeroU64)

namespace ServiceMemoryPools

def combinedBytes : ServiceMemoryPools → NonZeroU64
  | .discrete backendBytes _ => backendBytes
  | .shared combinedBytes _ => combinedBytes

def hostBytes : ServiceMemoryPools → NonZeroU64
  | .discrete _ hostBytes => hostBytes
  | .shared _ hostBytes => hostBytes

end ServiceMemoryPools

structure BudgetOverrides where
  memory : Bool
  host : Bool
  kvReservation : Bool

structure ServiceMemoryPolicy where
  pools : ServiceMemoryPools
  kvReservation : BudgetRequest
  overrides : BudgetOverrides
  backendObservation : BackendCapacityObservation
  hostObservation : HostMemoryObservation

inductive ObservationInvalid
  | zeroTotal
  | availableExceedsTotal
  | zeroWorkingSet
  | notUnified
  deriving DecidableEq

inductive MemoryPolicyError
  | missingObservation (pool : String) (reason : ObservationUnavailable)
  | invalidObservation (pool : String) (reason : ObservationInvalid)
  | overflow (field : String)
  | zeroCapacity (field : String)
  | baselineExceedsObserved (pool : String) (owned total : UInt64)
  | explicitExceedsObserved (field : String) (requested maximum : UInt64)
  | explicitBelowOwned (field : String) (requested owned : UInt64)
  | resolvedBelowOwned (field : String) (limit owned : UInt64)
  | hostExceedsCombined (requested combined : UInt64)
  | hostBelowOwned (requested owned : UInt64)
  | kvReservationExceedsLimit (requested limit : UInt64)
  | topologyMismatch
  deriving DecidableEq

abbrev Resolves (α : Type) := Except MemoryPolicyError α

/-! ## Arithmetic -/

def checkedAdd (left right : UInt64) (field : String) : Resolves UInt64 :=
  if left.toNat + right.toNat < 2 ^ 64 then .ok (left + right) else .error (.overflow field)

def checkedMul (left right : UInt64) (field : String) : Resolves UInt64 :=
  if left.toNat * right.toNat < 2 ^ 64 then .ok (left * right) else .error (.overflow field)

def positive (value : UInt64) (field : String) : Resolves NonZeroU64 :=
  if h : value ≠ 0 then .ok ⟨value, h⟩ else .error (.zeroCapacity field)

def ensureAtLeast (limit : NonZeroU64) (owned : UInt64) (field : String) : Resolves NonZeroU64 :=
  if limit.get < owned then .error (.resolvedBelowOwned field limit.get owned) else .ok limit

def autoHeadroomNumerator : UInt64 := 4
def autoHeadroomDenominator : UInt64 := 5

/-- Four fifths of a value. The product with the remainder wraps. -/
def fourFifths (value : UInt64) (field : String) : Resolves UInt64 := do
  let quotient := value / autoHeadroomDenominator
  let remainder := value % autoHeadroomDenominator
  let whole ← checkedMul quotient autoHeadroomNumerator field
  checkedAdd whole (remainder * autoHeadroomNumerator / autoHeadroomDenominator) field

/-! ## Observations -/

inductive CapacityState
  | known (totalBytes availableBytes : UInt64)
  | unavailable (reason : ObservationUnavailable)

def checkedCapacity (pool : String) (totalBytes availableBytes : UInt64) :
    Resolves CapacityState :=
  if totalBytes = 0 then .error (.invalidObservation pool .zeroTotal)
  else if availableBytes > totalBytes then
    .error (.invalidObservation pool .availableExceedsTotal)
  else .ok (.known totalBytes availableBytes)

def hostCapacity : HostMemoryObservation → Resolves CapacityState
  | .available totalBytes availableBytes _ _ => checkedCapacity "host" totalBytes availableBytes
  | .unavailable reason => .ok (.unavailable reason)

def discreteCapacity : BackendCapacityObservation → Resolves CapacityState
  | .discrete totalBytes availableBytes => checkedCapacity "backend" totalBytes availableBytes
  | .unavailable reason => .ok (.unavailable reason)
  | _ => .error .topologyMismatch

/-- The working set that the backend recommends, if it reports one. -/
def unifiedRecommendation : BackendCapacityObservation → Resolves (Option UInt64)
  | .recommended workingSetBytes _ unifiedMemory =>
    if ¬ unifiedMemory then .error (.invalidObservation "backend" .notUnified)
    else if workingSetBytes = 0 then .error (.invalidObservation "backend" .zeroWorkingSet)
    else .ok (some workingSetBytes)
  | .unavailable _ => .ok none
  | _ => .error .topologyMismatch

/-! ## Limits -/

def observedMaximum (totalBytes availableBytes owned : UInt64) (field : String) :
    Resolves UInt64 :=
  if owned > totalBytes then .error (.baselineExceedsObserved field owned totalBytes)
  else do
    let sum ← checkedAdd owned availableBytes field
    return min totalBytes sum

def resolveAutomatic (capacity : CapacityState) (owned : UInt64) (field : String) :
    Resolves NonZeroU64 :=
  match capacity with
  | .unavailable reason => .error (.missingObservation field reason)
  | .known totalBytes availableBytes => do
    let maximum ← observedMaximum totalBytes availableBytes owned field
    let headroom ← fourFifths availableBytes field
    let sum ← checkedAdd owned headroom field
    let limit ← positive (min sum maximum) field
    ensureAtLeast limit owned field

def resolveExplicit (requested : NonZeroU64) (capacity : CapacityState) (owned : UInt64)
    (field : String) : Resolves NonZeroU64 :=
  if requested.get < owned then .error (.explicitBelowOwned field requested.get owned)
  else
    match capacity with
    | .known totalBytes availableBytes => do
      let maximum ← observedMaximum totalBytes availableBytes owned field
      if requested.get > maximum then
        .error (.explicitExceedsObserved field requested.get maximum)
      else .ok requested
    | .unavailable _ => .ok requested

def resolveLimit (request : BudgetRequest) (capacity : CapacityState) (owned : UInt64)
    (field : String) : Resolves NonZeroU64 :=
  match request with
  | .auto => resolveAutomatic capacity owned field
  | .bytes requested => resolveExplicit requested capacity owned field

def resolveCombined (request : BudgetRequest) (host : CapacityState)
    (recommendation : Option UInt64) (owned : UInt64) : Resolves NonZeroU64 :=
  match request with
  | .bytes _ => resolveLimit request host owned "backend"
  | .auto =>
    match recommendation with
    | none => .error (.missingObservation "backend" .sourceUnavailable)
    | some workingSetBytes =>
      match host with
      | .unavailable reason => .error (.missingObservation "host" reason)
      | .known totalBytes availableBytes => do
        let guidance ← fourFifths workingSetBytes "backend"
        let hostDerived ← resolveAutomatic (.known totalBytes availableBytes) owned "backend"
        let limit ← positive (min guidance hostDerived.get) "backend"
        ensureAtLeast limit owned "backend"

def capHostLimit (request : BudgetRequest) (host combined : NonZeroU64) : Resolves NonZeroU64 :=
  if host.get ≤ combined.get then .ok host
  else if request.isExplicit then .error (.hostExceedsCombined host.get combined.get)
  else .ok combined

/-! ## Policies -/

def makePolicy (args : ServiceBudgetArgs) (pools : ServiceMemoryPools)
    (backendObservation : BackendCapacityObservation) (hostObservation : HostMemoryObservation) :
    ServiceMemoryPolicy where
  pools := pools
  kvReservation := args.kvReservation
  overrides := ⟨args.memory.isExplicit, args.host.isExplicit, args.kvReservation.isExplicit⟩
  backendObservation := backendObservation
  hostObservation := hostObservation

def resolveDiscrete (args : ServiceBudgetArgs) (inputs : ServiceMemoryInputs)
    (hostLimit : NonZeroU64) : Resolves ServiceMemoryPolicy := do
  let backend ← discreteCapacity inputs.backend
  let backendLimit ← resolveLimit args.memory backend inputs.backendOwnedBytes "backend"
  return makePolicy args (.discrete backendLimit hostLimit) inputs.backend inputs.host

def resolveUnified (args : ServiceBudgetArgs) (inputs : ServiceMemoryInputs)
    (host : CapacityState) (hostLimit : NonZeroU64) (combinedOwned : UInt64) :
    Resolves ServiceMemoryPolicy := do
  let recommendation ← unifiedRecommendation inputs.backend
  let combined ← resolveCombined args.memory host recommendation combinedOwned
  let hostLimit ← capHostLimit args.host hostLimit combined
  return makePolicy args (.shared combined hostLimit) inputs.backend inputs.host

def resolveCpu (args : ServiceBudgetArgs) (inputs : ServiceMemoryInputs) (host : CapacityState)
    (hostLimit : NonZeroU64) (combinedOwned : UInt64) : Resolves ServiceMemoryPolicy :=
  if inputs.backend ≠ .cpu then .error .topologyMismatch
  else do
    let combined ← resolveLimit args.memory host combinedOwned "backend"
    let _ ← ensureAtLeast combined combinedOwned "backend"
    let hostLimit ← capHostLimit args.host hostLimit combined
    return makePolicy args (.shared combined hostLimit) inputs.backend inputs.host

/-- Resolves the limits for the topology, without the last check. -/
def resolveTopology (args : ServiceBudgetArgs) (inputs : ServiceMemoryInputs)
    (host : CapacityState) (hostLimit : NonZeroU64) (combinedOwned : UInt64) :
    Resolves ServiceMemoryPolicy :=
  match inputs.topology with
  | .discrete => resolveDiscrete args inputs hostLimit
  | .unified => resolveUnified args inputs host hostLimit combinedOwned
  | .cpu => resolveCpu args inputs host hostLimit combinedOwned

/-- Resolves service limits from observations and requests. -/
def resolvePolicy (args : ServiceBudgetArgs) (inputs : ServiceMemoryInputs) :
    Resolves ServiceMemoryPolicy := do
  let host ← hostCapacity inputs.host
  let combinedOwned ←
    checkedAdd inputs.backendOwnedBytes inputs.hostOwnedBytes "owned service memory"
  let hostLimit ← resolveLimit args.host host inputs.hostOwnedBytes "host"
  let result ← resolveTopology args inputs host hostLimit combinedOwned
  if result.pools.hostBytes.get < inputs.hostOwnedBytes then
    .error (.hostBelowOwned result.pools.hostBytes.get inputs.hostOwnedBytes)
  else .ok result

/-- Resolves a reservation for the cache after the model is loaded. -/
def resolveKvReservation (request : BudgetRequest)
    (bytesPerToken contextLimit maxActiveRequests backendLimit ownedNonKvBytes
      transientHeadroomBytes : UInt64) : Resolves NonZeroU64 := do
  let tokens ← checkedMul bytesPerToken contextLimit "KV reservation"
  let logical ← checkedMul tokens maxActiveRequests "KV reservation"
  let nonKv ← checkedAdd ownedNonKvBytes transientHeadroomBytes "non-KV allocation"
  if backendLimit < nonKv then .error (.zeroCapacity "physical KV reservation")
  else do
    let maximum ← positive (min logical (backendLimit - nonKv)) "KV reservation"
    match request with
    | .auto => return maximum
    | .bytes requested =>
      if requested.get > maximum.get then
        .error (.kvReservationExceedsLimit requested.get maximum.get)
      else return requested

end Leone.Policy
