import Leone.Framework.Method

/-!
# Scheduler data

Requests, admission outcomes, dispatches, counters and errors of the continuous scheduler.
Configuration and request fields have the source's fixed widths. Mutable counters are natural
numbers whose bounds are checked where the source checks them.
-/

namespace Leone.Scheduler

open Framework

/-- The stable identity of one scheduled request. -/
abbrev RequestId := U64

/-- Fixed admission and service limits for one scheduler. -/
structure SchedulerPolicy where
  maxActiveRequests : U32
  maxQueuedRequests : U32
  maxBatchRequests : U32
  maxReservedKvBytes : U64
  kvBytesPerToken : U64
  kvPageTokens : U64
  maxPromptTokens : U64
  maxOutputTokens : U64
  serviceQuantumTokens : U32
  prefillChunkTokens : U32
  urgentWindowNs : U64
  maxPrefixCreditTokens : U64
  deriving DecidableEq, Repr

/-- An invalid scheduler transition or configuration. -/
inductive SchedulerError
  | invalidPolicy (reason : String)
  | duplicateRequest (id : RequestId)
  | unknownRequest (id : RequestId)
  | futureArrival (id : RequestId)
  | notRunning (id : RequestId)
  | quantumExceeded (id : RequestId) (emitted budget : Nat)
  | prefillEmittedTokens (id : RequestId)
  | prefillProgressRequired (id : RequestId)
  | dispatchInFlight
  | accountingOverflow
  | traceSchema (version : Nat)
  | invalidTrace (reason : String)
  | json (reason : String)
  deriving DecidableEq, Repr

def validateRequestLimits (policy : SchedulerPolicy) : Except SchedulerError Unit :=
  if policy.maxActiveRequests = 0 ∨ policy.maxQueuedRequests = 0 ∨ policy.maxBatchRequests = 0
  then .error (.invalidPolicy "request limits must be nonzero")
  else .ok ()

def validateMemoryLimits (policy : SchedulerPolicy) : Except SchedulerError Unit :=
  if policy.maxReservedKvBytes = 0 ∨ policy.kvBytesPerToken = 0 ∨ policy.kvPageTokens = 0
  then .error (.invalidPolicy "KV byte limits must be nonzero")
  else .ok ()

def validateTokenLimits (policy : SchedulerPolicy) : Except SchedulerError Unit :=
  if policy.maxPromptTokens = 0 ∨ policy.maxOutputTokens = 0
  then .error (.invalidPolicy "token limits must be nonzero")
  else .ok ()

def validateQuantumLimits (policy : SchedulerPolicy) : Except SchedulerError Unit :=
  if policy.serviceQuantumTokens = 0 ∨ policy.prefillChunkTokens = 0
  then .error (.invalidPolicy "service and prefill quanta must be nonzero")
  else .ok ()

def SchedulerPolicy.validate (policy : SchedulerPolicy) :
    Except SchedulerError SchedulerPolicy := do
  validateRequestLimits policy
  validateMemoryLimits policy
  validateTokenLimits policy
  validateQuantumLimits policy
  return policy

/-- One bounded request submitted to the scheduler. -/
structure RequestSpec where
  id : RequestId
  arrivalNs : U64
  promptTokens : U64
  prefixReusedTokens : U64
  maxOutputTokens : U64
  priority : U16
  deadlineNs : Option U64
  deriving DecidableEq, Repr

/-- A typed overload or request-bound rejection. -/
inductive AdmissionReject
  | activeLimit
  | queueLimit
  | kvCapacity
  | promptLimit
  | outputLimit
  | invalidPrefix
  | invalidPriority
  | expiredDeadline
  deriving DecidableEq, Repr

/-- The result of one admission attempt. -/
inductive AdmissionOutcome
  | admitted (reservedKvBytes : Nat)
  | rejected (reason : AdmissionReject)
  deriving DecidableEq, Repr

/-- The terminal or runnable state of one request. -/
inductive RequestStatus
  | queued
  | running
  | finished
  | cancelled
  | deadlineExpired
  | rejected
  deriving DecidableEq, Repr

def RequestStatus.isTerminal : RequestStatus → Bool
  | .finished | .cancelled | .deadlineExpired | .rejected => true
  | .queued | .running => false

/-- The work selected for one scheduler transaction. -/
inductive DispatchKind
  | prefill
  | decode
  deriving DecidableEq, Repr

/-- One resident transaction selected for execution. -/
structure Dispatch where
  requestId : RequestId
  tokenBudget : Nat
  dispatchNs : Nat
  kind : DispatchKind
  deriving DecidableEq, Repr

/-- The result committed at one transaction boundary. -/
structure QuantumCompletion where
  requestId : RequestId
  emittedTokens : Nat
  status : RequestStatus
  deriving DecidableEq, Repr

/-- Aggregate scheduler counters. -/
structure SchedulerStats where
  admissionAttempts : Nat
  admittedRequests : Nat
  rejectedRequests : Nat
  dispatchedQuanta : Nat
  dispatchedBatches : Nat
  prefillChunks : Nat
  prefillTokens : Nat
  decodeQuanta : Nat
  emittedTokens : Nat
  completedRequests : Nat
  cancelledRequests : Nat
  expiredRequests : Nat
  maxQueueDepth : Nat
  maxBatchWidth : Nat
  maxReservedKvBytes : Nat
  maxCancellationOvershootTokens : Nat
  deriving DecidableEq, Repr

def SchedulerStats.default : SchedulerStats :=
  ⟨0, 0, 0, 0, 0, 0, 0, 0, 0, 0, 0, 0, 0, 0, 0, 0⟩

structure RequestState where
  spec : RequestSpec
  status : RequestStatus
  reservedKvBytes : Nat
  remainingPrefillTokens : Nat
  remainingTokens : Nat
  emittedTokens : Nat
  virtualRuntime : Nat
  sequence : Nat
  cancellationRequested : Bool
  deriving DecidableEq, Repr

end Leone.Scheduler
